import NextApi.Protocol.Usage

/-!
# Chat Completions responses

The representation is shaped after this protocol, so that `responseToIr` and `responseFromIr` copy
the members they know and carry the others in `extra`. A message is read and written part by part
(`parseMessage`, `messageToJson`).
-/

set_option autoImplicit false

namespace NextApi.Chat

open Json Ir

/-- The response members that have a reader; all others are carried as `extra`. -/
def knownResponseFields : List String :=
  ["id", "model", "created", "choices", "usage", "system_fingerprint"]

/-! ### Reading a message -/

/-- The role of a message, with the degradation of an unknown one. The code has no case for
`user`, and degrades it as well. -/
def parseRole : Option String → IrRole × ConvCtx
  | some "system" | some "developer" => (.system, [])
  | some "assistant" => (.assistant, [])
  | some "tool" => (.tool, [])
  | some other => (.user, degrade "message.role" ("未知角色，按 user 处理: " ++ other))
  | none => (.user, [])

def mediaDefault : String := "application/octet-stream"

/-- What stands before and after the first such character. -/
def splitOnce (c : Char) (text : List Char) : Option (List Char × List Char) :=
  if c ∈ text then some (text.takeWhile (· ≠ c), (text.dropWhile (· ≠ c)).tail) else none

/-- The media type and the data of a `data:` address, given without that prefix. -/
def splitDataUrl (rest : String) : String × String :=
  match splitOnce ';' rest.toList with
  | some (media, after) =>
    match splitOnce ',' after with
    | some (_, data) => (String.ofList media, String.ofList data)
    | none => (String.ofList media, String.ofList after)
  | none =>
    match splitOnce ',' rest.toList with
    | some (_, data) => (mediaDefault, String.ofList data)
    | none => (mediaDefault, rest)

/-- The address of an image, a string or the `url` of an object, with the degradation of what the
object says besides. -/
def imageUrlOf : Value → Option String × ConvCtx
  | .str s => (some s, [])
  | .obj m =>
    (some (((Map.get? m "url").bind Value.asStr).getD ""),
      if (Map.get? m "detail").any fun d ↦ !d.isNull then
        degrade "content.image_url.detail" "image detail 不支持，丢弃" else [])
  | _ => (none, degrade "content.image_url" "image_url 既非字符串也非对象")

/-- Reads an image, with the data itself in a `data:` address. -/
def parseImageUrl (urlVal : Value) : Option IrPart × ConvCtx :=
  match imageUrlOf urlVal with
  | (none, ctx) => (none, ctx)
  | (some url, ctx) =>
    if url = "" then (none, ctx ++ degrade "content.image_url" "image_url 缺 url")
    else if "data:".toList <+: url.toList then
      let split := splitDataUrl (String.ofList (url.toList.drop 5))
      (some (.imageInline split.1 split.2), ctx)
    else (some (.imageUrl url), ctx)

def parseFile (f : Value) : Option IrPart × ConvCtx :=
  if f.isObject then
    let name := ((f["file_name"].asStr.or f["filename"].asStr).or f["file_id"].asStr).getD ""
    let url := f["file_url"].asStr.or f["url"].asStr
    let data := f["file_data"].asStr.or f["data"].asStr
    if name = "" ∧ url = none ∧ data = none then
      (none, degrade "content.file" "file part 无内容")
    else (some (.file name url data), [])
  else (none, degrade "content.file" "file part 非对象")

/-- Reads one part of a content. -/
def parsePart (p : Value) : Option IrPart × ConvCtx :=
  if p.isObject then
    match p["type"].strOrEmpty with
    | "text" => (some (.text p["text"].strOrEmpty), [])
    | "image_url" => parseImageUrl p["image_url"]
    | "input_audio" =>
      let audio := p["input_audio"]
      (some (.inputAudio audio["data"].strOrEmpty audio["format"].strOrEmpty), [])
    | "file" => parseFile p["file"]
    | other => (none, degrade "content.part.type" ("未知 part 类型: " ++ other))
  else (none, degrade "content.part" "content part 非对象")

/-- The content of a message: a string, or parts, unless none is left. -/
def parseContent : Option Value → Option IrContent × ConvCtx
  | none | some .null => (none, [])
  | some (.str s) => (some (.text s), [])
  | some (.arr items) =>
    let (parts, ctx) := filterMapCtx parsePart items
    (if parts.isEmpty then none else some (.parts parts), ctx)
  | some _ => (none, degrade "message.content" "未知内容结构，丢弃")

/-- The arguments of a call as JSON text: a string is taken as it is, `null` is empty. -/
def argumentsText [SerdeJson] : Value → String
  | .str s => s
  | .null => ""
  | args => SerdeJson.toText args

def parseToolCall [SerdeJson] (tc : Value) : Option IrToolCall × ConvCtx :=
  if tc.isObject then
    (some
      { id := tc["id"].strOrEmpty
        name := tc["function"]["name"].strOrEmpty
        arguments := argumentsText tc["function"]["arguments"] }, [])
  else (none, degrade "tool_calls" "tool_call 非对象")

/-- Members of a message that have no place in the representation. -/
def droppedMessageFields : List String := ["refusal", "annotations", "audio", "function_call"]

/-- Reads a message. -/
def parseMessage [SerdeJson] (v : Value) : Except ConvertError (IrMessage × ConvCtx) :=
  if v.isObject then
    let (role, roleCtx) := parseRole v["role"].asStr
    let (content, contentCtx) := parseContent (v.get? "content")
    let (toolCalls, callsCtx) :=
      filterMapCtx parseToolCall (((v.get? "tool_calls").bind Value.asArray).getD [])
    let droppedCtx := (droppedMessageFields.filter fun k ↦
      (v.get? k).any fun x ↦ !x.isNull).flatMap fun k ↦
        degrade ("message." ++ k) ("message 级字段 " ++ k ++ " 无 IR 槽位，丢弃")
    .ok
      ({ role := role
         name := v["name"].asStr
         content := content
         toolCallId := v["tool_call_id"].asStr
         reasoningContent := v["reasoning_content"].asStr
         toolCalls := toolCalls },
        roleCtx ++ contentCtx ++ callsCtx ++ droppedCtx)
  else .error (.parse "message 不是对象")

/-! ### Reading a response -/

/-- The message of a choice; a choice without one has an empty message. -/
def parseChoiceMessage [SerdeJson] : Option Value → Except ConvertError (IrMessage × ConvCtx)
  | some msg => parseMessage msg
  | none => .ok ({}, [])

def parseChoice [SerdeJson] (choice : Value) : Except ConvertError (IrChoice × ConvCtx) :=
  if choice.isObject then do
    let (message, ctx) ← parseChoiceMessage (choice.get? "message")
    return (
      { index := choice["index"].asU32.getD 0
        message := message
        finishReason := choice["finish_reason"].asStr.map normalizeFinishReason }, ctx)
  else .error (.parse "choice 不是对象")

/-- The choices of a response. -/
def parseChoices [SerdeJson] : Option Value → Except ConvertError (List IrChoice × ConvCtx)
  | none => .ok ([], [])
  | some (.arr items) => do
    let read ← items.mapM parseChoice
    return (read.map Prod.fst, read.flatMap Prod.snd)
  | some _ => .error (.parse "choices 不是数组")

/-- Reads a response. -/
def responseToIr [SerdeJson] (v : Value) : Except ConvertError (IrResponse × ConvCtx) := do
  let some obj := v.asObject | .error (.parse "响应体不是对象")
  let (choices, ctx) ← parseChoices (v.get? "choices")
  return (
    { id := v["id"].strOrEmpty
      model := v["model"].strOrEmpty
      created := v["created"].asI64.getD 0
      systemFingerprint := v["system_fingerprint"].asStr
      choices := choices
      usage := (v.get? "usage").map parseUsage
      extra := Map.insertAll [] (Map.without obj knownResponseFields) },
    ctx)

/-! ### Writing a response -/

def roleToStr : IrRole → String
  | .system => "system"
  | .user => "user"
  | .assistant => "assistant"
  | .tool => "tool"

def toolCallToJson (tc : IrToolCall) : Value :=
  .object
    [("id", .str tc.id),
      ("function", .object [("name", .str tc.name), ("arguments", .str tc.arguments)]),
      ("type", .str "function")]

def partToJson : IrPart → Value
  | .text text => .object [("text", .str text), ("type", .str "text")]
  | .imageUrl url =>
    .object [("image_url", .object [("url", .str url)]), ("type", .str "image_url")]
  | .imageInline mediaType data =>
    .object
      [("image_url", .str ("data:" ++ mediaType ++ ";base64," ++ data)),
        ("type", .str "image_url")]
  | .inputAudio data format =>
    .object
      [("input_audio", .object [("data", .str data), ("format", .str format)]),
        ("type", .str "input_audio")]
  | .file name url data =>
    .object
      [("file", .obj (Map.insertPresent []
          [("file_name", if name = "" then none else some (.str name)),
            ("file_url", url.map .str), ("file_data", data.map .str)])),
        ("type", .str "file")]

def contentToJson : IrContent → Value
  | .text s => .str s
  | .parts ps => .arr (ps.map partToJson)

def messageToJson (msg : IrMessage) : Value :=
  .obj (Map.insertPresent []
    [("role", some (.str (roleToStr msg.role))),
      ("content", msg.content.map contentToJson),
      ("name", msg.name.map .str),
      ("tool_calls",
        if msg.toolCalls.isEmpty then none else some (.arr (msg.toolCalls.map toolCallToJson))),
      ("tool_call_id", msg.toolCallId.map .str),
      ("reasoning_content", msg.reasoningContent.map .str)])

def choiceToJson (c : IrChoice) : Value :=
  .obj (Map.insertPresent []
    [("index", some (.ofNat c.index.toNat)), ("message", some (messageToJson c.message)),
      ("finish_reason", c.finishReason.map .str)])

/-- Writes a response. It cannot fail. -/
def responseFromIr (resp : IrResponse) : Value × ConvCtx :=
  let usage := resp.usage.map usageToJson
  (.obj (Map.insertPresent resp.extra
    [("id", some (.str resp.id)),
      ("model", some (.str resp.model)),
      ("created", some (.int resp.created)),
      ("system_fingerprint", resp.systemFingerprint.map .str),
      ("choices", some (.arr (resp.choices.map choiceToJson))),
      ("usage", usage.map Prod.fst)]),
    (usage.map Prod.snd).getD [])

end NextApi.Chat
