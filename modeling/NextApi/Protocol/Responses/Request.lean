import NextApi.Json.Members
import NextApi.Protocol.Ir

/-!
# Responses requests

`requestToIr` reads the `input` of a Responses request item by item: a message, a function call or
the output of one. Every item becomes a message of the representation, and a function call right
after an assistant message joins the calls of that message (`pushMessage`).

`requestFromIr` writes one. A message becomes an item for its content and one for each of its
calls; system messages are collected in `instructions`.
-/

set_option autoImplicit false

namespace NextApi.Responses

open Json Ir

/-- The request members that have a reader; all others are carried as `extra`. -/
def knownRequestFields : List String :=
  ["model", "instructions", "input", "max_output_tokens", "temperature", "top_p", "text", "tools",
    "tool_choice", "stream"]

def jsonObject : Value := .obj []

/-! ### Reading input items -/

/-- The role of a message, with the degradation of an unknown one. -/
def parseResponseRole : Option String → IrRole × ConvCtx
  | some "user" => (.user, [])
  | some "assistant" => (.assistant, [])
  | some "system" | some "developer" => (.system, [])
  | some other => (.user, degrade "input.message.role" ("未知角色，按 user 处理: " ++ other))
  | none => (.user, [])

/-- Arguments as JSON text: a string is taken as it is, `null` is empty. -/
def parseArgumentsAny [SerdeJson] : Value → String
  | .str s => s
  | .null => ""
  | v => SerdeJson.toText v

/-- What stands before and after the first such character. -/
def splitAtChar (c : Char) (text : List Char) : Option (List Char × List Char) :=
  if c ∈ text then some (text.takeWhile (· ≠ c), (text.dropWhile (· ≠ c)).tail) else none

/-- The media type and the data of a `data:` address, given without that prefix. -/
def splitDataUrl (rest : String) : String × String :=
  match splitAtChar ';' rest.toList with
  | some (media, after) =>
    match splitAtChar ',' after with
    | some (_, data) => (String.ofList media, String.ofList data)
    | none => (String.ofList media, String.ofList after)
  | none =>
    match splitAtChar ',' rest.toList with
    | some (_, data) => ("application/octet-stream", String.ofList data)
    | none => ("application/octet-stream", rest)

/-- The address of an image: a string, or the `url` of an object. -/
def imageUrlOf : Value → String
  | .str s => s
  | .obj m => ((Map.get? m "url").bind Value.asStr).getD ""
  | _ => ""

/-- An image by its address, with the data itself in a `data:` address. -/
def imagePart (url : String) : IrPart :=
  if "data:".toList <+: url.toList then
    let split := splitDataUrl (String.ofList (url.toList.drop 5))
    .imageInline split.1 split.2
  else .imageUrl url

/-- Reads an `input_image` part. -/
def parseInputImage (p : Value) : Option IrPart × ConvCtx :=
  let detailCtx :=
    if (p.get? "detail").any fun d ↦ !d.isNull then
      degrade "input_image.detail" "image detail 不支持，丢弃" else []
  let url := imageUrlOf ((p.get? "image_url").getD .null)
  if url = "" then
    (none, detailCtx ++
      if ((p.get? "file_id").bind Value.asStr).isSome then
        degrade "input_image.file_id" "file_id 引用图片不支持，丢弃"
      else degrade "input.image_url" "input_image 缺 url")
  else (some (imagePart url), detailCtx)

/-- Reads an `input_file` part. -/
def parseInputFile (p : Value) : Option IrPart × ConvCtx :=
  let name := (p["filename"].asStr.or p["file_id"].asStr).getD ""
  let url := p["file_url"].asStr.or p["url"].asStr
  let data := p["file_data"].asStr.or p["data"].asStr
  if name = "" ∧ url = none ∧ data = none then
    (none, degrade "input.file" "input_file 无内容")
  else (some (.file name url data), [])

/-- Reads one part of the content of a message. -/
def parseInputContentPart (p : Value) : Option IrPart × ConvCtx :=
  if p.isObject then
    match p["type"].strOrEmpty with
    | "input_text" => (some (.text p["text"].strOrEmpty), [])
    | "input_image" => parseInputImage p
    | "input_file" => parseInputFile p
    | other =>
      match (p.get? "text").bind Value.asStr with
      | some t =>
        (some (.text t), degrade "input.content.part.type"
          ("part 缺/未知 type（" ++ other ++ "），按文本解析"))
      | none => (none, degrade "input.content.part.type" ("未知 part 类型: " ++ other))
  else (none, degrade "input.content.part" "content part 非对象")

/-- The content of a message item: parts, unless none is left, or a string. -/
def parseMessageContent : Option Value → Option IrContent × ConvCtx
  | some (.arr content) =>
    let (parts, ctx) := filterMapCtx parseInputContentPart content
    (if parts.isEmpty then none else some (.parts parts), ctx)
  | some (.str s) => (some (.text s), [])
  | _ => (none, [])

/-- Reads a message item. -/
def parseMessageItem (item : Value) : IrMessage × ConvCtx :=
  let (role, roleCtx) := parseResponseRole item["role"].asStr
  let (content, contentCtx) := parseMessageContent (item.get? "content")
  ({ role := role, content := content }, roleCtx ++ contentCtx)

/-- The call that a `function_call` item holds. -/
def parseFunctionCall [SerdeJson] (item : Value) : IrToolCall where
  id := (item["call_id"].asStr.or item["id"].asStr).getD ""
  name := item["name"].strOrEmpty
  arguments := parseArgumentsAny ((item.get? "arguments").getD .null)

/-- An output as text; one that is no string is carried as JSON. -/
def functionCallOutputText [SerdeJson] : Value → String × ConvCtx
  | .str s => (s, [])
  | .null => ("", [])
  | other => (SerdeJson.toText other,
      degrade "function_call_output.output" "output 非字符串，序列化为 JSON 携带")

/-- Reads a `function_call_output` item. -/
def parseFunctionCallOutput [SerdeJson] (item : Value) : IrMessage × ConvCtx :=
  let callId := item["call_id"].strOrEmpty
  let (output, outputCtx) := functionCallOutputText item["output"]
  ({ role := .tool, toolCallId := some callId, content := some (.text output) },
    (if callId = "" then degrade "function_call_output.call_id" "缺 call_id，工具链将无法配对"
      else []) ++ outputCtx)

/-- Reads an input item; `none` when it makes no message. It cannot fail. -/
def parseInputItem [SerdeJson] (item : Value) : Option IrMessage × ConvCtx :=
  if item.isObject then
    match item["type"].strOrEmpty with
    | "message" =>
      let (msg, ctx) := parseMessageItem item
      (some msg, ctx)
    | "function_call" =>
      (some { role := .assistant, toolCalls := [parseFunctionCall item] }, [])
    | "function_call_output" =>
      let (msg, ctx) := parseFunctionCallOutput item
      (some msg, ctx)
    | "reasoning" => (none, degrade "input.reasoning" "推理 item 无法回放为消息，忽略")
    | other =>
      if (item.get? "role").isSome || (item.get? "content").isSome then
        let (msg, ctx) := parseMessageItem item
        (some msg, degrade "input.item.type"
          ("输入项缺/未知 type（" ++ other ++ "），按 message 解析") ++ ctx)
      else (none, degrade "input.item.type" ("未知输入项类型，忽略: " ++ other))
  else (none, degrade "input.item" "输入项非对象")

/-- Adds a message; calls join those of an assistant message before them. -/
def pushMessage (messages : List IrMessage) (msg : IrMessage) : List IrMessage :=
  match messages.getLast? with
  | some last =>
    if msg.role = .assistant ∧ msg.toolCalls ≠ [] ∧ last.role = .assistant then
      messages.dropLast ++ [{ last with toolCalls := last.toolCalls ++ msg.toolCalls }]
    else messages ++ [msg]
  | none => messages ++ [msg]

/-- Reads one item and adds its message, if it makes one. -/
def pushItem [SerdeJson] (messages : List IrMessage) (item : Value) : List IrMessage :=
  match (parseInputItem item).1 with
  | some msg => pushMessage messages msg
  | none => messages

/-- Reads the `input` member after the messages that are there already. -/
def parseInput [SerdeJson] (messages : List IrMessage) : Value → List IrMessage × ConvCtx
  | .str s => (messages ++ [{ role := .user, content := some (.text s) }], [])
  | .arr items => (items.foldl pushItem messages, items.flatMap fun item ↦ (parseInputItem item).2)
  | .obj m => (pushItem messages (.obj m), (parseInputItem (.obj m)).2)
  | _ => (messages, degrade "input" "input 既非字符串/数组/对象，忽略")

/-! ### Reading a request -/

/-- Reads a tool definition, flat or nested; one without a name is skipped. -/
def parseResponseTool (t : Value) : Option IrTool × ConvCtx :=
  if t["type"].strOrEmpty = "function" then
    let f := (t.get? "function").getD t
    let name := f["name"].strOrEmpty
    if name = "" then (none, degrade "tools" "function 工具缺 name")
    else
      (some
        { name := name
          description := f["description"].asStr
          parameters := (f.get? "parameters").getD jsonObject }, [])
  else (none, degrade "tools" ("非 function 类型工具定义，丢弃: " ++ t["type"].strOrEmpty))

def parseResponseTools (v : Value) : Except ConvertError (List IrTool × ConvCtx) :=
  match v.asArray with
  | some items => .ok (filterMapCtx parseResponseTool items)
  | none => .error (.parse "tools 不是数组")

/-- The message that `instructions` makes, unless it is empty. -/
def instructionMessages (v : Value) : List IrMessage :=
  match (v.get? "instructions").bind Value.asStr with
  | some instr => if instr = "" then [] else [{ role := .system, content := some (.text instr) }]
  | none => []

/-- Members that only Responses has; they are carried all the same. -/
def statefulDegraded (v : Value) : ConvCtx :=
  ["previous_response_id", "store", "include", "background"].flatMap fun f ↦
    if (v.get? f).isSome then
      degrade f "Responses 有状态/专属字段，无法映射为 IR，原样保留到 extra" else []

/-- Reads a Responses request. -/
def requestToIr [SerdeJson] (v : Value) : Except ConvertError (IrRequest × ConvCtx) := do
  let some obj := v.asObject | .error (.parse "请求体不是对象")
  let (messages, inputCtx) :=
    match v.get? "input" with
    | some input => parseInput (instructionMessages v) input
    | none => (instructionMessages v, [])
  let text := (v.get? "text").bind Value.asObject
  let textCtx :=
    if (text.bind fun t ↦ Map.get? t "verbosity").isSome then
      degrade "text.verbosity" "Responses 专属字段，无法映射" else []
  let (tools, toolCtx) ←
    match v.get? "tools" with
    | some tools => parseResponseTools tools
    | none => .ok ([], [])
  return (
    { model := v["model"].strOrEmpty
      stream := v["stream"].asBool.getD false
      messages := messages
      maxTokens := (v.get? "max_output_tokens").bind Value.asU64
      temperature := v["temperature"].asF64
      topP := v["top_p"].asF64
      responseFormat := text.bind fun t ↦ Map.get? t "format"
      tools := tools
      toolChoice := v.get? "tool_choice"
      extra := Map.insertAll [] (Map.without obj knownRequestFields) },
    inputCtx ++ textCtx ++ toolCtx ++ statefulDegraded v)

/-! ### Writing input items -/

/-- Content as plain text. -/
def contentAsText : Option IrContent → String
  | some (.text s) => s
  | some (.parts ps) => String.join (ps.filterMap fun p ↦
      match p with
      | .text text => some text
      | _ => none)
  | none => ""

/-- A text part; its type depends on the role of the message. -/
def textPart (textType text : String) : Value :=
  .object [("type", .str textType), ("text", .str text)]

/-- One part as part of an input message. -/
def irPartToInputPart (textType : String) : IrPart → Value × ConvCtx
  | .text text => (textPart textType text, [])
  | .imageUrl url => (.object [("type", .str "input_image"), ("image_url", .str url)], [])
  | .imageInline mediaType data =>
    (.object
      [("type", .str "input_image"),
        ("image_url", .str ("data:" ++ mediaType ++ ";base64," ++ data))], [])
  | .inputAudio _ _ =>
    (textPart textType "", degrade "content.input_audio" "Responses 不支持 input_audio，丢弃")
  | .file name url data =>
    (.obj (Map.insertPresent []
      [("type", some (.str "input_file")), ("filename", if name = "" then none else some (.str name)),
        ("file_url", url.map .str), ("file_data", data.map .str)]), [])

/-- The item for the content of a message of the user or the assistant. -/
def requestMessageItem (role : IrRole) (content : IrContent) : Value × ConvCtx :=
  let roleStr := if role = .assistant then "assistant" else "user"
  let textType := if role = .assistant then "output_text" else "input_text"
  let item (parts : List Value) : Value :=
    .object [("type", .str "message"), ("role", .str roleStr), ("content", .arr parts)]
  match content with
  | .text s => (item [textPart textType s], [])
  | .parts ps =>
    (item (ps.map fun p ↦ (irPartToInputPart textType p).1),
      ps.flatMap fun p ↦ (irPartToInputPart textType p).2)

def functionCallInputItem (tc : IrToolCall) : Value :=
  .object
    [("type", .str "function_call"), ("call_id", .str tc.id), ("name", .str tc.name),
      ("arguments", .str tc.arguments)]

def functionCallOutputItem (m : IrMessage) : Value :=
  .object
    [("type", .str "function_call_output"), ("call_id", .str (m.toolCallId.getD "")),
      ("output", .str (contentAsText m.content))]

/-- The items of one message. -/
def inputItemsOf (m : IrMessage) : List Value × ConvCtx :=
  match m.role with
  | .system => ([], [])
  | .user | .assistant =>
    let (item, ctx) : List Value × ConvCtx :=
      match m.content with
      | some content => ([(requestMessageItem m.role content).1], (requestMessageItem m.role content).2)
      | none => ([], [])
    (item ++ m.toolCalls.map functionCallInputItem, ctx)
  | .tool => ([functionCallOutputItem m], [])

/-- The texts of the system messages, a line each. -/
def instructionsOf (messages : List IrMessage) : String :=
  messages.foldl (fun instructions m ↦
    if m.role = .system then
      let text := contentAsText m.content
      if text = "" then instructions
      else if instructions = "" then text else instructions ++ "\n" ++ text
    else instructions) ""

/-! ### Writing a request -/

def responseToolFromIr (t : IrTool) : Value :=
  .object
    ([("type", .str "function"), ("name", .str t.name)] ++
      (t.description.map fun d ↦ ("description", Value.str d)).toList ++
      [("parameters", t.parameters)])

/-- The extensions of a request have no place. -/
def degradeExt (req : IrRequest) : ConvCtx :=
  let noSlot := "Responses 请求无对应输入字段"
  (if req.ext.thinking.isSome then degrade "ext.thinking" noSlot else []) ++
  (if req.ext.webSearch.isSome then degrade "ext.web_search" noSlot else []) ++
  (if req.ext.cacheControl.isSome then degrade "ext.cache_control" noSlot else []) ++
  (if req.ext.topK.isSome then degrade "ext.top_k" noSlot else []) ++
  (if req.ext.serviceTier.isSome then degrade "ext.service_tier" noSlot else []) ++
  (Map.keys req.ext.extra).flatMap fun k ↦ degrade k noSlot

/-- A tool choice in the form of Chat is made flat. -/
def flattenToolChoice (tc : Value) : Value :=
  match tc with
  | .obj o =>
    let name := (Map.get? o "function").bind fun f ↦ f.get? "name"
    if (Map.get? o "type").bind Value.asStr = some "function" ∧ Map.get? o "name" = none then
      match name with
      | some name => .object [("type", .str "function"), ("name", name)]
      | none => tc
    else tc
  | _ => tc

/-- The members that `requestFromIr` writes over the carried ones, in order. -/
def requestMembers (req : IrRequest) : List (String × Option Value) :=
  let instructions := instructionsOf req.messages
  [("model", some (.str req.model)),
    ("instructions", if instructions = "" then none else some (.str instructions)),
    ("input", some (.arr (req.messages.flatMap fun m ↦ (inputItemsOf m).1))),
    ("tools", if req.tools.isEmpty then none else some (.arr (req.tools.map responseToolFromIr))),
    ("tool_choice", req.toolChoice.map flattenToolChoice),
    ("temperature", req.temperature.map .float),
    ("top_p", req.topP.map .float),
    ("max_output_tokens", req.maxTokens.map .ofNat),
    ("user", req.user.map .str),
    ("text", req.responseFormat.map fun rf ↦ .object [("format", rf)]),
    ("stream", some (.bool req.stream))]

/-- Writes a Responses request. It cannot fail. -/
def requestFromIr (req : IrRequest) : Value × ConvCtx :=
  (.obj (Map.insertPresent req.extra (requestMembers req)),
    degradeExt req ++ (req.messages.flatMap fun m ↦ (inputItemsOf m).2) ++
      (if req.seed.isSome then degrade "seed" "Responses 不支持 seed，忽略" else []) ++
      (if req.stop.isSome then degrade "stop" "Responses 不支持 stop，忽略" else []) ++
      (if req.n.isSome then degrade "n" "Responses 不支持 n，忽略" else []))

end NextApi.Responses
