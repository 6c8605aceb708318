import NextApi.Json.Members
import NextApi.Protocol.Ir
import NextApi.Stream.Table

/-!
# Gemini requests

`requestToIr` reads a `generateContent` request. A content makes at most one message with its text,
media and function calls, and one message of role `tool` for each of its function responses
(`parseContent`).

Gemini calls have no ids. An id is made of the name of the function and the number of the call in its
content (`callId`), and the ids wait under the name, for all contents of the request, until a
response of that name takes the first of them (`popCall`). A response that finds none takes the
name itself as its id.
-/

set_option autoImplicit false

namespace NextApi.Gemini

open Json Ir

/-- The request members that have a reader; all others are carried as `extra`. -/
def knownRequestFields : List String :=
  ["systemInstruction", "contents", "generationConfig", "tools", "safetySettings"]

def jsonObject : Value := .obj []

/-- The role of a content, with the degradation of an unknown one. -/
def parseRole : Option String → IrRole × ConvCtx
  | some "user" => (.user, [])
  | some "model" => (.assistant, [])
  | some "system" | some "assistant" => (.assistant, [])
  | some other => (.user, degrade "content.role" ("未知角色按 user 处理: " ++ other))
  | none => (.user, [])

/-- A value as JSON text; `null` is empty. -/
def argsToString [SerdeJson] (v : Value) : String :=
  if v.isNull then "" else SerdeJson.toText v

/-! ### The parts of a content -/

/-- The ids of the calls that wait for a response, by function, the oldest first. -/
abbrev CallIds := Table String (List String)

/-- The id of a call: its function and its number among the calls of the content. -/
def callId (name : String) (seq : UInt32) : String := name ++ "_" ++ toString seq.toNat

/-- Adds an id to those that wait under the name. -/
def pushCall (callIds : CallIds) (name id : String) : CallIds :=
  callIds.insert name ((callIds.lookup name).getD [] ++ [id])

/-- Takes the first id that waits under the name. -/
def popCall (callIds : CallIds) (name : String) : Option String × CallIds :=
  match callIds.lookup name with
  | some (id :: rest) => (some id, callIds.insert name rest)
  | _ => (none, callIds)

/-- The running result of reading the parts of one content. -/
structure PartsAcc where
  textParts : List String := []
  mediaParts : List IrPart := []
  toolCalls : List IrToolCall := []
  functionResponses : List (String × String) := []
  reasoning : Option String := none
  fcSeq : UInt32 := 0
  callIds : CallIds
  ctx : ConvCtx := []

/-- Inline data is an image, or dropped. -/
def parseInlineData (acc : PartsAcc) (id : Value) : PartsAcc :=
  let mime := id["mimeType"].strOrEmpty
  if mime ≠ "" ∧ ¬ "image/".toList <+: mime.toList then
    { acc with
      ctx := acc.ctx ++ degrade "content.part.inlineData"
        ("非图片 inlineData（" ++ mime ++ "）无 IR 槽位，丢弃") }
  else
    { acc with mediaParts := acc.mediaParts ++ [.imageInline mime id["data"].strOrEmpty] }

def parseFileData (acc : PartsAcc) (fd : Value) : PartsAcc :=
  let uri := fd["fileUri"].strOrEmpty
  { acc with
    mediaParts := acc.mediaParts ++
      [.file fd["displayName"].strOrEmpty (if uri = "" then none else some uri) fd["data"].asStr]
    ctx := acc.ctx ++
      if (fd.get? "mimeType").isSome then
        degrade "content.part.fileData.mimeType" "fileData 的 mimeType 无 IR 槽位，丢弃" else [] }

def parseFunctionCall [SerdeJson] (acc : PartsAcc) (fc : Value) : PartsAcc :=
  let name := fc["name"].strOrEmpty
  let id := callId name acc.fcSeq
  { acc with
    fcSeq := acc.fcSeq + 1
    callIds := pushCall acc.callIds name id
    toolCalls := acc.toolCalls ++ [{ id := id, name := name, arguments := argsToString fc["args"] }] }

def parseFunctionResponse [SerdeJson] (acc : PartsAcc) (fr : Value) : PartsAcc :=
  { acc with
    functionResponses :=
      acc.functionResponses ++ [(fr["name"].strOrEmpty, argsToString fr["response"])] }

/-- Reads one part of a content: what it is depends on the first member that is there. -/
def parsePart [SerdeJson] (acc : PartsAcc) (p : Value) : PartsAcc :=
  if p.isObject then
    match p["text"].asStr with
    | some t =>
      if p["thought"].asBool.getD false then { acc with reasoning := some t }
      else { acc with textParts := acc.textParts ++ [t] }
    | none =>
      match p.get? "inlineData", p.get? "fileData", p.get? "functionCall",
        p.get? "functionResponse" with
      | some id, _, _, _ => parseInlineData acc id
      | none, some fd, _, _ => parseFileData acc fd
      | none, none, some fc, _ => parseFunctionCall acc fc
      | none, none, none, some fr => parseFunctionResponse acc fr
      | none, none, none, none =>
        { acc with ctx := acc.ctx ++ degrade "content.part" "未知 part 结构，丢弃" }
  else { acc with ctx := acc.ctx ++ degrade "content.part" "part 非对象，丢弃" }

/-! ### Contents -/

/-- No parts are no content, one text part is plain text. -/
def partsContent : List IrPart → Option IrContent
  | [] => none
  | [.text text] => some (.text text)
  | parts => some (.parts parts)

/-- The message of a content without its responses. -/
def mainMessage (role : IrRole) (acc : PartsAcc) : IrMessage where
  role := role
  content := partsContent (acc.textParts.map .text ++ acc.mediaParts)
  toolCalls := acc.toolCalls
  reasoningContent := acc.reasoning

/-- The running result of reading the contents. -/
structure ContentsAcc where
  messages : List IrMessage := []
  callIds : CallIds := ∅
  ctx : ConvCtx := []

/-- The message of a response, with the id of the call it answers. -/
def responseMessage (name response : String) (paired : Option String) : IrMessage where
  role := .tool
  content := some (.text response)
  name := some name
  toolCallId := some (paired.getD name)

/-- Adds the message of a response. -/
def pushResponse (acc : ContentsAcc) (nameAndResponse : String × String) : ContentsAcc :=
  let (name, response) := nameAndResponse
  let (paired, callIds) := popCall acc.callIds name
  { messages := acc.messages ++ [responseMessage name response paired]
    callIds := callIds
    ctx := acc.ctx ++
      if paired = none then
        degrade "functionResponse.id"
          ("functionResponse 无配对的 functionCall，tool_call_id 回退为 name: " ++ name) else [] }

/-- Reads one content. -/
def parseContent [SerdeJson] (acc : ContentsAcc) (content : Value) :
    Except ConvertError ContentsAcc :=
  if content.isObject then
    let (role, roleCtx) := parseRole content["role"].asStr
    let parts := ((content.get? "parts").bind Value.asArray).getD []
    let read := parts.foldl parsePart { callIds := acc.callIds, ctx := acc.ctx ++ roleCtx }
    let main := mainMessage role read
    let messages :=
      if main.content.isSome || !main.toolCalls.isEmpty || main.reasoningContent.isSome then
        acc.messages ++ [main]
      else acc.messages
    .ok (read.functionResponses.foldl pushResponse
      { messages := messages, callIds := read.callIds, ctx := read.ctx })
  else .error (.parse "content 不是对象")

/-! ### The request -/

/-- The texts of the system instruction. -/
def collectSystemText : Value → String × ConvCtx
  | .arr parts =>
    (String.join (parts.filterMap fun p ↦ p["text"].asStr),
      parts.flatMap fun p ↦
        if p["text"].asStr = none then degrade "systemInstruction.part" "非 text part，忽略" else [])
  | parts => (parts["text"].strOrEmpty, [])

/-- The message of the system instruction, unless it is empty. -/
def systemMessages (v : Value) : List IrMessage × ConvCtx :=
  match v.get? "systemInstruction" with
  | some si =>
    let (text, ctx) :=
      match si.get? "parts" with
      | some parts => collectSystemText parts
      | none => (si["text"].strOrEmpty, [])
    (if text = "" then [] else [{ role := .system, content := some (.text text) }], ctx)
  | none => ([], [])

/-- A count of 32 bits, or a degradation. -/
def parseU32 (count : Option ℕ) (field reason : String) : Option UInt32 × ConvCtx :=
  match count with
  | some k => if k < 2 ^ 32 then (some (UInt32.ofNat k), []) else (none, degrade field reason)
  | none => (none, [])

/-- The response format of a MIME type and a schema. -/
def parseResponseFormat (gc : Value) : Option Value :=
  if gc["responseMimeType"].asStr = some "application/json" then
    match gc.get? "responseSchema" with
    | some s =>
      some (.object
        [("type", .str "json_schema"),
          ("json_schema", .object [("name", .str "response"), ("schema", s)])])
    | none => some (.object [("type", .str "json_object")])
  else none

/-- Members of the generation configuration that have no place. -/
def droppedConfigFields : List String :=
  ["presencePenalty", "frequencyPenalty", "responseLogprobs", "logprobs", "topLogprobs",
    "thinkingConfig", "mediaResolution"]

/-- Reads `generationConfig` into the request. -/
def parseGenerationConfig (gc : Value) (req : IrRequest) : IrRequest × ConvCtx :=
  if gc.isObject then
    let (topK, topKCtx) :=
      parseU32 gc["topK"].asU64 "generationConfig.topK" "topK 超出 u32 范围，丢弃"
    let (n, nCtx) :=
      parseU32 gc["candidateCount"].asU64 "generationConfig.candidateCount" "超出 u32 范围，丢弃"
    let stop := (gc.get? "stopSequences").map Value.asArray
    ({ req with
        maxTokens := gc["maxOutputTokens"].asU64
        temperature := gc["temperature"].asF64
        topP := gc["topP"].asF64
        stop := stop.join.map fun items ↦ items.filterMap Value.asStr
        seed := gc["seed"].asI64
        n := n
        responseFormat := parseResponseFormat gc
        ext := { req.ext with topK := topK } },
      topKCtx ++
      (if stop = some none then
        degrade "generationConfig.stopSequences" "stopSequences 非数组，忽略" else []) ++
      nCtx ++
      droppedConfigFields.flatMap fun k ↦
        if (gc.get? k).isSome then
          degrade ("generationConfig." ++ k) ("generationConfig." ++ k ++ " 无 IR 槽位，丢弃") else [])
  else (req, degrade "generationConfig" "generationConfig 非对象，忽略")

/-- The request with what its `generationConfig` says, if it has one. -/
def readGenerationConfig (v : Value) (req : IrRequest) : IrRequest × ConvCtx :=
  match v.get? "generationConfig" with
  | some gc => parseGenerationConfig gc req
  | none => (req, [])

def parseDeclaration (f : Value) : IrTool where
  name := f["name"].strOrEmpty
  description := f["description"].asStr
  parameters := (f.get? "parameters").getD jsonObject

/-- The functions that a tool declares. -/
def parseTool (t : Value) : List IrTool × ConvCtx :=
  match (t.get? "functionDeclarations").bind Value.asArray with
  | some fds => (fds.map parseDeclaration, [])
  | none => ([], degrade "tools" ("非 functionDeclarations 工具，丢弃: " ++ t["type"].strOrEmpty))

def parseTools (v : Value) : Except ConvertError (List IrTool × ConvCtx) :=
  match v.asArray with
  | some tools => .ok (tools.flatMap fun t ↦ (parseTool t).1, tools.flatMap fun t ↦ (parseTool t).2)
  | none => .error (.parse "tools 不是数组")

def readTools (v : Value) : Except ConvertError (List IrTool × ConvCtx) :=
  match v.get? "tools" with
  | some tools => parseTools tools
  | none => .ok ([], [])

/-- Reads the contents after the messages that are there already. -/
def parseContents [SerdeJson] (acc : ContentsAcc) : Option Value → Except ConvertError ContentsAcc
  | some contents =>
    match contents.asArray with
    | some items => items.foldlM parseContent acc
    | none => .error (.parse "contents 不是数组")
  | none => .ok acc

/-- Reads a `generateContent` request. The model is part of the address and stays empty. -/
def requestToIr [SerdeJson] (v : Value) : Except ConvertError (IrRequest × ConvCtx) := do
  let some obj := v.asObject | .error (.parse "请求体不是对象")
  let (system, systemCtx) := systemMessages v
  let read ← parseContents { messages := system, ctx := systemCtx } (v.get? "contents")
  let (req, configCtx) := readGenerationConfig v { messages := read.messages }
  let (tools, toolCtx) ← readTools v
  return (
    { req with
      tools := tools
      extra := Map.insertAll (Map.insertOpt [] "safetySettings" (v.get? "safetySettings"))
        (Map.without obj knownRequestFields) },
    read.ctx ++ configCtx ++ toolCtx)

end NextApi.Gemini
