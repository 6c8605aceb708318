import NextApi.Protocol.Gemini.Response

/-!
# Writing Gemini requests

`requestFromIr` writes a `generateContent` request. A message makes one content (`messageToContent`),
or none when nothing is left of it; system messages make the `systemInstruction`. The result of a
tool is a `functionResponse`, which carries the name of the message or, when it has none, the id of
the call. The sampling options and the response format go to the `generationConfig`.
-/

set_option autoImplicit false

namespace NextApi.Gemini

open Json Ir

def roleToStr : IrRole → String
  | .assistant => "model"
  | .user | .tool | .system => "user"

/-- A part as `serde` writes it: tagged, without absent members. -/
def irPartToValue : IrPart → Value
  | .text text => .object [("type", .str "text"), ("text", .str text)]
  | .imageUrl url => .object [("type", .str "image_url"), ("url", .str url)]
  | .imageInline mediaType data =>
    .object [("type", .str "image_inline"), ("media_type", .str mediaType), ("data", .str data)]
  | .inputAudio data format =>
    .object [("type", .str "input_audio"), ("data", .str data), ("format", .str format)]
  | .file name url data =>
    .obj (Map.insertPresent []
      [("type", some (.str "file")), ("name", some (.str name)), ("url", url.map .str),
        ("data", data.map .str)])

section Writer

variable [SerdeJson]

/-- The content of a tool message as text; parts are written as JSON. -/
def responseText : Option IrContent → String × ConvCtx
  | some (.text s) => (s, [])
  | some (.parts ps) => (SerdeJson.toText (.arr (ps.map irPartToValue)),
      degrade "tool_response_content" "functionResponse 内容非纯文本，序列化处理")
  | none => ("", [])

/-- The `response` of a function response: the document that the text is, or the text. -/
def responseContentToValue (content : Option IrContent) : Value × ConvCtx :=
  let (s, ctx) := responseText content
  if Text.trim s.toList = [] then (.null, ctx)
  else
    match SerdeJson.ofText s with
    | .ok v => (v, ctx)
    | .error _ => (.str s,
        ctx ++ degrade "tool_response_json" "functionResponse 内容非合法 JSON，按字符串携带")

def functionResponsePart (name : String) (response : Value) : Value :=
  .object [("functionResponse", .object [("name", .str name), ("response", response)])]

/-- The part of a tool message. -/
def toolMessagePart (m : IrMessage) : Value × ConvCtx :=
  let (response, ctx) := responseContentToValue m.content
  (functionResponsePart ((m.name.or m.toolCallId).getD "") response,
    (if m.name.isNone then
      degrade "tool_response_name" "Gemini functionResponse 需函数名，使用 tool_call_id 代替"
    else []) ++ ctx)

/-- The part of a call. -/
def toolCallPart (tc : IrToolCall) : Value × ConvCtx :=
  let (args, ctx) := argsStringToValue tc.arguments "tool_call.arguments"
  (functionCallPart tc.name args, ctx)

/-- The parts of a message that is no tool result: the content, the thought, the calls. -/
def messageToParts (m : IrMessage) : List Value × ConvCtx :=
  let (content, contentCtx) := contentToParts m.content
  let calls := m.toolCalls.map toolCallPart
  (content ++ (m.reasoningContent.map thoughtPart).toList ++ calls.map Prod.fst,
    contentCtx ++ calls.flatMap Prod.snd)

/-- The content of a message that is no system message. -/
def messageToContent (m : IrMessage) : Option Value × ConvCtx :=
  let (parts, ctx) : List Value × ConvCtx :=
    if m.role = .tool then ([(toolMessagePart m).1], (toolMessagePart m).2) else messageToParts m
  (if parts.isEmpty then none
    else some (.object [("role", .str (roleToStr m.role)), ("parts", .arr parts)]), ctx)

/-- The parts of the system instruction that a system message makes. -/
def systemMsgToInstructionParts (m : IrMessage) : List Value × ConvCtx :=
  match m.content with
  | some (.text s) => (if s = "" then [] else [textPart s], [])
  | some (.parts ps) =>
    filterMapCtx (fun p ↦
      match p with
      | .text text => (if text = "" then none else some (textPart text), [])
      | _ => (none, degrade "systemInstruction.part" "系统提示含非文本 part，忽略")) ps
  | none => ([], [])

def toolToJson (t : IrTool) : Value :=
  .obj (Map.insertPresent []
    [("name", some (.str t.name)), ("description", t.description.map .str),
      ("parameters", some t.parameters)])

/-- Members of the request that Gemini has no place for. -/
def degradeRequestExt (req : IrRequest) : ConvCtx :=
  (if req.toolChoice.isSome then
    degrade "tool_choice" "Gemini 无 tool_choice 字段，忽略" else []) ++
  (if req.seed.isSome then degrade "seed" "Gemini 无 seed 字段，忽略" else []) ++
  (if req.n.isSome then degrade "n" "Gemini 无 n 字段，忽略" else []) ++
  (if req.user.isSome then degrade "user" "Gemini 无 user 字段，忽略" else []) ++
  (if req.stream then
    degrade "stream" "Gemini 流式经独立端点（streamGenerateContent），body 不含 stream" else []) ++
  (Map.keys req.ext.extra).flatMap fun k ↦ degrade k "Gemini 无对应字段"

/-- The MIME type of a response format: JSON or nothing. -/
def responseMimeType (rf : Value) : Option Value :=
  match rf["type"].asStr with
  | some "json_object" | some "json_schema" => some (.str "application/json")
  | _ => none

/-- The schema of a response format, taken out of the wrapping of Chat when it has one. -/
def responseSchema (rf : Value) : Option Value :=
  if rf["type"].asStr = some "json_schema" then
    (rf.get? "json_schema").map fun s ↦ (s.get? "schema").getD s
  else none

/-- The members of the `generationConfig`. -/
def configMembers (req : IrRequest) : List (String × Option Value) :=
  [("maxOutputTokens", req.maxTokens.map .ofNat),
    ("temperature", req.temperature.map .float),
    ("topP", req.topP.map .float),
    ("topK", req.ext.topK.map fun k ↦ .ofNat k.toNat),
    ("stopSequences", req.stop.map fun stop ↦ .arr (stop.map .str)),
    ("responseMimeType", req.responseFormat.bind responseMimeType),
    ("responseSchema", req.responseFormat.bind responseSchema)]

def generationConfig (req : IrRequest) : Map := Map.insertPresent [] (configMembers req)

/-- The messages that are not lifted into the system instruction. -/
def contentMessages (req : IrRequest) : List IrMessage :=
  req.messages.filter fun m ↦ decide (m.role ≠ .system)

/-- The contents of the request. -/
def messagesToContents (req : IrRequest) : List Value × ConvCtx :=
  filterMapCtx messageToContent (contentMessages req)

/-- The parts of the system instruction. -/
def systemParts (req : IrRequest) : List Value × ConvCtx :=
  let parts := (req.messages.filter fun m ↦ decide (m.role = .system)).map
    systemMsgToInstructionParts
  (parts.flatMap Prod.fst, parts.flatMap Prod.snd)

/-- The members that `requestFromIr` writes over the carried ones, in order; a member whose value
is absent is not written. -/
def requestMembers (req : IrRequest) : List (String × Option Value) :=
  let parts := (systemParts req).1
  let contents := (messagesToContents req).1
  let config := generationConfig req
  [("systemInstruction",
      if parts.isEmpty then none else some (.object [("parts", .arr parts)])),
    ("contents", if contents.isEmpty then none else some (.arr contents)),
    ("generationConfig", if config.isEmpty then none else some (.obj config)),
    ("tools",
      if req.tools.isEmpty then none
      else some (.arr [.object [("functionDeclarations", .arr (req.tools.map toolToJson))]]))]

/-- Writes a request. The model is part of the address. It cannot fail. -/
def requestFromIr (req : IrRequest) : Value × ConvCtx :=
  (.obj (Map.insertPresent (Map.remove req.extra "model") (requestMembers req)),
    degradeRequestExt req ++ (systemParts req).2 ++ (messagesToContents req).2)

end Writer

end NextApi.Gemini
