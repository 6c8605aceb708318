import NextApi.Protocol.Gemini.Request
import NextApi.Protocol.Usage
import NextApi.Text.Lines

/-!
# Gemini responses

`responseToIr` reads every candidate as one choice: its text and media parts make the content of
the message, and its function calls take their name and number as id. The raw finish reason of the
first candidate is carried as `gemini_finish_reason`.

`responseFromIr` writes them back. There is no finish reason for tool calls, and `STOP` stands for
it (`reverseFinishReason`).
-/

set_option autoImplicit false

namespace NextApi.Gemini

open Json Ir

/-! ### Reading a response -/

/-- The running result of reading the parts of a candidate. -/
structure ResponsePartsAcc where
  textParts : List String := []
  mediaParts : List IrPart := []
  toolCalls : List IrToolCall := []
  reasoning : Option String := none
  fcSeq : UInt32 := 0
  ctx : ConvCtx := []

/-- Inline data is an image, or dropped. -/
def parseResponseInlineData (acc : ResponsePartsAcc) (id : Value) : ResponsePartsAcc :=
  let mime := id["mimeType"].strOrEmpty
  if mime ≠ "" ∧ ¬ "image/".toList <+: mime.toList then
    { acc with
      ctx := acc.ctx ++ degrade "response.content.inlineData"
        ("非图片 inlineData（" ++ mime ++ "）无 IR 槽位，丢弃") }
  else
    { acc with mediaParts := acc.mediaParts ++ [.imageInline mime id["data"].strOrEmpty] }

def parseResponseCall [SerdeJson] (acc : ResponsePartsAcc) (fc : Value) : ResponsePartsAcc :=
  let name := fc["name"].strOrEmpty
  { acc with
    fcSeq := acc.fcSeq + 1
    toolCalls := acc.toolCalls ++
      [{ id := callId name acc.fcSeq, name := name, arguments := argsToString fc["args"] }] }

/-- Reads one part: what it is depends on the first member that is there. -/
def parseResponsePart [SerdeJson] (acc : ResponsePartsAcc) (p : Value) : ResponsePartsAcc :=
  match p["text"].asStr with
  | some t =>
    if p["thought"].asBool.getD false then { acc with reasoning := some t }
    else { acc with textParts := acc.textParts ++ [t] }
  | none =>
    match p.get? "inlineData", p.get? "functionCall" with
    | some id, _ => parseResponseInlineData acc id
    | none, some fc => parseResponseCall acc fc
    | none, none =>
      { acc with ctx := acc.ctx ++ degrade "response.content.part" "未知响应 part 结构，丢弃" }

/-- The message of a candidate's content. -/
def parseResponseContent [SerdeJson] (content : Value) : IrMessage × ConvCtx :=
  let acc := (((content.get? "parts").bind Value.asArray).getD []).foldl parseResponsePart {}
  ({ role := .assistant
     content := partsContent (acc.textParts.map .text ++ acc.mediaParts)
     toolCalls := acc.toolCalls
     reasoningContent := acc.reasoning }, acc.ctx)

/-- Reads the candidate with this number. -/
def parseCandidate [SerdeJson] (i : ℕ) (cand : Value) : IrChoice × ConvCtx :=
  let message := (cand.get? "content").map parseResponseContent
  ({ index := cand["index"].asU32.getD (UInt32.ofNat i)
     message := (message.map Prod.fst).getD { role := .assistant }
     finishReason := cand["finishReason"].asStr.map normalizeFinishReason },
    (message.map Prod.snd).getD [])

/-- The candidates of a response. -/
def candidatesOf : Option Value → Except ConvertError (List Value)
  | none => .ok []
  | some (.arr items) => .ok items
  | some _ => .error (.parse "candidates 不是数组")

/-- The response members that have a reader; all others are carried as `extra`. -/
def knownResponseFields : List String := ["candidates", "usageMetadata"]

/-- Reads a response. -/
def responseToIr [SerdeJson] (v : Value) : Except ConvertError (IrResponse × ConvCtx) := do
  let some obj := v.asObject | .error (.parse "响应体不是对象")
  let candidates ← candidatesOf (v.get? "candidates")
  let choices := candidates.mapIdx parseCandidate
  let raw := candidates.head?.bind fun cand ↦ cand["finishReason"].asStr
  return (
    { choices := choices.map Prod.fst
      usage := (v.get? "usageMetadata").map parseUsageMetadata
      extra := Map.insertAll (Map.insertOpt [] "gemini_finish_reason" (raw.map .str))
        (Map.without obj knownResponseFields) },
    choices.flatMap Prod.snd)

/-! ### Writing a response -/

/-- `to_ascii_uppercase`. -/
def toAsciiUppercase (s : String) : String := String.ofList (s.toList.map Char.toUpper)

/-- The finish reason in the vocabulary of Gemini. -/
def reverseFinishReason (fr : String) : String :=
  match fr with
  | "stop" => "STOP"
  | "length" => "MAX_TOKENS"
  | "tool_calls" => "STOP"
  | "content_filter" => "SAFETY"
  | other => toAsciiUppercase other

/-- The arguments of a call as a value: none are an empty object, and text that is no document is
carried as a string. -/
def argsStringToValue [SerdeJson] (args field : String) : Value × ConvCtx :=
  if Text.trim args.toList = [] then (jsonObject, [])
  else
    match SerdeJson.ofText args with
    | .ok v => (v, [])
    | .error _ => (.str args, degrade field "arguments 非合法 JSON，按字符串携带")

def partToJson : IrPart → Option Value × ConvCtx
  | .text text => (some (.object [("text", .str text)]), [])
  | .imageInline mediaType data =>
    (some (.object
      [("inlineData", .object [("mimeType", .str mediaType), ("data", .str data)])]), [])
  | .imageUrl url =>
    (some (.object [("fileData", .object [("fileUri", .str url)])]),
      degrade "image_url" "Gemini 需内联数据，URL 图片需上层受控下载")
  | .file name url data =>
    (some (.object
      [("fileData", .obj (Map.insertPresent []
        [("fileUri", url.map .str), ("data", data.map .str),
          ("displayName", if name = "" then none else some (.str name))]))]), [])
  | .inputAudio _ _ => (none, degrade "input_audio" "Gemini 不支持音频")

def functionCallPart (name : String) (args : Value) : Value :=
  .object [("functionCall", .object [("name", .str name), ("args", args)])]

def thoughtPart (text : String) : Value := .object [("text", .str text), ("thought", .bool true)]

def textPart (text : String) : Value := .object [("text", .str text)]

/-- The parts of a content. -/
def contentToParts : Option IrContent → List Value × ConvCtx
  | some (.text s) => (if s = "" then [] else [textPart s], [])
  | some (.parts ps) => filterMapCtx partToJson ps
  | none => ([], [])

/-- The parts of a message: the thought, the content, the calls. -/
def messageToResponseParts [SerdeJson] (m : IrMessage) : List Value × ConvCtx :=
  let (content, contentCtx) := contentToParts m.content
  let calls := m.toolCalls.map fun tc ↦
    let args := argsStringToValue tc.arguments "tool_call.arguments"
    (functionCallPart tc.name args.1, args.2)
  ((m.reasoningContent.map thoughtPart).toList ++ content ++ calls.map Prod.fst,
    contentCtx ++ calls.flatMap Prod.snd)

/-- The content of a candidate; without parts it has none. -/
def candidateContent (parts : List Value) : Value :=
  .obj (Map.insertPresent []
    [("role", some (.str "model")),
      ("parts", if parts.isEmpty then none else some (.arr parts))])

def candidateToJson (parts : List Value) (index : UInt32) (finishReason : Option String) :
    Value :=
  .obj (Map.insertPresent []
    [("content", some (candidateContent parts)), ("index", some (.ofNat index.toNat)),
      ("finishReason", finishReason.map fun fr ↦ .str (reverseFinishReason fr))])

/-- Writes a response. It cannot fail. -/
def responseFromIr [SerdeJson] (resp : IrResponse) : Value × ConvCtx :=
  let candidates := resp.choices.map fun ch ↦
    let parts := messageToResponseParts ch.message
    (candidateToJson parts.1 ch.index ch.finishReason, parts.2)
  let usage := resp.usage.map usageMetadataToJson
  (.obj (Map.insertPresent (Map.remove resp.extra "gemini_finish_reason")
    [("candidates", some (.arr (candidates.map Prod.fst))),
      ("usageMetadata", usage.map Prod.fst)]),
    candidates.flatMap Prod.snd ++ (usage.map Prod.snd).getD [])

end NextApi.Gemini
