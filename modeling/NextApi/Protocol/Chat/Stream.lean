import NextApi.Protocol.Chat.Response
import NextApi.Protocol.Emission
import NextApi.Text.Lines

/-!
# Chat Completions streams

Every event is a chunk of its own, and neither direction keeps a state. The stream ends with the
payload `[DONE]`, which is not a document: the decoder answers it with nothing, and the encoder
sends it at the end.
-/

set_option autoImplicit false

namespace NextApi.Chat

open Json Ir

/-- There is nothing to remember. -/
structure StreamState where
  deriving DecidableEq, Inhabited

/-- The chunk members that have a reader; all others are carried as `extra`. -/
def knownChunkFields : List String := ["id", "model", "created", "choices", "usage"]

/-! ### The decoder -/

def parseToolCallDelta (tc : Value) : Option IrToolCallDelta × ConvCtx :=
  if tc.isObject then
    (some
      { index := tc["index"].asU32.getD 0
        id := tc["id"].asStr
        name := tc["function"]["name"].asStr
        arguments := tc["function"]["arguments"].asStr }, [])
  else (none, degrade "chunk.tool_calls" "工具调用增量非对象")

def parseDelta (d : Value) : IrDelta × ConvCtx :=
  let role := d["role"].asStr.map fun role ↦ parseRole (some role)
  let (toolCalls, callsCtx) :=
    filterMapCtx parseToolCallDelta (((d.get? "tool_calls").bind Value.asArray).getD [])
  ({ role := role.map Prod.fst
     content := d["content"].asStr
     reasoningContent := d["reasoning_content"].asStr
     toolCalls := toolCalls },
    (role.map Prod.snd).getD [] ++ callsCtx)

def parseChunkChoice (choice : Value) : Except ConvertError (IrChunkChoice × ConvCtx) :=
  if choice.isObject then
    let delta := (choice.get? "delta").map parseDelta
    .ok
      ({ index := choice["index"].asU32.getD 0
         delta := (delta.map Prod.fst).getD {}
         finishReason := choice["finish_reason"].asStr.map normalizeFinishReason },
        (delta.map Prod.snd).getD [])
  else .error (.parse "chunk choice 不是对象")

/-- The usage of a chunk; `null` is none. -/
def chunkUsage (v : Value) : Option IrUsage :=
  ((v.get? "usage").filter fun u ↦ !u.isNull).map parseUsage

/-- Reads one event. -/
def chunkToIr (v : Value) (st : StreamState) : Decoding StreamState :=
  match v.asObject with
  | some obj =>
    match (((v.get? "choices").bind Value.asArray).getD []).mapM parseChunkChoice with
    | .ok read =>
      { st := st
        answer := .ok (some
          { id := v["id"].strOrEmpty
            model := v["model"].strOrEmpty
            created := v["created"].asI64.getD 0
            choices := read.map Prod.fst
            usage := chunkUsage v
            extra := Map.insertAll [] (Map.without obj knownChunkFields) })
        degraded := read.flatMap Prod.snd }
    | .error e => { st := st, answer := .error e }
  | none => { st := st, answer := .error (.parse "chunk 不是对象") }

/-- What the stream ends with. -/
def doneMarker : String := "[DONE]"

/-- Reads the text of one event. -/
def chunkToIrText [SerdeJson] (data : String) (st : StreamState) : Decoding StreamState :=
  if Text.trim data.toList = doneMarker.toList then { st := st, answer := .ok none }
  else
    match SerdeJson.ofText data with
    | .ok v => chunkToIr v st
    | .error message => { st := st, answer := .error (.parse message) }

/-! ### The encoder -/

def toolCallDeltaToJson (t : IrToolCallDelta) : Value :=
  .obj (Map.insertPresent []
    [("index", some (.ofNat t.index.toNat)),
      ("id", t.id.map .str),
      ("function", some (.obj (Map.insertPresent []
        [("name", t.name.map .str), ("arguments", t.arguments.map .str)]))),
      ("type", some (.str "function"))])

def deltaToJson (d : IrDelta) : Value :=
  .obj (Map.insertPresent []
    [("role", d.role.map fun role ↦ .str (roleToStr role)),
      ("content", d.content.map .str),
      ("reasoning_content", d.reasoningContent.map .str),
      ("tool_calls",
        if d.toolCalls.isEmpty then none
        else some (.arr (d.toolCalls.map toolCallDeltaToJson)))])

def chunkChoiceToJson (c : IrChunkChoice) : Value :=
  .obj (Map.insertPresent []
    [("index", some (.ofNat c.index.toNat)), ("delta", some (deltaToJson c.delta)),
      ("finish_reason", c.finishReason.map .str)])

/-- The event of one chunk. -/
def chunkFromIr (chunk : IrChunk) (st : StreamState) : Emission StreamState :=
  let usage := chunk.usage.map usageToJson
  { st := st
    events :=
      [.obj (Map.insertPresent chunk.extra
        [("id", some (.str chunk.id)),
          ("model", some (.str chunk.model)),
          ("created", some (.int chunk.created)),
          ("choices", some (.arr (chunk.choices.map chunkChoiceToJson))),
          ("usage", usage.map Prod.fst)])]
    degraded := (usage.map Prod.snd).getD [] }

/-- The payloads that end a stream. -/
def streamEnd : List String := [doneMarker]

end NextApi.Chat
