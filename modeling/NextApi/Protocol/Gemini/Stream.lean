import NextApi.Protocol.Emission
import NextApi.Protocol.Gemini.Response
import NextApi.Stream.Grouping

/-!
# Gemini streams

An event is a complete response whose parts are appended. The decoder numbers the function calls in
the order of their parts. The encoder collects the fragments of a call and sends it once, as soon as
its arguments are a document; a finish reason and the end of the stream send what is left
(`flushUnfinishedTools`). There is no terminal event.

What is left is sent in the order in which the code iterates over its table (`HashOrder`).
-/

set_option autoImplicit false

namespace NextApi.Gemini

open Json Ir

/-- The order in which the keys of a `HashMap` are visited. -/
class HashOrder where
  arrange : List UInt32 → List UInt32
  perm : ∀ keys, (arrange keys).Perm keys

/-- The state of a stream, for both directions. -/
structure StreamState where
  nextToolIndex : UInt32 := 0
  roleSent : Bool := false
  multiCandidateNoted : Bool := false
  toolNames : Table UInt32 String := ∅
  toolArgs : Table UInt32 String := ∅
  toolIds : Table UInt32 String := ∅
  emittedTools : List UInt32 := []

/-! ### The decoder -/

def deltaIsEmpty (d : IrDelta) : Bool :=
  d.role.isNone && d.content.isNone && d.reasoningContent.isNone && d.toolCalls.isEmpty

/-- The running result of reading the parts of an event. -/
structure DeltaAcc where
  delta : IrDelta := {}
  nextToolIndex : UInt32
  ctx : ConvCtx := []

/-- A function call is one fragment with all of its arguments. -/
def readFunctionCall [SerdeJson] (acc : DeltaAcc) (fc : Value) : DeltaAcc :=
  let name := fc["name"].strOrEmpty
  let idx := acc.nextToolIndex
  { acc with
    nextToolIndex := idx + 1
    delta :=
      { acc.delta with
        toolCalls := acc.delta.toolCalls ++
          [{ index := idx
             id := some (callId name idx)
             name := some name
             arguments := some (argsToString fc["args"]) }] } }

/-- Reads one part: texts are joined, the last thought counts. -/
def readPart [SerdeJson] (acc : DeltaAcc) (p : Value) : DeltaAcc :=
  match p["text"].asStr with
  | some t =>
    if p["thought"].asBool.getD false then
      { acc with delta := { acc.delta with reasoningContent := some t } }
    else
      { acc with delta := { acc.delta with content := some (acc.delta.content.getD "" ++ t) } }
  | none =>
    match p.get? "functionCall" with
    | some fc => readFunctionCall acc fc
    | none =>
      { acc with ctx := acc.ctx ++ degrade "stream.content.part" "未知流式 part 结构，丢弃" }

/-- Reads the content of a candidate; the first one of the stream has the role. -/
def readContent [SerdeJson] (content : Option Value) (st : StreamState) :
    StreamState × IrDelta × ConvCtx :=
  match content with
  | some content =>
    let acc := (((content.get? "parts").bind Value.asArray).getD []).foldl readPart
      { nextToolIndex := st.nextToolIndex }
    ({ st with nextToolIndex := acc.nextToolIndex, roleSent := true },
      if st.roleSent then acc.delta else { acc.delta with role := some .assistant }, acc.ctx)
  | none => (st, {}, [])

/-- Notes once that there are several candidates. -/
def noteCandidates (candidates : List Value) (st : StreamState) : StreamState × ConvCtx :=
  if 1 < candidates.length ∧ st.multiCandidateNoted = false then
    ({ st with multiCandidateNoted := true },
      degrade "stream.candidates" "流式多候选仅取首个，其余候选增量丢弃")
  else (st, [])

/-- The finish reason of the first candidate as it was sent. -/
def rawFinish (v : Value) : Option String :=
  ((((v.get? "candidates").bind Value.asArray).getD []).head?).bind fun cand ↦
    cand["finishReason"].asStr

/-- Reads one event. One without a delta, a finish reason and a usage says nothing. -/
def chunkToIr [SerdeJson] (v : Value) (st : StreamState) : Decoding StreamState :=
  match v.asObject with
  | some obj =>
    let candidates := ((v.get? "candidates").bind Value.asArray).getD []
    let (st, notedCtx) := noteCandidates candidates st
    let (st, delta, contentCtx) := readContent (candidates.head?.bind fun c ↦ c.get? "content") st
    let raw := rawFinish v
    let usage := (v.get? "usageMetadata").map parseUsageMetadata
    { st := st
      answer := .ok
        (if raw.isNone && usage.isNone && deltaIsEmpty delta then none
        else some
          { choices :=
              [{ index := 0, delta := delta, finishReason := raw.map normalizeFinishReason }]
            usage := usage
            extra := Map.insertAll (Map.insertOpt [] "gemini_finish_reason" (raw.map .str))
              (Map.without obj knownResponseFields) })
      degraded := notedCtx ++ contentCtx }
  | none => { st := st, answer := .error (.parse "chunk 不是对象") }

/-- Reads the text of one event. -/
def chunkToIrText [SerdeJson] (data : String) (st : StreamState) : Decoding StreamState :=
  match SerdeJson.ofText data with
  | .ok v => chunkToIr v st
  | .error message => { st := st, answer := .error (.parse message) }

/-! ### The encoder -/

/-- Collects a fragment of a call. -/
def collectTool (tc : IrToolCallDelta) (st : StreamState) : StreamState :=
  { st with
    toolNames := (tc.name.map (st.toolNames.insert tc.index)).getD st.toolNames
    toolArgs := (tc.arguments.map fun a ↦
      st.toolArgs.insert tc.index ((st.toolArgs.lookup tc.index).getD "" ++ a)).getD st.toolArgs
    toolIds := (tc.id.map fun id ↦
      if (st.toolIds.lookup tc.index).isSome then st.toolIds
      else st.toolIds.insert tc.index id).getD st.toolIds }

/-- Sends a call, unless it was sent before. -/
def sendTool (i : UInt32) (name : String) (args : Value) (acc : StreamState × List Value) :
    StreamState × List Value :=
  ({ acc.1 with emittedTools := acc.1.emittedTools ++ [i] }, acc.2 ++ [functionCallPart name args])

/-- Collects a fragment, and sends its call when the arguments are a document. -/
def toolStage [SerdeJson] (acc : StreamState × List Value) (tc : IrToolCallDelta) :
    StreamState × List Value :=
  let st := collectTool tc acc.1
  if tc.index ∈ st.emittedTools then (st, acc.2)
  else
    match st.toolNames.lookup tc.index, st.toolArgs.lookup tc.index with
    | some name, some args =>
      match SerdeJson.ofText args with
      | .ok v => sendTool tc.index name v (st, acc.2)
      | .error _ => (st, acc.2)
    | _, _ => (st, acc.2)

/-- Sends a call that was not sent, with an empty object for arguments that are no document. -/
def flushTool [SerdeJson] (acc : StreamState × List Value) (i : UInt32) : StreamState × List Value :=
  if i ∈ acc.1.emittedTools then acc
  else
    match acc.1.toolNames.lookup i with
    | some name =>
      let args := (acc.1.toolArgs.lookup i).bind fun s ↦ (SerdeJson.ofText s).toOption
      sendTool i name (args.getD jsonObject) acc
    | none => acc

section Encoder

variable [SerdeJson] [HashOrder]

/-- Sends all calls that were not sent. -/
def flushUnfinishedTools (acc : StreamState × List Value) : StreamState × List Value :=
  (HashOrder.arrange (acc.1.toolArgs.toList.map Prod.fst)).foldl flushTool acc

/-- The event of one chunk. -/
def chunkFromIr (chunk : IrChunk) (st : StreamState) : Emission StreamState :=
  let delta := chunk.delta
  let texts := (delta.content.map textPart).toList ++
    (delta.reasoningContent.map thoughtPart).toList
  let acc := delta.toolCalls.foldl toolStage (st, texts)
  let (st, parts) := if chunk.finishReason.isSome then flushUnfinishedTools acc else acc
  let usage := chunk.usage.map usageMetadataToJson
  { st := st
    events :=
      [.obj (Map.orInsertAll
        (Map.insertPresent []
          [("candidates", some (.arr [candidateToJson parts 0 chunk.finishReason])),
            ("usageMetadata", usage.map Prod.fst)])
        (Map.without chunk.extra ["gemini_finish_reason"]))]
    degraded := (usage.map Prod.snd).getD [] }

/-- The calls that were not sent, if there are any. -/
def streamEnd (st : StreamState) : Emission StreamState :=
  let (st, parts) := flushUnfinishedTools (st, [])
  { st := st
    events :=
      if parts.isEmpty then []
      else [.object [("candidates", .arr [candidateToJson parts 0 none])]] }

end Encoder

end NextApi.Gemini
