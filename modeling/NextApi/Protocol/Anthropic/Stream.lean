import NextApi.Protocol.Anthropic.Response
import NextApi.Protocol.Emission

/-!
# Anthropic Messages streams

The encoder turns chunks into the events `message_start`, `content_block_start`,
`content_block_delta`, `content_block_stop`, `message_delta` and `message_stop`. At most one
content block is open: a delta of another kind, or of another tool, closes the open block and
opens a new one (`deltaInBlock`, `toolDelta`). A finish reason closes the open block; its
`message_delta` is sent at once if the chunk has usage, and otherwise waits for a later chunk that
has usage or for the end of the stream (`finishStage`, `streamEnd`).

The decoder reads the same events, numbering the tool calls in the order of their blocks.

The stages of `chunkFromIr` are the passages of the code in order, each a function of the emission
so far. An open block carries its kind and its index.
-/

set_option autoImplicit false

namespace NextApi.Anthropic

open Json Ir

inductive BlockKind where
  | text
  | thinking
  | tool
  deriving DecidableEq, Inhabited

/-- The content block that is open. -/
structure OpenBlock where
  kind : BlockKind
  index : UInt32
  deriving DecidableEq, Inhabited

/-- The state of a stream, for both directions. -/
structure StreamState where
  id : String := ""
  model : String := ""
  usage : IrUsage := {}
  blockToTool : Table ℕ UInt32 := ∅
  nextToolIndex : UInt32 := 0
  messageStartEmitted : Bool := false
  messageStopEmitted : Bool := false
  messageDeltaEmitted : Bool := false
  nextBlockIndex : UInt32 := 0
  openBlock : Option OpenBlock := none
  toolBlockOf : Table UInt32 UInt32 := ∅
  toolMeta : Table UInt32 (String × String) := ∅
  pendingFinish : Option String := none

/-! ### Events -/

/-- The counts that `message_start` and `message_delta` carry. -/
def usageCounts (usage : IrUsage) : Value :=
  .obj (Map.insertPresent []
    [("input_tokens", some (.ofNat usage.promptTokens)),
      ("output_tokens", some (.ofNat usage.completionTokens)),
      ("cache_read_input_tokens", usage.cacheReadTokens.map .ofNat),
      ("cache_creation_input_tokens", usage.cacheWriteTokens.map .ofNat)])

def messageStartEvent (st : StreamState) : Value :=
  .object
    [("type", .str "message_start"),
      ("message", .object
        [("id", .str st.id), ("type", .str "message"), ("role", .str "assistant"),
          ("model", .str st.model), ("content", .arr []), ("usage", usageCounts st.usage),
          ("stop_reason", .null), ("stop_sequence", .null)])]

def contentBlockStart (idx : UInt32) (block : Value) : Value :=
  .object
    [("type", .str "content_block_start"), ("index", .ofNat idx.toNat), ("content_block", block)]

def contentBlockDelta (idx : UInt32) (delta : Value) : Value :=
  .object [("type", .str "content_block_delta"), ("index", .ofNat idx.toNat), ("delta", delta)]

def contentBlockStartText (idx : UInt32) : Value :=
  contentBlockStart idx (.object [("type", .str "text"), ("text", .str "")])

def contentBlockDeltaText (idx : UInt32) (text : String) : Value :=
  contentBlockDelta idx (.object [("type", .str "text_delta"), ("text", .str text)])

def contentBlockStartThinking (idx : UInt32) : Value :=
  contentBlockStart idx
    (.object [("type", .str "thinking"), ("thinking", .str ""), ("signature", .str "")])

def contentBlockDeltaThinking (idx : UInt32) (thinking : String) : Value :=
  contentBlockDelta idx (.object [("type", .str "thinking_delta"), ("thinking", .str thinking)])

def contentBlockStartToolUse (idx : UInt32) (tc : IrToolCallDelta) : Value :=
  contentBlockStart idx
    (.object
      [("type", .str "tool_use"), ("id", .str (tc.id.getD "")), ("name", .str (tc.name.getD "")),
        ("input", jsonObject)])

def contentBlockDeltaInputJson (idx : UInt32) (tc : IrToolCallDelta) : Value :=
  contentBlockDelta idx
    (.object
      [("type", .str "input_json_delta"), ("partial_json", .str (tc.arguments.getD ""))])

def contentBlockStop (idx : UInt32) : Value :=
  .object [("type", .str "content_block_stop"), ("index", .ofNat idx.toNat)]

def messageDelta (stopReason usage : Value) : Value :=
  .object
    [("type", .str "message_delta"),
      ("delta", .object [("stop_reason", stopReason), ("stop_sequence", .null)]),
      ("usage", usage)]

def messageDeltaEvent (fr : String) (st : StreamState) : Value :=
  messageDelta (.str (reverseFinishReason fr)) (usageCounts st.usage)

/-- The `message_delta` of a stream that failed or was cut: no stop reason. -/
def messageDeltaEndEvent (st : StreamState) : Value :=
  messageDelta .null (.object [("output_tokens", .ofNat st.usage.completionTokens)])

def messageStopEvent : Value := .object [("type", .str "message_stop")]

/-! ### The encoder -/

/-- Closes the open block, if there is one. -/
def closeOpenBlock (e : Emission StreamState) : Emission StreamState :=
  match e.st.openBlock with
  | some b => (e.withState { e.st with openBlock := none }).emit (contentBlockStop b.index)
  | none => e

/-- Opens a block of this kind with the next index. -/
def openNewBlock (kind : BlockKind) (start : UInt32 → Value) (e : Emission StreamState) :
    Emission StreamState :=
  let idx := e.st.nextBlockIndex
  (e.withState
    { e.st with nextBlockIndex := idx + 1, openBlock := some ⟨kind, idx⟩ }).emit (start idx)

/-- The first chunk sends `message_start`, with what the chunk says about the usage. -/
def startMessage (chunk : IrChunk) (e : Emission StreamState) : Emission StreamState :=
  if e.st.messageStartEmitted then e
  else
    let usage :=
      match chunk.usage with
      | some u =>
        { e.st.usage with
          promptTokens := u.promptTokens
          cacheReadTokens := u.cacheReadTokens
          cacheWriteTokens := u.cacheWriteTokens }
      | none => e.st.usage
    let st :=
      { e.st with
        messageStartEmitted := true
        id := chunk.id
        model := chunk.model
        usage := usage }
    (e.withState st).emit (messageStartEvent st)

/-- Sends a delta in an open block of its kind, opening one if the open block is of another. -/
def deltaInBlock (kind : BlockKind) (start delta : UInt32 → Value) (e : Emission StreamState) :
    Emission StreamState :=
  let e :=
    if e.st.openBlock.map OpenBlock.kind = some kind then e
    else openNewBlock kind start (closeOpenBlock e)
  match e.st.openBlock with
  | some b => e.emit (delta b.index)
  | none => e

def textStage (content : Option String) (e : Emission StreamState) : Emission StreamState :=
  match content with
  | some text => deltaInBlock .text contentBlockStartText (contentBlockDeltaText · text) e
  | none => e

def thinkingStage (reasoning : Option String) (e : Emission StreamState) : Emission StreamState :=
  match reasoning with
  | some rc => deltaInBlock .thinking contentBlockStartThinking (contentBlockDeltaThinking · rc) e
  | none => e

/-- Records the id and the name of a tool; a fragment without them leaves them as they are. -/
def noteToolMeta (tc : IrToolCallDelta) (st : StreamState) : StreamState :=
  let old := (st.toolMeta.lookup tc.index).getD ("", "")
  { st with toolMeta := st.toolMeta.insert tc.index (tc.id.getD old.1, tc.name.getD old.2) }

/-- The fragment that opens a tool's block: an id or a name it lacks is taken from the record. -/
def withToolMeta (tc : IrToolCallDelta) (toolMeta : Table UInt32 (String × String)) :
    IrToolCallDelta :=
  let (id, name) := (toolMeta.lookup tc.index).getD ("", "")
  { tc with
    id := tc.id.or (if id = "" then none else some id)
    name := tc.name.or (if name = "" then none else some name) }

/-- The last block of a fragment's tool, if it is the open block. -/
def currentToolBlock (st : StreamState) (tc : IrToolCallDelta) : Option UInt32 :=
  (st.toolBlockOf.lookup tc.index).filter fun b ↦ decide (st.openBlock = some ⟨.tool, b⟩)

/-- Opens a new block for a tool. A tool that had one before is split over several blocks. -/
def openToolBlock (tc : IrToolCallDelta) (e : Emission StreamState) : Emission StreamState :=
  let existed := e.st.toolBlockOf.lookup tc.index
  let e := closeOpenBlock e
  let e :=
    if existed.isSome then
      e.degrade "stream.tool_calls" "并行工具调用增量交错，拆分为多个 tool_use 块"
    else e
  let b := e.st.nextBlockIndex
  let e := e.withState { e.st with toolBlockOf := e.st.toolBlockOf.insert tc.index b }
  openNewBlock .tool (contentBlockStartToolUse · (withToolMeta tc e.st.toolMeta)) e

/-- Sends a fragment of a tool call in the open block, if that is the tool's last block, and
otherwise in a new block. -/
def toolDelta (e : Emission StreamState) (tc : IrToolCallDelta) : Emission StreamState :=
  let e := e.withState (noteToolMeta tc e.st)
  match currentToolBlock e.st tc with
  | some b => e.emit (contentBlockDeltaInputJson b tc)
  | none =>
    let b := e.st.nextBlockIndex
    (openToolBlock tc e).emit (contentBlockDeltaInputJson b tc)

/-- Takes over the usage of the chunk, which is cumulative. -/
def updateUsage (usage : Option IrUsage) (e : Emission StreamState) : Emission StreamState :=
  match usage with
  | some u =>
    e.withState
      { e.st with
        usage :=
          { e.st.usage with
            promptTokens := u.promptTokens
            completionTokens := max e.st.usage.completionTokens u.completionTokens
            cacheReadTokens := u.cacheReadTokens.or e.st.usage.cacheReadTokens
            cacheWriteTokens := u.cacheWriteTokens.or e.st.usage.cacheWriteTokens } }
  | none => e

/-- Sends a `message_delta` and notes that it was sent. -/
def sendMessageDelta (event : StreamState → Value) (e : Emission StreamState) :
    Emission StreamState :=
  (e.withState { e.st with messageDeltaEmitted := true }).emit (event e.st)

/-- Closes the open block at a finish reason, and sends the `message_delta` or lets it wait. -/
def finishStage (finishReason : Option String) (usage : Option IrUsage)
    (e : Emission StreamState) : Emission StreamState :=
  match finishReason with
  | some fr =>
    let e := closeOpenBlock e
    if fr = "failed" then sendMessageDelta messageDeltaEndEvent e
    else if usage.isSome then sendMessageDelta (messageDeltaEvent fr) e
    else e.withState { e.st with pendingFinish := some fr }
  | none =>
    if usage.isSome && !e.st.messageDeltaEmitted then
      match e.st.pendingFinish with
      | some fr =>
        sendMessageDelta (messageDeltaEvent fr) (e.withState { e.st with pendingFinish := none })
      | none => e
    else e

/-- The events of one chunk. -/
def chunkFromIr (chunk : IrChunk) (st : StreamState) : Emission StreamState :=
  let e := startMessage chunk { st := st }
  let e := textStage chunk.delta.content e
  let e := thinkingStage chunk.delta.reasoningContent e
  let e := chunk.delta.toolCalls.foldl toolDelta e
  let e := updateUsage chunk.usage e
  finishStage chunk.finishReason chunk.usage e

/-- Marks the stream as broken off by the upstream. -/
def StreamState.markFailed (st : StreamState) : StreamState :=
  if st.messageDeltaEmitted then st else { st with pendingFinish := some "failed" }

/-- Sends the `message_delta` that is still due at the end. -/
def endDelta (e : Emission StreamState) : Emission StreamState :=
  if e.st.messageStartEmitted && !e.st.messageDeltaEmitted then
    let e' := e.withState { e.st with pendingFinish := none }
    match e.st.pendingFinish with
    | some fr =>
      if fr = "failed" then sendMessageDelta messageDeltaEndEvent e'
      else sendMessageDelta (messageDeltaEvent fr) e'
    | none => sendMessageDelta messageDeltaEndEvent e'
  else e

/-- The events that complete a stream; a stream without chunks has none. -/
def streamEnd (st : StreamState) : Emission StreamState :=
  let e := endDelta (closeOpenBlock { st := st })
  if e.st.messageStartEmitted && !e.st.messageStopEmitted then
    (e.withState { e.st with messageStopEmitted := true }).emit messageStopEvent
  else e

/-- The encoder as a transducer from chunks to events. -/
def encodeStep (st : StreamState) (chunk : IrChunk) : StreamState × List Value :=
  (chunkFromIr chunk st).toStep

/-- Everything a stream of chunks is turned into: the events of the chunks and the events of the
end, which the upstream may have broken off. -/
def streamEvents (chunks : List IrChunk) (failed : Bool) : List Value :=
  let (st, events) := Stream.run encodeStep {} chunks
  events ++ (streamEnd (if failed then st.markFailed else st)).events

/-! ### The decoder -/

/-- A chunk of this stream with one choice. -/
def choiceChunk (st : StreamState) (delta : IrDelta) (finishReason : Option String) : IrChunk where
  id := st.id
  model := st.model
  choices := [{ index := 0, delta := delta, finishReason := finishReason }]

def answerChunk (st : StreamState) (chunk : IrChunk) : Decoding StreamState :=
  { st := st, answer := .ok (some chunk) }

def answerNothing (st : StreamState) (degraded : ConvCtx) : Decoding StreamState :=
  { st := st, answer := .ok none, degraded := degraded }

def readMessageStart (v : Value) (st : StreamState) : Decoding StreamState :=
  let msg := v["message"]
  let st :=
    { st with
      id := msg["id"].strOrEmpty
      model := msg["model"].strOrEmpty
      usage := ((msg.get? "usage").map parseUsage).getD st.usage }
  answerChunk st (choiceChunk st { role := some .assistant } none)

/-- A `tool_use` block takes the next tool index; other blocks say nothing yet. -/
def readBlockStart (v : Value) (st : StreamState) : Decoding StreamState :=
  let idx := v["index"].asU64.getD 0
  match v["content_block"]["type"].strOrEmpty with
  | "text" => answerNothing st []
  | "thinking" => answerNothing st []
  | "tool_use" =>
    let toolIdx := st.nextToolIndex
    let st :=
      { st with
        nextToolIndex := toolIdx + 1
        blockToTool := st.blockToTool.insert idx toolIdx }
    answerChunk st
      (choiceChunk st
        { toolCalls :=
            [{ index := toolIdx
               id := v["content_block"]["id"].asStr
               name := v["content_block"]["name"].asStr
               arguments := none }] } none)
  | other =>
    answerNothing st (degrade "stream.content_block_start.type" ("未知内容块类型: " ++ other))

def readBlockDelta (v : Value) (st : StreamState) : Decoding StreamState :=
  let idx := v["index"].asU64.getD 0
  match v["delta"]["type"].strOrEmpty with
  | "text_delta" =>
    answerChunk st (choiceChunk st { content := some v["delta"]["text"].strOrEmpty } none)
  | "thinking_delta" =>
    answerChunk st
      (choiceChunk st { reasoningContent := some v["delta"]["thinking"].strOrEmpty } none)
  | "input_json_delta" =>
    match st.blockToTool.lookup idx with
    | some toolIdx =>
      answerChunk st
        (choiceChunk st
          { toolCalls :=
              [{ index := toolIdx, arguments := some v["delta"]["partial_json"].strOrEmpty }] }
          none)
    | none =>
      answerNothing st
        (degrade "stream.content_block_delta"
          ("未登记的内容块 index，丢弃工具增量: " ++ toString idx))
  | other =>
    answerNothing st (degrade "stream.content_block_delta.type" ("未知增量类型: " ++ other))

def readBlockStop (v : Value) (st : StreamState) : Decoding StreamState :=
  match v["index"].asU64 with
  | some idx => answerNothing { st with blockToTool := st.blockToTool.erase idx } []
  | none => answerNothing st []

/-- The output count of `message_delta` is cumulative, so the largest one counts. -/
def readMessageDelta (v : Value) (st : StreamState) : Decoding StreamState :=
  let usage :=
    match v.get? "usage" with
    | some u =>
      { st.usage with
        completionTokens := max st.usage.completionTokens (u["output_tokens"].asU64.getD 0)
        cacheReadTokens := u["cache_read_input_tokens"].asU64.or st.usage.cacheReadTokens
        cacheWriteTokens := u["cache_creation_input_tokens"].asU64.or st.usage.cacheWriteTokens }
    | none => st.usage
  let st := { st with usage := usage }
  let finishReason := v["delta"]["stop_reason"].asStr.map normalizeFinishReason
  answerChunk st { choiceChunk st {} finishReason with usage := some st.usage }

/-- A stream error becomes a chunk that finishes with `failed`. -/
def readError (v : Value) (st : StreamState) : Decoding StreamState :=
  let msg := v["error"]["message"].asStr.getD "未知错误"
  { answerChunk st { choiceChunk st {} (some "failed") with usage := some st.usage } with
    degraded := degrade "stream.error" ("Anthropic 流错误: " ++ msg) }

/-- Reads one event. -/
def chunkToIr (v : Value) (st : StreamState) : Decoding StreamState :=
  if v.isObject then
    match v["type"].strOrEmpty with
    | "message_start" => readMessageStart v st
    | "content_block_start" => readBlockStart v st
    | "content_block_delta" => readBlockDelta v st
    | "content_block_stop" => readBlockStop v st
    | "message_delta" => readMessageDelta v st
    | "message_stop" => answerNothing { st with messageStopEmitted := true } []
    | "ping" => answerNothing st []
    | "error" => readError v st
    | other => answerNothing st (degrade "stream.event.type" ("未知事件: " ++ other))
  else { st := st, answer := .error (.parse "chunk 不是对象") }

/-- Reads the text of one event. -/
def chunkToIrText [SerdeJson] (data : String) (st : StreamState) : Decoding StreamState :=
  match SerdeJson.ofText data with
  | .ok v => chunkToIr v st
  | .error message => { st := st, answer := .error (.parse message) }

end NextApi.Anthropic
