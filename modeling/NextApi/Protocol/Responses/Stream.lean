import NextApi.Protocol.Emission
import NextApi.Protocol.Usage
import NextApi.Stream.Grouping

/-!
# Responses streams

The encoder announces an output item when its first delta arrives, numbers the items in that order,
and sends the deltas under the id and the number of their item. The terminal event repeats all
items: the message, the reasoning and then the function calls (`buildFinalResponse`). It is sent as
soon as a finish reason and a usage are known, or at the end of the stream (`finishStage`,
`streamEnd`).

The decoder keeps the function calls that were announced, and gives every fragment of arguments the
id and the name of its call.

The ids of the items end in suffixes drawn from the clock and a counter of the process
(`RandSuffix`).
-/

set_option autoImplicit false

namespace NextApi.Responses

open Json Ir

/-- The suffixes that the calls of `rand_suffix` during a stream return, in order. -/
class RandSuffix where
  suffix : ℕ → String

/-- What the encoder has collected of a function call. -/
structure FnItemState where
  outputIndex : UInt32 := 0
  itemId : String := ""
  callId : String := ""
  name : String := ""
  arguments : String := ""
  deriving DecidableEq, Inhabited

/-- The state of a stream, for both directions. The number of suffixes drawn so far is not part of
it in the code. -/
structure StreamState where
  id : String := ""
  model : String := ""
  createdAt : ℤ := 0
  itemToIndex : Table String UInt32 := ∅
  fnMeta : Table UInt32 (String × String) := ∅
  fnIndexCounter : UInt32 := 0
  created : Bool := false
  completed : Bool := false
  nextOutputIndex : UInt32 := 0
  messageItemAdded : Bool := false
  messageItemId : String := ""
  messageOutputIndex : UInt32 := 0
  messageText : String := ""
  reasoningItemAdded : Bool := false
  reasoningItemId : String := ""
  reasoningOutputIndex : UInt32 := 0
  reasoningText : String := ""
  toolItems : Table UInt32 FnItemState := ∅
  lastUsage : Option IrUsage := none
  pendingFinish : Option String := none
  drawn : ℕ := 0

/-! ### The decoder -/

def baseChunk (st : StreamState) : IrChunk where
  id := st.id
  model := st.model
  created := st.createdAt

/-- A chunk with one choice. -/
def choiceChunk (st : StreamState) (delta : IrDelta) (finishReason : Option String) : IrChunk :=
  { baseChunk st with choices := [{ index := 0, delta := delta, finishReason := finishReason }] }

def answerChunk (st : StreamState) (chunk : IrChunk) : Decoding StreamState :=
  { st := st, answer := .ok (some chunk) }

def answerNothing (st : StreamState) (degraded : ConvCtx) : Decoding StreamState :=
  { st := st, answer := .ok none, degraded := degraded }

/-- The id of a call: its `call_id`, or the id of the item when that is missing or empty. -/
def itemCallId (item : Value) : String :=
  ((item["call_id"].asStr.filter fun s ↦ decide (s ≠ "")).or item["id"].asStr).getD ""

def readCreated (v : Value) (st : StreamState) : Decoding StreamState :=
  let resp := v["response"]
  answerNothing
    { st with
      id := resp["id"].strOrEmpty
      model := resp["model"].strOrEmpty
      createdAt := resp["created_at"].asI64.getD 0 } []

/-- A function call that is announced takes the next index. -/
def readItemAdded (v : Value) (st : StreamState) : Decoding StreamState :=
  let item := v["item"]
  if item["type"].asStr = some "function_call" then
    let idx := st.fnIndexCounter
    answerNothing
      { st with
        fnIndexCounter := idx + 1
        itemToIndex := st.itemToIndex.insert item["id"].strOrEmpty idx
        fnMeta := st.fnMeta.insert idx (itemCallId item, item["name"].strOrEmpty) } []
  else answerNothing st []

/-- A function call that is done fills in what its announcement left empty. -/
def readItemDone (v : Value) (st : StreamState) : Decoding StreamState :=
  let item := v["item"]
  if item["type"].asStr = some "function_call" then
    match st.itemToIndex.lookup item["id"].strOrEmpty with
    | some idx =>
      let entry := (st.fnMeta.lookup idx).getD ("", "")
      answerNothing
        { st with
          fnMeta := st.fnMeta.insert idx
            (if entry.1 = "" then itemCallId item else entry.1,
              if entry.2 = "" then item["name"].strOrEmpty else entry.2) } []
    | none => answerNothing st []
  else answerNothing st []

def readTextDelta (v : Value) (st : StreamState) : Decoding StreamState :=
  let text := v["delta"].strOrEmpty
  if text = "" then answerNothing st []
  else answerChunk st (choiceChunk st { content := some text } none)

def readReasoningDelta (v : Value) (st : StreamState) : Decoding StreamState :=
  let text := v["delta"].strOrEmpty
  if text = "" then answerNothing st []
  else answerChunk st (choiceChunk st { reasoningContent := some text } none)

/-- A fragment of arguments, with the id and the name of its call. -/
def readArgumentsDelta (v : Value) (st : StreamState) : Decoding StreamState :=
  let itemId := v["item_id"].strOrEmpty
  let text := v["delta"].strOrEmpty
  if text = "" then answerNothing st []
  else
    match st.itemToIndex.lookup itemId with
    | none =>
      answerNothing st
        (degrade "stream.function_call_arguments.delta" ("未知 item_id，丢弃参数增量: " ++ itemId))
    | some index =>
      let (callId, name) := (st.fnMeta.lookup index).getD ("", "")
      answerChunk st
        (choiceChunk st
          { toolCalls :=
              [{ index := index
                 id := if callId = "" then none else some callId
                 name := if name = "" then none else some name
                 arguments := some text }] } none)

/-- The chunk of a terminal event. -/
def finishChunk (v : Value) (st : StreamState) (finishReason : String) : IrChunk :=
  { choiceChunk st {} (some finishReason) with
    usage := (v["response"].get? "usage").map parseUsage }

def readFailed (v : Value) (st : StreamState) : Decoding StreamState :=
  let msg := v["response"]["error"]["message"].asStr.getD "未知错误"
  { answerChunk st (finishChunk v st "failed") with
    degraded := degrade "stream.response.failed" ("上游响应失败: " ++ msg) }

def readError (v : Value) (st : StreamState) : Decoding StreamState :=
  let msg := v["message"].asStr.getD "未知错误"
  { answerChunk st (choiceChunk st {} (some "failed")) with
    degraded := degrade "stream.error" ("上游流错误事件: " ++ msg) }

/-- Events of a regular stream that say nothing new. -/
def benignEvents : List String :=
  ["response.in_progress", "response.queued", "response.output_text.done",
    "response.content_part.added", "response.content_part.done",
    "response.function_call_arguments.done", "response.reasoning_summary_part.added",
    "response.reasoning_summary_part.done", "response.reasoning_summary_text.done",
    "response.output_text.annotation.added", "response.refusal.delta", "response.refusal.done"]

/-- Reads one event. -/
def chunkToIr (v : Value) (st : StreamState) : Decoding StreamState :=
  if v.isObject then
    match v["type"].strOrEmpty with
    | "response.created" => readCreated v st
    | "response.output_item.added" => readItemAdded v st
    | "response.output_item.done" => readItemDone v st
    | "response.output_text.delta" => readTextDelta v st
    | "response.reasoning_summary_text.delta" => readReasoningDelta v st
    | "response.function_call_arguments.delta" => readArgumentsDelta v st
    | "response.completed" =>
      answerChunk st (finishChunk v st (normalizeFinishReason "completed"))
    | "response.incomplete" =>
      answerChunk st (finishChunk v st (normalizeFinishReason "incomplete"))
    | "response.failed" => readFailed v st
    | "error" => readError v st
    | other =>
      answerNothing st
        (if other ∈ benignEvents then [] else degrade "stream.event.type" ("未知事件，忽略: " ++ other))
  else { st := st, answer := .error (.parse "chunk 不是对象") }

/-- Reads the text of one event. -/
def chunkToIrText [SerdeJson] (data : String) (st : StreamState) : Decoding StreamState :=
  match SerdeJson.ofText data with
  | .ok v => chunkToIr v st
  | .error message => { st := st, answer := .error (.parse message) }

/-- The decoder as a transducer from events to chunks. An event that cannot be read gives none. -/
def decodeStep (st : StreamState) (v : Value) : StreamState × List IrChunk :=
  let read := chunkToIr v st
  (read.st, match read.answer with | .ok (some chunk) => [chunk] | _ => [])

/-! ### Events -/

/-- An event about the response as a whole. -/
def responseEvent (type : String) (payload : Value) : Value :=
  .object [("type", .str type), ("response", payload)]

def createdEvent (st : StreamState) : Value :=
  responseEvent "response.created"
    (.object
      [("id", .str st.id), ("object", .str "response"), ("created_at", .int st.createdAt),
        ("status", .str "in_progress"), ("model", .str st.model), ("output", .arr []),
        ("usage", .null)])

def itemAddedEvent (outputIndex : UInt32) (item : Value) : Value :=
  .object
    [("type", .str "response.output_item.added"), ("output_index", .ofNat outputIndex.toNat),
      ("item", item)]

def messageAddedEvent (st : StreamState) : Value :=
  itemAddedEvent st.messageOutputIndex
    (.object
      [("id", .str st.messageItemId), ("type", .str "message"), ("status", .str "in_progress"),
        ("role", .str "assistant"), ("content", .arr [])])

def reasoningAddedEvent (st : StreamState) : Value :=
  itemAddedEvent st.reasoningOutputIndex
    (.object
      [("id", .str st.reasoningItemId), ("type", .str "reasoning"), ("status", .str "in_progress"),
        ("summary", .arr [.object [("type", .str "summary_text"), ("text", .str "")]])])

def functionCallAddedEvent (state : FnItemState) : Value :=
  itemAddedEvent state.outputIndex
    (.object
      [("id", .str state.itemId), ("type", .str "function_call"), ("status", .str "in_progress"),
        ("call_id", .str state.callId), ("name", .str state.name),
        ("arguments", .str state.arguments)])

def outputTextDeltaEvent (st : StreamState) (text : String) : Value :=
  .object
    [("type", .str "response.output_text.delta"), ("item_id", .str st.messageItemId),
      ("output_index", .ofNat st.messageOutputIndex.toNat), ("content_index", .int 0),
      ("delta", .str text)]

def reasoningDeltaEvent (st : StreamState) (text : String) : Value :=
  .object
    [("type", .str "response.reasoning_summary_text.delta"), ("item_id", .str st.reasoningItemId),
      ("output_index", .ofNat st.reasoningOutputIndex.toNat), ("summary_index", .int 0),
      ("delta", .str text)]

def argumentsDeltaEvent (state : FnItemState) (text : String) : Value :=
  .object
    [("type", .str "response.function_call_arguments.delta"), ("item_id", .str state.itemId),
      ("output_index", .ofNat state.outputIndex.toNat), ("delta", .str text)]

/-! ### The terminal event -/

/-- A part of this type with this text, unless the text is empty. -/
def textParts (type text : String) : Value :=
  .arr (if text = "" then [] else [.object [("type", .str type), ("text", .str text)]])

def outputMessageItem (text id : String) : Value :=
  .object
    [("id", .str id), ("type", .str "message"), ("status", .str "completed"),
      ("role", .str "assistant"), ("content", textParts "output_text" text)]

def outputReasoningItem (text id : String) : Value :=
  .object
    [("id", .str id), ("type", .str "reasoning"), ("status", .str "completed"),
      ("summary", textParts "summary_text" text)]

def outputFunctionCallItem (state : FnItemState) : Value :=
  .object
    [("id", .str state.itemId), ("type", .str "function_call"), ("status", .str "completed"),
      ("call_id", .str state.callId), ("name", .str state.name),
      ("arguments", .str state.arguments)]

/-- The function calls in the order of their output indices. -/
def sortedTools (st : StreamState) : List FnItemState :=
  (st.toolItems.toList.map Prod.snd).mergeSort fun a b ↦ decide (a.outputIndex ≤ b.outputIndex)

/-- The items of the terminal event. -/
def finalOutput (st : StreamState) : List Value :=
  (if st.messageItemAdded then [outputMessageItem st.messageText st.messageItemId] else []) ++
  (if st.reasoningItemAdded then [outputReasoningItem st.reasoningText st.reasoningItemId] else []) ++
  (sortedTools st).map outputFunctionCallItem

/-- The response object of the terminal event. -/
def buildFinalResponse (st : StreamState) (status : String) : Value × ConvCtx :=
  let usage := st.lastUsage.map usageFromIr
  (.obj (Map.insertPresent []
    [("id", some (.str st.id)), ("object", some (.str "response")),
      ("created_at", some (.int st.createdAt)), ("status", some (.str status)),
      ("incomplete_details",
        if status = "incomplete" then some (.object [("reason", .str "max_output_tokens")])
        else none),
      ("error",
        if status = "failed" then
          some (.object [("code", .str "server_error"), ("message", .str "上游响应失败")])
        else none),
      ("model", some (.str st.model)), ("output", some (.arr (finalOutput st))),
      ("usage", some ((usage.map Prod.fst).getD .null))]),
    (usage.map Prod.snd).getD [])

/-- The status and the terminal event of a finish reason. -/
def terminalOf : Option String → String × String
  | some "failed" => ("failed", "response.failed")
  | some "length" => ("incomplete", "response.incomplete")
  | _ => ("completed", "response.completed")

/-- Sends the terminal event. -/
def sendTerminal (finishReason : Option String) (e : Emission StreamState) :
    Emission StreamState :=
  let (status, type) := terminalOf finishReason
  let (response, ctx) := buildFinalResponse e.st status
  { e.emit (responseEvent type response) with degraded := e.degraded ++ ctx }

/-! ### The encoder -/

section Encoder

variable [RandSuffix]

/-- The first chunk sends `response.created`. -/
def startResponse (chunk : IrChunk) (e : Emission StreamState) : Emission StreamState :=
  if e.st.created then e
  else
    let st :=
      { e.st with created := true, id := chunk.id, model := chunk.model, createdAt := chunk.created }
    (e.withState st).emit (createdEvent st)

/-- Announces the message, unless it is there already. -/
def addMessage (e : Emission StreamState) : Emission StreamState :=
  if e.st.messageItemAdded then e
  else
    let st :=
      { e.st with
        messageItemAdded := true
        messageOutputIndex := e.st.nextOutputIndex
        nextOutputIndex := e.st.nextOutputIndex + 1
        messageItemId := "msg_" ++ RandSuffix.suffix e.st.drawn
        drawn := e.st.drawn + 1 }
    (e.withState st).emit (messageAddedEvent st)

def contentStage (content : Option String) (e : Emission StreamState) : Emission StreamState :=
  match content with
  | some text =>
    if text = "" then e
    else
      let e := addMessage e
      let st := { e.st with messageText := e.st.messageText ++ text }
      (e.withState st).emit (outputTextDeltaEvent st text)
  | none => e

/-- Announces the reasoning, unless it is there already. -/
def addReasoning (e : Emission StreamState) : Emission StreamState :=
  if e.st.reasoningItemAdded then e
  else
    let st :=
      { e.st with
        reasoningItemAdded := true
        reasoningOutputIndex := e.st.nextOutputIndex
        nextOutputIndex := e.st.nextOutputIndex + 1
        reasoningItemId := "rs_" ++ RandSuffix.suffix e.st.drawn
        drawn := e.st.drawn + 1 }
    (e.withState st).emit (reasoningAddedEvent st)

def reasoningStage (reasoning : Option String) (e : Emission StreamState) :
    Emission StreamState :=
  match reasoning with
  | some text =>
    if text = "" then e
    else
      let e := addReasoning e
      let st := { e.st with reasoningText := e.st.reasoningText ++ text }
      (e.withState st).emit (reasoningDeltaEvent st text)
  | none => e

/-- Announces the function call of a fragment, unless it is there already. -/
def addTool (tc : IrToolCallDelta) (e : Emission StreamState) : Emission StreamState :=
  if (e.st.toolItems.lookup tc.index).isSome then e
  else
    let state : FnItemState :=
      { outputIndex := e.st.nextOutputIndex
        itemId := "fc_" ++ RandSuffix.suffix e.st.drawn
        callId := tc.id.getD ""
        name := tc.name.getD "" }
    (e.withState
      { e.st with
        nextOutputIndex := e.st.nextOutputIndex + 1
        drawn := e.st.drawn + 1
        toolItems := e.st.toolItems.insert tc.index state }).emit (functionCallAddedEvent state)

def toolStage (e : Emission StreamState) (tc : IrToolCallDelta) : Emission StreamState :=
  let e := addTool tc e
  match tc.arguments, e.st.toolItems.lookup tc.index with
  | some args, some state =>
    let state := { state with arguments := state.arguments ++ args }
    (e.withState { e.st with toolItems := e.st.toolItems.insert tc.index state }).emit
      (argumentsDeltaEvent state args)
  | _, _ => e

/-- Notes the usage and the finish reason of a chunk. -/
def noteEnd (chunk : IrChunk) (e : Emission StreamState) : Emission StreamState :=
  e.withState
    { e.st with
      lastUsage := chunk.usage.or e.st.lastUsage
      pendingFinish := chunk.finishReason.or e.st.pendingFinish }

/-- Sends the terminal event at a failure, and otherwise once the usage is known as well. -/
def finishStage (e : Emission StreamState) : Emission StreamState :=
  if !e.st.completed && e.st.pendingFinish.isSome &&
      (decide (e.st.pendingFinish = some "failed") || e.st.lastUsage.isSome) then
    sendTerminal e.st.pendingFinish
      (e.withState { e.st with completed := true, pendingFinish := none })
  else e

/-- The events of one chunk. -/
def chunkFromIr (chunk : IrChunk) (st : StreamState) : Emission StreamState :=
  let e := startResponse chunk { st := st }
  let e := contentStage chunk.delta.content e
  let e := reasoningStage chunk.delta.reasoningContent e
  let e := chunk.delta.toolCalls.foldl toolStage e
  finishStage (noteEnd chunk e)

/-- Marks the stream as broken off by the upstream. -/
def StreamState.markFailed (st : StreamState) : StreamState :=
  if st.completed then st else { st with pendingFinish := some "failed" }

/-- The terminal event, if it was not sent before. -/
def streamEnd (st : StreamState) : Emission StreamState :=
  if st.completed then { st := st }
  else
    sendTerminal st.pendingFinish { st := { st with completed := true, pendingFinish := none } }

/-- The encoder as a transducer from chunks to events. -/
def encodeStep (st : StreamState) (chunk : IrChunk) : StreamState × List Value :=
  (chunkFromIr chunk st).toStep

/-- Everything a stream of chunks is turned into. -/
def streamEvents (chunks : List IrChunk) (failed : Bool) : List Value :=
  let (st, events) := Stream.run encodeStep {} chunks
  events ++ (streamEnd (if failed then st.markFailed else st)).events

end Encoder

end NextApi.Responses
