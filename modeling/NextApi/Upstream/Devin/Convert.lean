import Mathlib.Data.List.Sort
import NextApi.Json.Value
import NextApi.Upstream.Devin.Proto

/-!
# From Devin messages to Responses events

The messages of a Devin stream have parts of the answer, of the thoughts and of tool calls, and the
usage so far. A `StreamConv` makes Responses events of them: the first message creates the response,
an item is announced with its first part and gets the next output index, and every part is a delta.
At the end of the stream the items are done and the response is completed; when the stream breaks,
the response has failed.

An error in a message may come when a part of it is already taken in; its events are then lost.

The ids and the time that a converter makes up are given by a `MadeUp` instance.
-/

set_option autoImplicit false

namespace NextApi.Devin

open Json

/-- The random parts of ids, and the time of the beginning. -/
class MadeUp where
  reasoningId : String
  messageId : String
  responseId : String
  callId : ℕ → String
  now : ℤ

/-- The usage so far. -/
structure DevinUsage where
  inputUncached : ℕ := 0
  cacheRead : ℕ := 0
  output : ℕ := 0
  deriving DecidableEq, Inhabited

structure FnItem where
  callId : String
  name : String
  args : String
  itemId : String
  outputIndex : ℕ
  deriving DecidableEq, Inhabited

structure StreamConv where
  model : String
  respId : String := ""
  createdAt : ℤ
  reasoningItemId : String
  reasoningIndex : ℕ := 0
  reasoningAdded : Bool := false
  reasoningText : String := ""
  msgItemId : String
  msgIndex : ℕ := 0
  created : Bool := false
  msgAdded : Bool := false
  msgText : String := ""
  nextIndex : ℕ := 0
  calls : List FnItem := []
  usage : Option DevinUsage := none
  finished : Bool := false
  deriving DecidableEq, Inhabited

/-! ### Items -/

namespace StreamConv

def itemMessage (conv : StreamConv) (status : String) : Value :=
  .object
    [("id", .str conv.msgItemId), ("type", .str "message"), ("status", .str status),
      ("role", .str "assistant"),
      ("content", .arr (if conv.msgText = "" then []
        else [.object [("type", .str "output_text"), ("text", .str conv.msgText)]]))]

def itemReasoning (conv : StreamConv) (status : String) : Value :=
  .object
    [("id", .str conv.reasoningItemId), ("type", .str "reasoning"), ("status", .str status),
      ("summary", .arr
        [.object [("type", .str "summary_text"), ("text", .str conv.reasoningText)]])]

end StreamConv

def FnItem.item (c : FnItem) (status : String) : Value :=
  .object
    [("id", .str c.itemId), ("type", .str "function_call"), ("status", .str status),
      ("call_id", .str c.callId), ("name", .str c.name), ("arguments", .str c.args)]

/-- An item is announced. -/
def eventItemAdded (index : ℕ) (item : Value) : Value :=
  .object
    [("type", .str "response.output_item.added"), ("output_index", .ofNat index), ("item", item)]

def eventItemDone (index : ℕ) (item : Value) : Value :=
  .object
    [("type", .str "response.output_item.done"), ("output_index", .ofNat index), ("item", item)]

/-! ### The response -/

namespace StreamConv

/-- Makes up an id of the response, if there is none. -/
def respIdOrGen [MadeUp] (conv : StreamConv) : StreamConv :=
  if conv.respId = "" then { conv with respId := "resp_" ++ MadeUp.responseId } else conv

def usageJson (conv : StreamConv) : Value :=
  match conv.usage with
  | some u =>
    let saturatingAdd (a b : ℕ) : ℕ := min (a + b) (2 ^ 64 - 1)
    let inputTotal := saturatingAdd u.inputUncached u.cacheRead
    .object
      [("input_tokens", .ofNat inputTotal), ("output_tokens", .ofNat u.output),
        ("total_tokens", .ofNat (saturatingAdd inputTotal u.output)),
        ("input_tokens_details", .object [("cached_tokens", .ofNat u.cacheRead)])]
  | none => .null

/-- The items with their output indices. -/
def items (conv : StreamConv) : List (ℕ × Value) :=
  (if conv.reasoningAdded then [(conv.reasoningIndex, conv.itemReasoning "completed")] else []) ++
    (if conv.msgAdded then [(conv.msgIndex, conv.itemMessage "completed")] else []) ++
    conv.calls.map fun c ↦ (c.outputIndex, c.item "completed")

/-- By output index; what has the same index stays in order. -/
def byIndex (entries : List (ℕ × Value)) : List (ℕ × Value) :=
  entries.insertionSort fun a b ↦ a.1 ≤ b.1

/-- The response at the end, with the members that a failed one has in addition. -/
def finalResponse (conv : StreamConv) (status : String) (more : List (String × Value)) : Value :=
  .object
    ([("id", .str conv.respId), ("object", .str "response"),
      ("created_at", .int conv.createdAt), ("status", .str status), ("model", .str conv.model),
      ("output", .arr ((byIndex conv.items).map Prod.snd)), ("usage", conv.usageJson)] ++ more)

section Events

variable [MadeUp]

/-- The first event. -/
def create (conv : StreamConv) : StreamConv × List Value :=
  if conv.created then (conv, [])
  else
    let conv := respIdOrGen { conv with created := true }
    (conv,
      [.object
        [("type", .str "response.created"),
          ("response", .object
            [("id", .str conv.respId), ("object", .str "response"),
              ("created_at", .int conv.createdAt), ("status", .str "in_progress"),
              ("model", .str conv.model), ("output", .arr []), ("usage", .null)])]])

/-! ### Parts -/

/-- Announces the message, once. -/
def openMessage (conv : StreamConv) : StreamConv × List Value :=
  if conv.msgAdded then (conv, [])
  else
    let conv := { conv with msgAdded := true, msgIndex := conv.nextIndex,
                            nextIndex := conv.nextIndex + 1 }
    (conv, [eventItemAdded conv.msgIndex (conv.itemMessage "in_progress")])

def growMessage (conv : StreamConv) (text : String) : StreamConv × List Value :=
  ({ conv with msgText := conv.msgText ++ text },
    [.object
      [("type", .str "response.output_text.delta"), ("item_id", .str conv.msgItemId),
        ("output_index", .ofNat conv.msgIndex), ("content_index", .ofNat 0),
        ("delta", .str text)]])

/-- A part of the answer. -/
def feedText (conv : StreamConv) (text : String) : StreamConv × List Value :=
  let opened := conv.openMessage
  let grown := opened.1.growMessage text
  (grown.1, opened.2 ++ grown.2)

/-- Announces the thoughts, once. -/
def openReasoning (conv : StreamConv) : StreamConv × List Value :=
  if conv.reasoningAdded then (conv, [])
  else
    let conv := { conv with reasoningAdded := true, reasoningIndex := conv.nextIndex,
                            nextIndex := conv.nextIndex + 1 }
    (conv, [eventItemAdded conv.reasoningIndex (conv.itemReasoning "in_progress")])

def growReasoning (conv : StreamConv) (text : String) : StreamConv × List Value :=
  ({ conv with reasoningText := conv.reasoningText ++ text },
    [.object
      [("type", .str "response.reasoning_summary_text.delta"),
        ("item_id", .str conv.reasoningItemId), ("output_index", .ofNat conv.reasoningIndex),
        ("summary_index", .ofNat 0), ("delta", .str text)]])

/-- A part of the thoughts. -/
def feedThinking (conv : StreamConv) (text : String) : StreamConv × List Value :=
  let opened := conv.openReasoning
  let grown := opened.1.growReasoning text
  (grown.1, opened.2 ++ grown.2)

/-- Announces a new call, which is the last one. -/
def openCall (conv : StreamConv) (callId name : String) : StreamConv × List Value :=
  let c : FnItem :=
    { callId, name, args := "", itemId := "fc_" ++ MadeUp.callId conv.calls.length,
      outputIndex := conv.nextIndex }
  ({ conv with nextIndex := conv.nextIndex + 1, calls := conv.calls ++ [c] },
    [eventItemAdded c.outputIndex (c.item "in_progress")])

/-- The call with this id, a new one if there is none; without an id it is the last one. -/
def hostCall (conv : StreamConv) (callId name : String) :
    Option ((StreamConv × List Value) × ℕ) :=
  if callId ≠ "" then
    match conv.calls.findIdx? fun c ↦ decide (c.callId = callId) with
    | some i => some ((conv, []), i)
    | none => some (conv.openCall callId name, conv.calls.length)
  else if conv.calls.length = 0 then none
  else some ((conv, []), conv.calls.length - 1)

def growCall (conv : StreamConv) (idx : ℕ) (frag : String) : StreamConv × List Value :=
  match conv.calls[idx]? with
  | some c =>
    if frag = "" then (conv, [])
    else
      ({ conv with calls := conv.calls.set idx { c with args := c.args ++ frag } },
        [.object
          [("type", .str "response.function_call_arguments.delta"), ("item_id", .str c.itemId),
            ("output_index", .ofNat c.outputIndex), ("delta", .str frag)]])
  | none => (conv, [])

/-- A part of a tool call; without a call that it belongs to it is dropped. -/
def feedToolDelta (conv : StreamConv) (payload : List UInt8) :
    Except String (StreamConv × List Value) :=
  (decode payload).map fun fields ↦
    let text (field : ℕ) : String := ((get fields field).bind Val.asStr).getD ""
    match conv.hostCall (text 1) (text 2) with
    | some (opened, idx) =>
      let grown := opened.1.growCall idx (text 3)
      (grown.1, opened.2 ++ grown.2)
    | none => (conv, [])

/-- The counts that a usage message has. -/
def feedUsage (conv : StreamConv) (payload : List UInt8) : StreamConv :=
  match decode payload with
  | .error _ => conv
  | .ok fields =>
    let u := conv.usage.getD {}
    let count (field : ℕ) (old : ℕ) : ℕ :=
      (((get fields field).bind Val.asUint).map BitVec.toNat).getD old
    let usage : DevinUsage :=
      { inputUncached := count 2 u.inputUncached, output := count 3 u.output,
        cacheRead := count 5 u.cacheRead }
    { conv with usage := some usage }

/-! ### Messages -/

/-- Without what upstream ids begin with. -/
def stripBot (s : String) : String :=
  if "bot-".toList <+: s.toList then String.ofList (s.toList.drop 4) else s

/-- Takes the id and the time from a field. -/
def readMeta (conv : StreamConv) (f : Field) : StreamConv :=
  match f.1 with
  | 1 =>
    match f.2.asStr with
    | some s => if conv.respId = "" then { conv with respId := "resp_" ++ stripBot s } else conv
    | none => conv
  | 2 =>
    match (f.2.asBytes.bind fun b ↦ (decode b).toOption).bind fun inner ↦
        (get inner 1).bind Val.asUint with
    | some sec => { conv with createdAt := sec.toInt }
    | none => conv
  | _ => conv

/-- Takes in a part. -/
def feedField (conv : StreamConv) (f : Field) : Except String (StreamConv × List Value) :=
  match f.1 with
  | 6 =>
    match f.2.asBytes with
    | some b => conv.feedToolDelta b
    | none => .ok (conv, [])
  | 7 =>
    match f.2.asBytes with
    | some b => .ok (conv.feedUsage b, [])
    | none => .ok (conv, [])
  | 9 =>
    match f.2.asStr with
    | some s => .ok (conv.feedThinking s)
    | none => .ok (conv, [])
  | 3 =>
    match f.2.asStr with
    | some s => .ok (conv.feedText s)
    | none => .ok (conv, [])
  | _ => .ok (conv, [])

/-- Takes in the parts of a message, up to an error. -/
def feedFields (conv : StreamConv) : List Field → StreamConv × Except String (List Value)
  | [] => (conv, .ok [])
  | f :: rest =>
    match conv.feedField f with
    | .error message => (conv, .error message)
    | .ok (conv, events) =>
      let fed := conv.feedFields rest
      (fed.1, fed.2.map fun more ↦ events ++ more)

/-- Takes in a message. -/
def feed (conv : StreamConv) (payload : List UInt8) : StreamConv × Except String (List Value) :=
  match decode payload with
  | .error message => (conv, .error message)
  | .ok fields =>
    let created := (fields.foldl readMeta conv).create
    let fed := created.1.feedFields fields
    (fed.1, fed.2.map fun more ↦ created.2 ++ more)

/-! ### The end -/

/-- What is sent when the items are done, with the output indices. -/
def doneEvents (conv : StreamConv) : List (ℕ × Value) :=
  (if conv.reasoningAdded then
    [(conv.reasoningIndex,
      .object
        [("type", .str "response.reasoning_summary_text.done"),
          ("item_id", .str conv.reasoningItemId), ("output_index", .ofNat conv.reasoningIndex),
          ("summary_index", .ofNat 0), ("text", .str conv.reasoningText)]),
      (conv.reasoningIndex,
        eventItemDone conv.reasoningIndex (conv.itemReasoning "completed"))] else []) ++
    (if conv.msgAdded then
      [(conv.msgIndex,
        .object
          [("type", .str "response.output_text.done"), ("item_id", .str conv.msgItemId),
            ("output_index", .ofNat conv.msgIndex), ("text", .str conv.msgText)]),
        (conv.msgIndex, eventItemDone conv.msgIndex (conv.itemMessage "completed"))] else []) ++
    conv.calls.map fun c ↦ (c.outputIndex, eventItemDone c.outputIndex (c.item "completed"))

def finishEvents (conv : StreamConv) : StreamConv × List Value :=
  if conv.finished then (conv, [])
  else
    let conv' := respIdOrGen { conv with finished := true }
    (conv',
      (byIndex conv.doneEvents).map Prod.snd ++
        [.object
          [("type", .str "response.completed"), ("response", conv'.finalResponse "completed" [])]])

/-- The stream has ended. -/
def finish (conv : StreamConv) : StreamConv × List Value :=
  if conv.finished then (conv, [])
  else
    let created := conv.create
    let done := created.1.finishEvents
    (done.1, created.2 ++ done.2)

/-- The stream has broken off. -/
def fail (conv : StreamConv) (message : String) : StreamConv × List Value :=
  if conv.finished then (conv, [])
  else
    let conv := { conv with finished := true }
    if !conv.created then (conv, [])
    else
      let conv := respIdOrGen conv
      (conv,
        [.object
          [("type", .str "response.failed"),
            ("response", conv.finalResponse "failed"
              [("error", .object
                [("code", .str "server_error"), ("message", .str message)])])]])

/-- The response of a request without streaming. -/
def finalJson (conv : StreamConv) : Value :=
  (respIdOrGen (if conv.finished then conv else conv.finish.1)).finalResponse "completed" []

def new (model : String) : StreamConv where
  model := model
  createdAt := MadeUp.now
  reasoningItemId := "rs_" ++ MadeUp.reasoningId
  msgItemId := "msg_" ++ MadeUp.messageId

end Events

end StreamConv

end NextApi.Devin
