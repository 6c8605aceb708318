import NextApi.Protocol.Responses.Ledger
import NextApi.Upstream.Devin.Convert

/-!
# The events of a converter

The events of a converter answer a request (`Answers`) when they create the response first, keep the
contract of a Responses stream, and announce just the items that the terminal event has, each with
its own output index. A converter that has not ended keeps its items as its events say (`Live`), and
every message goes on so (`live_feed`), unless an error comes in the middle of it. From there both
ends answer the request (`done_finish`, `answers_fail`).
-/

set_option autoImplicit false

namespace NextApi.Devin

open Json
open Responses (keeps_nil Contract Keeps ItemEvent ItemRef Snapshot addedRef entryOf itemText
  partsText viewEvent)

/-! ### Answers -/

def typeOf (v : Value) : String := v["type"].strOrEmpty

/-- The items that are announced. -/
def announced (events : List Value) : List ItemRef := (events.map viewEvent).filterMap addedRef

/-- The events of a whole response. -/
structure Answers (events : List Value) : Prop where
  starts : events.head?.map typeOf = some "response.created"
  contract : Contract events
  distinct : ((announced events).map ItemRef.index).Nodup
  complete : ∀ output, .terminal output ∈ events.map viewEvent →
    output.length = (announced events).length

namespace StreamConv

/-! ### Items -/

theorem entryOf_itemMessage (conv : StreamConv) (k : ℕ) (status : String) :
    entryOf (k, conv.itemMessage status) = (⟨k, conv.msgItemId, "message"⟩, conv.msgText) := by
  by_cases h : conv.msgText = ""
  · simp [entryOf, itemMessage, itemText, partsText, h]
  · simp [entryOf, itemMessage, itemText, partsText, h]

theorem entryOf_itemReasoning (conv : StreamConv) (k : ℕ) (status : String) :
    entryOf (k, conv.itemReasoning status) =
      (⟨k, conv.reasoningItemId, "reasoning"⟩, conv.reasoningText) := by
  simp [entryOf, itemReasoning, itemText, partsText]

end StreamConv

/-- A call as an item. -/
def FnItem.entry (c : FnItem) : ItemRef × String :=
  (⟨c.outputIndex, c.itemId, "function_call"⟩, c.args)

theorem FnItem.entryOf_item (c : FnItem) (status : String) :
    entryOf (c.outputIndex, c.item status) = c.entry := by
  simp [entryOf, FnItem.item, itemText, FnItem.entry]

/-- An item is announced as the one that it is. -/
theorem viewEvent_eventItemAdded (index : ℕ) (item : Value) :
    viewEvent (eventItemAdded index item) = .added (entryOf (index, item)).1 := by
  simp [eventItemAdded, viewEvent, Responses.wholeItemRef, entryOf]

theorem viewEvent_eventItemDone (index : ℕ) (item : Value) :
    viewEvent (eventItemDone index item) = .done (entryOf (index, item)).1 := by
  simp [eventItemDone, viewEvent, Responses.wholeItemRef, entryOf]

/-- The items with the texts that were sent. -/
def StreamConv.entries (conv : StreamConv) : List (ItemRef × String) := conv.items.map entryOf

/-! ### A converter that goes on -/

/-- Nothing has been taken in. -/
structure Fresh (conv : StreamConv) : Prop where
  going : conv.finished = false
  uncreated : conv.created = false
  items : conv.items = []
  next : conv.nextIndex = 0
  message : conv.msgAdded = false ∧ conv.msgText = ""
  reasoning : conv.reasoningAdded = false ∧ conv.reasoningText = ""

/-- The events have created the response, and the items are those of the events. -/
structure Live (conv : StreamConv) (events : List Value) : Prop where
  going : conv.finished = false
  created : conv.created = true
  starts : events.head?.map typeOf = some "response.created"
  keeps : Keeps (events.map viewEvent) conv.entries
  next : conv.nextIndex = conv.items.length
  message : conv.msgAdded = false → conv.msgText = ""
  reasoning : conv.reasoningAdded = false → conv.reasoningText = ""

theorem starts_append {events : List Value} (h : events.head?.map typeOf = some "response.created")
    (more : List Value) : (events ++ more).head?.map typeOf = some "response.created" := by
  cases events with
  | nil => exact nomatch h
  | cons e rest => exact h

namespace StreamConv

/-- The items before the message. -/
def reasoningItems (conv : StreamConv) : List (ℕ × Value) :=
  if conv.reasoningAdded then [(conv.reasoningIndex, conv.itemReasoning "completed")] else []

def messageItems (conv : StreamConv) : List (ℕ × Value) :=
  if conv.msgAdded then [(conv.msgIndex, conv.itemMessage "completed")] else []

/-- The items after the message. -/
def callItems (conv : StreamConv) : List (ℕ × Value) :=
  conv.calls.map fun c ↦ (c.outputIndex, c.item "completed")

theorem entries_of_message {conv : StreamConv} (h : conv.msgAdded = true) :
    conv.entries = conv.reasoningItems.map entryOf ++
      (⟨conv.msgIndex, conv.msgItemId, "message"⟩, conv.msgText) ::
        conv.callItems.map entryOf := by
  rw [entries, items, if_pos h, List.append_assoc, List.map_append, List.map_append,
    List.map_singleton, entryOf_itemMessage]
  rfl

theorem entries_of_no_message {conv : StreamConv} (h : conv.msgAdded = false) :
    conv.entries = conv.reasoningItems.map entryOf ++ conv.callItems.map entryOf := by
  rw [entries, items, h, if_neg Bool.false_ne_true, List.append_nil, List.map_append]
  rfl

theorem entries_of_reasoning {conv : StreamConv} (h : conv.reasoningAdded = true) :
    conv.entries = [] ++ (⟨conv.reasoningIndex, conv.reasoningItemId, "reasoning"⟩,
      conv.reasoningText) :: (conv.messageItems ++ conv.callItems).map entryOf := by
  rw [entries, items, if_pos h, List.append_assoc, List.map_append, List.map_singleton,
    entryOf_itemReasoning]
  rfl

theorem entries_of_no_reasoning {conv : StreamConv} (h : conv.reasoningAdded = false) :
    conv.entries = [] ++ (conv.messageItems ++ conv.callItems).map entryOf := by
  rw [entries, items, h, if_neg Bool.false_ne_true, List.nil_append]
  rfl

theorem entries_of_calls {conv : StreamConv} {first last : List FnItem}
    (h : conv.calls = first ++ last) :
    conv.entries = (conv.reasoningItems ++ conv.messageItems).map entryOf ++
      first.map FnItem.entry ++ last.map FnItem.entry := by
  have hcalls : conv.callItems.map entryOf = first.map FnItem.entry ++ last.map FnItem.entry := by
    rw [callItems, h, List.map_map, ← List.map_append]
    exact List.map_congr_left fun c _ ↦ c.entryOf_item "completed"
  rw [List.append_assoc, ← hcalls, ← List.map_append]
  rfl

end StreamConv

/-! ### Steps -/

theorem length_entries (conv : StreamConv) : conv.entries.length = conv.items.length :=
  List.length_map _

/-- An item with the next output index is announced. -/
theorem Live.opened {conv conv' : StreamConv} {events : List Value} {ev : Value}
    {before after : List (ItemRef × String)} {ref : ItemRef} (h : Live conv events)
    (hentries : conv.entries = before ++ after)
    (hentries' : conv'.entries = before ++ (ref, "") :: after)
    (hindex : ref.index = conv.nextIndex) (hnext : conv'.nextIndex = conv.nextIndex + 1)
    (hview : viewEvent ev = .added ref) (hgoing : conv'.finished = false)
    (hcreated : conv'.created = true) (hmessage : conv'.msgAdded = false → conv'.msgText = "")
    (hreasoning : conv'.reasoningAdded = false → conv'.reasoningText = "") :
    Live conv' (events ++ [ev]) where
  going := hgoing
  created := hcreated
  starts := starts_append h.starts _
  keeps := by
    have hkeeps := h.keeps
    rw [hentries] at hkeeps
    rw [List.map_append, List.map_singleton, hview, hentries']
    refine hkeeps.opened ?_
    rw [hindex, h.next, ← length_entries, hentries]
  next := by
    rw [hnext, h.next, ← length_entries, ← length_entries, hentries, hentries',
      List.length_append, List.length_append, List.length_cons]
    rfl
  message := hmessage
  reasoning := hreasoning

/-- A delta of an item is sent. -/
theorem Live.grown {conv conv' : StreamConv} {events : List Value} {ev : Value}
    {before after : List (ItemRef × String)} {ref : ItemRef} {text delta : String}
    (h : Live conv events) (hentries : conv.entries = before ++ (ref, text) :: after)
    (hentries' : conv'.entries = before ++ (ref, text ++ delta) :: after)
    (hnext : conv'.nextIndex = conv.nextIndex) (hview : viewEvent ev = .delta ref delta)
    (hgoing : conv'.finished = false) (hcreated : conv'.created = true)
    (hmessage : conv'.msgAdded = false → conv'.msgText = "")
    (hreasoning : conv'.reasoningAdded = false → conv'.reasoningText = "") :
    Live conv' (events ++ [ev]) where
  going := hgoing
  created := hcreated
  starts := starts_append h.starts _
  keeps := by
    have hkeeps := h.keeps
    rw [hentries] at hkeeps
    rw [List.map_append, List.map_singleton, hview, hentries']
    exact hkeeps.grown delta
  next := by
    rw [hnext, h.next, ← length_entries, ← length_entries, hentries, hentries',
      List.length_append, List.length_append, List.length_cons, List.length_cons]
  message := hmessage
  reasoning := hreasoning

section Steps

variable {conv : StreamConv} {events : List Value}

open StreamConv

theorem live_openMessage (h : Live conv events) :
    Live conv.openMessage.1 (events ++ conv.openMessage.2) ∧
      conv.openMessage.1.msgAdded = true := by
  rw [openMessage]
  split
  case isTrue hadded =>
    rw [List.append_nil]
    exact ⟨h, hadded⟩
  case isFalse hadded =>
    have hnew : conv.msgAdded = false := eq_false_of_ne_true hadded
    refine ⟨h.opened (entries_of_no_message hnew) ?_
      (by rfl : (⟨conv.nextIndex, conv.msgItemId, "message"⟩ : ItemRef).index = conv.nextIndex) rfl
      ?_ h.going h.created (fun hcontra ↦ nomatch hcontra) h.reasoning, rfl⟩
    · rw [← h.message hnew]
      exact entries_of_message rfl
    · rw [viewEvent_eventItemAdded, entryOf_itemMessage]

theorem live_growMessage (h : Live conv events) (hadded : conv.msgAdded = true) (text : String) :
    Live (conv.growMessage text).1 (events ++ (conv.growMessage text).2) := by
  refine h.grown (entries_of_message hadded) (entries_of_message hadded) rfl ?_ h.going h.created
    (fun hnew ↦ ?_) h.reasoning
  · simp [viewEvent, Responses.deltaOf]
  · exact absurd (hadded.symm.trans hnew) (by decide)

theorem live_feedText (h : Live conv events) (text : String) :
    Live (conv.feedText text).1 (events ++ (conv.feedText text).2) := by
  obtain ⟨hopened, hadded⟩ := live_openMessage h
  rw [feedText, ← List.append_assoc]
  exact live_growMessage hopened hadded text

theorem live_openReasoning (h : Live conv events) :
    Live conv.openReasoning.1 (events ++ conv.openReasoning.2) ∧
      conv.openReasoning.1.reasoningAdded = true := by
  rw [openReasoning]
  split
  case isTrue hadded =>
    rw [List.append_nil]
    exact ⟨h, hadded⟩
  case isFalse hadded =>
    have hnew : conv.reasoningAdded = false := eq_false_of_ne_true hadded
    refine ⟨h.opened (entries_of_no_reasoning hnew) ?_
      (by rfl : (⟨conv.nextIndex, conv.reasoningItemId, "reasoning"⟩ : ItemRef).index =
        conv.nextIndex) rfl ?_ h.going h.created h.message (fun hcontra ↦ nomatch hcontra), rfl⟩
    · rw [← h.reasoning hnew]
      exact entries_of_reasoning rfl
    · rw [viewEvent_eventItemAdded, entryOf_itemReasoning]

theorem live_growReasoning (h : Live conv events) (hadded : conv.reasoningAdded = true)
    (text : String) : Live (conv.growReasoning text).1 (events ++ (conv.growReasoning text).2) := by
  refine h.grown (entries_of_reasoning hadded) (entries_of_reasoning hadded) rfl ?_ h.going
    h.created h.message (fun hnew ↦ ?_)
  · simp [viewEvent, Responses.deltaOf]
  · exact absurd (hadded.symm.trans hnew) (by decide)

theorem live_feedThinking (h : Live conv events) (text : String) :
    Live (conv.feedThinking text).1 (events ++ (conv.feedThinking text).2) := by
  obtain ⟨hopened, hadded⟩ := live_openReasoning h
  rw [feedThinking, ← List.append_assoc]
  exact live_growReasoning hopened hadded text

theorem live_growCall (h : Live conv events) (idx : ℕ) (frag : String) :
    Live (conv.growCall idx frag).1 (events ++ (conv.growCall idx frag).2) := by
  have hsame : Live conv (events ++ []) := (List.append_nil events).symm ▸ h
  rw [growCall]
  split
  · rename_i c hc
    split
    · exact hsame
    · obtain ⟨hlt, hget⟩ := List.getElem?_eq_some_iff.1 hc
      have hcalls : conv.calls = conv.calls.take idx ++ c :: conv.calls.drop (idx + 1) := by
        rw [← hget, List.getElem_cons_drop, List.take_append_drop]
      let grown : FnItem := { c with args := c.args ++ frag }
      have hgrown : conv.calls.set idx grown =
          conv.calls.take idx ++ grown :: conv.calls.drop (idx + 1) := by
        rw [List.set_eq_take_append_cons_drop, if_pos hlt]
      refine h.grown (entries_of_calls hcalls)
        (@entries_of_calls { conv with calls := conv.calls.set idx grown } _ _ hgrown) rfl ?_
        h.going h.created h.message h.reasoning
      simp [viewEvent, Responses.deltaOf]
  · exact hsame

/-- Some fields do not matter. -/
theorem live_readMeta (h : Live conv events) (f : Field) : Live (conv.readMeta f) events := by
  rw [readMeta]
  split
  · split
    · split
      · exact ⟨h.going, h.created, h.starts, h.keeps, h.next, h.message, h.reasoning⟩
      · exact h
    · exact h
  · split
    · exact ⟨h.going, h.created, h.starts, h.keeps, h.next, h.message, h.reasoning⟩
    · exact h
  · exact h

theorem live_feedUsage (h : Live conv events) (payload : List UInt8) :
    Live (conv.feedUsage payload) events := by
  rw [feedUsage]
  split
  · exact h
  · exact ⟨h.going, h.created, h.starts, h.keeps, h.next, h.message, h.reasoning⟩

theorem fresh_readMeta (h : Fresh conv) (f : Field) : Fresh (conv.readMeta f) := by
  rw [readMeta]
  split
  · split
    · split
      · exact ⟨h.going, h.uncreated, h.items, h.next, h.message, h.reasoning⟩
      · exact h
    · exact h
  · split
    · exact ⟨h.going, h.uncreated, h.items, h.next, h.message, h.reasoning⟩
    · exact h
  · exact h

/-- Either nothing was taken in, or the converter goes on. -/
def Ready (conv : StreamConv) (events : List Value) : Prop :=
  Fresh conv ∧ events = [] ∨ Live conv events

theorem ready_readMeta (h : Ready conv events) (fields : List Field) :
    Ready (fields.foldl readMeta conv) events := by
  induction fields generalizing conv with
  | nil => exact h
  | cons f rest ih =>
    refine ih ?_
    rcases h with ⟨hfresh, hevents⟩ | hlive
    · exact .inl ⟨fresh_readMeta hfresh f, hevents⟩
    · exact .inr (live_readMeta hlive f)

variable [MadeUp]

theorem live_openCall (h : Live conv events) (callId name : String) :
    Live (conv.openCall callId name).1 (events ++ (conv.openCall callId name).2) := by
  refine h.opened (@entries_of_calls conv conv.calls [] (List.append_nil _).symm)
    (@entries_of_calls (conv.openCall callId name).1 conv.calls _ rfl)
    (by rfl : (⟨conv.nextIndex, "fc_" ++ MadeUp.callId conv.calls.length, "function_call"⟩ :
      ItemRef).index = conv.nextIndex) rfl ?_ h.going h.created h.message h.reasoning
  rw [viewEvent_eventItemAdded, FnItem.entryOf_item]
  rfl

/-- The host of a part is a call that is there. -/
theorem live_hostCall (h : Live conv events) {callId name : String}
    {opened : StreamConv × List Value} {idx : ℕ}
    (hhost : conv.hostCall callId name = some (opened, idx)) :
    Live opened.1 (events ++ opened.2) := by
  have hsame : Live conv (events ++ []) := (List.append_nil events).symm ▸ h
  rw [hostCall] at hhost
  split at hhost
  · split at hhost
    · rw [← (Prod.mk.inj (Option.some.inj hhost)).1]
      exact hsame
    · rw [← (Prod.mk.inj (Option.some.inj hhost)).1]
      exact live_openCall h callId name
  · split at hhost
    · exact nomatch hhost
    · rw [← (Prod.mk.inj (Option.some.inj hhost)).1]
      exact hsame

theorem live_feedToolDelta (h : Live conv events) {payload : List UInt8}
    {fed : StreamConv × List Value} (hfed : conv.feedToolDelta payload = .ok fed) :
    Live fed.1 (events ++ fed.2) := by
  obtain ⟨fields, -, rfl⟩ := map_eq_ok.1 hfed
  dsimp only
  split
  · rename_i opened idx hhost
    rw [← List.append_assoc]
    exact live_growCall (live_hostCall h hhost) _ _
  · rw [List.append_nil]
    exact h

theorem live_feedField (h : Live conv events) {f : Field} {fed : StreamConv × List Value}
    (hfed : conv.feedField f = .ok fed) : Live fed.1 (events ++ fed.2) := by
  have hsame : Live conv (events ++ []) := (List.append_nil events).symm ▸ h
  rw [feedField] at hfed
  split at hfed
  · split at hfed
    · exact live_feedToolDelta h hfed
    · rw [← Except.ok.inj hfed]
      exact hsame
  · split at hfed
    · rw [← Except.ok.inj hfed, List.append_nil]
      exact live_feedUsage h _
    · rw [← Except.ok.inj hfed]
      exact hsame
  · split at hfed
    · rw [← Except.ok.inj hfed]
      exact live_feedThinking h _
    · rw [← Except.ok.inj hfed]
      exact hsame
  · split at hfed
    · rw [← Except.ok.inj hfed]
      exact live_feedText h _
    · rw [← Except.ok.inj hfed]
      exact hsame
  · rw [← Except.ok.inj hfed]
    exact hsame

/-- The tool calls of a message can be read. -/
def ToolsReadable (fields : List Field) : Prop :=
  ∀ f ∈ fields, f.1 = 6 → ∀ b, f.2.asBytes = some b → ∃ inner, decode b = .ok inner

theorem exists_feedField {f : Field} (conv : StreamConv)
    (hf : f.1 = 6 → ∀ b, f.2.asBytes = some b → ∃ inner, decode b = .ok inner) :
    ∃ fed, conv.feedField f = .ok fed := by
  rw [feedField]
  split
  case h_1 htool =>
    split
    · rename_i b hb
      obtain ⟨inner, hinner⟩ := hf htool b hb
      rw [feedToolDelta, hinner]
      exact ⟨_, rfl⟩
    · exact ⟨_, rfl⟩
  all_goals first | exact ⟨_, rfl⟩ | (split <;> exact ⟨_, rfl⟩)

theorem live_feedFields {fields : List Field} (h : Live conv events)
    (htools : ToolsReadable fields) :
    ∃ conv' more, conv.feedFields fields = (conv', .ok more) ∧ Live conv' (events ++ more) := by
  induction fields generalizing conv events with
  | nil => exact ⟨conv, [], rfl, (List.append_nil events).symm ▸ h⟩
  | cons f rest ih =>
    obtain ⟨fed, hfed⟩ := exists_feedField conv (htools f List.mem_cons_self)
    obtain ⟨conv', more, hrest, hlive⟩ := ih (live_feedField h hfed)
      fun g hg ↦ htools g (List.mem_cons_of_mem _ hg)
    refine ⟨conv', fed.2 ++ more, ?_, by rwa [← List.append_assoc]⟩
    rw [feedFields, hfed]
    show ((fed.1.feedFields rest).1, (fed.1.feedFields rest).2.map fun more ↦ fed.2 ++ more) = _
    rw [hrest]
    rfl

/-! ### The beginning -/

theorem fresh_new (model : String) : Fresh (StreamConv.new model) where
  going := rfl
  uncreated := rfl
  items := rfl
  next := rfl
  message := ⟨rfl, rfl⟩
  reasoning := ⟨rfl, rfl⟩

theorem respIdOrGen_eq (conv : StreamConv) :
    ∃ id, respIdOrGen conv = { conv with respId := id } := by
  rw [respIdOrGen]
  split
  · exact ⟨_, rfl⟩
  · exact ⟨conv.respId, rfl⟩

theorem live_create (h : Ready conv events) :
    Live conv.create.1 (events ++ conv.create.2) := by
  rw [create]
  rcases h with ⟨hfresh, rfl⟩ | hlive
  · rw [if_neg (by rw [hfresh.uncreated]; exact Bool.false_ne_true), List.nil_append]
    obtain ⟨id, hid⟩ := respIdOrGen_eq { conv with created := true }
    rw [hid]
    refine ⟨hfresh.going, rfl, by simp [typeOf], ?_, ?_, fun _ ↦ hfresh.message.2,
      fun _ ↦ hfresh.reasoning.2⟩
    · have hentries : { conv with created := true, respId := id }.entries = [] :=
        List.map_eq_nil_iff.2 hfresh.items
      rw [hentries]
      exact keeps_nil.other
    · exact hfresh.next.trans (congrArg List.length hfresh.items).symm
  · rw [if_pos hlive.created, List.append_nil]
    exact hlive

/-- The tool calls of a message, if it is one, can be read. -/
def MessageReadable (payload : List UInt8) : Prop :=
  ∀ fields, decode payload = .ok fields → ToolsReadable fields

/-- A message is refused as a whole, or the converter goes on. -/
theorem live_feed (h : Ready conv events) {payload : List UInt8} (hread : MessageReadable payload) :
    (∃ message, conv.feed payload = (conv, .error message)) ∨
      ∃ conv' more, conv.feed payload = (conv', .ok more) ∧ Live conv' (events ++ more) := by
  rw [feed]
  cases hdecode : decode payload with
  | error message => exact .inl ⟨message, rfl⟩
  | ok fields =>
    refine .inr ?_
    obtain ⟨conv', more, hfed, hlive⟩ :=
      live_feedFields (live_create (ready_readMeta h fields)) (hread fields hdecode)
    refine ⟨conv', (fields.foldl readMeta conv).create.2 ++ more, ?_, ?_⟩
    · dsimp only
      rw [hfed]
      rfl
    · rwa [← List.append_assoc]

/-! ### The end -/

/-- The response has ended, and the last event has it. -/
structure Done (conv : StreamConv) (events : List Value) : Prop where
  finished : conv.finished = true
  created : conv.created = true
  answers : Answers events
  last : ∃ last, events.getLast? = some last ∧ last["response"] = conv.finalJson

omit [MadeUp] in
/-- The items are done in the order of their indices, and the terminal event has them. -/
theorem answers_ended (h : Live conv events) {dones : List Value}
    (hdones : ∀ e ∈ dones, viewEvent e = .other ∨ ∃ ref, viewEvent e = .done ref) {last : Value}
    (hlast : viewEvent last = .terminal ((byIndex conv.items).map Prod.snd)) :
    Answers (events ++ dones ++ [last]) := by
  have hviews : ∀ e ∈ dones.map viewEvent, e = .other ∨ ∃ ref, e = .done ref := by
    intro e he
    obtain ⟨v, hv, rfl⟩ := List.mem_map.1 he
    exact hdones v hv
  obtain ⟨hdeltas, hterminal, hadded, htext⟩ := h.keeps.ended hviews
  have hview : (events ++ dones ++ [last]).map viewEvent =
      events.map viewEvent ++ dones.map viewEvent ++
        [.terminal ((byIndex conv.items).map Prod.snd)] := by
    rw [List.map_append, List.map_append, List.map_singleton, hlast]
  have hannounced : announced (events ++ dones ++ [last]) =
      (events.map viewEvent).filterMap addedRef := by
    rw [announced, hview, List.filterMap_append, hadded]
    exact List.append_nil _
  have hperm : (byIndex conv.items).Perm conv.items := List.perm_insertionSort _ _
  have hsorted : (byIndex conv.items).Pairwise fun a b ↦ a.1 ≤ b.1 := by
    have _ : Std.Total fun a b : ℕ × Value ↦ a.1 ≤ b.1 := ⟨fun a b ↦ Nat.le_total a.1 b.1⟩
    have _ : IsTrans (ℕ × Value) fun a b ↦ a.1 ≤ b.1 := ⟨fun _ _ _ hab hbc ↦ Nat.le_trans hab hbc⟩
    exact List.pairwise_insertionSort _ _
  refine ⟨?_, ⟨_, _, hview, hterminal, hdeltas, ?_⟩, ?_, fun output houtput ↦ ?_⟩
  · rw [List.append_assoc]
    exact starts_append h.starts _
  · intro ref href
    obtain ⟨item, hitem, hid, htype, hitemText⟩ := h.keeps.snapshot hperm hsorted ref
      (Responses.mem_addedRefs.1 (hadded ▸ Responses.mem_addedRefs.2 href))
    exact ⟨item, hitem, hid, htype, hitemText.trans (htext ref).symm⟩
  · rw [hannounced]
    exact h.keeps.nodup_indices
  · rw [hview, List.mem_append, List.mem_singleton] at houtput
    have hout := ItemEvent.terminal.inj (houtput.resolve_left (hterminal output))
    rw [hannounced, h.keeps.length_eq, length_entries, hout, List.length_map, hperm.length_eq]

omit [MadeUp] in
theorem viewEvent_doneEvents {e : Value} (he : e ∈ (byIndex conv.doneEvents).map Prod.snd) :
    viewEvent e = .other ∨ ∃ ref, viewEvent e = .done ref := by
  obtain ⟨entry, hentry, rfl⟩ := List.mem_map.1 he
  have hmem := (List.mem_insertionSort _).1 hentry
  rw [doneEvents, List.mem_append, List.mem_append] at hmem
  rcases hmem with (hmem | hmem) | hmem
  · split at hmem
    · rcases List.mem_cons.1 hmem with rfl | hmem
      · exact .inl (by simp [viewEvent])
      · rw [List.mem_singleton.1 hmem]
        exact .inr ⟨_, viewEvent_eventItemDone _ _⟩
    · exact absurd hmem List.not_mem_nil
  · split at hmem
    · rcases List.mem_cons.1 hmem with rfl | hmem
      · exact .inl (by simp [viewEvent])
      · rw [List.mem_singleton.1 hmem]
        exact .inr ⟨_, viewEvent_eventItemDone _ _⟩
    · exact absurd hmem List.not_mem_nil
  · obtain ⟨c, -, rfl⟩ := List.mem_map.1 hmem
    exact .inr ⟨_, viewEvent_eventItemDone _ _⟩

omit [MadeUp] in
theorem viewEvent_ended {type : String} {conv' : StreamConv} {status : String}
    {more : List (String × Value)} (hitems : conv'.items = conv.items)
    (htype : type = "response.completed" ∨ type = "response.failed") :
    viewEvent (.object
      [("type", .str type), ("response", conv'.finalResponse status more)]) =
        .terminal ((byIndex conv.items).map Prod.snd) := by
  rcases htype with rfl | rfl <;> simp [viewEvent, finalResponse, hitems]

/-- The id of a response is made up once. -/
theorem respIdOrGen_respIdOrGen (conv : StreamConv) :
    respIdOrGen (respIdOrGen conv) = respIdOrGen conv := by
  by_cases h : conv.respId = ""
  · have hid : "resp_" ++ MadeUp.responseId ≠ "" := fun hempty ↦
      absurd (congrArg String.toList hempty) (by simp)
    have hgen : respIdOrGen conv = { conv with respId := "resp_" ++ MadeUp.responseId } := if_pos h
    rw [hgen]
    exact if_neg hid
  · have hgen : respIdOrGen conv = conv := if_neg h
    rw [hgen, hgen]

theorem done_finishEvents (h : Live conv events) :
    Done conv.finishEvents.1 (events ++ conv.finishEvents.2) := by
  rw [finishEvents, if_neg (by rw [h.going]; exact Bool.false_ne_true)]
  obtain ⟨id, hid⟩ := respIdOrGen_eq { conv with finished := true }
  have hfinal : (respIdOrGen { conv with finished := true }).finalJson =
      (respIdOrGen { conv with finished := true }).finalResponse "completed" [] := by
    have hfinished : (respIdOrGen { conv with finished := true }).finished = true := by rw [hid]
    rw [finalJson, if_pos hfinished, respIdOrGen_respIdOrGen]
  refine ⟨by rw [hid], by rw [hid]; exact h.created, ?_, ?_⟩
  · dsimp only
    rw [← List.append_assoc]
    refine answers_ended h (fun e he ↦ viewEvent_doneEvents he) (viewEvent_ended ?_ (.inl rfl))
    rw [hid]
    rfl
  · dsimp only
    rw [← List.append_assoc, List.getLast?_concat]
    refine ⟨_, rfl, ?_⟩
    rw [hfinal]
    simp

theorem done_finish (h : Ready conv events) :
    Done conv.finish.1 (events ++ conv.finish.2) := by
  have hgoing : conv.finished = false := by
    rcases h with ⟨hfresh, -⟩ | hlive
    · exact hfresh.going
    · exact hlive.going
  rw [finish, if_neg (by rw [hgoing]; exact Bool.false_ne_true), ← List.append_assoc]
  exact done_finishEvents (live_create h)

/-- A response that has failed. -/
theorem answers_fail (h : Live conv events) (message : String) :
    Answers (events ++ (conv.fail message).2) := by
  obtain ⟨id, hid⟩ := respIdOrGen_eq { conv with finished := true }
  rw [fail, if_neg (by rw [h.going]; exact Bool.false_ne_true),
    if_neg (by simp [h.created]), hid]
  have hended := @answers_ended conv events h [] fun e he ↦ absurd he List.not_mem_nil
  rw [List.append_nil] at hended
  exact hended (viewEvent_ended rfl (.inr rfl))

end Steps

end NextApi.Devin
