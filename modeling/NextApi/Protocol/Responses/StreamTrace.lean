import NextApi.Protocol.Responses.StreamItems

/-!
# What the Responses encoder sends

A chunk asks for operations on items (`chunkOps`). The state of the encoder holds the items that the
operations so far have made (`Holds`), and a chunk is answered with the events of its operations.
The terminal event comes after the first chunks that end the stream (`Ends`), or at the end of the
stream; chunks after it are still answered (`streamEvents_view`).
-/

set_option autoImplicit false

namespace NextApi.Responses

open Json Ir

/-! ### Operations of chunks -/

/-- A text that is sent unless it is missing or empty. -/
def textOps (key : Key) (text : Option String) : List Op :=
  match text with
  | some text => if text = "" then [] else [⟨key, some text⟩]
  | none => []

/-- What a chunk does to the items. -/
def chunkOps (chunk : IrChunk) : List Op :=
  textOps .message chunk.delta.content ++ textOps .reasoning chunk.delta.reasoningContent ++
    chunk.delta.toolCalls.map fun tc ↦ ⟨.tool tc.index, tc.arguments⟩

/-- The last finish reason. -/
def lastFinish (chunks : List IrChunk) : Option String :=
  (chunks.filterMap IrChunk.finishReason).getLast?

def hasUsage (chunks : List IrChunk) : Bool := chunks.any fun chunk ↦ chunk.usage.isSome

/-- The chunks end the stream: with a failure, or with a finish reason and a usage. -/
def Ends (chunks : List IrChunk) : Prop :=
  (lastFinish chunks).isSome ∧ (lastFinish chunks = some "failed" ∨ hasUsage chunks = true)

instance (chunks : List IrChunk) : Decidable (Ends chunks) :=
  inferInstanceAs (Decidable (_ ∧ _))

/-- The chunks up to the first that ends the stream, and those after it. -/
def untilEnd (past : List IrChunk) : List IrChunk → List IrChunk × List IrChunk
  | [] => (past, [])
  | chunk :: rest =>
    if Ends (past ++ [chunk]) then (past ++ [chunk], rest) else untilEnd (past ++ [chunk]) rest

/-! ### The items that the state holds -/

/-- The output index, the id and the text of the item of a key. -/
def held (st : StreamState) : Key → Option (UInt32 × String × String)
  | .message =>
    if st.messageItemAdded then some (st.messageOutputIndex, st.messageItemId, st.messageText)
    else none
  | .reasoning =>
    if st.reasoningItemAdded then
      some (st.reasoningOutputIndex, st.reasoningItemId, st.reasoningText)
    else none
  | .tool idx => (st.toolItems.lookup idx).map fun t ↦ (t.outputIndex, t.itemId, t.arguments)

/-- The text kept for an item that need not be there. -/
def kept (st : StreamState) : Key → String
  | .message => st.messageText
  | .reasoning => st.reasoningText
  | .tool _ => ""

/-- The texts after an operation. -/
def textsAfter (texts : Key → String) (op : Op) (key : Key) : String :=
  if op.key = key then texts key ++ op.text.getD "" else texts key

theorem textsAfter_none (texts : Key → String) (key : Key) :
    textsAfter texts ⟨key, none⟩ = texts := by
  funext other
  rw [textsAfter, Option.getD_none, String.append_empty, ite_self]

section Holds

variable [RandSuffix]

/-- The state holds items for these keys, announced in this order, with these texts. -/
structure Holds (st : StreamState) (keys : List Key) (texts : Key → String) : Prop where
  next : st.nextOutputIndex = UInt32.ofNat keys.length
  drawn : st.drawn = keys.length
  items : ∀ key, held st key =
    if key ∈ keys then
      some (UInt32.ofNat (keys.idxOf key), key.stem ++ RandSuffix.suffix (keys.idxOf key), texts key)
    else none
  silent : ∀ key, key ∉ keys → texts key = ""
  blank : ∀ key, key ∉ keys → kept st key = ""

theorem Holds.held_eq {st : StreamState} {keys : List Key} {texts : Key → String}
    (h : Holds st keys texts) {key : Key} (hkey : key ∈ keys) :
    held st key = some (UInt32.ofNat (keys.idxOf key), key.stem ++ RandSuffix.suffix
      (keys.idxOf key), texts key) := by
  rw [h.items key, if_pos hkey]

theorem Holds.mem_iff {st : StreamState} {keys : List Key} {texts : Key → String}
    (h : Holds st keys texts) (key : Key) : key ∈ keys ↔ (held st key).isSome := by
  rw [h.items key]
  by_cases hkey : key ∈ keys
  · rw [if_pos hkey]
    exact iff_of_true hkey rfl
  · rw [if_neg hkey]
    exact iff_of_false hkey Bool.false_ne_true

/-- An item that is announced takes the next index and a new id. -/
theorem Holds.announce {st st' : StreamState} {keys : List Key} {texts : Key → String}
    (h : Holds st keys texts) {key : Key} (hnew : key ∉ keys)
    (hnext : st'.nextOutputIndex = st.nextOutputIndex + 1) (hdrawn : st'.drawn = st.drawn + 1)
    (hheld : ∀ other, held st' other =
      if other = key then
        some (st.nextOutputIndex, key.stem ++ RandSuffix.suffix st.drawn, kept st key)
      else held st other)
    (hkept : ∀ other, kept st' other = kept st other) :
    Holds st' (keys ++ [key]) texts := by
  constructor
  · rw [hnext, h.next, List.length_append, UInt32.ofNat_add]
    rfl
  · rw [hdrawn, h.drawn, List.length_append]
    rfl
  · intro other
    rw [hheld other]
    by_cases hother : other = key
    · subst hother
      have hidx : (keys ++ [other]).idxOf other = keys.length := by
        rw [List.idxOf_append_of_notMem hnew]
        simp
      rw [if_pos rfl, if_pos (List.mem_append_right _ List.mem_cons_self), hidx, h.next, h.drawn,
        h.silent other hnew, h.blank other hnew]
    · rw [if_neg hother, h.items other]
      by_cases hmem : other ∈ keys
      · rw [if_pos hmem, if_pos (List.mem_append_left _ hmem), List.idxOf_append_of_mem hmem]
      · rw [if_neg hmem, if_neg]
        intro happend
        rcases List.mem_append.1 happend with hin | hin
        · exact hmem hin
        · exact hother (List.mem_singleton.1 hin)
  · intro other hother
    exact h.silent other fun hmem ↦ hother (List.mem_append_left _ hmem)
  · intro other hother
    rw [hkept other]
    exact h.blank other fun hmem ↦ hother (List.mem_append_left _ hmem)

/-- A text that is sent is added to that of its item. -/
theorem Holds.write {st st' : StreamState} {keys : List Key} {texts : Key → String}
    (h : Holds st keys texts) {key : Key} (hkey : key ∈ keys) (text : String)
    (hnext : st'.nextOutputIndex = st.nextOutputIndex) (hdrawn : st'.drawn = st.drawn)
    (hheld : ∀ other, held st' other =
      if other = key then (held st key).map fun item ↦ (item.1, item.2.1, item.2.2 ++ text)
      else held st other)
    (hkept : ∀ other, other ≠ key → kept st' other = kept st other) :
    Holds st' keys (textsAfter texts ⟨key, some text⟩) := by
  constructor
  · rw [hnext, h.next]
  · rw [hdrawn, h.drawn]
  · intro other
    rw [hheld other]
    by_cases hother : other = key
    · subst hother
      rw [if_pos rfl, h.items other, if_pos hkey, if_pos hkey, textsAfter, if_pos rfl]
      rfl
    · rw [if_neg hother, h.items other, textsAfter, if_neg (Ne.symm hother)]
  · intro other hother
    have hne : key ≠ other := fun heq ↦ hother (heq ▸ hkey)
    rw [textsAfter, if_neg hne]
    exact h.silent other hother
  · intro other hother
    rw [hkept other fun heq ↦ hother (heq ▸ hkey)]
    exact h.blank other hother

end Holds

/-! ### The stages of a chunk -/

/-- What the operations of a chunk do not touch. -/
structure SameEnd (st st' : StreamState) : Prop where
  created : st'.created = st.created
  completed : st'.completed = st.completed
  lastUsage : st'.lastUsage = st.lastUsage
  pendingFinish : st'.pendingFinish = st.pendingFinish

theorem SameEnd.refl (st : StreamState) : SameEnd st st := ⟨rfl, rfl, rfl, rfl⟩

theorem SameEnd.trans {st st' st'' : StreamState} (h : SameEnd st st') (h' : SameEnd st' st'') :
    SameEnd st st'' :=
  ⟨h'.created.trans h.created, h'.completed.trans h.completed, h'.lastUsage.trans h.lastUsage,
    h'.pendingFinish.trans h.pendingFinish⟩

@[simp] theorem viewEvent_itemAddedEvent (index : UInt32) (item : Value) :
    viewEvent (itemAddedEvent index item) =
      .added ⟨index.toNat, item["id"].strOrEmpty, item["type"].strOrEmpty⟩ := by
  simp [viewEvent, itemAddedEvent, wholeItemRef]

@[simp] theorem viewEvent_outputTextDeltaEvent (st : StreamState) (text : String) :
    viewEvent (outputTextDeltaEvent st text) =
      .delta ⟨st.messageOutputIndex.toNat, st.messageItemId, "message"⟩ text := by
  simp [viewEvent, outputTextDeltaEvent, deltaOf]

@[simp] theorem viewEvent_reasoningDeltaEvent (st : StreamState) (text : String) :
    viewEvent (reasoningDeltaEvent st text) =
      .delta ⟨st.reasoningOutputIndex.toNat, st.reasoningItemId, "reasoning"⟩ text := by
  simp [viewEvent, reasoningDeltaEvent, deltaOf]

@[simp] theorem viewEvent_argumentsDeltaEvent (state : FnItemState) (text : String) :
    viewEvent (argumentsDeltaEvent state text) =
      .delta ⟨state.outputIndex.toNat, state.itemId, "function_call"⟩ text := by
  simp [viewEvent, argumentsDeltaEvent, deltaOf]

@[simp] theorem viewEvent_terminal (finishReason : Option String) (st : StreamState)
    (status : String) :
    viewEvent (responseEvent (terminalOf finishReason).2 (buildFinalResponse st status).1) =
      .terminal (finalOutput st) := by
  unfold terminalOf
  split <;> simp [viewEvent, responseEvent, buildFinalResponse]

section Stages

variable [RandSuffix]

/-- The emission goes on with the events of these operations. -/
structure Performs (ops : List Op) (keys : List Key) (texts : Key → String)
    (e e' : Emission StreamState) : Prop where
  holds : Holds e'.st (ops.foldl keysAfter keys) (ops.foldl textsAfter texts)
  events : e'.events.map viewEvent = e.events.map viewEvent ++ eventsFrom keys ops
  same : SameEnd e.st e'.st

theorem Performs.nil {keys : List Key} {texts : Key → String} {e : Emission StreamState}
    (h : Holds e.st keys texts) : Performs [] keys texts e e :=
  ⟨h, (List.append_nil _).symm, SameEnd.refl _⟩

theorem Performs.append {ops more : List Op} {keys : List Key} {texts : Key → String}
    {e e' e'' : Emission StreamState} (h : Performs ops keys texts e e')
    (h' : Performs more (ops.foldl keysAfter keys) (ops.foldl textsAfter texts) e' e'') :
    Performs (ops ++ more) keys texts e e'' := by
  refine ⟨?_, ?_, h.same.trans h'.same⟩
  · rw [List.foldl_append, List.foldl_append]
    exact h'.holds
  · rw [h'.events, h.events, eventsFrom_append, List.append_assoc]

/-! ### One operation -/

/-- An item that is there already is not announced again. -/
theorem Performs.stay {keys : List Key} {texts : Key → String} {e : Emission StreamState}
    (h : Holds e.st keys texts) {key : Key} (hkey : key ∈ keys) :
    Performs [⟨key, none⟩] keys texts e e := by
  have hkeys : keysAfter keys ⟨key, none⟩ = keys := if_pos hkey
  refine ⟨?_, ?_, SameEnd.refl _⟩
  · rw [List.foldl_cons, List.foldl_nil, List.foldl_cons, List.foldl_nil, hkeys, textsAfter_none]
    exact h
  · rw [eventsFrom, eventsFrom, opEvents, if_pos hkey]
    exact (List.append_nil _).symm

/-- A new item is announced. -/
theorem Performs.announce {keys : List Key} {texts : Key → String} {e : Emission StreamState}
    {key : Key} (hnew : key ∉ keys) {st : StreamState} (h : Holds st (keys ++ [key]) texts)
    (hsame : SameEnd e.st st) {event : Value}
    (hevent : viewEvent event = .added (itemRef keys.length key)) :
    Performs [⟨key, none⟩] keys texts e ((e.withState st).emit event) := by
  have hkeys : keysAfter keys ⟨key, none⟩ = keys ++ [key] := if_neg hnew
  refine ⟨?_, ?_, hsame⟩
  · rw [List.foldl_cons, List.foldl_nil, List.foldl_cons, List.foldl_nil, hkeys, textsAfter_none]
    exact h
  · rw [eventsFrom, eventsFrom, opEvents, if_neg hnew, Emission.emit_events, List.map_append,
      List.map_singleton, hevent]
    rfl

/-- A text is sent to an item that is there. -/
theorem Performs.send {keys : List Key} {texts : Key → String} {e : Emission StreamState}
    {key : Key} (hkey : key ∈ keys) {text : String} {st : StreamState}
    (h : Holds st keys (textsAfter texts ⟨key, some text⟩)) (hsame : SameEnd e.st st)
    {event : Value} (hevent : viewEvent event = .delta (itemRef (keys.idxOf key) key) text) :
    Performs [⟨key, some text⟩] keys texts e ((e.withState st).emit event) := by
  have hkeys : keysAfter keys ⟨key, some text⟩ = keys := if_pos hkey
  refine ⟨?_, ?_, hsame⟩
  · rw [List.foldl_cons, List.foldl_nil, List.foldl_cons, List.foldl_nil, hkeys]
    exact h
  · rw [eventsFrom, eventsFrom, opEvents, if_pos hkey, hkeys, Emission.emit_events,
      List.map_append, List.map_singleton, hevent]
    rfl

/-- An item is announced by the operation that sends the first text to it. -/
theorem Performs.merge {keys : List Key} {texts : Key → String} {e e' : Emission StreamState}
    {key : Key} {text : String}
    (h : Performs [⟨key, none⟩, ⟨key, some text⟩] keys texts e e') :
    Performs [⟨key, some text⟩] keys texts e e' := by
  have hmem : key ∈ keysAfter keys ⟨key, none⟩ := mem_keysAfter.2 (Or.inr rfl)
  have hkeys : keysAfter (keysAfter keys ⟨key, none⟩) ⟨key, some text⟩ =
      keysAfter keys ⟨key, some text⟩ := by
    rw [keysAfter, if_pos hmem]
    rfl
  have hevents : eventsFrom keys [⟨key, none⟩, ⟨key, some text⟩] =
      eventsFrom keys [⟨key, some text⟩] := by
    rw [eventsFrom, eventsFrom, eventsFrom, eventsFrom, eventsFrom, opEvents, opEvents, opEvents,
      hkeys, if_pos hmem, List.append_nil, List.append_nil]
    exact congrArg (· ++ _) (List.append_nil _)
  have hholds := h.holds
  rw [List.foldl_cons, List.foldl_cons, List.foldl_nil, List.foldl_cons, List.foldl_cons,
    List.foldl_nil, hkeys, textsAfter_none] at hholds
  exact ⟨hholds, hevents ▸ h.events, h.same⟩

/-! ### The stages of a chunk -/

theorem performs_addMessage {keys : List Key} {texts : Key → String} {e : Emission StreamState}
    (h : Holds e.st keys texts) : Performs [⟨.message, none⟩] keys texts e (addMessage e) := by
  have hmem := h.mem_iff .message
  unfold addMessage
  by_cases hadded : e.st.messageItemAdded = true
  · rw [if_pos hadded]
    exact Performs.stay h (hmem.2 (by rw [held, if_pos hadded]; rfl))
  · rw [if_neg hadded]
    have hnew : Key.message ∉ keys := by
      rw [hmem, held, if_neg hadded]
      exact Bool.false_ne_true
    refine Performs.announce hnew ?_ ?_ ?_
    · refine h.announce hnew rfl rfl (fun other ↦ ?_) fun other ↦ ?_
      · cases other <;> rfl
      · cases other <;> rfl
    · exact ⟨rfl, rfl, rfl, rfl⟩
    · rw [messageAddedEvent, viewEvent_itemAddedEvent, h.next, h.drawn]
      rfl

theorem performs_contentStage {keys : List Key} {texts : Key → String}
    {e : Emission StreamState} (h : Holds e.st keys texts) (content : Option String) :
    Performs (textOps .message content) keys texts e (contentStage content e) := by
  cases content with
  | none => exact Performs.nil h
  | some text =>
    rw [contentStage, textOps]
    by_cases hempty : text = ""
    · rw [if_pos hempty, if_pos hempty]
      exact Performs.nil h
    · rw [if_neg hempty, if_neg hempty]
      have hopen := performs_addMessage h
      have hholds := hopen.holds
      rw [List.foldl_cons, List.foldl_nil] at hholds
      have hkey : Key.message ∈ keysAfter keys ⟨.message, none⟩ := mem_keysAfter.2 (Or.inr rfl)
      have hheld := hholds.held_eq hkey
      have hadded : (addMessage e).st.messageItemAdded = true := by
        have hsome := (hholds.mem_iff .message).1 hkey
        rw [held] at hsome
        split at hsome
        · assumption
        · exact absurd hsome Bool.false_ne_true
      rw [held, if_pos hadded, Option.some.injEq, Prod.mk.injEq, Prod.mk.injEq] at hheld
      refine Performs.merge (hopen.append (Performs.send hkey ?_ ?_ ?_))
      · refine hholds.write hkey text rfl rfl (fun other ↦ ?_) fun other hother ↦ ?_
        · cases other with
          | message =>
            rw [if_pos rfl, held, held, if_pos hadded, if_pos hadded]
            rfl
          | reasoning => rfl
          | tool idx => rfl
        · cases other with
          | message => exact absurd rfl hother
          | reasoning => rfl
          | tool idx => rfl
      · exact ⟨rfl, rfl, rfl, rfl⟩
      · rw [viewEvent_outputTextDeltaEvent, hheld.1, hheld.2.1]
        rfl

theorem performs_addReasoning {keys : List Key} {texts : Key → String} {e : Emission StreamState}
    (h : Holds e.st keys texts) : Performs [⟨.reasoning, none⟩] keys texts e (addReasoning e) := by
  have hmem := h.mem_iff .reasoning
  unfold addReasoning
  by_cases hadded : e.st.reasoningItemAdded = true
  · rw [if_pos hadded]
    exact Performs.stay h (hmem.2 (by rw [held, if_pos hadded]; rfl))
  · rw [if_neg hadded]
    have hnew : Key.reasoning ∉ keys := by
      rw [hmem, held, if_neg hadded]
      exact Bool.false_ne_true
    refine Performs.announce hnew ?_ ?_ ?_
    · refine h.announce hnew rfl rfl (fun other ↦ ?_) fun other ↦ ?_
      · cases other <;> rfl
      · cases other <;> rfl
    · exact ⟨rfl, rfl, rfl, rfl⟩
    · rw [reasoningAddedEvent, viewEvent_itemAddedEvent, h.next, h.drawn]
      rfl

theorem performs_reasoningStage {keys : List Key} {texts : Key → String}
    {e : Emission StreamState} (h : Holds e.st keys texts) (reasoning : Option String) :
    Performs (textOps .reasoning reasoning) keys texts e (reasoningStage reasoning e) := by
  cases reasoning with
  | none => exact Performs.nil h
  | some text =>
    rw [reasoningStage, textOps]
    by_cases hempty : text = ""
    · rw [if_pos hempty, if_pos hempty]
      exact Performs.nil h
    · rw [if_neg hempty, if_neg hempty]
      have hopen := performs_addReasoning h
      have hholds := hopen.holds
      rw [List.foldl_cons, List.foldl_nil] at hholds
      have hkey : Key.reasoning ∈ keysAfter keys ⟨.reasoning, none⟩ := mem_keysAfter.2 (Or.inr rfl)
      have hheld := hholds.held_eq hkey
      have hadded : (addReasoning e).st.reasoningItemAdded = true := by
        have hsome := (hholds.mem_iff .reasoning).1 hkey
        rw [held] at hsome
        split at hsome
        · assumption
        · exact absurd hsome Bool.false_ne_true
      rw [held, if_pos hadded, Option.some.injEq, Prod.mk.injEq, Prod.mk.injEq] at hheld
      refine Performs.merge (hopen.append (Performs.send hkey ?_ ?_ ?_))
      · refine hholds.write hkey text rfl rfl (fun other ↦ ?_) fun other hother ↦ ?_
        · cases other with
          | message => rfl
          | reasoning =>
            rw [if_pos rfl, held, held, if_pos hadded, if_pos hadded]
            rfl
          | tool idx => rfl
        · cases other with
          | message => rfl
          | reasoning => exact absurd rfl hother
          | tool idx => rfl
      · exact ⟨rfl, rfl, rfl, rfl⟩
      · rw [viewEvent_reasoningDeltaEvent, hheld.1, hheld.2.1]
        rfl

theorem performs_addTool {keys : List Key} {texts : Key → String} {e : Emission StreamState}
    (h : Holds e.st keys texts) (tc : IrToolCallDelta) :
    Performs [⟨.tool tc.index, none⟩] keys texts e (addTool tc e) := by
  have hmem := h.mem_iff (.tool tc.index)
  rw [held, Option.isSome_map] at hmem
  unfold addTool
  by_cases hadded : (e.st.toolItems.lookup tc.index).isSome = true
  · rw [if_pos hadded]
    exact Performs.stay h (hmem.2 hadded)
  · rw [if_neg hadded]
    have hnew : Key.tool tc.index ∉ keys := fun hkey ↦ hadded (hmem.1 hkey)
    refine Performs.announce hnew ?_ ?_ ?_
    · refine h.announce hnew rfl rfl (fun other ↦ ?_) fun other ↦ ?_
      · cases other with
        | message => rfl
        | reasoning => rfl
        | tool idx =>
          rw [held, Table.lookup_insert]
          by_cases hidx : tc.index = idx
          · rw [if_pos hidx, if_pos (congrArg Key.tool hidx.symm)]
            rfl
          · rw [if_neg hidx, if_neg fun hkey ↦ hidx (Key.tool.inj hkey).symm]
            rfl
      · cases other <;> rfl
    · exact ⟨rfl, rfl, rfl, rfl⟩
    · rw [functionCallAddedEvent, viewEvent_itemAddedEvent, h.next, h.drawn]
      rfl

theorem performs_toolStage {keys : List Key} {texts : Key → String} {e : Emission StreamState}
    (h : Holds e.st keys texts) (tc : IrToolCallDelta) :
    Performs [⟨.tool tc.index, tc.arguments⟩] keys texts e (toolStage e tc) := by
  have hopen := performs_addTool h tc
  have hholds := hopen.holds
  rw [List.foldl_cons, List.foldl_nil] at hholds
  have hkey : Key.tool tc.index ∈ keysAfter keys ⟨.tool tc.index, none⟩ :=
    mem_keysAfter.2 (Or.inr rfl)
  have hheld := hholds.held_eq hkey
  rw [held, Option.map_eq_some_iff] at hheld
  obtain ⟨state, hstate, hitem⟩ := hheld
  rw [Prod.mk.injEq, Prod.mk.injEq] at hitem
  rw [toolStage, hstate]
  cases tc.arguments with
  | none => exact hopen
  | some args =>
    refine Performs.merge (hopen.append (Performs.send hkey ?_ ?_ ?_))
    · refine hholds.write hkey args rfl rfl (fun other ↦ ?_) fun other hother ↦ ?_
      · cases other with
        | message => rfl
        | reasoning => rfl
        | tool idx =>
          rw [held, Table.lookup_insert]
          by_cases hidx : tc.index = idx
          · rw [if_pos hidx, if_pos (congrArg Key.tool hidx.symm), held, hstate]
            rfl
          · rw [if_neg hidx, if_neg fun hkey ↦ hidx (Key.tool.inj hkey).symm]
            rfl
      · cases other <;> rfl
    · exact ⟨rfl, rfl, rfl, rfl⟩
    · rw [viewEvent_argumentsDeltaEvent, hitem.1, hitem.2.1]
      rfl

theorem performs_toolCalls {keys : List Key} {texts : Key → String} {e : Emission StreamState}
    (h : Holds e.st keys texts) (toolCalls : List IrToolCallDelta) :
    Performs (toolCalls.map fun tc ↦ ⟨.tool tc.index, tc.arguments⟩) keys texts e
      (toolCalls.foldl toolStage e) := by
  induction toolCalls generalizing keys texts e with
  | nil => exact Performs.nil h
  | cons tc rest ih =>
    have hfirst := performs_toolStage h tc
    exact hfirst.append (ih hfirst.holds)

/-! ### One chunk -/

/-- The answer to a chunk without the terminal event. -/
def chunkBody (chunk : IrChunk) (st : StreamState) : Emission StreamState :=
  let e := startResponse chunk { st := st }
  let e := contentStage chunk.delta.content e
  let e := reasoningStage chunk.delta.reasoningContent e
  noteEnd chunk (chunk.delta.toolCalls.foldl toolStage e)

theorem chunkFromIr_eq (chunk : IrChunk) (st : StreamState) :
    chunkFromIr chunk st = finishStage (chunkBody chunk st) := rfl

/-- The items do not depend on the rest of the state. -/
theorem Holds.congr {st st' : StreamState} {keys : List Key} {texts : Key → String}
    (h : Holds st keys texts) (hnext : st'.nextOutputIndex = st.nextOutputIndex)
    (hdrawn : st'.drawn = st.drawn) (hheld : ∀ key, held st' key = held st key)
    (hkept : ∀ key, kept st' key = kept st key) : Holds st' keys texts := by
  refine ⟨hnext.trans h.next, hdrawn.trans h.drawn, fun key ↦ ?_, h.silent, fun key hkey ↦ ?_⟩
  · rw [hheld key, h.items key]
  · rw [hkept key, h.blank key hkey]

/-- What the answer to a chunk is, up to the terminal event. -/
structure Answers (chunk : IrChunk) (keys : List Key) (texts : Key → String) (st : StreamState)
    (e : Emission StreamState) : Prop where
  holds : Holds e.st ((chunkOps chunk).foldl keysAfter keys)
    ((chunkOps chunk).foldl textsAfter texts)
  events : e.events.map viewEvent =
    (if st.created then [] else [.other]) ++ eventsFrom keys (chunkOps chunk)
  created : e.st.created = true
  completed : e.st.completed = st.completed
  lastUsage : e.st.lastUsage = chunk.usage.or st.lastUsage
  pendingFinish : e.st.pendingFinish = chunk.finishReason.or st.pendingFinish

theorem answers_chunkBody {keys : List Key} {texts : Key → String} {st : StreamState}
    (h : Holds st keys texts) (chunk : IrChunk) :
    Answers chunk keys texts st (chunkBody chunk st) := by
  have hstart : Holds (startResponse chunk { st := st }).st keys texts := by
    unfold startResponse
    split
    · exact h
    · refine h.congr rfl rfl (fun key ↦ ?_) fun key ↦ ?_
      · cases key <;> rfl
      · cases key <;> rfl
  have hcontent := performs_contentStage hstart chunk.delta.content
  have hreasoning := performs_reasoningStage hcontent.holds chunk.delta.reasoningContent
  have htools := performs_toolCalls hreasoning.holds chunk.delta.toolCalls
  have hall := (hcontent.append hreasoning).append (by
    rw [List.foldl_append, List.foldl_append]
    exact htools)
  have hsame := hall.same
  refine ⟨?_, ?_, ?_, ?_, ?_, ?_⟩
  · refine hall.holds.congr rfl rfl (fun key ↦ ?_) fun key ↦ ?_
    · cases key <;> rfl
    · cases key <;> rfl
  · refine hall.events.trans (congrArg (· ++ _) ?_)
    unfold startResponse
    by_cases hcreated : st.created = true
    · rw [if_pos hcreated, if_pos hcreated]
      rfl
    · rw [if_neg hcreated, if_neg hcreated]
      rfl
  · refine hsame.created.trans ?_
    unfold startResponse
    split
    · assumption
    · rfl
  · refine hsame.completed.trans ?_
    unfold startResponse
    split <;> rfl
  · refine congrArg (chunk.usage.or ·) (hsame.lastUsage.trans ?_)
    unfold startResponse
    split <;> rfl
  · refine congrArg (chunk.finishReason.or ·) (hsame.pendingFinish.trans ?_)
    unfold startResponse
    split <;> rfl

/-- The state asks for the terminal event. -/
def Due (st : StreamState) : Prop :=
  st.completed = false ∧ st.pendingFinish.isSome ∧
    (st.pendingFinish = some "failed" ∨ st.lastUsage.isSome)

omit [RandSuffix] in
theorem finishStage_of_not_due {e : Emission StreamState} (h : ¬ Due e.st) :
    finishStage e = e := by
  rw [finishStage, if_neg]
  intro hdue
  rw [Bool.and_eq_true, Bool.and_eq_true, Bool.or_eq_true, decide_eq_true_iff,
    Bool.not_eq_true'] at hdue
  exact h ⟨hdue.1.1, hdue.1.2, hdue.2⟩

omit [RandSuffix] in
theorem finishStage_of_due {e : Emission StreamState} (h : Due e.st) :
    finishStage e = sendTerminal e.st.pendingFinish
      (e.withState { e.st with completed := true, pendingFinish := none }) := by
  rw [finishStage, if_pos]
  rw [Bool.and_eq_true, Bool.and_eq_true, Bool.or_eq_true, decide_eq_true_iff,
    Bool.not_eq_true']
  exact ⟨⟨h.1, h.2.1⟩, h.2.2⟩

omit [RandSuffix] in
/-- The terminal event has the items of the state. -/
theorem views_sendTerminal (finishReason : Option String) (e : Emission StreamState) :
    (sendTerminal finishReason e).events.map viewEvent =
      e.events.map viewEvent ++ [.terminal (finalOutput e.st)] := by
  have hevents : (sendTerminal finishReason e).events = e.events ++
      [responseEvent (terminalOf finishReason).2
        (buildFinalResponse e.st (terminalOf finishReason).1).1] := rfl
  rw [hevents, List.map_append, List.map_singleton, viewEvent_terminal]

/-! ### Runs -/

/-- The events of a list of chunks and of the end of the stream. -/
def eventsAfter (st : StreamState) (chunks : List IrChunk) (failed : Bool) : List Value :=
  let (st, events) := Stream.run encodeStep st chunks
  events ++ (streamEnd (if failed then st.markFailed else st)).events

theorem eventsAfter_cons (st : StreamState) (chunk : IrChunk) (rest : List IrChunk)
    (failed : Bool) :
    eventsAfter st (chunk :: rest) failed =
      (chunkFromIr chunk st).events ++ eventsAfter (chunkFromIr chunk st).st rest failed :=
  List.append_assoc ..

/-- After the terminal event, chunks are answered with the events of their operations. -/
theorem eventsAfter_of_completed {keys : List Key} {texts : Key → String} {st : StreamState}
    (h : Holds st keys texts) (hcreated : st.created = true) (hcompleted : st.completed = true)
    (chunks : List IrChunk) (failed : Bool) :
    (eventsAfter st chunks failed).map viewEvent = eventsFrom keys (chunks.flatMap chunkOps) := by
  induction chunks generalizing keys texts st with
  | nil =>
    have hmarked : (if failed then st.markFailed else st) = st := by
      rw [StreamState.markFailed, if_pos hcompleted, ite_self]
    have hevents : eventsAfter st [] failed =
        (streamEnd (if failed then st.markFailed else st)).events := rfl
    rw [hevents, hmarked, streamEnd, if_pos hcompleted]
    rfl
  | cons chunk rest ih =>
    have hbody := answers_chunkBody h chunk
    have hdone : (chunkBody chunk st).st.completed = true := hbody.completed.trans hcompleted
    have hstep : chunkFromIr chunk st = chunkBody chunk st := by
      rw [chunkFromIr_eq, finishStage_of_not_due]
      intro hdue
      exact Bool.false_ne_true (hdue.1.symm.trans hdone)
    rw [eventsAfter_cons, List.map_append, hstep, ih hbody.holds hbody.created hdone,
      hbody.events, if_pos hcreated, List.nil_append, List.flatMap_cons, eventsFrom_append]

/-- The first event that is sent at all is `response.created`. -/
def opening (chunks : List IrChunk) : List ItemEvent := if chunks = [] then [] else [.other]

/-- What is known before the terminal event. -/
structure Running (past : List IrChunk) (st : StreamState) (events : List Value) : Prop where
  holds : Holds st (openings (past.flatMap chunkOps)) (textOf (past.flatMap chunkOps))
  events : events.map viewEvent = opening past ++ itemEvents (past.flatMap chunkOps)
  created : st.created = decide (past ≠ [])
  completed : st.completed = false
  lastUsage : st.lastUsage.isSome = hasUsage past
  pendingFinish : st.pendingFinish = lastFinish past

omit [RandSuffix] in
theorem textsAfter_textOf (ops more : List Op) :
    more.foldl textsAfter (textOf ops) = textOf (ops ++ more) := by
  induction more generalizing ops with
  | nil => rw [List.append_nil]; rfl
  | cons op rest ih =>
    have hstep : textsAfter (textOf ops) op = textOf (ops ++ [op]) := by
      funext key
      rw [textOf_concat, textsAfter]
    rw [List.foldl_cons, hstep, ih, List.append_assoc]
    rfl

omit [RandSuffix] in
theorem openings_append (ops more : List Op) :
    more.foldl keysAfter (openings ops) = openings (ops ++ more) :=
  (List.foldl_append ..).symm

/-- A chunk that does not end the stream. -/
theorem Running.body {past : List IrChunk} {st : StreamState} {events : List Value}
    (h : Running past st events) (chunk : IrChunk) :
    Running (past ++ [chunk]) (chunkBody chunk st).st
      (events ++ (chunkBody chunk st).events) := by
  have hbody := answers_chunkBody h.holds chunk
  have hops : (past ++ [chunk]).flatMap chunkOps = past.flatMap chunkOps ++ chunkOps chunk := by
    rw [List.flatMap_append, List.flatMap_singleton]
  have hne : past ++ [chunk] ≠ [] := List.append_ne_nil_of_right_ne_nil _ (List.cons_ne_nil _ _)
  refine ⟨?_, ?_, ?_, ?_, ?_, ?_⟩
  · rw [hops, ← openings_append, ← textsAfter_textOf]
    exact hbody.holds
  · rw [hops, List.map_append, h.events, hbody.events, h.created, opening, opening, if_neg hne,
      itemEvents_append]
    by_cases hpast : past = []
    · subst hpast
      rfl
    · rw [if_neg hpast, decide_eq_true hpast, if_pos rfl, List.nil_append, List.append_assoc]
  · rw [hbody.created, decide_eq_true hne]
  · rw [hbody.completed, h.completed]
  · rw [hbody.lastUsage, hasUsage, List.any_append, ← hasUsage, ← h.lastUsage,
      Option.isSome_or, List.any_cons, List.any_nil, Bool.or_false, Bool.or_comm]
  · rw [hbody.pendingFinish, h.pendingFinish, lastFinish, lastFinish, List.filterMap_append]
    cases hfinish : chunk.finishReason <;> simp [hfinish]

/-- A chunk before the end of the stream. -/
theorem chunkFromIr_of_running {past : List IrChunk} {st : StreamState} {events : List Value}
    (h : Running past st events) {chunk : IrChunk} (hgoes : ¬ Ends (past ++ [chunk])) :
    chunkFromIr chunk st = chunkBody chunk st := by
  have hbody := h.body chunk
  rw [chunkFromIr_eq, finishStage_of_not_due]
  intro hdue
  refine hgoes ⟨?_, ?_⟩
  · rw [← hbody.pendingFinish]
    exact hdue.2.1
  · rw [← hbody.pendingFinish, ← hbody.lastUsage]
    exact hdue.2.2

/-- The chunk that ends the stream is answered with the terminal event as well. -/
theorem chunkFromIr_of_ends {past : List IrChunk} {st : StreamState} {events : List Value}
    (h : Running past st events) {chunk : IrChunk} (hends : Ends (past ++ [chunk])) :
    chunkFromIr chunk st = sendTerminal (chunkBody chunk st).st.pendingFinish
      ((chunkBody chunk st).withState
        { (chunkBody chunk st).st with completed := true, pendingFinish := none }) := by
  have hbody := h.body chunk
  rw [chunkFromIr_eq, finishStage_of_due]
  refine ⟨hbody.completed, ?_, ?_⟩
  · rw [hbody.pendingFinish]
    exact hends.1
  · rw [hbody.pendingFinish, hbody.lastUsage]
    exact hends.2

omit [RandSuffix] in
/-- The terminal event at the end of the stream. -/
theorem views_streamEnd {st : StreamState} (h : st.completed = false) (failed : Bool) :
    (streamEnd (if failed then st.markFailed else st)).events.map viewEvent =
      [.terminal (finalOutput st)] := by
  have hopen : ¬ st.completed = true := by
    rw [h]
    exact Bool.false_ne_true
  cases failed with
  | false =>
    rw [if_neg Bool.false_ne_true, streamEnd, if_neg hopen, views_sendTerminal]
    rfl
  | true =>
    rw [if_pos rfl, StreamState.markFailed, if_neg hopen, streamEnd, if_neg hopen,
      views_sendTerminal]
    rfl

/-- The events of a stream: those of the operations up to the end, the terminal event with the
items that are held there, and the events of the operations after it. -/
theorem views_of_running {past : List IrChunk} {st : StreamState} {events : List Value}
    (h : Running past st events) (chunks : List IrChunk) (failed : Bool) :
    ∃ final, Holds final (openings ((untilEnd past chunks).1.flatMap chunkOps))
        (textOf ((untilEnd past chunks).1.flatMap chunkOps)) ∧
      (events ++ eventsAfter st chunks failed).map viewEvent =
        opening (untilEnd past chunks).1 ++
          itemEvents ((untilEnd past chunks).1.flatMap chunkOps) ++ [.terminal (finalOutput final)] ++
          eventsFrom (openings ((untilEnd past chunks).1.flatMap chunkOps))
            ((untilEnd past chunks).2.flatMap chunkOps) := by
  induction chunks generalizing past st events with
  | nil =>
    refine ⟨st, h.holds, ?_⟩
    have hend : eventsAfter st [] failed =
        (streamEnd (if failed then st.markFailed else st)).events := rfl
    rw [untilEnd, List.map_append, h.events, hend, views_streamEnd h.completed]
    exact (List.append_nil _).symm
  | cons chunk rest ih =>
    have hbody := h.body chunk
    rw [untilEnd]
    by_cases hends : Ends (past ++ [chunk])
    · rw [if_pos hends]
      refine ⟨(chunkBody chunk st).st, hbody.holds, ?_⟩
      have hstep := chunkFromIr_of_ends h hends
      have hafter : Holds (chunkFromIr chunk st).st (openings ((past ++ [chunk]).flatMap chunkOps))
          (textOf ((past ++ [chunk]).flatMap chunkOps)) := by
        rw [hstep]
        refine hbody.holds.congr rfl rfl (fun key ↦ ?_) fun key ↦ ?_
        · cases key <;> rfl
        · cases key <;> rfl
      have hcreated : (chunkFromIr chunk st).st.created = true := by
        rw [hstep]
        exact hbody.created.trans
          (decide_eq_true (List.append_ne_nil_of_right_ne_nil _ (List.cons_ne_nil _ _)))
      have hcompleted : (chunkFromIr chunk st).st.completed = true := by
        rw [hstep]
        rfl
      have hterminal : (chunkFromIr chunk st).events.map viewEvent =
          (chunkBody chunk st).events.map viewEvent ++
            [.terminal (finalOutput (chunkBody chunk st).st)] := by
        rw [hstep, views_sendTerminal]
        rfl
      rw [eventsAfter_cons, List.map_append, List.map_append, hterminal,
        eventsAfter_of_completed hafter hcreated hcompleted, ← hbody.events, List.map_append,
        List.append_assoc, List.append_assoc, List.append_assoc]
    · rw [if_neg hends]
      obtain ⟨final, hfinal, hviews⟩ := ih hbody
      refine ⟨final, hfinal, ?_⟩
      rw [eventsAfter_cons, chunkFromIr_of_running h hends, ← List.append_assoc]
      exact hviews

theorem running_nil : Running [] {} [] := by
  refine ⟨⟨rfl, rfl, fun key ↦ ?_, fun key hkey ↦ rfl, fun key hkey ↦ ?_⟩, rfl, rfl, rfl, rfl, rfl⟩
  · cases key with
    | message => rfl
    | reasoning => rfl
    | tool idx =>
      have hnone : (∅ : Table UInt32 FnItemState).lookup idx = none := Table.lookup_empty idx
      exact congrArg (Option.map fun t : FnItemState ↦ (t.outputIndex, t.itemId, t.arguments)) hnone
  · cases key <;> rfl

/-- The chunks up to the terminal event. -/
def headOf (chunks : List IrChunk) : List IrChunk := (untilEnd [] chunks).1

/-- The chunks after the terminal event. -/
def tailOf (chunks : List IrChunk) : List IrChunk := (untilEnd [] chunks).2

theorem streamEvents_view (chunks : List IrChunk) (failed : Bool) :
    ∃ final, Holds final (openings ((headOf chunks).flatMap chunkOps))
        (textOf ((headOf chunks).flatMap chunkOps)) ∧
      (streamEvents chunks failed).map viewEvent =
        opening (headOf chunks) ++ itemEvents ((headOf chunks).flatMap chunkOps) ++
          [.terminal (finalOutput final)] ++
          eventsFrom (openings ((headOf chunks).flatMap chunkOps))
            ((tailOf chunks).flatMap chunkOps) := by
  obtain ⟨final, hfinal, hviews⟩ := views_of_running running_nil chunks failed
  refine ⟨final, hfinal, ?_⟩
  rw [List.nil_append] at hviews
  exact hviews

end Stages

end NextApi.Responses
