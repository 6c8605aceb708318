import NextApi.Protocol.Anthropic.Stream

/-!
# The grammar of a Messages stream

A sentence of the streaming grammar is `message_start`, then groups
`content_block_start content_block_delta* content_block_stop` with strictly increasing indices,
then one `message_delta` and one `message_stop` (`Sentence`). Inside a group every delta has the
index of its block and the kind of delta that belongs to the block's type.

`Phase` is what a reader of the stream knows between two events, and `readEvent` its step. The
reader accepts exactly the sentences (`accepts_iff_sentence`), so a fact about every event that an
encoder sends is a fact about the sentence they make.
-/

set_option autoImplicit false

namespace NextApi.Anthropic

open Json Ir

/-! ### Events as the grammar sees them -/

/-- The part of an event that the grammar speaks about. -/
inductive StreamEvent where
  | messageStart
  | blockStart (index : ℕ) (kind : BlockKind)
  | blockDelta (index : ℕ) (kind : BlockKind)
  | blockStop (index : ℕ)
  | messageDelta
  | messageStop
  deriving DecidableEq

/-- The kind of a block, by the type of `content_block`. -/
def blockKindOf (type : String) : Option BlockKind :=
  match type with
  | "text" => some .text
  | "thinking" => some .thinking
  | "tool_use" => some .tool
  | _ => none

/-- The kind of block that a delta of this type belongs to. -/
def deltaKindOf (type : String) : Option BlockKind :=
  match type with
  | "text_delta" => some .text
  | "thinking_delta" => some .thinking
  | "signature_delta" => some .thinking
  | "input_json_delta" => some .tool
  | _ => none

/-- Reads an event; anything that is not an event of the grammar has no reading. -/
def viewEvent (v : Value) : Option StreamEvent :=
  match v["type"].strOrEmpty with
  | "message_start" => some .messageStart
  | "content_block_start" => do
    some (.blockStart (← v["index"].asU64) (← blockKindOf v["content_block"]["type"].strOrEmpty))
  | "content_block_delta" => do
    some (.blockDelta (← v["index"].asU64) (← deltaKindOf v["delta"]["type"].strOrEmpty))
  | "content_block_stop" => do some (.blockStop (← v["index"].asU64))
  | "message_delta" => some .messageDelta
  | "message_stop" => some .messageStop
  | _ => none

@[simp] theorem viewEvent_messageStartEvent (st : StreamState) :
    viewEvent (messageStartEvent st) = some .messageStart :=
  rfl

@[simp] theorem viewEvent_messageDelta (stopReason usage : Value) :
    viewEvent (messageDelta stopReason usage) = some .messageDelta :=
  rfl

@[simp] theorem viewEvent_messageStopEvent : viewEvent messageStopEvent = some .messageStop := rfl

theorem asU64_toNat (idx : UInt32) : (Value.ofNat idx.toNat).asU64 = some idx.toNat := by
  simp

@[simp] theorem viewEvent_contentBlockStop (idx : UInt32) :
    viewEvent (contentBlockStop idx) = some (.blockStop idx.toNat) := by
  have hview : viewEvent (contentBlockStop idx) =
      (Value.ofNat idx.toNat).asU64.bind fun i ↦ some (.blockStop i) := rfl
  rw [hview, asU64_toNat, Option.bind_some]

theorem viewEvent_contentBlockStart (idx : UInt32) {block : Value} {kind : BlockKind}
    (h : blockKindOf block["type"].strOrEmpty = some kind) :
    viewEvent (contentBlockStart idx block) = some (.blockStart idx.toNat kind) := by
  have hview : viewEvent (contentBlockStart idx block) =
      (Value.ofNat idx.toNat).asU64.bind fun i ↦
        (blockKindOf block["type"].strOrEmpty).bind fun k ↦ some (.blockStart i k) := rfl
  rw [hview, asU64_toNat, h, Option.bind_some, Option.bind_some]

theorem viewEvent_contentBlockDelta (idx : UInt32) {delta : Value} {kind : BlockKind}
    (h : deltaKindOf delta["type"].strOrEmpty = some kind) :
    viewEvent (contentBlockDelta idx delta) = some (.blockDelta idx.toNat kind) := by
  have hview : viewEvent (contentBlockDelta idx delta) =
      (Value.ofNat idx.toNat).asU64.bind fun i ↦
        (deltaKindOf delta["type"].strOrEmpty).bind fun k ↦ some (.blockDelta i k) := rfl
  rw [hview, asU64_toNat, h, Option.bind_some, Option.bind_some]

@[simp] theorem viewEvent_startText (idx : UInt32) :
    viewEvent (contentBlockStartText idx) = some (.blockStart idx.toNat .text) :=
  viewEvent_contentBlockStart idx rfl

@[simp] theorem viewEvent_deltaText (idx : UInt32) (text : String) :
    viewEvent (contentBlockDeltaText idx text) = some (.blockDelta idx.toNat .text) :=
  viewEvent_contentBlockDelta idx rfl

@[simp] theorem viewEvent_startThinking (idx : UInt32) :
    viewEvent (contentBlockStartThinking idx) = some (.blockStart idx.toNat .thinking) :=
  viewEvent_contentBlockStart idx rfl

@[simp] theorem viewEvent_deltaThinking (idx : UInt32) (thinking : String) :
    viewEvent (contentBlockDeltaThinking idx thinking) = some (.blockDelta idx.toNat .thinking) :=
  viewEvent_contentBlockDelta idx rfl

@[simp] theorem viewEvent_startToolUse (idx : UInt32) (tc : IrToolCallDelta) :
    viewEvent (contentBlockStartToolUse idx tc) = some (.blockStart idx.toNat .tool) :=
  viewEvent_contentBlockStart idx rfl

@[simp] theorem viewEvent_deltaInputJson (idx : UInt32) (tc : IrToolCallDelta) :
    viewEvent (contentBlockDeltaInputJson idx tc) = some (.blockDelta idx.toNat .tool) :=
  viewEvent_contentBlockDelta idx rfl

/-! ### Sentences -/

/-- A content block with its number of deltas. -/
structure BlockGroup where
  index : ℕ
  kind : BlockKind
  deltas : ℕ

/-- The events of a content block. -/
def BlockGroup.events (g : BlockGroup) : List StreamEvent :=
  .blockStart g.index g.kind :: List.replicate g.deltas (.blockDelta g.index g.kind) ++
    [.blockStop g.index]

/-- The events of content blocks that come one after another, then the end of the message. -/
def groupsEvents (groups : List BlockGroup) : List StreamEvent :=
  groups.flatMap BlockGroup.events ++ [.messageDelta, .messageStop]

/-- A sentence of the streaming grammar. -/
def Sentence (events : List StreamEvent) : Prop :=
  ∃ groups : List BlockGroup, groups.Pairwise (fun g h ↦ g.index < h.index) ∧
    events = .messageStart :: groupsEvents groups

/-- The events are, as the grammar sees them, a sentence. -/
def IsSentence (events : List Value) : Prop :=
  ∃ sentence, Sentence sentence ∧ events.map viewEvent = sentence.map some

/-! ### A reader of the grammar -/

/-- What a reader knows between two events: which index a block may have next, or which block is
open. -/
inductive Phase where
  | fresh
  | between (bound : ℕ)
  | inside (index : ℕ) (kind : BlockKind)
  | sealed
  | stopped
  deriving DecidableEq

/-- The phase after one event, if the event may come in this phase. -/
def accept : Phase → StreamEvent → Option Phase
  | .fresh, .messageStart => some (.between 0)
  | .between bound, .blockStart i k => if bound ≤ i then some (.inside i k) else none
  | .between _, .messageDelta => some .sealed
  | .inside i k, .blockDelta j l => if j = i ∧ l = k then some (.inside i k) else none
  | .inside i _, .blockStop j => if j = i then some (.between (i + 1)) else none
  | .sealed, .messageStop => some .stopped
  | _, _ => none

theorem accept_blockStart (bound i : ℕ) (k : BlockKind) :
    accept (.between bound) (.blockStart i k) =
      if bound ≤ i then some (.inside i k) else none := rfl

theorem accept_blockDelta (i j : ℕ) (k l : BlockKind) : accept (.inside i k) (.blockDelta j l) =
    if j = i ∧ l = k then some (.inside i k) else none := rfl

theorem accept_blockStop (i j : ℕ) (k : BlockKind) : accept (.inside i k) (.blockStop j) =
    if j = i then some (.between (i + 1)) else none := rfl

/-- One step of the reader; after an event that may not come it has no phase. -/
def readEvent (phase : Option Phase) (v : Value) : Option Phase :=
  phase.bind fun p ↦ (viewEvent v).bind (accept p)

@[simp] theorem readEvent_none (v : Value) : readEvent none v = none := rfl

@[simp] theorem foldl_readEvent_none (events : List Value) :
    events.foldl readEvent none = none := by
  induction events with
  | nil => rfl
  | cons v rest ih => exact ih

/-- Groups whose indices increase from a bound on. -/
def Increasing (bound : ℕ) (groups : List BlockGroup) : Prop :=
  groups.Pairwise (fun g h ↦ g.index < h.index) ∧ ∀ g ∈ groups, bound ≤ g.index

theorem increasing_nil (bound : ℕ) : Increasing bound [] := by
  simp [Increasing]

theorem increasing_cons (bound : ℕ) (g : BlockGroup) (groups : List BlockGroup) :
    Increasing bound (g :: groups) ↔ bound ≤ g.index ∧ Increasing (g.index + 1) groups := by
  simp only [Increasing, List.pairwise_cons, List.forall_mem_cons, Nat.succ_le_iff]
  constructor
  · rintro ⟨⟨hlt, hpair⟩, hbound, -⟩
    exact ⟨hbound, hpair, hlt⟩
  · rintro ⟨hbound, hpair, hlt⟩
    exact ⟨⟨hlt, hpair⟩, hbound, fun h hh ↦ Nat.le_trans hbound (Nat.le_of_lt (hlt h hh))⟩

/-- What has to follow in each phase for the whole to become a sentence. -/
def Completes : Phase → List StreamEvent → Prop
  | .fresh, events => Sentence events
  | .between bound, events => ∃ groups, Increasing bound groups ∧ events = groupsEvents groups
  | .inside i k, events => ∃ deltas groups, Increasing (i + 1) groups ∧
      events = List.replicate deltas (.blockDelta i k) ++ .blockStop i :: groupsEvents groups
  | .sealed, events => events = [.messageStop]
  | .stopped, events => events = []

private theorem groupsEvents_nil : groupsEvents [] = [.messageDelta, .messageStop] := rfl

private theorem groupsEvents_cons (g : BlockGroup) (groups : List BlockGroup) :
    groupsEvents (g :: groups) = .blockStart g.index g.kind ::
      (List.replicate g.deltas (.blockDelta g.index g.kind) ++
        .blockStop g.index :: groupsEvents groups) := by
  simp [groupsEvents, BlockGroup.events]

private theorem completes_between_nil (bound : ℕ) : ¬ Completes (.between bound) [] := by
  rintro ⟨groups, -, h⟩
  cases groups with
  | nil => simp [groupsEvents_nil] at h
  | cons g groups => simp [groupsEvents_cons] at h

private theorem completes_inside_nil (i : ℕ) (k : BlockKind) : ¬ Completes (.inside i k) [] := by
  rintro ⟨deltas, groups, -, h⟩
  simp at h

private theorem completes_between_cons (bound : ℕ) (ev : StreamEvent) (rest : List StreamEvent) :
    Completes (.between bound) (ev :: rest) ↔
      ∃ p, accept (.between bound) ev = some p ∧ Completes p rest := by
  constructor
  · rintro ⟨groups, hinc, h⟩
    cases groups with
    | nil =>
      obtain ⟨rfl, rfl⟩ : ev = .messageDelta ∧ rest = [.messageStop] := by
        simpa [groupsEvents_nil] using h
      exact ⟨.sealed, rfl, rfl⟩
    | cons g groups =>
      obtain ⟨hbound, hinc'⟩ := (increasing_cons _ _ _).mp hinc
      rw [groupsEvents_cons, List.cons.injEq] at h
      obtain ⟨rfl, rfl⟩ := h
      exact ⟨.inside g.index g.kind, if_pos hbound, g.deltas, groups, hinc', rfl⟩
  · rintro ⟨p, haccept, hp⟩
    cases ev with
    | blockStart i k =>
      by_cases hbound : bound ≤ i
      · rw [accept_blockStart, if_pos hbound, Option.some.injEq] at haccept
        subst haccept
        obtain ⟨deltas, groups, hinc, rfl⟩ := hp
        exact ⟨⟨i, k, deltas⟩ :: groups, (increasing_cons _ _ _).mpr ⟨hbound, hinc⟩,
          (groupsEvents_cons ⟨i, k, deltas⟩ groups).symm⟩
      · rw [accept_blockStart, if_neg hbound] at haccept
        exact nomatch haccept
    | messageDelta =>
      obtain rfl : Phase.sealed = p := Option.some.inj haccept
      refine ⟨[], increasing_nil bound, ?_⟩
      rw [groupsEvents_nil, show rest = [StreamEvent.messageStop] from hp]
    | messageStart => exact nomatch haccept
    | blockDelta i k => exact nomatch haccept
    | blockStop i => exact nomatch haccept
    | messageStop => exact nomatch haccept

private theorem completes_inside_cons (i : ℕ) (k : BlockKind) (ev : StreamEvent)
    (rest : List StreamEvent) :
    Completes (.inside i k) (ev :: rest) ↔
      ∃ p, accept (.inside i k) ev = some p ∧ Completes p rest := by
  constructor
  · rintro ⟨deltas, groups, hinc, h⟩
    cases deltas with
    | zero =>
      rw [List.replicate_zero, List.nil_append, List.cons.injEq] at h
      obtain ⟨rfl, rfl⟩ := h
      exact ⟨.between (i + 1), if_pos rfl, groups, hinc, rfl⟩
    | succ deltas =>
      rw [List.replicate_succ, List.cons_append, List.cons.injEq] at h
      obtain ⟨rfl, rfl⟩ := h
      exact ⟨.inside i k, if_pos ⟨rfl, rfl⟩, deltas, groups, hinc, rfl⟩
  · rintro ⟨p, haccept, hp⟩
    cases ev with
    | blockDelta j l =>
      by_cases hsame : j = i ∧ l = k
      · rw [accept_blockDelta, if_pos hsame, Option.some.injEq] at haccept
        obtain ⟨rfl, rfl⟩ := hsame
        subst haccept
        obtain ⟨deltas, groups, hinc, rfl⟩ := hp
        exact ⟨deltas + 1, groups, hinc, by rw [List.replicate_succ, List.cons_append]⟩
      · rw [accept_blockDelta, if_neg hsame] at haccept
        exact nomatch haccept
    | blockStop j =>
      by_cases hsame : j = i
      · rw [accept_blockStop, if_pos hsame, Option.some.injEq] at haccept
        subst hsame haccept
        obtain ⟨groups, hinc, rfl⟩ := hp
        exact ⟨0, groups, hinc, rfl⟩
      · rw [accept_blockStop, if_neg hsame] at haccept
        exact nomatch haccept
    | messageStart => exact nomatch haccept
    | blockStart j l => exact nomatch haccept
    | messageDelta => exact nomatch haccept
    | messageStop => exact nomatch haccept

private theorem completes_fresh_cons (ev : StreamEvent) (rest : List StreamEvent) :
    Completes .fresh (ev :: rest) ↔ ∃ p, accept .fresh ev = some p ∧ Completes p rest := by
  constructor
  · rintro ⟨groups, hpair, h⟩
    rw [List.cons.injEq] at h
    obtain ⟨rfl, rfl⟩ := h
    exact ⟨.between 0, rfl, groups, ⟨hpair, fun _ _ ↦ Nat.zero_le _⟩, rfl⟩
  · rintro ⟨p, haccept, hp⟩
    cases ev with
    | messageStart =>
      obtain rfl : Phase.between 0 = p := Option.some.inj haccept
      obtain ⟨groups, ⟨hpair, -⟩, rfl⟩ := hp
      exact ⟨groups, hpair, rfl⟩
    | blockStart i k => exact nomatch haccept
    | blockDelta i k => exact nomatch haccept
    | blockStop i => exact nomatch haccept
    | messageDelta => exact nomatch haccept
    | messageStop => exact nomatch haccept

private theorem completes_sealed_cons (ev : StreamEvent) (rest : List StreamEvent) :
    Completes .sealed (ev :: rest) ↔ ∃ p, accept .sealed ev = some p ∧ Completes p rest := by
  cases ev <;> simp [Completes, accept]

private theorem completes_stopped_cons (ev : StreamEvent) (rest : List StreamEvent) :
    Completes .stopped (ev :: rest) ↔ ∃ p, accept .stopped ev = some p ∧ Completes p rest := by
  cases ev <;> simp [Completes, accept]

private theorem completes_nil (p : Phase) : Completes p [] ↔ p = .stopped := by
  cases p with
  | fresh => simp [Completes, Sentence]
  | between bound => simp [completes_between_nil]
  | inside i k => simp [completes_inside_nil]
  | sealed => simp [Completes]
  | stopped => simp [Completes]

private theorem completes_cons (p : Phase) (ev : StreamEvent) (rest : List StreamEvent) :
    Completes p (ev :: rest) ↔ ∃ q, accept p ev = some q ∧ Completes q rest := by
  cases p with
  | fresh => exact completes_fresh_cons ev rest
  | between bound => exact completes_between_cons bound ev rest
  | inside i k => exact completes_inside_cons i k ev rest
  | sealed => exact completes_sealed_cons ev rest
  | stopped => exact completes_stopped_cons ev rest

/-- From any phase, the reader reaches the end exactly on the events that complete the phase. -/
theorem reads_iff_completes (p : Phase) (events : List Value) :
    events.foldl readEvent (some p) = some .stopped ↔
      ∃ sentence, Completes p sentence ∧ events.map viewEvent = sentence.map some := by
  induction events generalizing p with
  | nil =>
    simp only [List.foldl_nil, Option.some.injEq, List.map_nil]
    constructor
    · intro h
      exact ⟨[], (completes_nil p).mpr h, rfl⟩
    · rintro ⟨sentence, hp, h⟩
      obtain rfl : sentence = [] := by simpa using h.symm
      exact (completes_nil p).mp hp
  | cons v rest ih =>
    rw [List.foldl_cons]
    constructor
    · intro h
      cases hview : viewEvent v with
      | none => simp [readEvent, hview] at h
      | some ev =>
        cases haccept : accept p ev with
        | none => simp [readEvent, hview, haccept] at h
        | some q =>
          have hrest : rest.foldl readEvent (some q) = some .stopped := by
            simpa [readEvent, hview, haccept] using h
          obtain ⟨sentence, hq, hmap⟩ := (ih q).mp hrest
          exact ⟨ev :: sentence, (completes_cons p ev sentence).mpr ⟨q, haccept, hq⟩,
            by simp [hview, hmap]⟩
    · rintro ⟨sentence, hp, hmap⟩
      cases sentence with
      | nil => simp at hmap
      | cons ev sentence =>
        obtain ⟨hview, hmap'⟩ : viewEvent v = some ev ∧ rest.map viewEvent = sentence.map some := by
          simpa using hmap
        obtain ⟨q, haccept, hq⟩ := (completes_cons p ev sentence).mp hp
        have hread : readEvent (some p) v = some q := by simp [readEvent, hview, haccept]
        rw [hread]
        exact (ih q).mpr ⟨sentence, hq, hmap'⟩

/-- The reader accepts exactly the sentences of the grammar. -/
theorem accepts_iff_sentence (events : List Value) :
    events.foldl readEvent (some .fresh) = some .stopped ↔ IsSentence events :=
  reads_iff_completes .fresh events

end NextApi.Anthropic
