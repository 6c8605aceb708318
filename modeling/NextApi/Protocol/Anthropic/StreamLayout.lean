import NextApi.Protocol.Anthropic.Stream

/-!
# The content blocks of an encoded stream

`layout` says which content blocks a list of chunks calls for: content of one kind, or of one
tool, goes into one block until other content or a finish reason follows.

The tables of the encoder agree with the layout (`Tables`) as long as the block indices do not
wrap. Under that agreement each content stage does one of two things: content that continues the
open block is one delta (`deltaInBlock_of_current`, `toolDelta_of_current`), and other content
closes the open block and opens the next one (`deltaInBlock_of_not_current`,
`toolDelta_of_not_current`).
-/

set_option autoImplicit false

namespace NextApi.Anthropic

open Json Ir

/-! ### The blocks that chunks call for -/

/-- Content that belongs into one block. -/
inductive Piece where
  | text
  | thinking
  | tool (index : UInt32)
  deriving DecidableEq

def Piece.kind : Piece → BlockKind
  | .text => .text
  | .thinking => .thinking
  | .tool _ => .tool

/-- The content of a chunk, in the order in which it is sent. -/
def pieces (chunk : IrChunk) : List Piece :=
  (chunk.delta.content.map fun _ ↦ Piece.text).toList ++
    (chunk.delta.reasoningContent.map fun _ ↦ Piece.thinking).toList ++
    chunk.delta.toolCalls.map fun tc ↦ Piece.tool tc.index

/-- The content that is being sent, and the number of blocks so far. -/
structure Layout where
  current : Option Piece := none
  blocks : ℕ := 0
  deriving DecidableEq

def Layout.piece (l : Layout) (p : Piece) : Layout :=
  if l.current = some p then l else ⟨some p, l.blocks + 1⟩

/-- A chunk adds its content; its finish reason ends the block. -/
def Layout.chunk (l : Layout) (chunk : IrChunk) : Layout :=
  let l := (pieces chunk).foldl Layout.piece l
  if chunk.finishReason.isSome then { l with current := none } else l

def layout (chunks : List IrChunk) : Layout := chunks.foldl Layout.chunk {}

theorem Layout.blocks_le_piece (l : Layout) (p : Piece) : l.blocks ≤ (l.piece p).blocks := by
  unfold Layout.piece
  split_ifs
  · exact Nat.le_refl _
  · exact Nat.le_succ _

theorem Layout.blocks_le_foldl (ps : List Piece) (l : Layout) :
    l.blocks ≤ (ps.foldl Layout.piece l).blocks := by
  induction ps generalizing l with
  | nil => exact Nat.le_refl _
  | cons p rest ih => exact Nat.le_trans (Layout.blocks_le_piece l p) (ih (l.piece p))

theorem layout_concat (past : List IrChunk) (chunk : IrChunk) :
    layout (past ++ [chunk]) = (layout past).chunk chunk := by
  simp [layout]

theorem Layout.blocks_le_chunk (l : Layout) (chunk : IrChunk) :
    ((pieces chunk).foldl Layout.piece l).blocks ≤ (l.chunk chunk).blocks := by
  unfold Layout.chunk
  split_ifs <;> exact Nat.le_refl _

theorem blocks_le_concat (past : List IrChunk) (chunk : IrChunk) :
    (layout past).blocks ≤ (layout (past ++ [chunk])).blocks := by
  rw [layout_concat]
  exact Nat.le_trans (Layout.blocks_le_foldl _ _) (Layout.blocks_le_chunk _ chunk)

/-- More chunks call for at least as many blocks. -/
theorem blocks_le_append (past more : List IrChunk) :
    (layout past).blocks ≤ (layout (past ++ more)).blocks := by
  induction more generalizing past with
  | nil => simp
  | cons chunk rest ih =>
    have := ih (past ++ [chunk])
    rw [List.append_assoc] at this
    exact Nat.le_trans (blocks_le_concat past chunk) this

/-! ### Agreement with the encoder -/

/-- The tables of the encoder agree with the layout: the next index, the open block, and for
every tool its last block. -/
structure Tables (l : Layout) (st : StreamState) : Prop where
  next : st.nextBlockIndex = UInt32.ofNat l.blocks
  bound : l.blocks ≤ 2 ^ 32
  closed : l.current = none → st.openBlock = none
  opened : ∀ p, l.current = some p →
    0 < l.blocks ∧ st.openBlock = some ⟨p.kind, UInt32.ofNat (l.blocks - 1)⟩
  tool : ∀ i, l.current = some (.tool i) →
    st.toolBlockOf.lookup i = some (UInt32.ofNat (l.blocks - 1))
  earlier : ∀ i b, st.toolBlockOf.lookup i = some b → b.toNat < l.blocks
  injective : ∀ i j b, st.toolBlockOf.lookup i = some b → st.toolBlockOf.lookup j = some b → i = j

variable {e : Emission StreamState} {st st' : StreamState} {l : Layout} {p : Piece}

theorem toNat_ofNat_of_lt {n : ℕ} (h : n < 2 ^ 32) : (UInt32.ofNat n).toNat = n := by
  rw [UInt32.toNat_ofNat', Nat.mod_eq_of_lt h]

/-- A new block is noted as the last block of its tool. -/
def Piece.record (p : Piece) (idx : UInt32) (table : Table UInt32 UInt32) : Table UInt32 UInt32 :=
  match p with
  | .tool i => table.insert i idx
  | _ => table

@[simp] theorem Piece.record_of_not_tool (hp : ∀ i, p ≠ .tool i) (idx : UInt32)
    (table : Table UInt32 UInt32) : p.record idx table = table := by
  cases p with
  | tool i => exact absurd rfl (hp i)
  | text => rfl
  | thinking => rfl

theorem Piece.lookup_record (p : Piece) (idx : UInt32) (table : Table UInt32 UInt32)
    (i : UInt32) :
    (p.record idx table).lookup i = if p = .tool i then some idx else table.lookup i := by
  cases p <;> simp [record]

theorem Tables.congr {l : Layout} (h : Tables l st)
    (hnext : st'.nextBlockIndex = st.nextBlockIndex) (hopen : st'.openBlock = st.openBlock)
    (htool : st'.toolBlockOf = st.toolBlockOf) : Tables l st' := by
  obtain ⟨h1, h2, h3, h4, h5, h6, h7⟩ := h
  exact ⟨hnext ▸ h1, h2, hopen ▸ h3, hopen ▸ h4, htool ▸ h5, htool ▸ h6, htool ▸ h7⟩

/-- Closing the open block keeps the tables in agreement with the layout. -/
theorem Tables.close (h : Tables l st) :
    Tables { l with current := none } { st with openBlock := none } :=
  ⟨h.next, h.bound, fun _ ↦ rfl, fun q hq ↦ by simp at hq, fun i hi ↦ by simp at hi, h.earlier,
    h.injective⟩

/-- Opening a block keeps the tables in agreement with the layout. -/
theorem Tables.opening {l : Layout} (h : Tables l st) (hlt : l.blocks < 2 ^ 32) {p : Piece}
    (hnext : st'.nextBlockIndex = st.nextBlockIndex + 1)
    (hopen : st'.openBlock = some ⟨p.kind, st.nextBlockIndex⟩)
    (htool : st'.toolBlockOf = p.record st.nextBlockIndex st.toolBlockOf) :
    Tables ⟨some p, l.blocks + 1⟩ st' := by
  have hidx : st.nextBlockIndex.toNat = l.blocks := by rw [h.next, toNat_ofNat_of_lt hlt]
  have hlookup (i : UInt32) : st'.toolBlockOf.lookup i =
      if p = .tool i then some st.nextBlockIndex else st.toolBlockOf.lookup i := by
    rw [htool, Piece.lookup_record]
  have hnew (i : UInt32) : st.toolBlockOf.lookup i ≠ some st.nextBlockIndex := by
    intro hi
    have := h.earlier i _ hi
    omega
  refine ⟨?_, hlt, fun hn ↦ by simp at hn, fun q hq ↦ ?_, fun i hi ↦ ?_, fun i b hb ↦ ?_,
    fun i j b hi hj ↦ ?_⟩
  · rw [hnext, h.next, UInt32.ofNat_add]
    rfl
  · obtain rfl : p = q := by simpa using hq
    exact ⟨Nat.succ_pos _, by rw [hopen, h.next]; rfl⟩
  · obtain rfl : p = .tool i := by simpa using hi
    rw [hlookup, if_pos rfl, h.next]
    rfl
  · rw [hlookup] at hb
    change b.toNat < l.blocks + 1
    split_ifs at hb with hp
    · rw [← Option.some.inj hb]
      omega
    · exact Nat.lt_succ_of_lt (h.earlier i b hb)
  · rw [hlookup] at hi hj
    split_ifs at hi hj with hpi hpj hpj
    · exact Piece.tool.inj (hpi.symm.trans hpj)
    · exact absurd (hj.trans hi.symm) (hnew j)
    · exact absurd (hi.trans hj.symm) (hnew i)
    · exact h.injective i j b hi hj

/-! ### Content stages -/

@[simp] theorem closeOpenBlock_st (e : Emission StreamState) :
    (closeOpenBlock e).st = { e.st with openBlock := none } := by
  cases h : e.st.openBlock with
  | none =>
    rw [closeOpenBlock, h]
    change e.st = { e.st with openBlock := none }
    rw [← h]
  | some b =>
    rw [closeOpenBlock, h]
    rfl

/-- Only tools share a kind of block. -/
theorem Piece.eq_of_kind (hp : ∀ i, p ≠ .tool i) {q : Piece} (h : q.kind = p.kind) : q = p := by
  cases p with
  | tool i => exact absurd rfl (hp i)
  | text => cases q <;> simp_all [Piece.kind]
  | thinking => cases q <;> simp_all [Piece.kind]

/-- What text or thinking does when its block is open. -/
theorem deltaInBlock_of_current (h : Tables l e.st) (hcur : l.current = some p)
    (start delta : UInt32 → Value) :
    (deltaInBlock p.kind start delta e).st = e.st ∧
      (deltaInBlock p.kind start delta e).events =
        e.events ++ [delta (UInt32.ofNat (l.blocks - 1))] := by
  obtain ⟨-, hopen⟩ := h.opened p hcur
  simp [deltaInBlock, hopen]

/-- What text or thinking does when its block is not open. -/
theorem deltaInBlock_of_not_current (h : Tables l e.st) (hp : ∀ i, p ≠ .tool i)
    (hcur : l.current ≠ some p) (start delta : UInt32 → Value) :
    (deltaInBlock p.kind start delta e).st =
        { e.st with
          nextBlockIndex := e.st.nextBlockIndex + 1
          openBlock := some ⟨p.kind, e.st.nextBlockIndex⟩ } ∧
      (deltaInBlock p.kind start delta e).events = (closeOpenBlock e).events ++
        [start e.st.nextBlockIndex, delta e.st.nextBlockIndex] := by
  have hkind : e.st.openBlock.map OpenBlock.kind ≠ some p.kind := by
    intro hk
    cases hc : l.current with
    | none => simp [h.closed hc] at hk
    | some q =>
      rw [(h.opened q hc).2] at hk
      have hq : q = p := Piece.eq_of_kind hp (by simpa using hk)
      exact hcur (by rw [hc, hq])
  simp [deltaInBlock, hkind, openNewBlock]

@[simp] theorem openToolBlock_st (tc : IrToolCallDelta) (e : Emission StreamState) :
    (openToolBlock tc e).st =
      { e.st with
        nextBlockIndex := e.st.nextBlockIndex + 1
        openBlock := some ⟨.tool, e.st.nextBlockIndex⟩
        toolBlockOf := e.st.toolBlockOf.insert tc.index e.st.nextBlockIndex } := by
  dsimp only [openToolBlock]
  split <;> simp [openNewBlock]

@[simp] theorem openToolBlock_events (tc : IrToolCallDelta) (e : Emission StreamState) :
    (openToolBlock tc e).events = (closeOpenBlock e).events ++
      [contentBlockStartToolUse e.st.nextBlockIndex (withToolMeta tc e.st.toolMeta)] := by
  dsimp only [openToolBlock]
  split <;> simp [openNewBlock]

theorem closeOpenBlock_withState_events (e : Emission StreamState) (st : StreamState)
    (hopen : st.openBlock = e.st.openBlock) :
    (closeOpenBlock (e.withState st)).events = (closeOpenBlock e).events := by
  unfold closeOpenBlock
  rw [Emission.withState_st, hopen]
  cases e.st.openBlock <;> rfl

/-- What a fragment does when its tool's block is open. -/
theorem toolDelta_of_current {tc : IrToolCallDelta} {b : UInt32}
    (h : currentToolBlock e.st tc = some b) :
    (toolDelta e tc).st = noteToolMeta tc e.st ∧
      (toolDelta e tc).events = e.events ++ [contentBlockDeltaInputJson b tc] := by
  have h' : currentToolBlock (noteToolMeta tc e.st) tc = some b := h
  simp [toolDelta, h']

/-- What a fragment does when its tool's block is not open. -/
theorem toolDelta_of_not_current {tc : IrToolCallDelta}
    (h : currentToolBlock e.st tc = none) :
    (toolDelta e tc).st =
        { noteToolMeta tc e.st with
          nextBlockIndex := e.st.nextBlockIndex + 1
          openBlock := some ⟨.tool, e.st.nextBlockIndex⟩
          toolBlockOf := e.st.toolBlockOf.insert tc.index e.st.nextBlockIndex } ∧
      (toolDelta e tc).events = (closeOpenBlock e).events ++
        [contentBlockStartToolUse e.st.nextBlockIndex
            (withToolMeta tc (noteToolMeta tc e.st).toolMeta),
          contentBlockDeltaInputJson e.st.nextBlockIndex tc] := by
  have h' : currentToolBlock (noteToolMeta tc e.st) tc = none := h
  have hclose := closeOpenBlock_withState_events e (noteToolMeta tc e.st) rfl
  simp only [toolDelta, Emission.withState_st, h', Emission.emit_st, Emission.emit_events,
    openToolBlock_st, openToolBlock_events, hclose, List.append_assoc, List.cons_append,
    List.nil_append]
  exact ⟨rfl, rfl⟩

/-- The encoder continues a tool's block exactly when the layout does. -/
theorem currentToolBlock_eq {l : Layout} (h : Tables l st) (tc : IrToolCallDelta) :
    currentToolBlock st tc =
      if l.current = some (.tool tc.index) then some (UInt32.ofNat (l.blocks - 1)) else none := by
  split_ifs with hcur
  · simp [currentToolBlock, h.tool tc.index hcur, (h.opened _ hcur).2, Piece.kind]
  · rw [currentToolBlock, Option.filter_eq_none_iff]
    intro b hb hopen
    rw [decide_eq_true_iff] at hopen
    cases hc : l.current with
    | none => simp [h.closed hc] at hopen
    | some q =>
      have hq := (h.opened q hc).2.symm.trans hopen
      cases q with
      | tool j =>
        have hidx : UInt32.ofNat (l.blocks - 1) = b := by
          simpa [Piece.kind] using hq
        have hj := h.tool j hc
        rw [hidx] at hj
        exact hcur (by rw [hc, h.injective j tc.index b hj hb])
      | text => simp [Piece.kind] at hq
      | thinking => simp [Piece.kind] at hq

end NextApi.Anthropic
