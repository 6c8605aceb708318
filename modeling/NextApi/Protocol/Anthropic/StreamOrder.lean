import Mathlib.Data.List.Induction
import NextApi.Protocol.Anthropic.StreamOutline

/-!
# Which streams are sentences

A chunk `Settles` the message when it reports a failure, or usage once a finish reason is known;
that is when the encoder sends `message_delta`. Chunks are `Orderly` when no block is open at that
moment, and no later chunk has content, a failure, or a finish reason with usage.

The events that a stream is turned into are a sentence of the streaming grammar exactly if there
is a chunk, the chunks are orderly, and the block indices do not wrap
(`streamEvents_isSentence_iff`). Chunks that are not orderly exist
(`streamEvents_not_sentence`): the encoder sends content that follows the usage in a new block
after `message_delta`.
-/

set_option autoImplicit false

namespace NextApi.Anthropic

open Json Ir

def finishSeen (chunks : List IrChunk) : Bool := chunks.any fun c ↦ c.finishReason.isSome

/-- After the chunks before it, this chunk reports a failure, or usage with a finish reason
known. -/
def Settles (before : List IrChunk) (chunk : IrChunk) : Prop :=
  chunk.finishReason = some "failed" ∨
    (chunk.usage.isSome ∧ (chunk.finishReason.isSome ∨ finishSeen before))

instance (before : List IrChunk) (chunk : IrChunk) : Decidable (Settles before chunk) :=
  inferInstanceAs (Decidable (_ ∨ _))

/-- The chunk has no content, no failure and no finish reason with usage. -/
def Quiet (chunk : IrChunk) : Prop :=
  pieces chunk = [] ∧ chunk.finishReason ≠ some "failed" ∧
    ¬ (chunk.finishReason.isSome ∧ chunk.usage.isSome)

/-- When the message is settled, no block is open, and every later chunk is quiet. -/
def Orderly (chunks : List IrChunk) : Prop :=
  ∀ before chunk after, chunks = before ++ chunk :: after → Settles before chunk →
    (layout (before ++ [chunk])).current = none ∧ ∀ later ∈ after, Quiet later

/-! ### What a chunk does to the outline -/

/-- Content changes the layout, and is in order before the message is settled and while there are
indices for it. -/
theorem Outline.foldl_piece (ps : List Piece) (o : Outline)
    (hbound : o.ok = true → o.layout.blocks ≤ 2 ^ 32) :
    ∃ ok : Bool, ps.foldl Outline.piece o =
        { o with layout := ps.foldl Layout.piece o.layout, ok := ok } ∧
      (ok = true ↔ o.ok = true ∧ (o.settled = true → ps = []) ∧
        (ps.foldl Layout.piece o.layout).blocks ≤ 2 ^ 32) := by
  induction ps generalizing o with
  | nil => exact ⟨o.ok, rfl, by simpa using hbound⟩
  | cons p rest ih =>
    obtain ⟨ok, heq, hok⟩ := ih (o.piece p) fun hok ↦ by
      simp only [Outline.piece, Bool.and_eq_true, decide_eq_true_eq] at hok
      exact hok.2
    refine ⟨ok, heq, hok.trans ?_⟩
    have hle := Layout.blocks_le_foldl rest (o.layout.piece p)
    simp only [Outline.piece, Bool.and_eq_true, decide_eq_true_eq, List.foldl_cons]
    cases o.settled with
    | true => simp
    | false =>
      simp only [Bool.not_false, and_true, Bool.false_eq_true, false_imp_iff, true_and]
      constructor
      · rintro ⟨⟨hok, -⟩, hblocks⟩
        exact ⟨hok, hblocks⟩
      · rintro ⟨hok, hblocks⟩
        exact ⟨⟨hok, Nat.le_trans hle hblocks⟩, hblocks⟩

/-- What a settling chunk is, for the outline. -/
def Outline.Settles (o : Outline) (chunk : IrChunk) : Prop :=
  chunk.finishReason = some "failed" ∨
    (chunk.usage.isSome ∧ (chunk.finishReason.isSome ∨ o.finishSeen))

/-- What a chunk does to the outline. -/
theorem Outline.step_spec (o : Outline) (chunk : IrChunk)
    (hbound : o.ok = true → o.layout.blocks ≤ 2 ^ 32)
    (hclosed : o.ok = true → o.settled = true → o.layout.current = none) :
    (o.step chunk).started = true ∧
    (o.step chunk).layout = o.layout.chunk chunk ∧
    (o.step chunk).finishSeen = (o.finishSeen || chunk.finishReason.isSome) ∧
    ((o.step chunk).settled = true ↔ o.settled = true ∨ o.Settles chunk) ∧
    ((o.step chunk).ok = true ↔
      o.ok = true ∧ (o.settled = true → Quiet chunk) ∧
        (o.Settles chunk → (o.layout.chunk chunk).current = none) ∧
        (o.layout.chunk chunk).blocks ≤ 2 ^ 32) := by
  obtain ⟨ok, heq, hok⟩ := Outline.foldl_piece (pieces chunk) o.start hbound
  unfold Outline.step Outline.Settles Quiet Layout.chunk
  rw [heq]
  unfold Outline.start at hok ⊢
  set l := (pieces chunk).foldl Layout.piece o.layout with hl
  have hsame : pieces chunk = [] → l = o.layout := by
    intro hnil
    rw [hl, hnil]
    rfl
  clear_value l
  dsimp only at hok
  cases hfr : chunk.finishReason with
  | none =>
    cases hsettled : o.settled <;> cases hseen : o.finishSeen <;> cases chunk.usage <;>
      simp_all [Outline.finish, Outline.settle]
    tauto
  | some fr =>
    by_cases hfailed : fr = "failed" <;> cases hsettled : o.settled <;> cases chunk.usage <;>
      simp_all [Outline.finish, Outline.settle, Outline.close]

/-- Some chunk has settled the message. -/
def SettledBy (chunks : List IrChunk) : Prop :=
  ∃ before chunk after, chunks = before ++ chunk :: after ∧ Settles before chunk

/-- A way to split a list that ends in `last` around one of its members. -/
theorem concat_eq_append_cons {α : Type*} {past before after : List α} {last x : α} :
    past ++ [last] = before ++ x :: after ↔
      (before = past ∧ x = last ∧ after = []) ∨
        ∃ after', after = after' ++ [last] ∧ past = before ++ x :: after' := by
  rcases List.eq_nil_or_concat after with rfl | ⟨after', y, rfl⟩
  · rw [List.append_singleton_inj]
    constructor
    · rintro ⟨rfl, rfl⟩
      exact Or.inl ⟨rfl, rfl, rfl⟩
    · rintro (⟨rfl, rfl, -⟩ | ⟨after', hafter, -⟩)
      · exact ⟨rfl, rfl⟩
      · simp at hafter
  · rw [List.concat_eq_append, ← List.cons_append, ← List.append_assoc,
      List.append_singleton_inj]
    constructor
    · rintro ⟨rfl, rfl⟩
      exact Or.inr ⟨after', rfl, rfl⟩
    · rintro (⟨-, -, hafter⟩ | ⟨after'', hafter, hpast⟩)
      · simp at hafter
      · obtain ⟨rfl, rfl⟩ := List.append_singleton_inj.mp hafter
        exact ⟨hpast, rfl⟩

theorem settledBy_concat (past : List IrChunk) (chunk : IrChunk) :
    SettledBy (past ++ [chunk]) ↔ SettledBy past ∨ Settles past chunk := by
  constructor
  · rintro ⟨before, c, after, hsplit, hsettles⟩
    rcases concat_eq_append_cons.mp hsplit with ⟨rfl, rfl, -⟩ | ⟨after', -, hpast⟩
    · exact Or.inr hsettles
    · exact Or.inl ⟨before, c, after', hpast, hsettles⟩
  · rintro (⟨before, c, after, rfl, hsettles⟩ | hsettles)
    · exact ⟨before, c, after ++ [chunk], by simp, hsettles⟩
    · exact ⟨past, chunk, [], rfl, hsettles⟩

theorem orderly_concat (past : List IrChunk) (chunk : IrChunk) :
    Orderly (past ++ [chunk]) ↔ Orderly past ∧ (SettledBy past → Quiet chunk) ∧
      (Settles past chunk → (layout (past ++ [chunk])).current = none) := by
  constructor
  · intro h
    refine ⟨?_, ?_, fun hsettles ↦ (h past chunk [] rfl hsettles).1⟩
    · intro before c after hsplit hsettles
      obtain ⟨hcur, hquiet⟩ := h before c (after ++ [chunk]) (by simp [hsplit]) hsettles
      exact ⟨hcur, fun later hlater ↦ hquiet later (by simp [hlater])⟩
    · rintro ⟨before, c, after, hsplit, hsettles⟩
      exact (h before c (after ++ [chunk]) (by simp [hsplit]) hsettles).2 chunk (by simp)
  · rintro ⟨hpast, hquiet, hcur⟩ before c after hsplit hsettles
    rcases concat_eq_append_cons.mp hsplit with ⟨rfl, rfl, rfl⟩ | ⟨after', rfl, hsplit'⟩
    · exact ⟨hcur hsettles, fun later hlater ↦ by simp at hlater⟩
    · obtain ⟨hcur', hquiet'⟩ := hpast before c after' hsplit' hsettles
      refine ⟨hcur', fun later hlater ↦ ?_⟩
      rcases List.mem_append.mp hlater with hmem | hmem
      · exact hquiet' later hmem
      · rw [List.mem_singleton.mp hmem]
        exact hquiet ⟨before, c, after', hsplit', hsettles⟩

/-- The outline of a list of chunks, in terms of the chunks. -/
theorem outline_spec (chunks : List IrChunk) :
    (outline chunks).started = !chunks.isEmpty ∧
    (outline chunks).layout = layout chunks ∧
    (outline chunks).finishSeen = finishSeen chunks ∧
    ((outline chunks).settled = true ↔ SettledBy chunks) ∧
    ((outline chunks).ok = true ↔ Orderly chunks ∧ (layout chunks).blocks ≤ 2 ^ 32) := by
  induction chunks using List.reverseRecOn with
  | nil =>
    refine ⟨rfl, rfl, rfl, ?_, ?_⟩
    · simp [outline, SettledBy]
    · simp [outline, Orderly, layout]
  | append_singleton past chunk ih =>
    obtain ⟨-, hlayout, hseen, hsettled, hok⟩ := ih
    have hfollows := run_followsChunks past
    obtain ⟨h1, h2, h3, h4, h5⟩ := (outline past).step_spec chunk
      (fun h ↦ (hfollows.inStep h).tables.bound) (fun h ↦ (hfollows.inStep h).closed)
    have hstep : outline (past ++ [chunk]) = (outline past).step chunk := by simp [outline]
    have hsettles : (outline past).Settles chunk ↔ Settles past chunk := by
      rw [Outline.Settles, Settles, hseen]
    rw [hstep]
    refine ⟨by simp [h1], ?_, ?_, ?_, ?_⟩
    · rw [h2, hlayout, layout_concat]
    · rw [h3, hseen]
      simp [finishSeen]
    · rw [h4, hsettled, hsettles, settledBy_concat]
    · rw [h5, hok, hsettled, hsettles, hlayout, ← layout_concat, orderly_concat]
      constructor
      · rintro ⟨⟨hpast, -⟩, hquiet, hcur, hbound⟩
        exact ⟨⟨hpast, hquiet, hcur⟩, hbound⟩
      · rintro ⟨⟨hpast, hquiet, hcur⟩, hbound⟩
        exact ⟨⟨hpast, Nat.le_trans (blocks_le_concat past chunk) hbound⟩, hquiet, hcur, hbound⟩

/-- The events of a stream are a sentence of the streaming grammar exactly if there is a chunk,
the chunks are orderly and call for at most `2 ^ 32` blocks. -/
theorem streamEvents_isSentence_iff (chunks : List IrChunk) (failed : Bool) :
    IsSentence (streamEvents chunks failed) ↔
      chunks ≠ [] ∧ Orderly chunks ∧ (layout chunks).blocks ≤ 2 ^ 32 := by
  obtain ⟨hstarted, -, -, -, hok⟩ := outline_spec chunks
  have hfollows := run_followsChunks chunks
  have hend : (streamEnd (if failed then (Stream.run encodeStep {} chunks).1.markFailed
        else (Stream.run encodeStep {} chunks).1)).events.foldl readEvent
        ((Stream.run encodeStep {} chunks).2.foldl readEvent (some .fresh)) = some .stopped ↔
      (outline chunks).started = true ∧ (outline chunks).ok = true := by
    cases failed with
    | true =>
      have hmarked := streamEnd_accepts (markFailed_follows hfollows)
      exact hmarked
    | false => exact streamEnd_accepts hfollows
  rw [← accepts_iff_sentence, streamEvents, List.foldl_append, hend, hok, hstarted]
  simp

/-- Content after the finish reason and its usage comes after `message_delta`. -/
theorem streamEvents_not_sentence :
    ¬ IsSentence (streamEvents
      [{ choices := [{ delta := { content := some "a" }, finishReason := some "stop" }],
         usage := some {} },
        { choices := [{ delta := { content := some "b" } }] }] false) := by
  rw [← accepts_iff_sentence]
  decide

end NextApi.Anthropic
