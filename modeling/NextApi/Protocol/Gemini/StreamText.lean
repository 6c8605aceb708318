import NextApi.Protocol.Gemini.StreamCalls
import NextApi.Protocol.StreamText

/-!
# What the Gemini encoder tells

The event of a chunk tells its text and its thoughts; the function calls beside them, and those that
are sent at the end, tell nothing (`told_chunkFromIr`, `told_streamEnd`). It succeeds when its finish
reason stands for an end that is normal or at a limit.
-/

set_option autoImplicit false

namespace NextApi.Gemini

open Json Ir

/-- Parts that are function calls. -/
def AllCalls (parts : List Value) : Prop :=
  ∀ part ∈ parts, ∃ name args, part = functionCallPart name args

theorem AllCalls.append {xs ys : List Value} (h : AllCalls xs) (h' : AllCalls ys) :
    AllCalls (xs ++ ys) := fun part hpart ↦ (List.mem_append.1 hpart).elim (h part) (h' part)

theorem allCalls_nil : AllCalls [] := fun _ h ↦ (List.not_mem_nil h).elim

section Encoder

variable [SerdeJson]

theorem allCalls_toolStage (st : StreamState) (tc : IrToolCallDelta) :
    AllCalls (toolStage (st, []) tc).2 := by
  unfold toolStage
  dsimp only
  split
  · exact allCalls_nil
  · split
    · split
      · intro part hpart
        exact ⟨_, _, List.mem_singleton.1 hpart⟩
      · exact allCalls_nil
    · exact allCalls_nil

variable [HashOrder]

theorem allCalls_flushUnfinishedTools (st : StreamState) :
    AllCalls (flushUnfinishedTools (st, [])).2 := by
  have hnodup := (HashOrder.perm (st.toolArgs.toList.map Prod.fst)).nodup_iff.2
    (Table.nodup_keys_toList st.toolArgs)
  rw [flushUnfinishedTools, foldl_flushTool hnodup]
  intro part hpart
  obtain ⟨i, -, rfl⟩ := List.mem_map.1 hpart
  exact ⟨_, _, rfl⟩

/-- What is sent at some moments are calls. -/
theorem allCalls_momentRun (st : StreamState) (ms : List Moment) :
    AllCalls (momentRun (st, []) ms).2 := by
  induction ms generalizing st with
  | nil => exact allCalls_nil
  | cons m rest ih =>
    have hone : AllCalls (momentRun (st, []) [m]).2 := by
      cases m with
      | fragment tc => exact allCalls_toolStage st tc
      | finish => exact allCalls_flushUnfinishedTools st
    rw [← List.singleton_append, momentRun_moments]
    exact hone.append (ih _)

end Encoder

/-- An event with one candidate tells the texts and the thoughts among its parts. -/
theorem toldIn_of_candidate {event : Value} {parts : List Value} {finishReason : Option String}
    (h : event.get? "candidates" = some (.arr [candidateToJson parts 0 finishReason])) :
    toldIn .gemini event =
      ⟨String.join (parts.filterMap textOf), String.join (parts.filterMap thoughtOf)⟩ := by
  have hcandidates : candidatesIn event = [candidateToJson parts 0 finishReason] := by
    rw [candidatesIn, h]
    rfl
  have hfirst : isFirst (candidateToJson parts 0 finishReason) = true := by
    have hindex : (candidateToJson parts 0 finishReason).get? "index" = some (.ofNat 0) := by
      rw [candidateToJson, Value.get?_obj, Map.get?_insertPresent (by simp)]
      rfl
    rw [isFirst, Value.getElem_eq, hindex]
    rfl
  rw [toldIn, hcandidates, List.filter_cons_of_pos hfirst, List.filter_nil, List.map_singleton,
    Told.join_singleton, toldByCandidate, partsOf_candidateToJson]
  rfl

/-- Function calls tell nothing. -/
theorem AllCalls.silent {parts : List Value} (h : AllCalls parts) :
    parts.filterMap textOf = [] ∧ parts.filterMap thoughtOf = [] := by
  constructor
  · refine List.filterMap_eq_nil_iff.2 fun part hpart ↦ ?_
    obtain ⟨name, args, rfl⟩ := h part hpart
    rfl
  · refine List.filterMap_eq_nil_iff.2 fun part hpart ↦ ?_
    obtain ⟨name, args, rfl⟩ := h part hpart
    rfl

section Told

variable [SerdeJson] [HashOrder]

/-- The event of a chunk tells its text and its thoughts. -/
theorem told_chunkFromIr (chunk : IrChunk) (st : StreamState) :
    told .gemini (chunkFromIr chunk st).events =
      ⟨chunk.delta.content.getD "", chunk.delta.reasoningContent.getD ""⟩ := by
  obtain ⟨-, event, hevents, hcandidates⟩ := chunkFromIr_event chunk st
  obtain ⟨htext, hthought⟩ := (allCalls_momentRun st (momentsOf chunk)).silent
  rw [hevents, told_singleton, toldIn_of_candidate hcandidates, List.filterMap_append,
    List.filterMap_append, htext, hthought, List.append_nil, List.append_nil, textsOf]
  have htextPart (t : String) : textOf (textPart t) = some t ∧ thoughtOf (textPart t) = none :=
    ⟨rfl, rfl⟩
  have hthoughtPart (t : String) :
      textOf (thoughtPart t) = none ∧ thoughtOf (thoughtPart t) = some t := ⟨rfl, rfl⟩
  cases chunk.delta.content with
  | none => cases chunk.delta.reasoningContent <;> simp [hthoughtPart]
  | some text => cases chunk.delta.reasoningContent <;> simp [htextPart, hthoughtPart]

/-- The end of a stream tells nothing. -/
theorem told_streamEnd (st : StreamState) : told .gemini (streamEnd st).events = {} := by
  obtain ⟨htext, hthought⟩ := (allCalls_flushUnfinishedTools st).silent
  rw [streamEnd]
  dsimp only
  split
  · rfl
  · rw [told_singleton, toldIn_of_candidate rfl, htext, hthought]
    rfl

end Told

/-! ### What a finish reason is written as -/

theorem toLower_toUpper (c : Char) : c.toUpper.toLower = c.toLower := by
  unfold Char.toUpper
  split
  · rename_i h
    have hlow : 97 ≤ c.val.toNat := UInt32.le_iff_toNat_le.1 h.1
    have hhigh : c.val.toNat ≤ 122 := UInt32.le_iff_toNat_le.1 h.2
    have hsum : (c.val + ('A'.val - 'a'.val)).toNat = c.val.toNat - 32 := by
      rw [UInt32.toNat_add]
      show (c.val.toNat + 4294967264) % 4294967296 = _
      omega
    have hnot : ¬ (c.val ≥ 'A'.val ∧ c.val ≤ 'Z'.val) := by
      intro hupper
      have hle : c.val.toNat ≤ 90 := UInt32.le_iff_toNat_le.1 hupper.2
      omega
    unfold Char.toLower
    rw [dif_neg hnot, dif_pos]
    · refine Char.ext (UInt32.toNat_inj.1 ?_)
      rw [UInt32.toNat_add, hsum]
      show (c.val.toNat - 32 + 32) % 4294967296 = _
      omega
    · show 'A'.val ≤ c.val + ('A'.val - 'a'.val) ∧ c.val + ('A'.val - 'a'.val) ≤ 'Z'.val
      rw [UInt32.le_iff_toNat_le, UInt32.le_iff_toNat_le, hsum]
      show 65 ≤ _ ∧ _ ≤ 90
      omega
  · rfl

theorem toLower_toLower (c : Char) : c.toLower.toLower = c.toLower := by
  unfold Char.toLower
  split
  · rename_i h
    have hlow : 65 ≤ c.val.toNat := UInt32.le_iff_toNat_le.1 h.1
    have hhigh : c.val.toNat ≤ 90 := UInt32.le_iff_toNat_le.1 h.2
    rw [dif_neg]
    intro hupper
    have hle := UInt32.le_iff_toNat_le.1 hupper.2
    rw [UInt32.toNat_add] at hle
    have : (c.val.toNat + 32) % 4294967296 ≤ 90 := hle
    omega
  · rfl

theorem toAsciiLowercase_toAsciiUppercase (s : String) :
    toAsciiLowercase (toAsciiUppercase s) = toAsciiLowercase s := by
  simp [toAsciiLowercase, toAsciiUppercase, Function.comp_def, toLower_toUpper]

theorem toAsciiLowercase_idem (s : String) :
    toAsciiLowercase (toAsciiLowercase s) = toAsciiLowercase s := by
  simp [toAsciiLowercase, Function.comp_def, toLower_toLower]

/-- A finish reason is a known one, or the lower case of the raw one. -/
theorem normalizeFinishReason_cases (raw : String) :
    normalizeFinishReason raw ∈ "content_filter" :: successReasons ∨
      normalizeFinishReason raw = toAsciiLowercase raw ∧
        toAsciiLowercase raw ∉ ["stop", "max_tokens"] := by
  unfold normalizeFinishReason
  split <;> first
    | exact Or.inl (by decide)
    | skip
  rename_i hstop _ _ _ _ _ hmax _ _ _ _ _ _ _ _ _
  refine Or.inr ⟨rfl, fun hmem ↦ ?_⟩
  rcases List.mem_cons.1 hmem with h | h
  · exact hstop h
  · exact hmax (List.mem_singleton.1 h)

/-- Another finish reason is not written as a success. -/
theorem reverseFinishReason_failed {raw : String}
    (h : normalizeFinishReason raw ∉ successReasons) :
    reverseFinishReason (normalizeFinishReason raw) ∉ ["STOP", "MAX_TOKENS"] := by
  rcases normalizeFinishReason_cases raw with hknown | ⟨hlower, hother⟩
  · obtain hfilter := (List.mem_cons.1 hknown).resolve_right h
    rw [hfilter]
    decide
  · unfold reverseFinishReason
    split
    · rename_i heq
      exact absurd (heq ▸ List.mem_cons_self) h
    · rename_i heq
      exact absurd (heq ▸ by decide) h
    · rename_i heq
      exact absurd (heq ▸ by decide) h
    · decide
    · intro hmem
      refine hother ?_
      rw [← toAsciiLowercase_idem, ← hlower, ← toAsciiLowercase_toAsciiUppercase]
      rcases List.mem_cons.1 hmem with hstop | hmax
      · rw [hstop]
        decide
      · rw [List.mem_singleton.1 hmax]
        decide

end NextApi.Gemini
