import Mathlib.Data.List.Induction
import Mathlib.Data.List.Nodup

/-!
# Batches of keyed rows without those already there

Rows come in batches, and a batch is left out when rows with all of its keys are there already.
What is found under a key is the first row of all batches that has it (`find?_addBatches`). No two
rows have the same key exactly when every batch either is left out or has distinct keys that are all
new (`nodup_addBatches_iff`): a batch that is new only in part brings the old keys along.
-/

set_option autoImplicit false

namespace NextApi.Dedup

variable {ρ κ : Type} [DecidableEq κ] (key : ρ → κ)

/-- Adds a batch, unless all of its keys are there. -/
def addBatch (rows batch : List ρ) : List ρ :=
  if batch.all fun r ↦ (rows.map key).contains (key r) then rows else rows ++ batch

def addBatches (rows : List ρ) (batches : List (List ρ)) : List ρ := batches.foldl (addBatch key) rows

variable {key}

theorem all_contains_iff {rows batch : List ρ} :
    (batch.all fun r ↦ (rows.map key).contains (key r)) = true ↔
      ∀ r ∈ batch, ∃ r' ∈ rows, key r' = key r := by
  rw [List.all_eq_true]
  refine forall₂_congr fun r _ ↦ ?_
  rw [List.contains_iff_mem, List.mem_map]

/-- What is found after one more batch. -/
theorem find?_addBatch (rows batch : List ρ) (k : κ) :
    (addBatch key rows batch).find? (fun r ↦ decide (key r = k)) =
      (rows ++ batch).find? fun r ↦ decide (key r = k) := by
  rw [addBatch]
  split
  · next hall =>
    rw [all_contains_iff] at hall
    rw [List.find?_append]
    cases hrow : rows.find? fun r ↦ decide (key r = k) with
    | some r => rw [Option.some_or]
    | none =>
      rw [Option.none_or, eq_comm, List.find?_eq_none]
      intro r hr hk
      obtain ⟨r', hr', hkey⟩ := hall r hr
      refine absurd (decide_eq_true ?_) (List.find?_eq_none.1 hrow r' hr')
      rw [hkey]
      exact of_decide_eq_true hk
  · rfl

/-- Under every key the first row that has it is found. -/
theorem find?_addBatches (rows : List ρ) (batches : List (List ρ)) (k : κ) :
    (addBatches key rows batches).find? (fun r ↦ decide (key r = k)) =
      (rows ++ batches.flatten).find? fun r ↦ decide (key r = k) := by
  induction batches generalizing rows with
  | nil => rw [List.flatten_nil, List.append_nil]; rfl
  | cons batch rest ih =>
    rw [addBatches, List.foldl_cons, ← addBatches, ih, List.find?_append, find?_addBatch,
      ← List.find?_append, List.append_assoc, List.flatten_cons]

/-- The rows have the keys of all batches. -/
theorem exists_mem_addBatches {batches : List (List ρ)} {k : κ} :
    (∃ r ∈ addBatches key [] batches, key r = k) ↔ ∃ r ∈ batches.flatten, key r = k := by
  have h : ∀ rows : List ρ, (∃ r ∈ rows, key r = k) ↔
      (rows.find? fun r ↦ decide (key r = k)).isSome = true := by
    intro rows
    rw [List.find?_isSome]
    simp only [decide_eq_true_eq]
  rw [h, h, find?_addBatches, List.nil_append]

/-- Rows are only left out. -/
theorem sublist_addBatches (rows : List ρ) (batches : List (List ρ)) :
    (addBatches key rows batches).Sublist (rows ++ batches.flatten) := by
  induction batches generalizing rows with
  | nil => rw [List.flatten_nil, List.append_nil]; exact List.Sublist.refl rows
  | cons batch rest ih =>
    refine (ih (addBatch key rows batch)).trans ?_
    rw [List.flatten_cons, ← List.append_assoc]
    refine List.Sublist.append_right ?_ rest.flatten
    rw [addBatch]
    split
    · exact List.sublist_append_left rows batch
    · exact List.Sublist.refl _

/-- A batch whose keys are all there, or all different and new. -/
def Separate (key : ρ → κ) (rows batch : List ρ) : Prop :=
  (∀ r ∈ batch, ∃ r' ∈ rows, key r' = key r) ∨
    (batch.map key).Nodup ∧ ∀ r ∈ batch, ∀ r' ∈ rows, key r' ≠ key r

theorem nodup_addBatch_iff {rows batch : List ρ} (hrows : (rows.map key).Nodup) :
    ((addBatch key rows batch).map key).Nodup ↔ Separate key rows batch := by
  rw [addBatch]
  split
  · next hall => exact iff_of_true hrows (Or.inl (all_contains_iff.1 hall))
  · next hall =>
    rw [all_contains_iff] at hall
    rw [Separate, or_iff_right hall, List.map_append, List.nodup_append, and_iff_right hrows]
    refine and_congr_right fun _ ↦ ?_
    constructor
    · intro h r hr r' hr'
      exact h (key r') (List.mem_map_of_mem hr') (key r) (List.mem_map_of_mem hr)
    · intro h k hk k' hk'
      obtain ⟨r', hr', rfl⟩ := List.mem_map.1 hk
      obtain ⟨r, hr, rfl⟩ := List.mem_map.1 hk'
      exact h r hr r' hr'

/-- The rows stay there. -/
theorem prefix_addBatches (rows : List ρ) (batches : List (List ρ)) :
    rows <+: addBatches key rows batches := by
  induction batches generalizing rows with
  | nil => exact List.prefix_refl rows
  | cons batch rest ih =>
    refine List.IsPrefix.trans ?_ (ih (addBatch key rows batch))
    rw [addBatch]
    split
    · exact List.prefix_refl rows
    · exact List.prefix_append rows batch

omit [DecidableEq κ] in
/-- Only the keys that are there matter. -/
theorem separate_congr {rows rows' batch : List ρ}
    (h : ∀ k, (∃ r ∈ rows, key r = k) ↔ ∃ r ∈ rows', key r = k) :
    Separate key rows batch ↔ Separate key rows' batch := by
  have hnew : ∀ {s t : List ρ}, (∀ k, (∃ r ∈ s, key r = k) ↔ ∃ r ∈ t, key r = k) →
      (∀ r ∈ batch, ∀ r' ∈ s, key r' ≠ key r) → ∀ r ∈ batch, ∀ r' ∈ t, key r' ≠ key r := by
    intro s t hst hs r hr r' hr' hkey
    obtain ⟨x, hx, hxr⟩ := (hst (key r)).2 ⟨r', hr', hkey⟩
    exact hs r hr x hx hxr
  rw [Separate, Separate]
  refine or_congr (forall₂_congr fun r _ ↦ h (key r)) (and_congr_right fun _ ↦ ?_)
  exact ⟨hnew h, hnew fun k ↦ (h k).symm⟩

/-- The keys are distinct when every batch is separate from those before it, and only then. -/
theorem nodup_addBatches_iff (batches : List (List ρ)) :
    ((addBatches key [] batches).map key).Nodup ↔
      ∀ before batch after, batches = before ++ batch :: after →
        Separate key before.flatten batch := by
  have hstep : ∀ before batch, addBatches key [] (before ++ [batch]) =
      addBatch key (addBatches key [] before) batch := by
    intro before batch
    rw [addBatches, List.foldl_append]
    rfl
  have hseparate : ∀ before batch, Separate key (addBatches key [] before) batch ↔
      Separate key before.flatten batch :=
    fun before batch ↦ separate_congr fun k ↦ exists_mem_addBatches
  constructor
  · intro h before batch after hbatches
    have hmono : ∀ first rest : List (List ρ), batches = first ++ rest →
        ((addBatches key [] first).map key).Nodup := by
      intro first rest heq
      have hstart : addBatches key [] first <+: addBatches key (addBatches key [] first) rest :=
        prefix_addBatches _ rest
      refine List.Nodup.sublist (hstart.sublist.map key) ?_
      rw [heq, addBatches, List.foldl_append] at h
      exact h
    have hnext := hmono (before ++ [batch]) after (by rw [hbatches, List.append_assoc]; rfl)
    rw [hstep, nodup_addBatch_iff (hmono before (batch :: after) hbatches), hseparate] at hnext
    exact hnext
  · intro h
    induction batches using List.reverseRecOn with
    | nil => exact List.nodup_nil
    | append_singleton before batch ih =>
      have hbefore := ih fun first b rest heq ↦
        h first b (rest ++ [batch]) (by rw [heq, List.append_assoc]; rfl)
      rw [hstep, nodup_addBatch_iff hbefore, hseparate]
      exact h before batch [] rfl

end NextApi.Dedup
