import Mathlib.Data.List.MinMax
import NextApi.Stream.Grouping

/-!
# What does not depend on an order

A row that is the only one of its kind is found in any order of the rows, the entry of a key in any
order of the entries of a table, and the least row in any order when no two rows have the same rank.
-/

set_option autoImplicit false

namespace NextApi

/-! ### Rows -/

section Rows

variable {α : Type} {p : α → Bool} {xs ys : List α}

/-- What occurs at most once is the same in any order. -/
theorem filter_eq_of_perm (hperm : xs.Perm ys) (hone : xs.countP p ≤ 1) :
    xs.filter p = ys.filter p := by
  have hfilter := hperm.filter p
  rw [List.countP_eq_length_filter] at hone
  generalize xs.filter p = found at hone hfilter
  cases found with
  | nil => rw [List.nil_perm.1 hfilter]
  | cons x rest =>
    cases rest with
    | nil => rw [List.singleton_perm.1 hfilter]
    | cons y rest => simp at hone

theorem find?_eq_of_perm (hperm : xs.Perm ys) (hone : xs.countP p ≤ 1) :
    xs.find? p = ys.find? p := by
  rw [← List.head?_filter, ← List.head?_filter, filter_eq_of_perm hperm hone]

/-- Rows without a duplicate key have at most one row with a key. -/
theorem countP_le_one_of_nodup {κ : Type} {key : α → κ} (hnodup : (xs.map key).Nodup)
    (hp : ∀ x ∈ xs, ∀ y ∈ xs, p x = true → p y = true → key x = key y) : xs.countP p ≤ 1 := by
  induction xs with
  | nil => exact Nat.zero_le 1
  | cons x rest ih =>
    obtain ⟨hx, hrest⟩ := List.nodup_cons.1 hnodup
    by_cases hpx : p x = true
    · rw [List.countP_cons_of_pos hpx, List.countP_eq_zero.2]
      intro y hy hpy
      refine hx (List.mem_map.2 ⟨y, hy, ?_⟩)
      exact hp y (List.mem_cons_of_mem x hy) x List.mem_cons_self hpy hpx
    · rw [List.countP_cons_of_neg hpx]
      exact ih hrest fun y hy z hz ↦ hp y (List.mem_cons_of_mem x hy) z (List.mem_cons_of_mem x hz)

/-- The row of a key, among rows without a duplicate key. -/
theorem filter_eq_singleton {κ : Type} [DecidableEq κ] {key : α → κ}
    (hnodup : (xs.map key).Nodup) {x : α} (hx : x ∈ xs) :
    (xs.filter fun y ↦ decide (key y = key x)) = [x] := by
  have hone : (xs.filter fun y ↦ decide (key y = key x)).length ≤ 1 := by
    rw [← List.countP_eq_length_filter]
    refine countP_le_one_of_nodup hnodup fun y _ z _ hy hz ↦ ?_
    exact (of_decide_eq_true hy).trans (of_decide_eq_true hz).symm
  have hmem : x ∈ xs.filter fun y ↦ decide (key y = key x) := by simp [hx]
  generalize (xs.filter fun y ↦ decide (key y = key x)) = found at hone hmem
  cases found with
  | nil => exact absurd hmem List.not_mem_nil
  | cons y rest =>
    cases rest with
    | nil => rw [List.mem_singleton.1 hmem]
    | cons z rest => simp at hone

/-- The block of one index, among blocks of different indices. -/
theorem filter_flatMap_eq {ι : Type} [DecidableEq ι] {index : α → ι} {block : ι → List α}
    (hindex : ∀ i, ∀ x ∈ block i, index x = i) {is : List ι} (hnodup : is.Nodup) (i : ι) :
    ((is.flatMap block).filter fun x ↦ decide (index x = i)) = if i ∈ is then block i else [] := by
  induction is with
  | nil => rfl
  | cons j rest ih =>
    obtain ⟨hj, hrest⟩ := List.nodup_cons.1 hnodup
    rw [List.flatMap_cons, List.filter_append, ih hrest]
    by_cases heq : j = i
    · subst heq
      have hall : ((block j).filter fun x ↦ decide (index x = j)) = block j :=
        List.filter_eq_self.2 fun x hx ↦ decide_eq_true (hindex j x hx)
      rw [hall, if_neg hj, List.append_nil, if_pos List.mem_cons_self]
    · have hnone : ((block j).filter fun x ↦ decide (index x = i)) = [] := by
        refine List.filter_eq_nil_iff.2 fun x hx h ↦ heq ?_
        exact (hindex j x hx).symm.trans (of_decide_eq_true h)
      rw [hnone, List.nil_append]
      exact if_congr (by rw [List.mem_cons, or_iff_right (Ne.symm heq)]) rfl rfl

/-- The blocks of all indices have every row once. -/
theorem perm_flatMap_filter {ι : Type} [DecidableEq ι] {index : α → ι} {is : List ι}
    (hnodup : is.Nodup) (hall : ∀ x ∈ xs, index x ∈ is) :
    (is.flatMap fun i ↦ xs.filter fun x ↦ decide (index x = i)).Perm xs := by
  induction is generalizing xs with
  | nil =>
    rw [List.eq_nil_iff_forall_not_mem.2 fun x hx ↦ List.not_mem_nil (hall x hx)]
    exact List.Perm.refl []
  | cons i rest ih =>
    obtain ⟨hi, hrest⟩ := List.nodup_cons.1 hnodup
    let others := xs.filter fun x ↦ !decide (index x = i)
    have hothers : ∀ x ∈ others, index x ∈ rest := by
      intro x hx
      obtain ⟨hx, hne⟩ := List.mem_filter.1 hx
      refine (List.mem_cons.1 (hall x hx)).resolve_left fun heq ↦ ?_
      rw [decide_eq_true heq] at hne
      exact absurd hne (by simp)
    have hblocks : (rest.flatMap fun j ↦ xs.filter fun x ↦ decide (index x = j)) =
        rest.flatMap fun j ↦ others.filter fun x ↦ decide (index x = j) := by
      refine List.flatMap_congr fun j hj ↦ ?_
      rw [List.filter_filter]
      refine List.filter_congr fun x _ ↦ ?_
      by_cases hx : index x = j
      · have hne : index x ≠ i := fun heq ↦ hi (by rw [← heq, hx]; exact hj)
        rw [decide_eq_true hx, decide_eq_false hne]
        rfl
      · rw [decide_eq_false hx, Bool.false_and]
    rw [List.flatMap_cons, hblocks]
    exact ((ih hrest hothers).append_left _).trans (List.filter_append_perm _ xs)

end Rows

/-! ### Entries -/

namespace Table

variable {κ ν β : Type} [DecidableEq κ]

/-- The entry of a key among the entries of a table. -/
theorem findSome?_entries {t : Table κ ν} {entries : List (κ × ν)} (hperm : entries.Perm t.toList)
    (k : κ) (f : ν → Option β) :
    (entries.findSome? fun entry ↦ if entry.1 = k then f entry.2 else none) =
      (t.lookup k).bind f := by
  have hmem (v : ν) : (k, v) ∈ entries ↔ t.lookup k = some v := by
    rw [hperm.mem_iff, mem_toList]
  cases hfind : entries.findSome? fun entry ↦ if entry.1 = k then f entry.2 else none with
  | none =>
    rw [List.findSome?_eq_none_iff] at hfind
    cases hlookup : t.lookup k with
    | none => rfl
    | some v =>
      have hv := hfind (k, v) ((hmem v).2 hlookup)
      rw [if_pos rfl] at hv
      exact hv.symm
  | some b =>
    obtain ⟨entry, hentry, hb⟩ := List.exists_of_findSome?_eq_some hfind
    split at hb
    case isTrue heq =>
      rw [(hmem entry.2).1 (heq ▸ hentry), Option.bind_some, hb]
    case isFalse => exact absurd hb (by simp)

end Table

/-! ### Least rows -/

section Least

variable {α β κ : Type} [LinearOrder β] {rank : α → β} {xs ys : List α}

/-- The least row, when no two rows have the same rank. -/
theorem mem_argmin_of_injOn (hinj : ∀ x ∈ xs, ∀ y ∈ xs, rank x = rank y → x = y) {x : α} :
    x ∈ xs.argmin rank ↔ x ∈ xs ∧ ∀ y ∈ xs, rank x ≤ rank y := by
  constructor
  · intro h
    exact ⟨List.argmin_mem h, fun y hy ↦ List.le_of_mem_argmin hy h⟩
  · intro ⟨hx, hle⟩
    cases hmin : xs.argmin rank with
    | none =>
      rw [List.argmin_eq_none.1 hmin] at hx
      exact absurd hx List.not_mem_nil
    | some m =>
      have hm : m ∈ xs := List.argmin_mem hmin
      obtain rfl := hinj x hx m hm (le_antisymm (hle m hm) (List.le_of_mem_argmin hx hmin))
      rfl

variable [DecidableEq κ] (rank) (key : α → κ)

/-- Keeps the least row of every key. -/
def keepLeast (t : Table κ α) (x : α) : Table κ α :=
  match t.lookup (key x) with
  | some old => if rank x < rank old then t.insert (key x) x else t
  | none => t.insert (key x) x

theorem lookup_keepLeast_self (t : Table κ α) (x : α) :
    (keepLeast rank key t x).lookup (key x) =
      List.argAux (fun x y ↦ rank x < rank y) (t.lookup (key x)) x := by
  rw [keepLeast]
  cases hlookup : t.lookup (key x) with
  | none => simp [List.argAux]
  | some old =>
    simp only [List.argAux]
    split
    · simp
    · exact hlookup

theorem lookup_keepLeast_of_ne (t : Table κ α) {x : α} {k : κ} (h : key x ≠ k) :
    (keepLeast rank key t x).lookup k = t.lookup k := by
  rw [keepLeast]
  split
  · split
    · rw [Table.lookup_insert, if_neg h]
    · rfl
  · rw [Table.lookup_insert, if_neg h]

/-- After a fold every key has the least of its rows. -/
theorem lookup_foldl_keepLeast (xs : List α) (k : κ) :
    (xs.foldl (keepLeast rank key) ∅).lookup k =
      (xs.filter fun x ↦ decide (key x = k)).argmin rank := by
  have hfold (t : Table κ α) : (xs.foldl (keepLeast rank key) t).lookup k =
      (xs.filter fun x ↦ decide (key x = k)).foldl
        (List.argAux fun x y ↦ rank x < rank y) (t.lookup k) := by
    induction xs generalizing t with
    | nil => rfl
    | cons x rest ih =>
      rw [List.foldl_cons, ih]
      by_cases hx : key x = k
      · rw [List.filter_cons_of_pos (by simpa using hx), List.foldl_cons, ← hx,
          lookup_keepLeast_self]
      · rw [List.filter_cons_of_neg (by simpa using hx), lookup_keepLeast_of_ne rank key t hx]
  rw [hfold, Table.lookup_empty]
  rfl

end Least

end NextApi
