import Mathlib.Algebra.BigOperators.Group.List.Basic
import Mathlib.Data.Finset.Sort
import Mathlib.Data.List.Sort

/-!
# Grouping and adding up in a query

`groupBy` is `SELECT … FROM rows GROUP BY key ORDER BY key`: one answer for every key that a row
has, in the order of the keys.

A table that holds the sum of every fine group can be grouped again by a coarser key. The sums are
then those of the rows (`sum_rollup`), and so are the groups (`mem_rollup`). The answers of a query
sum up to the rows (`sum_groupBy`), and `LIMIT` cuts off what comes last (`rel_of_not_mem_take`).

`sumChecked` adds up a list from a start and fails at the first sum that is out of range. It gives
the sum of the list when the sum of every beginning of the list is in range.
-/

set_option autoImplicit false

namespace NextApi

/-! ### Groups -/

section Groups

variable {α α' β γ κ : Type} [LinearOrder κ]

/-- The rows of a group. -/
def groupOf (key : α → κ) (rows : List α) (k : κ) : List α :=
  rows.filter fun x ↦ decide (key x = k)

/-- One answer for every group; the query fails when one of them does. -/
def groupBy (key : α → κ) (select : κ → List α → Option β) (rows : List α) : Option (List β) :=
  (rows.map key).toFinset.sort.mapM fun k ↦ select k (groupOf key rows k)

theorem map_mapM (f : β → γ) (g : α → Option β) (xs : List α) :
    (xs.mapM g).map (List.map f) = xs.mapM fun x ↦ (g x).map f := by
  induction xs with
  | nil => rfl
  | cons x rest ih =>
    rw [List.mapM_cons, List.mapM_cons, ← ih]
    cases g x with
    | none => rfl
    | some y => cases rest.mapM g <;> rfl

/-- Two queries with the same keys, whose answers agree in what `f` keeps of them. -/
theorem map_groupBy_eq {key : α → κ} {key' : α' → κ} {select : κ → List α → Option β}
    {select' : κ → List α' → Option β} {rows : List α} {rows' : List α'} (f : β → γ)
    (hkeys : ∀ k, k ∈ rows.map key ↔ k ∈ rows'.map key')
    (hselect : ∀ k, (select k (groupOf key rows k)).map f =
      (select' k (groupOf key' rows' k)).map f) :
    (groupBy key select rows).map (List.map f) = (groupBy key' select' rows').map (List.map f) := by
  have hsame : (rows.map key).toFinset = (rows'.map key').toFinset := by
    ext k
    rw [List.mem_toFinset, List.mem_toFinset, hkeys k]
  rw [groupBy, groupBy, map_mapM, map_mapM, hsame]
  congr 1
  funext k
  exact hselect k

theorem groupBy_nil (key : α → κ) (select : κ → List α → Option β) :
    groupBy key select [] = some [] := by
  rw [groupBy, List.map_nil, List.toFinset_nil, Finset.sort_empty]
  rfl

theorem groupBy_singleton (key : α → κ) (select : κ → List α → Option β) (x : α) :
    groupBy key select [x] = (select (key x) [x]).map fun point ↦ [point] := by
  have hgroup : groupOf key [x] (key x) = [x] := by
    refine List.filter_eq_self.2 fun y hy ↦ ?_
    rw [List.mem_singleton.1 hy]
    exact decide_eq_true rfl
  rw [groupBy, List.map_singleton, List.toFinset_cons, List.toFinset_nil, insert_empty_eq,
    Finset.sort_singleton, List.mapM_cons, hgroup]
  cases select (key x) [x] <;> rfl

/-- The answers are those of the groups, in their order. -/
theorem forall₂_of_mapM {g : α → Option β} {xs : List α} {ys : List β} (h : xs.mapM g = some ys) :
    List.Forall₂ (fun x y ↦ g x = some y) xs ys := by
  induction xs generalizing ys with
  | nil =>
    cases h
    exact .nil
  | cons x rest ih =>
    rw [List.mapM_cons, Option.bind_eq_bind, Option.bind_eq_some_iff] at h
    obtain ⟨y, hy, h⟩ := h
    rw [Option.bind_eq_bind, Option.bind_eq_some_iff] at h
    obtain ⟨ys', hrest, h⟩ := h
    cases h
    exact .cons hy (ih hrest)

theorem groupBy_eq_some {key : α → κ} {select : κ → List α → Option β} {rows : List α}
    {answers : List β} (h : groupBy key select rows = some answers) :
    List.Forall₂ (fun k answer ↦ select k (groupOf key rows k) = some answer)
      (rows.map key).toFinset.sort answers :=
  forall₂_of_mapM h

/-- A group that has rows has an answer. -/
theorem exists_answer {key : α → κ} {select : κ → List α → Option β} {rows : List α}
    {answers : List β} (h : groupBy key select rows = some answers) {x : α} (hx : x ∈ rows) :
    ∃ answer ∈ answers, select (key x) (groupOf key rows (key x)) = some answer := by
  have hkey : key x ∈ (rows.map key).toFinset.sort :=
    (Finset.mem_sort _).2 (List.mem_toFinset.2 (List.mem_map_of_mem hx))
  obtain ⟨i, hi, hget⟩ := List.getElem_of_mem hkey
  have hall := groupBy_eq_some h
  have hlt : i < answers.length := hall.length_eq ▸ hi
  refine ⟨answers[i], List.getElem_mem hlt, ?_⟩
  rw [← hget]
  exact hall.get hi hlt

/-- An answer is that of a group. -/
theorem exists_group {key : α → κ} {select : κ → List α → Option β} {rows : List α}
    {answers : List β} (h : groupBy key select rows = some answers) {answer : β}
    (hanswer : answer ∈ answers) : ∃ k, select k (groupOf key rows k) = some answer := by
  obtain ⟨i, hi, rfl⟩ := List.getElem_of_mem hanswer
  have hall := groupBy_eq_some h
  have hlt : i < (rows.map key).toFinset.sort.length := hall.length_eq ▸ hi
  exact ⟨_, hall.get hlt hi⟩

end Groups

/-! ### The first in an order -/

section Limit

variable {α : Type} {r : α → α → Prop} [DecidableRel r] [Std.Total r] [IsTrans α r]

/-- What a limit leaves out comes after all that it keeps. -/
theorem rel_of_not_mem_take {xs : List α} {n : ℕ} {x y : α}
    (hx : x ∈ (xs.insertionSort r).take n) (hy : y ∈ xs)
    (hout : y ∉ (xs.insertionSort r).take n) : r x y := by
  have hsorted : ((xs.insertionSort r).take n ++ (xs.insertionSort r).drop n).Pairwise r := by
    rw [List.take_append_drop]
    exact List.pairwise_insertionSort r xs
  have hlater : y ∈ (xs.insertionSort r).drop n := by
    have hmem : y ∈ (xs.insertionSort r).take n ++ (xs.insertionSort r).drop n := by
      rw [List.take_append_drop]
      exact (List.mem_insertionSort r).2 hy
    exact (List.mem_append.1 hmem).resolve_left hout
  exact (List.pairwise_append.1 hsorted).2.2 x hx y hlater

end Limit

/-! ### Grouping again -/

section Rollup

variable {α κ M : Type} [DecidableEq κ]

/-- The rows of one fine group or of another one. -/
theorem sum_filter_or [AddCommMonoid M] (f : α → M) (p q : α → Bool) (xs : List α)
    (hdisjoint : ∀ x ∈ xs, p x = true → q x = false) :
    ((xs.filter fun x ↦ p x || q x).map f).sum =
      ((xs.filter p).map f).sum + ((xs.filter q).map f).sum := by
  induction xs with
  | nil => rw [List.filter_nil, List.filter_nil, List.filter_nil, List.map_nil, List.sum_nil,
      add_zero]
  | cons x rest ih =>
    have hrest := ih fun y hy ↦ hdisjoint y (List.mem_cons_of_mem x hy)
    by_cases hp : p x = true
    · have hq := hdisjoint x List.mem_cons_self hp
      rw [List.filter_cons_of_pos (by rw [hp, Bool.true_or]), List.filter_cons_of_pos hp,
        List.filter_cons_of_neg (by rw [hq]; exact Bool.false_ne_true), List.map_cons,
        List.map_cons, List.sum_cons, List.sum_cons, hrest, add_assoc]
    · have hp := Bool.eq_false_iff.2 hp
      by_cases hq : q x = true
      · rw [List.filter_cons_of_pos (by rw [hq, Bool.or_true]),
          List.filter_cons_of_neg (by rw [hp]; exact Bool.false_ne_true),
          List.filter_cons_of_pos hq, List.map_cons, List.map_cons, List.sum_cons, List.sum_cons,
          hrest, add_left_comm]
      · have hq := Bool.eq_false_iff.2 hq
        rw [List.filter_cons_of_neg (by rw [hp, hq]; exact Bool.false_ne_true),
          List.filter_cons_of_neg (by rw [hp]; exact Bool.false_ne_true),
          List.filter_cons_of_neg (by rw [hq]; exact Bool.false_ne_true), hrest]

/-- The entries whose keys are chosen sum up to the rows whose keys are chosen and have an entry. -/
theorem sum_entries [AddCommMonoid M] (f : α → M) (fine : α → κ) (p : κ → Bool) (xs : List α)
    {entries : List (κ × M)} (hnodup : (entries.map Prod.fst).Nodup)
    (hsum : ∀ e ∈ entries, e.2 = ((xs.filter fun x ↦ decide (fine x = e.1)).map f).sum) :
    ((entries.filter fun e ↦ p e.1).map Prod.snd).sum =
      ((xs.filter fun x ↦ p (fine x) && decide (fine x ∈ entries.map Prod.fst)).map f).sum := by
  induction entries with
  | nil => simp
  | cons e rest ih =>
    rw [List.map_cons, List.nodup_cons] at hnodup
    have hrest := ih hnodup.2 fun e' he' ↦ hsum e' (List.mem_cons_of_mem e he')
    by_cases hp : p e.1 = true
    · have hsplit (x : α) : (p (fine x) && decide (fine x ∈ (e :: rest).map Prod.fst)) =
          (decide (fine x = e.1) || (p (fine x) && decide (fine x ∈ rest.map Prod.fst))) := by
        rw [List.map_cons]
        by_cases hx : fine x = e.1
        · rw [hx, hp]
          simp
        · simp only [List.mem_cons, hx, false_or, decide_false, Bool.false_or]
      rw [List.filter_cons_of_pos (p := fun e : κ × M ↦ p e.1) hp, List.map_cons, List.sum_cons, hrest,
        hsum e List.mem_cons_self]
      simp only [hsplit]
      refine (sum_filter_or f _ _ xs fun x _ hx ↦ ?_).symm
      rw [of_decide_eq_true hx, decide_eq_false hnodup.1, Bool.and_false]
    · have hp := Bool.eq_false_iff.2 hp
      have hsplit (x : α) : (p (fine x) && decide (fine x ∈ (e :: rest).map Prod.fst)) =
          (p (fine x) && decide (fine x ∈ rest.map Prod.fst)) := by
        rw [List.map_cons]
        by_cases hx : fine x = e.1
        · rw [hx, hp, Bool.false_and, Bool.false_and]
        · simp only [List.mem_cons, hx, false_or]
      rw [List.filter_cons_of_neg (by rw [hp]; exact Bool.false_ne_true), hrest]
      simp only [hsplit]

/-- A table with the sum of every fine group has, grouped again, the sums of the rows. -/
theorem sum_rollup [AddCommMonoid M] (f : α → M) (fine : α → κ) (p : κ → Bool) {xs : List α}
    {entries : List (κ × M)} (hnodup : (entries.map Prod.fst).Nodup)
    (hsum : ∀ e ∈ entries, e.2 = ((xs.filter fun x ↦ decide (fine x = e.1)).map f).sum)
    (hall : ∀ x ∈ xs, fine x ∈ entries.map Prod.fst) :
    ((entries.filter fun e ↦ p e.1).map Prod.snd).sum =
      ((xs.filter fun x ↦ p (fine x)).map f).sum := by
  rw [sum_entries f fine p xs hnodup hsum]
  congr 2
  refine List.filter_congr fun x hx ↦ ?_
  rw [decide_eq_true (hall x hx), Bool.and_true]

/-- The answers of a query sum up to its rows, if each does to its group. -/
theorem sum_groupBy {β κ' : Type} [LinearOrder κ'] [AddCommMonoid M] {key : α → κ'}
    {select : κ' → List α → Option β} {rows : List α} {answers : List β} (w : α → M) (f : β → M)
    (hf : ∀ k group answer, select k group = some answer → f answer = (group.map w).sum)
    (h : groupBy key select rows = some answers) : (answers.map f).sum = (rows.map w).sum := by
  have hanswers : answers.map f =
      (rows.map key).toFinset.sort.map fun k ↦ ((groupOf key rows k).map w).sum := by
    have hall := groupBy_eq_some h
    clear h
    generalize (rows.map key).toFinset.sort = keys at hall ⊢
    induction hall with
    | nil => rfl
    | cons hanswer _ ih => rw [List.map_cons, List.map_cons, ih, hf _ _ _ hanswer]
  have hkeys : (((rows.map key).toFinset.sort.map fun k ↦
      (k, ((groupOf key rows k).map w).sum)).map Prod.fst) = (rows.map key).toFinset.sort := by
    rw [List.map_map]
    exact List.map_id _
  have hsum := @sum_rollup α κ' M _ _ w key (fun _ ↦ true) rows
    ((rows.map key).toFinset.sort.map fun k ↦ (k, ((groupOf key rows k).map w).sum))
    (hkeys ▸ Finset.sort_nodup _ _) (fun e he ↦ by
      obtain ⟨k, -, rfl⟩ := List.mem_map.1 he
      rfl) (fun x hx ↦ by
      rw [hkeys]
      exact (Finset.mem_sort _).2 (List.mem_toFinset.2 (List.mem_map_of_mem hx)))
  rw [List.filter_true, List.filter_true, List.map_map] at hsum
  rw [hanswers]
  exact hsum

omit [DecidableEq κ] in
/-- The chosen entries and the chosen rows have the same keys. -/
theorem mem_rollup {κ' : Type} (fine : α → κ) (coarse : κ → κ') (p : κ → Bool) {xs : List α}
    {entries : List (κ × M)}
    (hkeys : ∀ k, k ∈ entries.map Prod.fst ↔ k ∈ xs.map fine) (k' : κ') :
    k' ∈ (entries.filter fun e ↦ p e.1).map (fun e ↦ coarse e.1) ↔
      k' ∈ (xs.filter fun x ↦ p (fine x)).map fun x ↦ coarse (fine x) := by
  constructor
  · intro h
    obtain ⟨e, he, rfl⟩ := List.mem_map.1 h
    obtain ⟨he, hp⟩ := List.mem_filter.1 he
    obtain ⟨x, hx, hfine⟩ := List.mem_map.1 ((hkeys e.1).1 (List.mem_map_of_mem he))
    refine List.mem_map.2 ⟨x, List.mem_filter.2 ⟨hx, ?_⟩, by rw [hfine]⟩
    rw [hfine]
    exact hp
  · intro h
    obtain ⟨x, hx, rfl⟩ := List.mem_map.1 h
    obtain ⟨hx, hp⟩ := List.mem_filter.1 hx
    obtain ⟨e, he, hfine⟩ := List.mem_map.1 ((hkeys (fine x)).2 (List.mem_map_of_mem hx))
    refine List.mem_map.2 ⟨e, List.mem_filter.2 ⟨he, ?_⟩, by rw [hfine]⟩
    rw [hfine]
    exact hp

end Rollup

/-! ### Sums that are checked -/

section Checked

variable {M : Type} [AddMonoid M] (InRange : M → Prop) [DecidablePred InRange]

/-- Adds one amount, if the sum is in range. -/
def addChecked (acc x : M) : Option M := if InRange (acc + x) then some (acc + x) else none

def sumChecked (start : M) (xs : List M) : Option M := xs.foldlM (addChecked InRange) start

variable {InRange}

/-- Every sum on the way is in range. -/
def SumsIn (InRange : M → Prop) (start : M) (xs : List M) : Prop :=
  ∀ before, before <+: xs → before ≠ [] → InRange (start + before.sum)

theorem sumsIn_nil {InRange : M → Prop} (start : M) : SumsIn InRange start [] := by
  intro before hbefore hne
  exact absurd (List.prefix_nil.1 hbefore) hne

theorem sumsIn_cons {InRange : M → Prop} {start x : M} {rest : List M} :
    SumsIn InRange start (x :: rest) ↔ InRange (start + x) ∧ SumsIn InRange (start + x) rest := by
  constructor
  · intro h
    constructor
    · have hfirst := h [x] (List.prefix_append [x] rest) (List.cons_ne_nil x [])
      rwa [List.sum_singleton] at hfirst
    · intro before hbefore _
      have hlonger := h (x :: before) (List.cons_prefix_cons.2 ⟨rfl, hbefore⟩)
        (List.cons_ne_nil x before)
      rwa [List.sum_cons, ← add_assoc] at hlonger
  · intro ⟨hfirst, hrest⟩ before hbefore hne
    cases before with
    | nil => exact absurd rfl hne
    | cons y before =>
      obtain ⟨rfl, hprefix⟩ := List.cons_prefix_cons.1 hbefore
      rw [List.sum_cons, ← add_assoc]
      by_cases hempty : before = []
      · rw [hempty, List.sum_nil, add_zero]
        exact hfirst
      · exact hrest before hprefix hempty

theorem sumsIn_append {InRange : M → Prop} {start : M} {xs ys : List M} :
    SumsIn InRange start (xs ++ ys) ↔
      SumsIn InRange start xs ∧ SumsIn InRange (start + xs.sum) ys := by
  induction xs generalizing start with
  | nil => rw [List.nil_append, List.sum_nil, add_zero, and_iff_right (sumsIn_nil start)]
  | cons x rest ih =>
    rw [List.cons_append, sumsIn_cons, sumsIn_cons, ih, List.sum_cons, ← add_assoc, and_assoc]

theorem sumChecked_cons (start x : M) (rest : List M) :
    sumChecked InRange start (x :: rest) =
      (addChecked InRange start x).bind fun acc ↦ sumChecked InRange acc rest := by
  rw [sumChecked, List.foldlM_cons]
  rfl

theorem sumChecked_eq_some {start total : M} {xs : List M} :
    sumChecked InRange start xs = some total ↔
      SumsIn InRange start xs ∧ total = start + xs.sum := by
  induction xs generalizing start with
  | nil =>
    rw [List.sum_nil, add_zero, and_iff_right (sumsIn_nil start), eq_comm (a := total)]
    exact Option.some_inj
  | cons x rest ih =>
    rw [sumChecked_cons, sumsIn_cons, List.sum_cons, ← add_assoc, addChecked]
    by_cases hx : InRange (start + x)
    · rw [if_pos hx, Option.bind_some, ih, and_iff_right hx]
    · rw [if_neg hx, Option.bind_none]
      exact iff_of_false (by simp) fun h ↦ hx h.1.1

theorem isSome_sumChecked {start : M} {xs : List M} :
    (sumChecked InRange start xs).isSome = true ↔ SumsIn InRange start xs := by
  rw [Option.isSome_iff_exists]
  constructor
  · intro ⟨total, h⟩
    exact (sumChecked_eq_some.1 h).1
  · intro h
    exact ⟨_, sumChecked_eq_some.2 ⟨h, rfl⟩⟩

end Checked

end NextApi
