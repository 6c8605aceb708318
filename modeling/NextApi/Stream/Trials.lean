import Mathlib.Data.List.Infix

/-!
# Trials in order

Candidates are tried one after the other, and the next one follows as long as a trial passes it on.
Those that are tried are therefore a beginning of the list (`tried_begins`): all of them but the
last pass on, and the last one does only when there is no other (`tried_eq_self`).

Repeating one trial a bounded number of times is the same thing: the candidates are then the
repetitions. What each trial leaves behind is put together in order by `placed`, every piece with the
position of its candidate.
-/

set_option autoImplicit false

namespace NextApi.Stream.Trials

variable {α β : Type*} (passes : α → Bool)

/-- The candidates that are tried. -/
def tried : List α → List α
  | [] => []
  | a :: rest => if passes a then a :: tried rest else [a]

@[simp] theorem tried_nil : tried passes [] = [] := rfl

theorem tried_cons (a : α) (rest : List α) :
    tried passes (a :: rest) = a :: if passes a then tried passes rest else [] := by
  rw [tried]
  split <;> rfl

theorem tried_begins (l : List α) : tried passes l <+: l := by
  induction l with
  | nil => exact List.prefix_refl []
  | cons a rest ih =>
    rw [tried_cons]
    refine (List.prefix_cons_inj a).2 ?_
    split
    · exact ih
    · exact List.nil_prefix

theorem tried_eq_nil {l : List α} : tried passes l = [] ↔ l = [] := by
  cases l with
  | nil => simp
  | cons a rest => simp [tried_cons]

variable {passes}

/-- The candidates of a list that all pass on are all tried. -/
theorem tried_eq_self {l : List α} (h : ∀ a ∈ tried passes l, passes a = true) :
    tried passes l = l := by
  induction l with
  | nil => rfl
  | cons a rest ih =>
    rw [tried_cons] at h ⊢
    have hpasses := h a List.mem_cons_self
    rw [if_pos hpasses] at h ⊢
    rw [ih fun b hb ↦ h b (List.mem_cons_of_mem a hb)]

/-- Whatever is tried after a candidate, the candidate passed it on. -/
theorem tried_pairwise (l : List α) : (tried passes l).Pairwise fun a _ ↦ passes a = true := by
  induction l with
  | nil => exact List.Pairwise.nil
  | cons a rest ih =>
    rw [tried_cons, List.pairwise_cons]
    by_cases h : passes a = true
    · rw [if_pos h]
      exact ⟨fun b _ ↦ h, ih⟩
    · rw [if_neg h]
      exact ⟨fun b hb ↦ absurd hb List.not_mem_nil, List.Pairwise.nil⟩

/-- All candidates up to the last one pass on, and so does the last one only at the end of the
list. -/
theorem tried_split {l before after : List α} {a : α} (h : tried passes l = before ++ a :: after) :
    (∀ b ∈ before, passes b = true) ∧ (after ≠ [] → passes a = true) ∧
      (after = [] → passes a = true → l = before ++ [a]) := by
  have hpairwise := @tried_pairwise _ passes l
  rw [h, List.pairwise_append, List.pairwise_cons] at hpairwise
  obtain ⟨-, ⟨hafter, -⟩, hbefore⟩ := hpairwise
  refine ⟨fun b hb ↦ hbefore b hb a List.mem_cons_self, fun hne ↦ ?_, fun hnil hpasses ↦ ?_⟩
  · obtain ⟨c, hc⟩ := List.exists_mem_of_ne_nil _ hne
    exact hafter c hc
  · subst hnil
    rw [← h]
    refine (tried_eq_self fun b hb ↦ ?_).symm
    rw [h, List.mem_append, List.mem_singleton] at hb
    rcases hb with hb | rfl
    · exact hbefore b hb a List.mem_cons_self
    · exact hpasses

/-- Of a list that is not empty there is a last candidate that is tried. -/
theorem exists_tried_last {l : List α} (h : l ≠ []) :
    ∃ before a, tried passes l = before ++ [a] := by
  have hne : tried passes l ≠ [] := fun hnil ↦ h ((tried_eq_nil passes).1 hnil)
  exact ⟨_, _, (List.dropLast_append_getLast hne).symm⟩

/-- What is around the item at a position. -/
theorem exists_split {l : List α} {i : ℕ} {a : α} (h : l[i]? = some a) :
    ∃ before after, l = before ++ a :: after ∧ before.length = i := by
  obtain ⟨hi, rfl⟩ := List.getElem?_eq_some_iff.1 h
  refine ⟨l.take i, l.drop (i + 1), ?_, List.length_take_of_le hi.le⟩
  rw [← List.drop_eq_getElem_cons hi, List.take_append_drop]

theorem getElem?_of_tried {l : List α} {i : ℕ} {a : α} (h : (tried passes l)[i]? = some a) :
    l[i]? = some a := by
  obtain ⟨rest, hrest⟩ := tried_begins passes l
  rw [← hrest, List.getElem?_append_left (List.getElem?_eq_some_iff.1 h).1, h]

/-- The candidate before one that is tried passes on. -/
theorem passes_of_lt {l : List α} {i : ℕ} {a : α} (h : (tried passes l)[i]? = some a)
    (hlt : i + 1 < (tried passes l).length) : passes a = true := by
  obtain ⟨before, after, hsplit, rfl⟩ := exists_split h
  refine (tried_split hsplit).2.1 fun hnil ↦ ?_
  rw [hsplit, hnil, List.length_append] at hlt
  exact absurd hlt (Nat.lt_irrefl _)

/-- The candidate after one that passes on is tried. -/
theorem lt_length_tried {l : List α} {i : ℕ} {a : α} (h : (tried passes l)[i]? = some a)
    (hpasses : passes a = true) (hmore : i + 1 < l.length) : i + 1 < (tried passes l).length := by
  obtain ⟨before, after, hsplit, rfl⟩ := exists_split h
  cases after with
  | nil =>
    rw [(tried_split hsplit).2.2 rfl hpasses, List.length_append, List.length_singleton] at hmore
    exact absurd hmore (Nat.lt_irrefl _)
  | cons b rest =>
    rw [hsplit, List.length_append, List.length_cons, List.length_cons]
    omega

/-- Every item is related to those after it. -/
theorem pairwise_iff_split {R : α → α → Prop} {l : List α} :
    l.Pairwise R ↔ ∀ before a after, l = before ++ a :: after → ∀ b ∈ after, R a b := by
  constructor
  · intro h before a after hsplit b hb
    rw [hsplit, List.pairwise_append, List.pairwise_cons] at h
    exact h.2.1.1 b hb
  · intro h
    induction l with
    | nil => exact List.Pairwise.nil
    | cons a rest ih =>
      refine List.pairwise_cons.2 ⟨h [] a rest rfl, ih fun before c after hsplit ↦ ?_⟩
      exact h (a :: before) c after (by rw [hsplit, List.cons_append])

/-- Items with their positions, each replaced by a list. -/
def placed (f : ℕ → α → List β) (l : List α) : List β := l.zipIdx.flatMap fun x ↦ f x.2 x.1

variable {f : ℕ → α → List β}

theorem mem_placed {l : List α} {y : β} :
    y ∈ placed f l ↔ ∃ i a, l[i]? = some a ∧ y ∈ f i a := by
  rw [placed, List.mem_flatMap]
  constructor
  · rintro ⟨⟨a, i⟩, hmem, hy⟩
    exact ⟨i, a, List.mk_mem_zipIdx_iff_getElem?.1 hmem, hy⟩
  · rintro ⟨i, a, hi, hy⟩
    exact ⟨(a, i), List.mk_mem_zipIdx_iff_getElem?.2 hi, hy⟩

theorem pairwise_placed {R : β → β → Prop} {l : List α} :
    (placed f l).Pairwise R ↔ (∀ i a, l[i]? = some a → (f i a).Pairwise R) ∧
      ∀ i j a b, l[i]? = some a → l[j]? = some b → i < j → ∀ x ∈ f i a, ∀ y ∈ f j b, R x y := by
  rw [placed, List.pairwise_flatMap, List.pairwise_iff_getElem]
  constructor
  · intro ⟨hone, htwo⟩
    refine ⟨fun i a hi ↦ hone (a, i) (List.mk_mem_zipIdx_iff_getElem?.2 hi), ?_⟩
    intro i j a b hi hj hij
    obtain ⟨hi', rfl⟩ := List.getElem?_eq_some_iff.1 hi
    obtain ⟨hj', rfl⟩ := List.getElem?_eq_some_iff.1 hj
    have hpair := htwo i j (by simpa using hi') (by simpa using hj') hij
    rw [List.getElem_zipIdx, List.getElem_zipIdx, Nat.zero_add, Nat.zero_add] at hpair
    exact hpair
  · intro ⟨hone, htwo⟩
    refine ⟨fun x hx ↦ hone x.2 x.1 (List.mem_zipIdx_iff_getElem?.1 hx), ?_⟩
    intro i j hi hj hij
    rw [List.length_zipIdx] at hi hj
    rw [List.getElem_zipIdx, List.getElem_zipIdx, Nat.zero_add, Nat.zero_add]
    exact htwo i j l[i] l[j] (List.getElem?_eq_getElem hi) (List.getElem?_eq_getElem hj) hij

/-- What only one position has is counted there. -/
theorem countP_placed {p : β → Bool} {l : List α} {i : ℕ}
    (h : ∀ j a, l[j]? = some a → j ≠ i → ∀ y ∈ f j a, p y = false) :
    (placed f l).countP p = (l[i]?.map fun a ↦ (f i a).countP p).getD 0 := by
  have hzero (a : α) (j : ℕ) (hfa : ∀ y ∈ f j a, p y = false) : (f j a).countP p = 0 :=
    List.countP_eq_zero.2 fun y hy ↦ by simp [hfa y hy]
  -- the list from a position on
  have hfrom : ∀ (l : List α) (n : ℕ),
      (∀ j a, l[j]? = some a → n + j ≠ i → ∀ y ∈ f (n + j) a, p y = false) →
      ((l.zipIdx n).flatMap fun x ↦ f x.2 x.1).countP p =
        if n ≤ i then (l[i - n]?.map fun a ↦ (f i a).countP p).getD 0 else 0 := by
    intro l
    induction l with
    | nil =>
      intro n _
      simp
    | cons a rest ih =>
      intro n hn
      have hrest := ih (n + 1) fun j b hj hne ↦ by
        have hb := hn (j + 1) b (by simpa using hj)
        rw [← Nat.add_assoc, Nat.add_right_comm] at hb
        exact hb hne
      rw [List.zipIdx_cons, List.flatMap_cons, List.countP_append, hrest]
      rcases Nat.lt_trichotomy n i with hlt | rfl | hgt
      · have hfirst := hzero a n fun y hy ↦ hn 0 a rfl (by omega) y hy
        rw [hfirst, if_pos hlt.le, if_pos (show n + 1 ≤ i from hlt), show i - n = i - (n + 1) + 1 by omega,
          List.getElem?_cons_succ, Nat.zero_add]
      · rw [if_neg (by omega), if_pos (Nat.le_refl n), Nat.sub_self]
        rfl
      · have hfirst := hzero a n fun y hy ↦ hn 0 a rfl (by omega) y hy
        rw [hfirst, if_neg (by omega), if_neg (by omega)]
  have hall := hfrom l 0 fun j a hj hne y hy ↦ by
    rw [Nat.zero_add] at hne hy
    exact h j a hj hne y hy
  rw [if_pos (Nat.zero_le i), Nat.sub_zero] at hall
  exact hall

end NextApi.Stream.Trials
