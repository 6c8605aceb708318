import Mathlib.Data.List.Forall2

/-!
# Patterns with stars

A pattern is a text in which one letter, the star, stands for any word, and every other letter for
itself (`Matches`). Before its first star a pattern is read letter by letter
(`matches_append_of_notMem`), and a star may take any part of the text (`matches_cons_star`).

A matcher that reads from left to right need only remember its last star. The letters between two
stars are best found as early as they can be: what comes after the second star then has the most
text left (`matchesFrom_of_star`).
-/

set_option autoImplicit false

namespace NextApi.Glob

variable {α : Type} {star : α}

/-- The text comes from the pattern when every star is replaced by a word. -/
def Matches (star : α) (pat txt : List α) : Prop :=
  ∃ words, List.Forall₂ (fun a word ↦ a = star ∨ word = [a]) pat words ∧ words.flatten = txt

theorem matches_nil {txt : List α} : Matches star [] txt ↔ txt = [] := by
  constructor
  · rintro ⟨words, hwords, rfl⟩
    rw [List.forall₂_nil_left_iff.1 hwords, List.flatten_nil]
  · rintro rfl
    exact ⟨[], List.Forall₂.nil, rfl⟩

theorem matches_cons_star {pat txt : List α} :
    Matches star (star :: pat) txt ↔ ∃ k, Matches star pat (txt.drop k) := by
  constructor
  · rintro ⟨words, hwords, rfl⟩
    obtain ⟨word, rest, -, hrest, rfl⟩ := List.forall₂_cons_left_iff.1 hwords
    exact ⟨word.length, rest, hrest, by rw [List.flatten_cons, List.drop_left]⟩
  · rintro ⟨k, words, hwords, hflatten⟩
    refine ⟨txt.take k :: words, List.Forall₂.cons (Or.inl rfl) hwords, ?_⟩
    rw [List.flatten_cons, hflatten, List.take_append_drop]

theorem matches_cons_of_ne {a : α} (ha : a ≠ star) {pat txt : List α} :
    Matches star (a :: pat) txt ↔ ∃ rest, txt = a :: rest ∧ Matches star pat rest := by
  constructor
  · rintro ⟨words, hwords, rfl⟩
    obtain ⟨word, rest, hword, hrest, rfl⟩ := List.forall₂_cons_left_iff.1 hwords
    refine ⟨rest.flatten, ?_, rest, hrest, rfl⟩
    rw [List.flatten_cons, hword.resolve_left ha, List.singleton_append]
  · rintro ⟨rest, rfl, words, hwords, rfl⟩
    exact ⟨[a] :: words, List.Forall₂.cons (Or.inr rfl) hwords, rfl⟩

/-- A part without stars is read letter by letter. -/
theorem matches_append_of_notMem {lit : List α} (hlit : star ∉ lit) {pat txt : List α} :
    Matches star (lit ++ pat) txt ↔ ∃ rest, txt = lit ++ rest ∧ Matches star pat rest := by
  induction lit generalizing txt with
  | nil =>
    constructor
    · intro h
      exact ⟨txt, rfl, h⟩
    · rintro ⟨rest, rfl, h⟩
      exact h
  | cons a lit ih =>
    rw [List.mem_cons, not_or] at hlit
    rw [List.cons_append, matches_cons_of_ne (Ne.symm hlit.1)]
    constructor
    · rintro ⟨rest, rfl, h⟩
      obtain ⟨rest', rfl, h'⟩ := (ih hlit.2).1 h
      exact ⟨rest', rfl, h'⟩
    · rintro ⟨rest, rfl, h⟩
      exact ⟨lit ++ rest, rfl, (ih hlit.2).2 ⟨rest, rfl, h⟩⟩

/-- After the end of the text only stars may be left. -/
theorem matches_nil_right {pat : List α} : Matches star pat [] ↔ ∀ a ∈ pat, a = star := by
  induction pat with
  | nil => simp [matches_nil]
  | cons a pat ih =>
    rw [List.forall_mem_cons]
    by_cases ha : a = star
    · rw [ha, matches_cons_star]
      simp only [List.drop_nil, exists_const, ih, true_and]
    · rw [matches_cons_of_ne ha]
      simp [ha]

/-! ### The earliest place -/

/-- A text matches from a place on, or from a later one. -/
def MatchesFrom (star : α) (pat txt : List α) (m : ℕ) : Prop :=
  ∃ k, m ≤ k ∧ Matches star pat (txt.drop k)

theorem matches_cons_star_iff {pat txt : List α} {m : ℕ} :
    Matches star (star :: pat) (txt.drop m) ↔ MatchesFrom star pat txt m := by
  rw [matches_cons_star]
  constructor
  · rintro ⟨k, h⟩
    rw [List.drop_drop] at h
    exact ⟨m + k, Nat.le_add_right m k, h⟩
  · rintro ⟨k, hk, h⟩
    refine ⟨k - m, ?_⟩
    rw [List.drop_drop, Nat.add_sub_cancel' hk]
    exact h

/-- When a part without stars is read at a place and a star comes next, only what is after the
star is left to match. -/
theorem matchesFrom_of_star {lit pat txt : List α} {m k t : ℕ} (hlit : star ∉ lit)
    (hread : txt.drop m = lit ++ txt.drop t) (ht : t ≤ txt.length) (hk : m ≤ k)
    (h : Matches star (lit ++ star :: pat) (txt.drop k)) : MatchesFrom star pat txt t := by
  obtain ⟨rest, hrest, h⟩ := (matches_append_of_notMem hlit).1 h
  have hlength := congrArg List.length hread
  have hdrop : rest = txt.drop (k + lit.length) := by
    rw [← List.drop_drop, hrest, List.drop_left]
  rw [hdrop, matches_cons_star_iff] at h
  obtain ⟨k', hk', h⟩ := h
  refine ⟨k', ?_, h⟩
  rw [List.length_append, List.length_drop, List.length_drop] at hlength
  omega

theorem matches_of_matchesFrom {lit pat txt : List α} {m t : ℕ} (hlit : star ∉ lit)
    (hread : txt.drop m = lit ++ txt.drop t) (h : MatchesFrom star pat txt t) :
    Matches star (lit ++ star :: pat) (txt.drop m) := by
  rw [hread, matches_append_of_notMem hlit]
  exact ⟨txt.drop t, rfl, matches_cons_star_iff.2 h⟩

end NextApi.Glob
