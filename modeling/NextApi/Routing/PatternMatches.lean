import NextApi.Routing.MatchRoutes
import NextApi.Text.Glob

/-!
# What a pattern matches

The matcher keeps one thing to decide: whether what is behind its last `*` matches the text from
where that `*` ends now, or from a later place (`Leaves`). What it has read since then is without
`*`, and the same in the pattern and in the text (`Inv`). A step does not change what is to be
decided: at the next `*` the one before may stay as it is, since the earliest place leaves the most
text, and after a mismatch its present place is out.

So a pattern matches the models that come from it when every `*` is replaced by some characters
(`patternMatches_iff`).
-/

set_option autoImplicit false

namespace NextApi.Routing

open Glob

namespace Scan

variable {pat txt : List Char}

/-! ### Steps -/

/-- Neither a `*` nor the character of the text. -/
def Mismatch (s : Scan pat txt) (h : s.t < txt.length) : Prop :=
  ∀ hp : s.p < pat.length, pat[s.p] ≠ '*' ∧ pat[s.p] ≠ txt[s.t]

/-- What a step does: it passes a `*`, reads a character, or lets the last `*` take one more. -/
inductive Moves (s : Scan pat txt) (h : s.t < txt.length) (s' : Scan pat txt) : Prop
  | pass (hp : s.p < pat.length) (hchar : pat[s.p] = '*') (p : s'.p = s.p + 1) (t : s'.t = s.t)
      (star : s'.star = some s.p) (starMatch : s'.starMatch = s.t)
  | read (hp : s.p < pat.length) (hstar : pat[s.p] ≠ '*') (hchar : pat[s.p] = txt[s.t])
      (p : s'.p = s.p + 1) (t : s'.t = s.t + 1) (star : s'.star = s.star)
      (starMatch : s'.starMatch = s.starMatch)
  | extend (mismatch : s.Mismatch h) (sp : ℕ) (hstar : s.star = some sp) (p : s'.p = sp + 1)
      (t : s'.t = s.starMatch + 1) (star : s'.star = some sp)
      (starMatch : s'.starMatch = s.starMatch + 1)

theorem backtrack_eq_some {s s' : Scan pat txt} {h : s.t < txt.length}
    (hs : s.backtrack h = some s') : ∃ sp, s.star = some sp ∧ s'.p = sp + 1 ∧
      s'.t = s.starMatch + 1 ∧ s'.star = some sp ∧ s'.starMatch = s.starMatch + 1 := by
  unfold backtrack at hs
  split at hs
  · next sp hstar =>
    obtain rfl := Option.some.inj hs
    exact ⟨sp, hstar, rfl, rfl, rfl, rfl⟩
  · exact nomatch hs

theorem backtrack_eq_none {s : Scan pat txt} {h : s.t < txt.length} (hs : s.backtrack h = none) :
    s.star = none := by
  unfold backtrack at hs
  split at hs
  · exact nomatch hs
  · next hstar => exact hstar

theorem moves_of_step {s s' : Scan pat txt} {h : s.t < txt.length} (hs : s.step h = some s') :
    Moves s h s' := by
  unfold step at hs
  split at hs
  · next hp =>
    split at hs
    · next hchar =>
      obtain rfl := Option.some.inj hs
      exact Moves.pass hp hchar rfl rfl rfl rfl
    · next hstar =>
      split at hs
      · next hchar =>
        obtain rfl := Option.some.inj hs
        exact Moves.read hp hstar hchar rfl rfl rfl rfl
      · next hchar =>
        obtain ⟨sp, hsp, hp', ht', hstar', hmatch'⟩ := backtrack_eq_some hs
        exact Moves.extend (fun _ ↦ ⟨hstar, hchar⟩) sp hsp hp' ht' hstar' hmatch'
  · next hp =>
    obtain ⟨sp, hsp, hp', ht', hstar', hmatch'⟩ := backtrack_eq_some hs
    exact Moves.extend (fun hlt ↦ absurd hlt hp) sp hsp hp' ht' hstar' hmatch'

theorem mismatch_of_step {s : Scan pat txt} {h : s.t < txt.length} (hs : s.step h = none) :
    s.Mismatch h ∧ s.star = none := by
  unfold step at hs
  split at hs
  · next hp =>
    split at hs
    · cases hs
    · next hstar =>
      split at hs
      · cases hs
      · next hchar => exact ⟨fun _ ↦ ⟨hstar, hchar⟩, backtrack_eq_none hs⟩
  · next hp => exact ⟨fun hlt ↦ absurd hlt hp, backtrack_eq_none hs⟩

/-! ### What is to be decided -/

/-- The place in the pattern behind the last `*`. -/
def base (s : Scan pat txt) : ℕ := s.star.elim 0 (· + 1)

/-- The pattern behind the last `*` matches from where that ends, or from a later place. -/
def Leaves (s : Scan pat txt) : Prop :=
  ∃ k, s.starMatch ≤ k ∧ (s.star = none → k = s.starMatch) ∧
    Matches '*' (pat.drop s.base) (txt.drop k)

/-- What was read since the last `*` has no `*` in it, and is the same in both. -/
def Inv (s : Scan pat txt) : Prop :=
  ∃ lit, '*' ∉ lit ∧ pat.drop s.base = lit ++ pat.drop s.p ∧
    txt.drop s.starMatch = lit ++ txt.drop s.t

theorem inv_start : (start pat txt).Inv := ⟨[], List.not_mem_nil, rfl, rfl⟩

theorem leaves_start : (start pat txt).Leaves ↔ Matches '*' pat txt := by
  constructor
  · rintro ⟨k, -, hk, h⟩
    rw [hk rfl] at h
    exact h
  · intro h
    exact ⟨0, le_rfl, fun _ ↦ rfl, h⟩

theorem leaves_of_some {s : Scan pat txt} {sp : ℕ} (hstar : s.star = some sp) :
    s.Leaves ↔ MatchesFrom '*' (pat.drop (sp + 1)) txt s.starMatch := by
  rw [Leaves, MatchesFrom, base, hstar]
  simp only [Option.elim_some, reduceCtorEq, false_implies, true_and]

/-- After a mismatch the place of the last `*` is out. -/
theorem not_matches_of_mismatch {s : Scan pat txt} {h : s.t < txt.length} (hinv : s.Inv)
    (hmismatch : s.Mismatch h) : ¬ Matches '*' (pat.drop s.base) (txt.drop s.starMatch) := by
  obtain ⟨lit, hlit, hpat, htxt⟩ := hinv
  rw [hpat, htxt, matches_append_of_notMem hlit]
  rintro ⟨rest, hrest, hmatches⟩
  rw [← List.append_cancel_left hrest, List.drop_eq_getElem_cons h] at hmatches
  by_cases hp : s.p < pat.length
  · obtain ⟨hstar, hchar⟩ := hmismatch hp
    rw [List.drop_eq_getElem_cons hp, matches_cons_of_ne hstar] at hmatches
    obtain ⟨rest', hcons, -⟩ := hmatches
    exact hchar (List.cons.inj hcons).1.symm
  · rw [List.drop_eq_nil_of_le (Nat.le_of_not_lt hp), matches_nil] at hmatches
    exact absurd hmatches (List.cons_ne_nil _ _)

theorem not_leaves_of_mismatch {s : Scan pat txt} {h : s.t < txt.length} (hinv : s.Inv)
    (hmismatch : s.Mismatch h) (hstar : s.star = none) : ¬ s.Leaves := by
  rintro ⟨k, -, hk, hmatches⟩
  rw [hk hstar] at hmatches
  exact not_matches_of_mismatch hinv hmismatch hmatches

theorem inv_moves {s s' : Scan pat txt} {h : s.t < txt.length} (hinv : s.Inv)
    (hmoves : Moves s h s') : s'.Inv := by
  obtain ⟨lit, hlit, hpat, htxt⟩ := hinv
  cases hmoves with
  | pass hp hchar p t star starMatch =>
    refine ⟨[], List.not_mem_nil, ?_, ?_⟩
    · rw [base, star, p]
      rfl
    · rw [starMatch, t]
      rfl
  | read hp hstar hchar p t star starMatch =>
    refine ⟨lit ++ [pat[s.p]], ?_, ?_, ?_⟩
    · rw [List.mem_append, List.mem_singleton, not_or]
      exact ⟨hlit, Ne.symm hstar⟩
    · rw [base, star, p, List.append_assoc, List.singleton_append, ← List.drop_eq_getElem_cons hp]
      exact hpat
    · rw [starMatch, t, hchar, List.append_assoc, List.singleton_append,
        ← List.drop_eq_getElem_cons h]
      exact htxt
  | extend mismatch sp hstar p t star starMatch =>
    refine ⟨[], List.not_mem_nil, ?_, ?_⟩
    · rw [base, star, p]
      rfl
    · rw [starMatch, t]
      rfl

/-- A step does not change what is to be decided. -/
theorem leaves_moves {s s' : Scan pat txt} {h : s.t < txt.length} (hinv : s.Inv)
    (hmoves : Moves s h s') : s'.Leaves ↔ s.Leaves := by
  cases hmoves with
  | pass hp hchar p t star starMatch =>
    obtain ⟨lit, hlit, hpat, htxt⟩ := hinv
    rw [leaves_of_some star, starMatch, Leaves, hpat, List.drop_eq_getElem_cons hp, hchar]
    constructor
    · intro hfrom
      exact ⟨s.starMatch, le_rfl, fun _ ↦ rfl, matches_of_matchesFrom hlit htxt hfrom⟩
    · rintro ⟨k, hk, -, hmatches⟩
      exact matchesFrom_of_star hlit htxt s.t_le hk hmatches
  | read hp hstar hchar p t star starMatch =>
    rw [Leaves, Leaves, base, base, star, starMatch]
  | extend mismatch sp hstar p t star starMatch =>
    have hnot := not_matches_of_mismatch hinv mismatch
    rw [base, hstar, Option.elim_some] at hnot
    rw [leaves_of_some star, leaves_of_some hstar, starMatch]
    constructor
    · rintro ⟨k, hk, hmatches⟩
      exact ⟨k, (Nat.le_succ _).trans hk, hmatches⟩
    · rintro ⟨k, hk, hmatches⟩
      refine ⟨k, Nat.lt_of_le_of_ne hk fun heq ↦ hnot ?_, hmatches⟩
      rw [heq]
      exact hmatches

/-- At the end of the text it is decided by what is left of the pattern. -/
theorem leaves_of_end {s : Scan pat txt} (hinv : s.Inv) (h : ¬ s.t < txt.length) :
    s.Leaves ↔ ∀ a ∈ pat.drop s.p, a = '*' := by
  obtain ⟨lit, hlit, hpat, htxt⟩ := hinv
  rw [List.drop_eq_nil_of_le (Nat.le_of_not_lt h), List.append_nil] at htxt
  rw [Leaves, hpat]
  constructor
  · rintro ⟨k, hk, -, hmatches⟩
    obtain ⟨rest, hrest, hmatches⟩ := (matches_append_of_notMem hlit).1 hmatches
    have hlength := congrArg List.length htxt
    have hlength' := congrArg List.length hrest
    have hle := s.starMatch_le.trans s.t_le
    rw [List.length_drop] at hlength hlength'
    rw [List.length_append] at hlength'
    rw [List.eq_nil_of_length_eq_zero (show rest.length = 0 by omega)] at hmatches
    exact matches_nil_right.1 hmatches
  · intro hall
    refine ⟨s.starMatch, le_rfl, fun _ ↦ rfl, (matches_append_of_notMem hlit).2 ⟨[], ?_, ?_⟩⟩
    · rw [List.append_nil]
      exact htxt
    · exact matches_nil_right.2 hall

theorem run_iff (s : Scan pat txt) (hinv : s.Inv) : s.run = true ↔ s.Leaves := by
  induction s using Scan.run.induct with
  | case1 s h s' hs ih =>
    rw [run, dif_pos h]
    split
    · next s'' hs' =>
      obtain rfl := Option.some.inj (hs.symm.trans hs')
      have hmoves := moves_of_step hs
      rw [ih (inv_moves hinv hmoves)]
      exact leaves_moves hinv hmoves
    · next hs' => exact absurd (hs.symm.trans hs') (by simp)
  | case2 s h hs =>
    obtain ⟨hmismatch, hstar⟩ := mismatch_of_step hs
    rw [run, dif_pos h]
    split
    · next s' hs' => exact absurd (hs.symm.trans hs') (by simp)
    · exact iff_of_false Bool.false_ne_true (not_leaves_of_mismatch hinv hmismatch hstar)
  | case3 s h =>
    rw [run, dif_neg h, leaves_of_end hinv h, List.all_eq_true]
    simp only [beq_iff_eq]

end Scan

/-- A pattern matches a model exactly when the model comes from it by replacing every `*` by some
characters. -/
theorem patternMatches_iff (pattern model : String) :
    patternMatches pattern model = true ↔ Matches '*' pattern.toList model.toList := by
  rw [patternMatches, Scan.run_iff _ Scan.inv_start, Scan.leaves_start]

end NextApi.Routing
