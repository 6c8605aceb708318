import Mathlib.Data.List.Dedup
import Mathlib.Data.Prod.Lex

/-!
# The routes of a model

A route names the models that it is for by a pattern, in which `*` stands for any characters
(`patternMatches`). The routes of a model come in the order of their priorities (`matchRoutes`), and
among those of one priority the first is drawn by weight (`weightedPick`).

The matcher is greedy: it remembers the last `*`, and after a mismatch lets it take one character
more. Every step either passes another `*`, or gives the last one another character, or consumes a
character, so it comes to an end (`Scan.measure_step`).
-/

set_option autoImplicit false

namespace NextApi.Routing

/-! ### Patterns -/

/-- Where the matcher is: its positions, and the last `*` with the position it is matched up to. -/
structure Scan (pat txt : List Char) where
  p : ℕ
  t : ℕ
  star : Option ℕ
  starMatch : ℕ
  p_le : p ≤ pat.length
  t_le : t ≤ txt.length
  starMatch_le : starMatch ≤ t
  star_lt : ∀ sp, star = some sp → sp < p

namespace Scan

variable {pat txt : List Char}

def start (pat txt : List Char) : Scan pat txt where
  p := 0
  t := 0
  star := none
  starMatch := 0
  p_le := Nat.zero_le _
  t_le := Nat.zero_le _
  starMatch_le := le_rfl
  star_lt := fun _ h ↦ nomatch h

/-- After a mismatch the last `*` takes one character more. -/
def backtrack (s : Scan pat txt) (h : s.t < txt.length) : Option (Scan pat txt) :=
  match hstar : s.star with
  | some sp => some
    { p := sp + 1
      t := s.starMatch + 1
      star := some sp
      starMatch := s.starMatch + 1
      p_le := (Nat.succ_le_of_lt (s.star_lt sp hstar)).trans s.p_le
      t_le := (Nat.succ_le_succ s.starMatch_le).trans h
      starMatch_le := le_rfl
      star_lt := fun _ h' ↦ Option.some.inj h' ▸ Nat.lt_succ_self sp }
  | none => none

/-- One step, unless the text is used up. -/
def step (s : Scan pat txt) (h : s.t < txt.length) : Option (Scan pat txt) :=
  if hp : s.p < pat.length then
    if pat[s.p] = '*' then some
      { p := s.p + 1
        t := s.t
        star := some s.p
        starMatch := s.t
        p_le := hp
        t_le := s.t_le
        starMatch_le := le_rfl
        star_lt := fun _ h' ↦ Option.some.inj h' ▸ Nat.lt_succ_self s.p }
    else if pat[s.p] = txt[s.t] then some
      { s with
        p := s.p + 1
        t := s.t + 1
        p_le := hp
        t_le := h
        starMatch_le := s.starMatch_le.trans (Nat.le_succ _)
        star_lt := fun sp h' ↦ (s.star_lt sp h').trans (Nat.lt_succ_self _) }
    else s.backtrack h
  else s.backtrack h

/-- What is left of the pattern after the last `*`, of the text after its match, and of the text. -/
def measure (s : Scan pat txt) : ℕ ×ₗ ℕ ×ₗ ℕ :=
  toLex (pat.length - s.star.elim 0 (· + 1), toLex (txt.length - s.starMatch, txt.length - s.t))

theorem measure_backtrack {s s' : Scan pat txt} {h : s.t < txt.length}
    (hs : s.backtrack h = some s') : s'.measure < s.measure := by
  unfold backtrack at hs
  split at hs
  · rename_i sp hstar
    obtain rfl := Option.some.inj hs
    have hlt := lt_of_le_of_lt s.starMatch_le h
    have hpat : pat.length - (sp + 1) = pat.length - s.star.elim 0 (· + 1) := by
      rw [hstar]
      rfl
    refine Prod.Lex.toLex_lt_toLex.2 (Or.inr ⟨hpat, ?_⟩)
    refine Prod.Lex.toLex_lt_toLex.2 (Or.inl ?_)
    show txt.length - (s.starMatch + 1) < txt.length - s.starMatch
    omega
  · exact nomatch hs

/-- Every step leaves less to do. -/
theorem measure_step {s s' : Scan pat txt} {h : s.t < txt.length} (hs : s.step h = some s') :
    s'.measure < s.measure := by
  unfold step at hs
  split at hs
  · rename_i hp
    split at hs
    · obtain rfl := Option.some.inj hs
      refine Prod.Lex.toLex_lt_toLex.2 (Or.inl ?_)
      show pat.length - (s.p + 1) < pat.length - s.star.elim 0 (· + 1)
      cases hstar : s.star with
      | none =>
        show pat.length - (s.p + 1) < pat.length - 0
        omega
      | some sp =>
        have hlt := s.star_lt sp hstar
        show pat.length - (s.p + 1) < pat.length - (sp + 1)
        omega
    · split at hs
      · obtain rfl := Option.some.inj hs
        refine Prod.Lex.toLex_lt_toLex.2 (Or.inr ⟨rfl, Prod.Lex.toLex_lt_toLex.2
          (Or.inr ⟨rfl, ?_⟩)⟩)
        show txt.length - (s.t + 1) < txt.length - s.t
        omega
      · exact measure_backtrack hs
  · exact measure_backtrack hs

/-- Goes on to the end of the text; what is left of the pattern may only be `*`. -/
def run (s : Scan pat txt) : Bool :=
  if h : s.t < txt.length then
    match _hs : s.step h with
    | some s' => s'.run
    | none => false
  else (pat.drop s.p).all (· == '*')
  termination_by s.measure
  decreasing_by exact measure_step _hs

end Scan

/-- The model is one of the pattern. -/
def patternMatches (pattern model : String) : Bool :=
  (Scan.start pattern.toList model.toList).run

/-! ### Routes -/

structure ModelRouteRow where
  id : BitVec 128
  modelPattern : String
  upstreamId : BitVec 128
  overrideModel : Option String := none
  priority : ℤ := 0
  weight : ℤ := 0
  enabled : Bool := true
  retries : ℤ := 0
  retryStatusCodes : List ℤ := []
  lockUpstream : Bool := false
  sortOrder : ℤ := 0
  deriving DecidableEq, Inhabited

/-- The routes of a model, by priority and then by their place. -/
def matchRoutes (model : String) (routes : List ModelRouteRow) : List ModelRouteRow :=
  (routes.filter fun r ↦ r.enabled && patternMatches r.modelPattern model).mergeSort fun a b ↦
    decide (a.priority < b.priority ∨ a.priority = b.priority ∧ a.sortOrder ≤ b.sortOrder)

/-- The weight of a route in the draw. -/
def ModelRouteRow.weightOf (r : ModelRouteRow) : ℕ := if r.weight ≤ 0 then 1 else r.weight.toNat

/-- The route that a number below the sum of the weights falls to. -/
def drawRoute : ℕ → List ModelRouteRow → Option ModelRouteRow
  | _, [] => none
  | draw, r :: rest => if draw < r.weightOf then some r else drawRoute (draw - r.weightOf) rest

/-- Draws a route. -/
def weightedPick (draw : ℕ) (routes : List ModelRouteRow) : Option ModelRouteRow :=
  (drawRoute draw routes).or routes.getLast?

end NextApi.Routing
