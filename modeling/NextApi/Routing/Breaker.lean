import Mathlib.Algebra.Group.Int.Defs
import Mathlib.Algebra.Group.Nat.Defs
import Mathlib.Data.Int.Basic
import NextApi.Stream.Table

/-!
# The circuit breaker

A breaker keeps a state for every upstream. It is closed and counts failures, or open until the
end of a cooldown, or half open while one request probes whether the upstream has recovered. The
cooldown doubles with every probe that fails, up to half an hour. A second table has the times at
which probes were let through; a probe that has no result after two minutes is given up, and the
next request probes instead.

An open breaker is also persisted in the row of its upstream, as an automatic disabling with the
end of its cooldown. The rows that the operations are called with are snapshots, and may be older
than the row in the database. A disabling by hand comes before everything else, and a breaker that
is switched off lets everything through.

Times are nanoseconds. The counters are natural numbers: their 32 bits last for more openings of
half an hour than there is time.
-/

set_option autoImplicit false

namespace NextApi.Routing

/-- A UUID of an upstream. -/
abbrev UpstreamId := BitVec 128

/-- A duration of so many seconds. -/
def seconds (n : ℤ) : ℤ := n * 10 ^ 9

/-- `num_seconds`: the whole seconds of a duration. -/
def numSeconds (d : ℤ) : ℤ := d.tdiv (10 ^ 9)

def defaultCooldownSecs : ℕ := 60

def maxCooldownSecs : ℕ := 30 * 60

def halfopenTimeoutSecs : ℤ := 120

/-- What the breaker reads of the row of an upstream. -/
structure UpstreamRow where
  id : UpstreamId
  enabled : Bool := true
  breakerThreshold : ℤ := 5
  consecutiveFailures : ℤ := 0
  disabledBy : Option String := none
  cooldownUntil : Option ℤ := none
  deriving DecidableEq, Inhabited

inductive BreakerState where
  /-- Normal operation, with the number of consecutive failures. -/
  | closed (failures : ℕ)
  /-- In cooldown, with the number of openings since the breaker was last closed. -/
  | opened (until' : ℤ) (consecutiveOpens : ℕ)
  /-- After the cooldown, with one request under way. -/
  | halfOpen (consecutiveOpens : ℕ)
  deriving DecidableEq, Inhabited

def BreakerState.isOpen : BreakerState → Bool
  | .opened _ _ => true
  | _ => false

def BreakerState.isHalfOpen : BreakerState → Bool
  | .halfOpen _ => true
  | _ => false

/-! ### Transitions -/

/-- The length of a cooldown, by the number of consecutive openings before it. -/
def cooldownSecs (opens : ℕ) : ℕ :=
  min (min (defaultCooldownSecs * 2 ^ min opens 62) (2 ^ 63 - 1)) maxCooldownSecs

/-- The state after a failure, and whether the database is written. -/
def nextOnFailure (state : BreakerState) (threshold : ℕ) (now : ℤ) : BreakerState × Bool :=
  match state with
  | .closed failures =>
    if failures + 1 ≥ threshold then (.opened (now + seconds (cooldownSecs 0)) 1, true)
    else (.closed (failures + 1), false)
  | .opened until' opens => (.opened until' opens, true)
  | .halfOpen opens => (.opened (now + seconds (cooldownSecs opens)) (opens + 1), true)

/-- What an operation writes to the row of the upstream. -/
inductive DbUpdate where
  /-- Closed again: the automatic disabling is lifted, if the row still has it. -/
  | recovered
  /-- Opened: the row is disabled automatically, unless it is disabled by hand. -/
  | opened (until' : ℤ) (failures : ℤ)
  /-- A further failure while open, unless the row is disabled by hand. -/
  | failuresOnly (failures : ℤ)
  deriving DecidableEq, Inhabited

def DbUpdate.apply (row : UpstreamRow) : DbUpdate → UpstreamRow
  | .recovered =>
    if row.disabledBy = some "auto" then
      { row with disabledBy := none, cooldownUntil := none, consecutiveFailures := 0 }
    else row
  | .opened until' failures =>
    if row.disabledBy = some "manual" then row
    else
      { row with
        disabledBy := some "auto"
        cooldownUntil := some until'
        consecutiveFailures := failures }
  | .failuresOnly failures =>
    if row.disabledBy = some "manual" then row
    else { row with consecutiveFailures := failures }

/-! ### Operations -/

structure Breaker where
  states : Table UpstreamId BreakerState := ∅
  halfopenSince : Table UpstreamId ℤ := ∅

namespace Breaker

/-- Forgets an upstream. -/
def reset (b : Breaker) (id : UpstreamId) : Breaker where
  states := b.states.erase id
  halfopenSince := b.halfopenSince.erase id

/-- The end of the automatic disabling of a row, when it is still to come. -/
def dbCooldown (up : UpstreamRow) (now : ℤ) : Option ℤ :=
  if up.disabledBy = some "auto" then up.cooldownUntil.filter fun until' ↦ decide (until' > now)
  else none

/-- The number of openings that a persisted cooldown is taken over with. -/
def importedOpens (up : UpstreamRow) : ℕ := (max up.consecutiveFailures 1).toNat

/-- Whether a probe is under way for too long. -/
def stuck (since : Option ℤ) (now : ℤ) : Bool :=
  (since.map fun since ↦ decide (numSeconds (now - since) ≥ halfopenTimeoutSecs)).getD false

theorem stuck_iff {since now : ℤ} :
    stuck (some since) now = true ↔ since + seconds 120 ≤ now := by
  rw [stuck, Option.map_some, Option.getD_some, decide_eq_true_iff, numSeconds,
    halfopenTimeoutSecs, seconds]
  by_cases h : 0 ≤ now - since
  · rw [Int.tdiv_eq_ediv_of_nonneg h]
    omega
  · have hneg : 0 ≤ (-(now - since)).tdiv (10 ^ 9) := Int.tdiv_nonneg (by omega) (by omega)
    rw [Int.neg_tdiv] at hneg
    omega

/-- Whether a request to the upstream is let through. -/
def allow (b : Breaker) (up : UpstreamRow) (autoDisable : Bool) (now : ℤ) : Bool × Breaker :=
  if !up.enabled || decide (up.disabledBy = some "manual") then (false, b)
  else if !autoDisable then (true, b.reset up.id)
  else
    match dbCooldown up now with
    | some until' =>
      (false,
        { b with
          states :=
            if (b.states.lookup up.id).isSome then b.states
            else b.states.insert up.id (.opened until' (importedOpens up)) })
    | none =>
      match b.states.lookup up.id with
      | none => (true, { b with states := b.states.insert up.id (.closed 0) })
      | some (.closed _) => (true, b)
      | some (.opened until' opens) =>
        if now < until' then (false, b)
        else
          (true,
            { states := b.states.insert up.id (.halfOpen opens)
              halfopenSince := b.halfopenSince.insert up.id now })
      | some (.halfOpen _) =>
        if stuck (b.halfopenSince.lookup up.id) now then
          (true, { b with halfopenSince := b.halfopenSince.insert up.id now })
        else (false, b)

/-- Records a success. The row is written when the snapshot is disabled automatically. -/
def onSuccess (b : Breaker) (up : UpstreamRow) : Breaker × Option DbUpdate :=
  ({ states := b.states.insert up.id (.closed 0), halfopenSince := b.halfopenSince.erase up.id },
    if up.disabledBy = some "auto" then some .recovered else none)

/-- The threshold of a row, at least one. -/
def threshold (up : UpstreamRow) : ℕ := (max up.breakerThreshold 1).toNat

/-- What a failure writes to the row: the transition decides, and the failures are those before
it. -/
def failureUpdate (up : UpstreamRow) (state next : BreakerState) : Option DbUpdate :=
  match state, next with
  | .opened _ _, .opened _ _ =>
    some (.failuresOnly (min (up.consecutiveFailures + 1) (2 ^ 31 - 1)))
  | .closed failures, .opened until' _ => some (.opened until' failures)
  | .halfOpen _, .opened until' _ => some (.opened until' (threshold up))
  | _, _ => none

/-- Records a failure. -/
def onFailure (b : Breaker) (up : UpstreamRow) (autoDisable : Bool) (now : ℤ) :
    Breaker × Option DbUpdate :=
  if up.disabledBy = some "manual" ∨ autoDisable = false then (b, none)
  else
    let state := (b.states.lookup up.id).getD (.closed 0)
    let next := (nextOnFailure state (threshold up) now).1
    ({ states := b.states.insert up.id next
       halfopenSince :=
        if state.isHalfOpen && !next.isHalfOpen then b.halfopenSince.erase up.id
        else b.halfopenSince },
      failureUpdate up state next)

end Breaker

/-- The cooldown doubles, up to half an hour. -/
theorem cooldownSecs_eq (opens : ℕ) : cooldownSecs opens = min (60 * 2 ^ opens) 1800 := by
  have hsmall : ∀ n < 6, cooldownSecs n = min (60 * 2 ^ n) 1800 := by decide
  by_cases h : opens < 6
  · exact hsmall opens h
  · have hpow : 2 ^ 6 ≤ 2 ^ min opens 62 := Nat.pow_le_pow_right (by omega) (by omega)
    have hpow' : 2 ^ 6 ≤ 2 ^ opens := Nat.pow_le_pow_right (by omega) (by omega)
    rw [cooldownSecs, defaultCooldownSecs, maxCooldownSecs]
    omega

end NextApi.Routing
