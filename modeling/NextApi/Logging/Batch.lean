import Mathlib.Algebra.BigOperators.Group.List.Basic
import Mathlib.Algebra.Order.Ring.Rat
import NextApi.Logging.Event
import NextApi.Stream.Grouping

/-!
# Inserting a batch

`insertBatch` is one transaction: the events are priced, inserted into `usage_logs` where a row
with their request id and time is not there yet, and then added to the hourly totals, the quota
counters and the times of last use. The events that are added are found by their request id alone,
among the ids of the rows that were inserted (`counted`).

The pricing engine, the quota settings of the keys and the start of a quota window are given by
the `Env` that a batch is inserted under. `none` is an error of the database, upon which the
transaction leaves everything as it was: a number that its column has no place for.

Counters of one batch are `i64` and wrap. A count of events is exact: no batch is that long.
-/

set_option autoImplicit false

namespace NextApi.Logging

open Json

/-! ### Columns -/

/-- A `BIGINT`. -/
def bigint (x : ℤ) : Option ℤ := if -2 ^ 63 ≤ x ∧ x < 2 ^ 63 then some x else none

/-- The nearest integer, away from zero when there are two. -/
def roundHalfAway (x : ℚ) : ℤ := if 0 ≤ x then (x + 1 / 2).floor else -(-x + 1 / 2).floor

/-- A `NUMERIC(precision, scale)`: rounded to its decimals, and refused when it is too large. -/
def numeric (precision scale : ℕ) (x : ℚ) : Option ℚ :=
  let r := (roundHalfAway (x * 10 ^ scale) : ℚ) / 10 ^ scale
  if |r| < 10 ^ (precision - scale) then some r else none

/-- A column that may be absent. -/
def nullable {α : Type} (column : α → Option α) : Option α → Option (Option α)
  | none => some none
  | some x => (column x).map some

/-- A `timestamptz` counts microseconds. -/
def storedTime (ts : ℤ) : ℤ := ts - ts % 1000

/-- `as i32`. -/
def wrapI32 (x : ℤ) : ℤ := x.bmod (2 ^ 32)

/-- `i64` addition. -/
def addI64 (x y : ℤ) : ℤ := (x + y).bmod (2 ^ 64)

/-- The row of an event. -/
def storedRow (ev : LogEvent) : Option LogEvent := do
  let videoSeconds ← nullable (numeric 10 2) ev.videoSeconds
  let costCny ← nullable (numeric 20 10) ev.costCny
  let costUsd ← nullable (numeric 20 10) ev.costUsd
  return { ev with ts := storedTime ev.ts, images := ev.images.map wrapI32, videoSeconds, costCny,
                   costUsd }

/-! ### The database -/

/-- What pricing fills in. -/
structure Pricing where
  costCny : Option ℚ
  costUsd : Option ℚ
  pricingSource : Option String
  priceUsed : Option Value
  fxSnapshot : Option Value

/-- What a batch is inserted under. -/
structure Env where
  /-- The pricing of an event; one that failed, that is priced already or that has no usage is left
  alone. -/
  price : LogEvent → Option Pricing
  /-- The quota unit and the quota window of a key of `api_keys`. -/
  keyQuota : Uuid → Option (Option String × Option String)
  /-- The start of a window in the billing time zone, by the window and the second. -/
  windowStart : String → ℤ → ℤ

/-- `price_batch`. -/
def Env.priceEvent (env : Env) (ev : LogEvent) : LogEvent :=
  match env.price ev with
  | some p =>
    { ev with
      costCny := p.costCny
      costUsd := p.costUsd
      pricingSource := p.pricingSource
      priceUsed := p.priceUsed
      fxSnapshot := p.fxSnapshot }
  | none => ev

/-- A row of `usage_logs`, with what it was inserted under. -/
structure Inserted where
  event : LogEvent
  env : Env

/-- A row of `usage_hourly`, and the running sums of one batch for it. -/
structure HourlyAcc where
  requests : ℤ := 0
  errors : ℤ := 0
  promptTokens : ℤ := 0
  completionTokens : ℤ := 0
  cacheWriteTokens : ℤ := 0
  cacheReadTokens : ℤ := 0
  costCny : Option ℚ := none
  costUsd : Option ℚ := none
  deriving DecidableEq, Inhabited

/-- The key of `usage_hourly`: hour and model. -/
abbrev HourKey := ℤ × String

/-- The key of `quota_usage`. -/
structure QuotaKey where
  keyId : Uuid
  unit : String
  windowKind : String
  periodStart : ℤ
  deriving DecidableEq, Inhabited

structure Db where
  usageLogs : List Inserted := []
  usageHourly : Table HourKey HourlyAcc := ∅
  quotaUsage : Table QuotaKey ℚ := ∅
  lastUsedAt : Table Uuid ℤ := ∅

/-! ### Rows -/

/-- There is a row with the request id and the time of the event. -/
def isStored (rows : List Inserted) (ev : LogEvent) : Bool :=
  rows.any fun r ↦ decide (r.event.requestId = ev.requestId ∧ r.event.ts = storedTime ev.ts)

/-- The insert with `ON CONFLICT DO NOTHING RETURNING request_id`: the rows, and the ids returned.
The second of two events of one batch with the same key finds the row of the first. -/
def insertLogs (env : Env) (rows : List Inserted) :
    List LogEvent → Option (List Inserted × List String)
  | [] => some (rows, [])
  | ev :: rest => do
    let row ← storedRow ev
    if isStored rows ev then insertLogs env rows rest
    else
      let (rows, ids) ← insertLogs env (rows ++ [⟨row, env⟩]) rest
      return (rows, ev.requestId :: ids)

/-! ### Hourly totals -/

/-- The hour of a time, in nanoseconds as the time is. -/
def hourBucket (ts : ℤ) : ℤ := ts / 10 ^ 9 / 3600 * 3600 * 10 ^ 9

def hourKey (ev : LogEvent) : HourKey := (hourBucket ev.ts, ev.model)

/-- Adds a cost, if there is one. -/
def addOptSum (acc v : Option ℚ) : Option ℚ :=
  match v with
  | some x => some (acc.getD 0 + x)
  | none => acc

/-- Adds an event to the sums of its hour. -/
def addHourly (acc : Option HourlyAcc) (ev : LogEvent) : HourlyAcc :=
  let acc := acc.getD {}
  { requests := acc.requests + 1
    errors := if ev.status ≥ 400 then acc.errors + 1 else acc.errors
    promptTokens := addI64 acc.promptTokens (ev.promptTokens.getD 0)
    completionTokens := addI64 acc.completionTokens (ev.completionTokens.getD 0)
    cacheWriteTokens := addI64 acc.cacheWriteTokens (ev.cacheWriteTokens.getD 0)
    cacheReadTokens := addI64 acc.cacheReadTokens (ev.cacheReadTokens.getD 0)
    costCny := addOptSum acc.costCny ev.costCny
    costUsd := addOptSum acc.costUsd ev.costUsd }

/-- The upsert of an hour: the sums are added to the row that is there. -/
def mergeHourly (old : Option HourlyAcc) (new : HourlyAcc) : Option HourlyAcc := do
  let newCny ← nullable (numeric 20 10) new.costCny
  let newUsd ← nullable (numeric 20 10) new.costUsd
  let old := old.getD {}
  let requests ← bigint (old.requests + new.requests)
  let errors ← bigint (old.errors + new.errors)
  let promptTokens ← bigint (old.promptTokens + new.promptTokens)
  let completionTokens ← bigint (old.completionTokens + new.completionTokens)
  let cacheWriteTokens ← bigint (old.cacheWriteTokens + new.cacheWriteTokens)
  let cacheReadTokens ← bigint (old.cacheReadTokens + new.cacheReadTokens)
  let costCny ← nullable (numeric 20 10) (addOptSum old.costCny newCny)
  let costUsd ← nullable (numeric 20 10) (addOptSum old.costUsd newUsd)
  return { requests, errors, promptTokens, completionTokens, cacheWriteTokens, cacheReadTokens,
           costCny, costUsd }

/-! ### Quotas -/

/-- The tokens of an event, negative counts being none, saturating. -/
def totalTokens (ev : LogEvent) : ℤ :=
  let count (tokens : Option ℤ) : ℤ := max (tokens.getD 0) 0
  let addSat (x y : ℤ) : ℤ := min (x + y) (2 ^ 63 - 1)
  addSat (addSat (addSat (count ev.promptTokens) (count ev.completionTokens))
    (count ev.cacheWriteTokens)) (count ev.cacheReadTokens)

/-- What an event uses of a quota, by its unit; an event without a price uses no cost. -/
def quotaAmount (unit : String) (ev : LogEvent) : Option ℚ :=
  match unit with
  | "tokens" => some (totalTokens ev)
  | "cost_cny" => ev.costCny
  | "cost_usd" => ev.costUsd
  | _ => none

/-- The counter that an event is charged to, and the amount: its key has a quota in this unit. -/
def charge (env : Env) (unit : String) (ev : LogEvent) : Option (QuotaKey × ℚ) := do
  let keyId ← ev.keyId
  let (keyUnit, window) ← env.keyQuota keyId
  if keyUnit ≠ some unit then none
  else
    let amount ← quotaAmount unit ev
    let window := window.getD "total"
    return (⟨keyId, unit, window, env.windowStart window (ev.ts / 10 ^ 9)⟩, amount)

/-- Adds the charge of an event to its counter. -/
def addCharge (env : Env) (unit : String) (acc : Option ℚ) (ev : LogEvent) : ℚ :=
  acc.getD 0 + ((charge env unit ev).map Prod.snd).getD 0

/-- The charges of some events in one unit, by counter. -/
def quotaSums (env : Env) (unit : String) (events : List LogEvent) : Table QuotaKey ℚ :=
  Table.groupInto (fun ev ↦ (charge env unit ev).map Prod.fst) (addCharge env unit) ∅ events

/-- The upsert of a counter. -/
def mergeQuota (old : Option ℚ) (new : ℚ) : Option ℚ := do
  let new ← numeric 20 10 new
  match old with
  | none => some new
  | some old => numeric 20 10 (old + new)

/-! ### Last use -/

def laterTime (acc : Option ℤ) (ev : LogEvent) : ℤ := max (acc.getD ev.ts) ev.ts

/-- The update of the keys that exist, to a later time only. -/
def mergeLastUsed (env : Env) (t : Table Uuid ℤ) (entry : Uuid × ℤ) : Table Uuid ℤ :=
  let ts := storedTime entry.2
  if (env.keyQuota entry.1).isSome ∧ ∀ old ∈ t.lookup entry.1, old < ts then
    t.insert entry.1 ts
  else t

/-! ### The transaction -/

/-- The events that are added to the totals. -/
def counted (ids : List String) (priced : List LogEvent) : List LogEvent :=
  priced.filter fun ev ↦ decide (ev.requestId ∈ ids)

/-- Inserts a batch, and says how many requests are new. -/
def insertBatch (db : Db) (env : Env) (events : List LogEvent) : Option (Db × ℕ) :=
  if events.isEmpty then some (db, 0)
  else do
    let priced := events.map env.priceEvent
    let (usageLogs, ids) ← insertLogs env db.usageLogs priced
    if ids.isEmpty then some (db, 0)
    else
      let new := counted ids priced
      let hourly := Table.groupInto (fun ev ↦ some (hourKey ev)) addHourly ∅ new
      let usageHourly ← Table.upsertAll mergeHourly db.usageHourly hourly.toList
      let quotaUsage ←
        Table.upsertAll mergeQuota db.quotaUsage (quotaSums env "tokens" new).toList
      let quotaUsage ←
        Table.upsertAll mergeQuota quotaUsage (quotaSums env "cost_cny" new).toList
      let quotaUsage ←
        Table.upsertAll mergeQuota quotaUsage (quotaSums env "cost_usd" new).toList
      let lastUsed := Table.groupInto LogEvent.keyId laterTime ∅ new
      return (
        { usageLogs, usageHourly, quotaUsage
          lastUsedAt := lastUsed.toList.foldl (mergeLastUsed env) db.lastUsedAt },
        ids.dedup.length)

end NextApi.Logging
