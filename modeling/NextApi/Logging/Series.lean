import Mathlib.Data.Prod.Lex
import Mathlib.Data.String.Basic
import NextApi.Error
import NextApi.Logging.Batch
import NextApi.Stream.GroupBy

/-!
# The series of the dashboard

A series is read from the rows of `usage_logs` (`seriesDetail`) or, for long intervals, from the
hourly totals (`seriesHourly`); `pickSource` decides. Both cut time into buckets of the billing time
zone and group by bucket and dimension.

A billing time zone is given by its two conversions, of an instant to the time on the wall and back.
Names are ordered by code point. The answer of an aggregate that is no `BIGINT` is an error of the
database.
-/

set_option autoImplicit false

namespace NextApi.Logging

/-! ### Queries -/

/-- `AT TIME ZONE`, both ways, in nanoseconds. -/
structure Zone where
  toLocal : ℤ → ℤ
  toUtc : ℤ → ℤ

/-- The filter of a query; the interval contains `fromTs` and not `toTs`. -/
structure StatsFilter where
  fromTs : ℤ
  toTs : ℤ
  keyId : Option Uuid := none
  upstreamId : Option Uuid := none
  model : Option String := none
  protocol : Option String := none
  billingTz : Zone

structure SeriesPoint where
  bucket : ℤ
  dimension : String
  requests : ℤ
  errors : ℤ
  promptTokens : ℤ
  completionTokens : ℤ
  cacheReadTokens : ℤ
  cacheWriteTokens : ℤ
  costCny : Option ℚ
  costUsd : Option ℚ
  costDisplay : Option ℚ
  /-- How many of the grouped rows have a cost, but none in the display currency. -/
  costNaCount : ℕ
  deriving DecidableEq, Inhabited

/-- The totals are read for days, and for intervals of more than seven days, unless the dimension is
one that they do not have. -/
def pickSource (granularity : String) (fromTs toTs : ℤ) (dimension : Option String) : String :=
  let spanSeconds := (toTs - fromTs).tdiv (10 ^ 9)
  if (dimension = none ∨ dimension = some "model") ∧
      (granularity = "day" ∨ spanSeconds > 7 * 86400) then "hourly"
  else "detail"

def nonEmpty (s : Option String) : Bool := s.any fun s ↦ !s.isEmpty

/-- `date_trunc` of a day or an hour. -/
def dateTrunc (granularity : String) (t : ℤ) : ℤ :=
  let unit : ℤ := if granularity = "day" then 86400 * 10 ^ 9 else 3600 * 10 ^ 9
  t / unit * unit

/-- `date_trunc(g, t AT TIME ZONE tz) AT TIME ZONE tz`. -/
def StatsFilter.bucket (f : StatsFilter) (granularity : String) (t : ℤ) : ℤ :=
  f.billingTz.toUtc (dateTrunc granularity (f.billingTz.toLocal t))

/-- The filter on the model, which both tables have. -/
def StatsFilter.matchesModel (f : StatsFilter) (model : String) : Bool :=
  !nonEmpty f.model || decide (f.model = some model)

def StatsFilter.inInterval (f : StatsFilter) (t : ℤ) : Bool := decide (f.fromTs ≤ t ∧ t < f.toTs)

/-- `push_stats_where`. -/
def StatsFilter.keeps (f : StatsFilter) (row : LogEvent) : Bool :=
  f.inInterval row.ts && (f.keyId.isNone || decide (row.keyId = f.keyId)) &&
    (f.upstreamId.isNone || decide (row.upstreamId = f.upstreamId)) && f.matchesModel row.model &&
    (!nonEmpty f.protocol || decide (f.protocol = some row.protocolIn))

/-! ### Aggregates -/

/-- `sum` of a column, which is absent when all its values are. -/
def sumColumn (values : List (Option ℚ)) : Option ℚ :=
  match values.filterMap id with
  | [] => none
  | x :: rest => some (x :: rest).sum

/-- The cost column of the display currency. -/
def costCol (displayCurrency : String) (costCny costUsd : Option ℚ) : Option ℚ :=
  if displayCurrency = "USD" then costUsd else costCny

/-- A cost, but none in the display currency. -/
def costNa (displayCurrency : String) (costCny costUsd : Option ℚ) : Bool :=
  (costCol displayCurrency costCny costUsd).isNone && (costCny.isSome || costUsd.isSome)

/-- A group is known by its bucket and its dimension, in this order. -/
abbrev SeriesKey := ℤ ×ₗ String

/-- The row of a group. -/
def seriesPoint (displayCurrency : String) (key : SeriesKey) (sums : HourlyAcc)
    (costNaCount : ℕ) : Option SeriesPoint := do
  let requests ← bigint sums.requests
  let errors ← bigint sums.errors
  let promptTokens ← bigint sums.promptTokens
  let completionTokens ← bigint sums.completionTokens
  let cacheReadTokens ← bigint sums.cacheReadTokens
  let cacheWriteTokens ← bigint sums.cacheWriteTokens
  return {
    bucket := (ofLex key).1, dimension := (ofLex key).2, requests, errors, promptTokens,
    completionTokens, cacheReadTokens, cacheWriteTokens, costCny := sums.costCny,
    costUsd := sums.costUsd, costDisplay := costCol displayCurrency sums.costCny sums.costUsd,
    costNaCount }

/-- The sums over some rows of `usage_hourly`. -/
def hourlySums (entries : List HourlyAcc) : HourlyAcc where
  requests := (entries.map HourlyAcc.requests).sum
  errors := (entries.map HourlyAcc.errors).sum
  promptTokens := (entries.map HourlyAcc.promptTokens).sum
  completionTokens := (entries.map HourlyAcc.completionTokens).sum
  cacheReadTokens := (entries.map HourlyAcc.cacheReadTokens).sum
  cacheWriteTokens := (entries.map HourlyAcc.cacheWriteTokens).sum
  costCny := sumColumn (entries.map HourlyAcc.costCny)
  costUsd := sumColumn (entries.map HourlyAcc.costUsd)

/-- The counts and sums over some rows of `usage_logs`. -/
def detailSums (rows : List LogEvent) : HourlyAcc where
  requests := rows.length
  errors := (rows.filter fun row ↦ decide (row.status ≥ 400)).length
  promptTokens := (rows.filterMap LogEvent.promptTokens).sum
  completionTokens := (rows.filterMap LogEvent.completionTokens).sum
  cacheReadTokens := (rows.filterMap LogEvent.cacheReadTokens).sum
  cacheWriteTokens := (rows.filterMap LogEvent.cacheWriteTokens).sum
  costCny := sumColumn (rows.map LogEvent.costCny)
  costUsd := sumColumn (rows.map LogEvent.costUsd)

/-! ### The two sources -/

/-- What a query of the database gives. -/
def fetchAll (rows : Option (List SeriesPoint)) : Except ApiError (List SeriesPoint) :=
  match rows with
  | some points => .ok points
  | none => .error (.internal "bigint out of range")

def hourlyKey (f : StatsFilter) (granularity : String) (dimensionModel : Bool)
    (entry : HourKey × HourlyAcc) : SeriesKey :=
  toLex (f.bucket granularity entry.1.1, if dimensionModel then entry.1.2 else "all")

def hourlyPoint (displayCurrency : String) (key : SeriesKey)
    (entries : List (HourKey × HourlyAcc)) : Option SeriesPoint :=
  seriesPoint displayCurrency key (hourlySums (entries.map Prod.snd))
    (entries.filter fun entry ↦ costNa displayCurrency entry.2.costCny entry.2.costUsd).length

/-- The series of the hourly totals. -/
def seriesHourly (db : Db) (f : StatsFilter) (granularity displayCurrency : String)
    (dimensionModel : Bool) : Except ApiError (List SeriesPoint) :=
  fetchAll (groupBy (hourlyKey f granularity dimensionModel) (hourlyPoint displayCurrency)
    (db.usageHourly.toList.filter fun entry ↦
      f.inInterval entry.1.1 && f.matchesModel entry.1.2))

def detailKey (f : StatsFilter) (granularity : String) (dimExpr : LogEvent → String)
    (row : LogEvent) : SeriesKey :=
  toLex (f.bucket granularity row.ts, dimExpr row)

def detailPoint (displayCurrency : String) (key : SeriesKey) (rows : List LogEvent) :
    Option SeriesPoint :=
  seriesPoint displayCurrency key (detailSums rows)
    (rows.filter fun row ↦ costNa displayCurrency row.costCny row.costUsd).length

/-- The text of an id, `id::text`. -/
def uuidText (id : Uuid) : String :=
  let digits := id.toHex.toList
  let part (start length : ℕ) : String := String.ofList ((digits.drop start).take length)
  part 0 8 ++ "-" ++ part 8 4 ++ "-" ++ part 12 4 ++ "-" ++ part 16 4 ++ "-" ++ part 20 12

/-- An id as text, the absent one being empty. -/
def idText (id : Option Uuid) : String := (id.map uuidText).getD ""

/-- The expression of a dimension, from the list of those that there are. -/
def dimExpr : Option String → Except ApiError (LogEvent → String)
  | none => .ok fun _ ↦ "all"
  | some "model" => .ok LogEvent.model
  | some "key" => .ok fun row ↦ idText row.keyId
  | some "upstream" => .ok fun row ↦ idText row.upstreamId
  | some "protocol" => .ok LogEvent.protocolIn
  | some other =>
    .error (.badRequest s!"dimension 必须为 model/key/upstream/protocol: {other}")

/-- The series of the rows. -/
def seriesDetail (db : Db) (f : StatsFilter) (granularity : String) (dimension : Option String)
    (displayCurrency : String) : Except ApiError (List SeriesPoint) :=
  (dimExpr dimension).bind fun expr ↦
    fetchAll (groupBy (detailKey f granularity expr) (detailPoint displayCurrency)
      ((db.usageLogs.map Inserted.event).filter f.keeps))

/-- The series of a query, from the source that is picked for it. -/
def series (db : Db) (f : StatsFilter) (granularity : String) (dimension : Option String)
    (displayCurrency : String) : Except ApiError (List SeriesPoint) :=
  if granularity = "hour" ∨ granularity = "day" then
    let src :=
      if f.keyId.isSome || f.upstreamId.isSome || nonEmpty f.protocol then "detail"
      else pickSource granularity f.fromTs f.toTs dimension
    if src = "hourly" then
      seriesHourly db f granularity displayCurrency (decide (dimension = some "model"))
    else seriesDetail db f granularity dimension displayCurrency
  else .error (.badRequest s!"granularity 必须为 hour 或 day: {granularity}")

end NextApi.Logging
