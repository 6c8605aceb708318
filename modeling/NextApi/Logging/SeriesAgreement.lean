import NextApi.Logging.BatchRuns
import NextApi.Logging.Series

/-!
# The two sources of a series

The hourly totals know of a row its hour only. A query is `Aligned` with an instant when the hour of
the instant stands for it: both are inside the interval or both outside, and inside they have the
same bucket. That is so when interval ends and offsets of the zone are whole hours
(`aligned_of_wholeHours`).

In a consistent database the two series agree when the query is aligned with every row
(`sameSeries_of_aligned`). One row is enough to see an instant that it is not aligned with
(`aligned_of_sameSeries`), whence the exact condition, `sameSeries_iff`.
-/

set_option autoImplicit false

namespace NextApi.Logging

/-! ### Totals as a monoid -/

theorem addOptSum_none (a : Option ℚ) : addOptSum a none = a := rfl

theorem none_addOptSum (a : Option ℚ) : addOptSum none a = a := by
  cases a with
  | none => rfl
  | some x => rw [addOptSum, Option.getD_none, zero_add]

theorem addOptSum_comm (a b : Option ℚ) : addOptSum a b = addOptSum b a := by
  cases a with
  | none => rw [none_addOptSum, addOptSum_none]
  | some x =>
    cases b with
    | none => rw [none_addOptSum, addOptSum_none]
    | some y => rw [addOptSum, addOptSum, Option.getD_some, Option.getD_some, add_comm]

theorem addOptSum_assoc (a b c : Option ℚ) :
    addOptSum (addOptSum a b) c = addOptSum a (addOptSum b c) := by
  cases c with
  | none => rfl
  | some z =>
    cases b with
    | none => rw [addOptSum_none, none_addOptSum]
    | some y => simp only [addOptSum, Option.getD_some, add_assoc]

instance : Zero HourlyAcc := ⟨{}⟩

instance : Add HourlyAcc := ⟨addTotals⟩

/-- Totals add up column by column. -/
instance : AddCommMonoid HourlyAcc where
  add_assoc a b c := by
    show addTotals (addTotals a b) c = addTotals a (addTotals b c)
    simp only [addTotals, add_assoc, addOptSum_assoc]
  zero_add a := by
    show addTotals {} a = a
    simp only [addTotals, zero_add, none_addOptSum]
  add_zero a := by
    show addTotals a {} = a
    simp only [addTotals, add_zero, addOptSum_none]
  add_comm a b := by
    show addTotals a b = addTotals b a
    simp only [addTotals, add_comm, addOptSum_comm]
  nsmul := nsmulRec

theorem add_eq_addTotals (a b : HourlyAcc) : a + b = addTotals a b := rfl

theorem hourTotals_eq_sum (rows : List LogEvent) :
    hourTotals rows = (rows.map fun row ↦ hourTotals [row]).sum := by
  induction rows with
  | nil => exact hourTotals_nil
  | cons row rest ih =>
    rw [List.map_cons, List.sum_cons, ← ih, add_eq_addTotals, ← hourTotals_append,
      List.singleton_append]

/-! ### The sums of a group -/

theorem sumColumn_eq_someSum (values : List (Option ℚ)) :
    sumColumn values = someSum (values.filterMap id) := by
  rw [sumColumn, someSum]
  split
  case h_1 hnil => rw [if_pos hnil]
  case h_2 x rest hcons => rw [if_neg (by rw [hcons]; exact List.cons_ne_nil x rest), hcons]

theorem sumColumn_cons (value : Option ℚ) (values : List (Option ℚ)) :
    sumColumn (value :: values) = addOptSum value (sumColumn values) := by
  rw [sumColumn_eq_someSum, sumColumn_eq_someSum, ← List.singleton_append, List.filterMap_append,
    someSum_append]
  congr 1
  cases value with
  | none => rfl
  | some x =>
    show some [x].sum = some x
    rw [List.sum_singleton]

theorem hourlySums_eq_sum (entries : List HourlyAcc) : hourlySums entries = entries.sum := by
  induction entries with
  | nil => rfl
  | cons entry rest ih =>
    rw [List.sum_cons, ← ih, add_eq_addTotals]
    simp only [hourlySums, addTotals, List.map_cons, List.sum_cons, sumColumn_cons]

/-- An absent count adds nothing. -/
theorem sum_filterMap (tokens : LogEvent → Option ℤ) (rows : List LogEvent) :
    (rows.filterMap tokens).sum = (rows.map fun row ↦ (tokens row).getD 0).sum := by
  induction rows with
  | nil => rfl
  | cons row rest ih =>
    rw [List.map_cons, List.sum_cons]
    cases h : tokens row with
    | none => rw [List.filterMap_cons_none h, ih, Option.getD_none, zero_add]
    | some n => rw [List.filterMap_cons_some h, List.sum_cons, ih, Option.getD_some]

theorem detailSums_eq_hourTotals (rows : List LogEvent) : detailSums rows = hourTotals rows := by
  have hcosts (cost : LogEvent → Option ℚ) :
      sumColumn (rows.map cost) = someSum (rows.filterMap cost) := by
    rw [sumColumn_eq_someSum, List.filterMap_map]
    rfl
  simp only [detailSums, hourTotals, hcosts, sum_filterMap]

theorem fetchAll_map (rows : Option (List SeriesPoint)) (f : List SeriesPoint → List SeriesPoint) :
    (fetchAll rows).map f = fetchAll (rows.map f) := by
  cases rows with
  | none => rfl
  | some points => rfl

/-- The figures of a point: all but the number of rows without a cost in the display
currency. -/
def SeriesPoint.figures (point : SeriesPoint) : SeriesPoint := { point with costNaCount := 0 }

theorem map_figures_seriesPoint (displayCurrency : String) (key : SeriesKey) (sums : HourlyAcc)
    (n m : ℕ) :
    (seriesPoint displayCurrency key sums n).map SeriesPoint.figures =
      (seriesPoint displayCurrency key sums m).map SeriesPoint.figures := by
  simp only [seriesPoint, Option.bind_eq_bind, Option.map_bind, Function.comp_def]
  rfl

theorem groupBy_seriesPoint_eq {α α' : Type} {displayCurrency : String} {key : α → SeriesKey}
    {key' : α' → SeriesKey} {sums : List α → HourlyAcc} {sums' : List α' → HourlyAcc}
    {na : List α → ℕ} {na' : List α' → ℕ} {rows : List α} {rows' : List α'}
    (hkeys : ∀ k, k ∈ rows.map key ↔ k ∈ rows'.map key')
    (hsums : ∀ k, sums (groupOf key rows k) = sums' (groupOf key' rows' k)) :
    (groupBy key (fun k group ↦ seriesPoint displayCurrency k (sums group) (na group)) rows).map
        (List.map SeriesPoint.figures) =
      (groupBy key' (fun k group ↦ seriesPoint displayCurrency k (sums' group) (na' group))
        rows').map (List.map SeriesPoint.figures) := by
  refine map_groupBy_eq SeriesPoint.figures hkeys fun k ↦ ?_
  rw [hsums k]
  exact map_figures_seriesPoint displayCurrency k _ _ _

/-! ### Queries for both sources -/

/-- A query that both sources support. -/
structure SharedQuery where
  filter : StatsFilter
  noKey : filter.keyId = none
  noUpstream : filter.upstreamId = none
  noProtocol : nonEmpty filter.protocol = false
  granularity : String
  dimension : Option String
  noOther : dimension = none ∨ dimension = some "model"
  displayCurrency : String

namespace SharedQuery

variable (q : SharedQuery)

/-- The conditions on an hour and a model, or on the time of a row and its model. -/
def keepsTime (key : HourKey) : Bool := q.filter.inInterval key.1 && q.filter.matchesModel key.2

/-- The group of an hour and a model, or of the time of a row and its model. -/
def groupKey (key : HourKey) : SeriesKey :=
  toLex (q.filter.bucket q.granularity key.1,
    if decide (q.dimension = some "model") then key.2 else "all")

/-- The hour of an instant stands for it. -/
structure Aligned (t : ℤ) : Prop where
  interval : q.filter.inInterval (hourBucket t) = q.filter.inInterval t
  bucket : q.filter.inInterval t = true →
    q.filter.bucket q.granularity (hourBucket t) = q.filter.bucket q.granularity t

theorem keeps_eq (row : LogEvent) : q.filter.keeps row = q.keepsTime (row.ts, row.model) := by
  rw [StatsFilter.keeps, q.noKey, q.noUpstream, q.noProtocol, keepsTime]
  simp only [Option.isNone_none, Bool.true_or, Bool.and_true, Bool.not_false]

theorem Aligned.keepsTime_eq {q : SharedQuery} {row : LogEvent} (h : q.Aligned row.ts) :
    q.keepsTime (row.ts, row.model) = q.keepsTime (hourKey row) := by
  rw [keepsTime, keepsTime, hourKey, h.interval]

theorem Aligned.groupKey_eq {q : SharedQuery} {row : LogEvent} (h : q.Aligned row.ts)
    (hkept : q.keepsTime (row.ts, row.model) = true) :
    q.groupKey (row.ts, row.model) = q.groupKey (hourKey row) := by
  rw [groupKey, groupKey, hourKey, h.bucket (Bool.and_eq_true_iff.1 hkept).1]

/-- The series of the hourly totals. -/
def hourly (db : Db) : Except ApiError (List SeriesPoint) :=
  seriesHourly db q.filter q.granularity q.displayCurrency (decide (q.dimension = some "model"))

/-- The series of the rows. -/
def detail (db : Db) : Except ApiError (List SeriesPoint) :=
  seriesDetail db q.filter q.granularity q.dimension q.displayCurrency

/-- The two sources give the same buckets with the same figures. -/
def SameSeries (db : Db) : Prop :=
  (q.hourly db).map (List.map SeriesPoint.figures) =
    (q.detail db).map (List.map SeriesPoint.figures)

theorem dimExpr_eq :
    dimExpr q.dimension =
      .ok fun row ↦ if decide (q.dimension = some "model") then row.model else "all" := by
  rcases q.noOther with h | h
  · rw [h]
    rfl
  · rw [h]
    rfl

/-- The two series, as answers to queries that differ in the table only. -/
theorem sameSeries_iff_groups (db : Db) :
    q.SameSeries db ↔
      (fetchAll (groupBy (fun entry ↦ q.groupKey entry.1) (hourlyPoint q.displayCurrency)
          (db.usageHourly.toList.filter fun entry ↦ q.keepsTime entry.1))).map
            (List.map SeriesPoint.figures) =
        (fetchAll (groupBy (fun row ↦ q.groupKey (row.ts, row.model))
          (detailPoint q.displayCurrency) ((db.usageLogs.map Inserted.event).filter fun row ↦
            q.keepsTime (row.ts, row.model)))).map (List.map SeriesPoint.figures) := by
  have hkeeps : (fun row ↦ q.keepsTime (row.ts, row.model)) = q.filter.keeps := by
    funext row
    exact (q.keeps_eq row).symm
  rw [SameSeries, detail, seriesDetail, dimExpr_eq, hkeeps]
  exact Iff.rfl

/-! ### Consistent databases -/

/-- The entries of the hourly totals are those of the rows. -/
theorem mem_hourly_keys {db : Db} (h : Consistent db) (key : HourKey) :
    key ∈ db.usageHourly.toList.map Prod.fst ↔
      key ∈ (db.usageLogs.map Inserted.event).map hourKey := by
  have hlookup := h.hourly key
  constructor
  · intro hkey
    obtain ⟨⟨key', total⟩, hmem, rfl⟩ := List.mem_map.1 hkey
    rw [Table.mem_toList.1 hmem] at hlookup
    by_cases hrows : rowsAt (db.usageLogs.map Inserted.event) key' = []
    · rw [if_pos hrows] at hlookup
      exact absurd hlookup (Option.some_ne_none total)
    · obtain ⟨row, hrow⟩ := List.exists_mem_of_ne_nil _ hrows
      obtain ⟨hrow, hkey⟩ := List.mem_filter.1 hrow
      exact List.mem_map.2 ⟨row, hrow, of_decide_eq_true hkey⟩
  · intro hkey
    obtain ⟨row, hrow, rfl⟩ := List.mem_map.1 hkey
    have hne : rowsAt (db.usageLogs.map Inserted.event) (hourKey row) ≠ [] :=
      List.ne_nil_of_mem (List.mem_filter.2 ⟨hrow, decide_eq_true rfl⟩)
    rw [if_neg hne] at hlookup
    exact List.mem_map.2 ⟨_, Table.mem_toList.2 hlookup, rfl⟩

theorem hourly_entry {db : Db} (h : Consistent db) {entry : HourKey × HourlyAcc}
    (hmem : entry ∈ db.usageHourly.toList) :
    entry.2 = hourTotals (rowsAt (db.usageLogs.map Inserted.event) entry.1) := by
  have hlookup := h.hourly entry.1
  rw [Table.mem_toList.1 hmem] at hlookup
  split at hlookup
  · exact absurd hlookup (Option.some_ne_none _)
  · exact Option.some.inj hlookup

/-- In a consistent database the sources agree on a query that is aligned with every row. -/
theorem sameSeries_of_aligned {db : Db} (h : Consistent db)
    (haligned : ∀ row ∈ db.usageLogs.map Inserted.event, q.Aligned row.ts) :
    q.SameSeries db := by
  set rows := db.usageLogs.map Inserted.event
  have hsums : ∀ entry ∈ db.usageHourly.toList, entry.2 =
      ((rows.filter fun row ↦ decide (hourKey row = entry.1)).map fun row ↦
        hourTotals [row]).sum := by
    intro entry hentry
    rw [hourly_entry h hentry, hourTotals_eq_sum]
    rfl
  have hall : ∀ row ∈ rows, hourKey row ∈ db.usageHourly.toList.map Prod.fst := fun row hrow ↦
    (mem_hourly_keys h _).2 (List.mem_map_of_mem hrow)
  have hkept : (rows.filter fun row ↦ q.keepsTime (row.ts, row.model)) =
      rows.filter fun row ↦ q.keepsTime (hourKey row) :=
    List.filter_congr fun row hrow ↦ (haligned row hrow).keepsTime_eq
  have hgroup : ∀ row ∈ rows.filter fun row ↦ q.keepsTime (hourKey row),
      q.groupKey (row.ts, row.model) = q.groupKey (hourKey row) := by
    intro row hrow
    rw [← hkept] at hrow
    obtain ⟨hrow, hkeeps⟩ := List.mem_filter.1 hrow
    exact (haligned row hrow).groupKey_eq hkeeps
  rw [sameSeries_iff_groups, hkept, fetchAll_map, fetchAll_map]
  refine congrArg fetchAll (groupBy_seriesPoint_eq (fun k ↦ ?_) fun k ↦ ?_)
  · rw [List.map_congr_left hgroup]
    exact mem_rollup hourKey q.groupKey q.keepsTime (mem_hourly_keys h) k
  · have hsame : groupOf (fun row ↦ q.groupKey (row.ts, row.model))
        (rows.filter fun row ↦ q.keepsTime (hourKey row)) k =
          rows.filter fun row ↦
            decide (q.groupKey (hourKey row) = k) && q.keepsTime (hourKey row) := by
      rw [← List.filter_filter]
      refine List.filter_congr fun row hrow ↦ ?_
      show decide (q.groupKey (row.ts, row.model) = k) = _
      rw [hgroup row hrow]
    rw [hsame, detailSums_eq_hourTotals, hourTotals_eq_sum, hourlySums_eq_sum, groupOf,
      List.filter_filter]
    exact sum_rollup _ hourKey (fun key ↦ decide (q.groupKey key = k) && q.keepsTime key)
      (Table.nodup_keys_toList _) hsums hall

/-! ### One row -/

end SharedQuery

/-- An event of a model at an instant. -/
def eventOf (model : String) (ts : ℤ) : LogEvent := { eventAt 0 with model, ts }

/-- One event, delivered once. -/
def oneDelivery (model : String) (ts : ℤ) : List Delivery :=
  [⟨tokenQuota, [eventOf model ts], true⟩]

theorem fitsI64_eventOf (model : String) (ts : ℤ) (key : HourKey) {events : List LogEvent}
    (h : events.Sublist [eventOf model ts]) : FitsI64 (hourTotals (rowsAt events key)) := by
  have hsub : (rowsAt events key).Sublist [eventOf model ts] := List.filter_sublist.trans h
  rcases List.sublist_singleton.1 hsub with hrows | hrows
  · rw [hrows]
    exact ⟨rfl, rfl, rfl, rfl⟩
  · rw [hrows]
    exact ⟨rfl, rfl, rfl, rfl⟩

theorem cleanDeliveries_oneDelivery (model : String) (ts : ℤ) :
    CleanDeliveries {} (oneDelivery model ts) := by
  refine ⟨⟨?_, ?_, ?_, ?_⟩, trivial⟩
  · intro a _ b _ _
    rfl
  · exact List.pairwise_singleton _ _
  · intro ev hev
    rw [List.mem_singleton.1 hev]
    exact ⟨fun c hc ↦ absurd hc.symm (Option.some_ne_none c),
      fun c hc ↦ absurd hc.symm (Option.some_ne_none c)⟩
  · intro key
    exact fitsI64_eventOf model ts key (List.Sublist.refl _)

theorem usageLogs_oneDelivery (model : String) (ts : ℤ) :
    (deliverAll {} (oneDelivery model ts)).usageLogs.map Inserted.event =
      [eventOf model (storedTime ts)] := rfl

theorem usageHourly_oneDelivery (model : String) (ts : ℤ) :
    (deliverAll {} (oneDelivery model ts)).usageHourly.toList =
      [((hourBucket ts, model), hourTotals [eventOf model ts])] := rfl

/-- The point of a series that has one row. -/
def onePoint (displayCurrency : String) (key : SeriesKey) : SeriesPoint where
  bucket := (ofLex key).1
  dimension := (ofLex key).2
  requests := 1
  errors := 0
  promptTokens := 10
  completionTokens := 5
  cacheReadTokens := 0
  cacheWriteTokens := 0
  costCny := none
  costUsd := none
  costDisplay := costCol displayCurrency none none
  costNaCount := 0

theorem map_figures_onePoint (displayCurrency : String) (key : SeriesKey) (n : ℕ)
    {sums : HourlyAcc} (h : sums = { requests := 1, promptTokens := 10, completionTokens := 5 }) :
    (seriesPoint displayCurrency key sums n).map SeriesPoint.figures =
      some (onePoint displayCurrency key) := by
  rw [h, map_figures_seriesPoint displayCurrency key _ n 0]
  have h0 : bigint 0 = some 0 := by decide
  have h1 : bigint 1 = some 1 := by decide
  have h5 : bigint 5 = some 5 := by decide
  have h10 : bigint 10 = some 10 := by decide
  simp only [seriesPoint, h0, h1, h5, h10, Option.bind_eq_bind, Option.bind_some]
  rfl

theorem map_figures_hourlyPoint (displayCurrency : String) (key : SeriesKey) (hour : HourKey)
    (model : String) (ts : ℤ) :
    (hourlyPoint displayCurrency key [(hour, hourTotals [eventOf model ts])]).map
      SeriesPoint.figures = some (onePoint displayCurrency key) := by
  exact map_figures_onePoint displayCurrency key _ rfl

theorem map_figures_detailPoint (displayCurrency : String) (key : SeriesKey) (model : String)
    (ts : ℤ) :
    (detailPoint displayCurrency key [eventOf model ts]).map SeriesPoint.figures =
      some (onePoint displayCurrency key) := by
  exact map_figures_onePoint displayCurrency key _ rfl

/-- A query of a table that has one row. -/
theorem fetchAll_groupBy_singleton {α : Type} {key : α → SeriesKey}
    {select : SeriesKey → List α → Option SeriesPoint} (keep : α → Bool) {x : α}
    {point : SeriesPoint} (h : (select (key x) [x]).map SeriesPoint.figures = some point) :
    (fetchAll (groupBy key select ([x].filter keep))).map (List.map SeriesPoint.figures) =
      .ok (if keep x then [point] else []) := by
  rw [fetchAll_map]
  by_cases hkeep : keep x = true
  · obtain ⟨point', hpoint, hfigures⟩ := Option.map_eq_some_iff.1 h
    rw [List.filter_cons_of_pos hkeep, List.filter_nil, groupBy_singleton, hpoint, if_pos hkeep,
      ← hfigures]
    rfl
  · rw [List.filter_cons_of_neg hkeep, List.filter_nil, groupBy_nil, if_neg hkeep]
    rfl

namespace SharedQuery

variable (q : SharedQuery)

/-- A model that the filter lets through. -/
def someModel : String := q.filter.model.getD "m"

theorem keepsTime_someModel (t : ℤ) :
    q.keepsTime (t, q.someModel) = q.filter.inInterval t := by
  have hmodel : q.filter.matchesModel q.someModel = true := by
    rw [StatsFilter.matchesModel, someModel]
    cases q.filter.model with
    | none => rfl
    | some model => rw [Option.getD_some, decide_eq_true rfl, Bool.or_true]
  rw [keepsTime, hmodel, Bool.and_true]

/-- One row is enough to see an instant whose hour does not stand for it. -/
theorem aligned_of_sameSeries {t : ℤ} (hstored : storedTime t = t)
    (h : q.SameSeries (deliverAll {} (oneDelivery q.someModel t))) : q.Aligned t := by
  rw [sameSeries_iff_groups, usageLogs_oneDelivery, usageHourly_oneDelivery,
    fetchAll_groupBy_singleton _ (map_figures_hourlyPoint _ _ _ _ _),
    fetchAll_groupBy_singleton _ (map_figures_detailPoint _ _ _ _), hstored] at h
  have hpoints := Except.ok.inj h
  rw [keepsTime_someModel] at hpoints
  change (if q.filter.inInterval (hourBucket t) = true then _ else []) =
    if q.keepsTime (t, q.someModel) = true then _ else [] at hpoints
  rw [keepsTime_someModel] at hpoints
  cases hrow : q.filter.inInterval t with
  | false =>
    rw [hrow, if_neg Bool.false_ne_true] at hpoints
    cases hhour : q.filter.inInterval (hourBucket t) with
    | false => exact ⟨hhour.trans hrow.symm, fun hin ↦ absurd (hrow.symm.trans hin) (by simp)⟩
    | true =>
      rw [hhour, if_pos rfl] at hpoints
      exact absurd hpoints (List.cons_ne_nil _ _)
  | true =>
    rw [hrow, if_pos rfl] at hpoints
    cases hhour : q.filter.inInterval (hourBucket t) with
    | false =>
      rw [hhour, if_neg Bool.false_ne_true] at hpoints
      exact absurd hpoints.symm (List.cons_ne_nil _ _)
    | true =>
      rw [hhour, if_pos rfl] at hpoints
      have hbucket := congrArg SeriesPoint.bucket (List.head_eq_of_cons_eq hpoints)
      exact ⟨hhour.trans hrow.symm, fun _ ↦ hbucket⟩

end SharedQuery

/-! ### Whole hours -/

/-- The nanoseconds of an hour. -/
def hourNanos : ℤ := 3600 * 10 ^ 9

/-! ### Times of rows -/

/-- The times of rows are whole microseconds. -/
def StoredTimes (rows : List Inserted) : Prop :=
  ∀ row ∈ rows, storedTime row.event.ts = row.event.ts

theorem storedTime_storedTime (t : ℤ) : storedTime (storedTime t) = storedTime t := by
  rw [storedTime, storedTime]
  omega

theorem StoredTimes.insertLogs {env : Env} {events : List LogEvent} {rows rows' : List Inserted}
    {ids : List String} (hrows : StoredTimes rows)
    (h : insertLogs env rows events = some (rows', ids)) : StoredTimes rows' := by
  induction events generalizing rows rows' ids with
  | nil =>
    rw [← (Prod.mk.inj (Option.some.inj h)).1]
    exact hrows
  | cons ev rest ih =>
    rw [Logging.insertLogs, Option.bind_eq_bind, Option.bind_eq_some_iff] at h
    obtain ⟨row, hrow, h⟩ := h
    split at h
    · exact ih hrows h
    · rw [Option.bind_eq_bind, Option.bind_eq_some_iff] at h
      obtain ⟨⟨rows₁, ids₁⟩, hrest, h⟩ := h
      rw [← (Prod.mk.inj (Option.some.inj h)).1]
      refine ih (fun r hr ↦ ?_) hrest
      rcases List.mem_append.1 hr with hr | hr
      · exact hrows r hr
      · rw [List.mem_singleton.1 hr, (storedRow_eq_some hrow).2.1]
        exact storedTime_storedTime ev.ts

theorem StoredTimes.deliver {db : Db} (h : StoredTimes db.usageLogs) (d : Delivery) :
    StoredTimes (deliver db d).usageLogs := by
  rw [Logging.deliver]
  split
  · cases hinsert : insertBatch db d.env d.events with
    | none => exact h
    | some result =>
      rcases insertBatch_eq_some hinsert with hsame | ⟨ids, hlogs, -⟩
      · show StoredTimes result.1.usageLogs
        rw [hsame]
        exact h
      · exact h.insertLogs hlogs
  · exact h

theorem StoredTimes.deliverAll {db : Db} (h : StoredTimes db.usageLogs)
    (deliveries : List Delivery) : StoredTimes (deliverAll db deliveries).usageLogs := by
  induction deliveries generalizing db with
  | nil => exact h
  | cons d rest ih => exact ih (h.deliver d)

/-! ### The condition -/

/-- The times of the rows that some deliveries leave. -/
def rowTimes (deliveries : List Delivery) : List ℤ :=
  (deliverAll {} deliveries).usageLogs.map fun row ↦ row.event.ts

/-- A query has the same series from both sources, whatever rows have been logged at some instants
by clean batches, exactly when it is aligned with all of these instants. -/
theorem sameSeries_iff (q : SharedQuery) (times : Set ℤ) :
    (∀ deliveries, CleanDeliveries {} deliveries → (∀ t ∈ rowTimes deliveries, t ∈ times) →
        q.SameSeries (deliverAll {} deliveries)) ↔
      ∀ t ∈ times, storedTime t = t → q.Aligned t := by
  constructor
  · intro h t ht hstored
    refine q.aligned_of_sameSeries hstored (h _ (cleanDeliveries_oneDelivery _ t) fun t' ht' ↦ ?_)
    have hone : rowTimes (oneDelivery q.someModel t) = [storedTime t] := rfl
    rw [hone, hstored] at ht'
    rw [List.mem_singleton.1 ht']
    exact ht
  · intro h deliveries hclean htimes
    have hsound := sound_deliverAll sound_empty hclean
    have hstored : StoredTimes (deliverAll {} deliveries).usageLogs :=
      StoredTimes.deliverAll (fun row hrow ↦ absurd hrow List.not_mem_nil) deliveries
    refine q.sameSeries_of_aligned hsound.toConsistent fun row hrow ↦ ?_
    obtain ⟨inserted, hinserted, rfl⟩ := List.mem_map.1 hrow
    exact h _ (htimes _ (List.mem_map_of_mem hinserted)) (hstored inserted hinserted)

/-! ### A zone of half an hour -/

/-- Days of a zone that is five hours and a half ahead. -/
def halfHourDays : SharedQuery where
  filter :=
    { fromTs := 0
      toTs := 10 * 86400 * 10 ^ 9
      billingTz := ⟨fun t ↦ t + 19800 * 10 ^ 9, fun t ↦ t - 19800 * 10 ^ 9⟩ }
  noKey := rfl
  noUpstream := rfl
  noProtocol := rfl
  granularity := "day"
  dimension := none
  noOther := Or.inl rfl
  displayCurrency := "CNY"

/-- A request a quarter past midnight, whose hour begins on the day before. -/
theorem not_sameSeries_halfHour :
    CleanDeliveries {} (oneDelivery "m" (67500 * 10 ^ 9)) ∧
      pickSource halfHourDays.granularity halfHourDays.filter.fromTs halfHourDays.filter.toTs
        halfHourDays.dimension = "hourly" ∧
      ¬ halfHourDays.SameSeries (deliverAll {} (oneDelivery "m" (67500 * 10 ^ 9))) := by
  refine ⟨cleanDeliveries_oneDelivery _ _, by decide, fun h ↦ ?_⟩
  have haligned : halfHourDays.Aligned (67500 * 10 ^ 9) :=
    halfHourDays.aligned_of_sameSeries (by decide) h
  exact absurd (haligned.bucket (by decide)) (by decide)

end NextApi.Logging
