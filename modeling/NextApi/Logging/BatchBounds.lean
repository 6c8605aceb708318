import NextApi.Logging.BatchRuns

/-!
# When a batch can be inserted

A batch is refused when a number has no place in its column. Which numbers these are is said by the
events of the batch and the totals that are there (`BatchFits`): the costs and durations of every
event, and for every hour and every counter the new amounts and their sum with the old ones. The
events that are added are those whose request has an event without a row (`newEvents`).
-/

set_option autoImplicit false

namespace NextApi.Logging

/-! ### Columns -/

/-- Rounded to some decimals. -/
def roundTo (scale : ℕ) (x : ℚ) : ℚ := (roundHalfAway (x * 10 ^ scale) : ℚ) / 10 ^ scale

/-- A `NUMERIC(precision, scale)` has a place for the number. -/
def InNumeric (precision scale : ℕ) (x : ℚ) : Prop := |roundTo scale x| < 10 ^ (precision - scale)

/-- A `BIGINT` has a place for the number. -/
def InBigint (x : ℤ) : Prop := -2 ^ 63 ≤ x ∧ x < 2 ^ 63

theorem numeric_eq_some_iff {precision scale : ℕ} {x y : ℚ} :
    numeric precision scale x = some y ↔ InNumeric precision scale x ∧ y = roundTo scale x := by
  rw [numeric, InNumeric, roundTo]
  split
  case isTrue h => rw [and_iff_right h, eq_comm, Option.some_inj]
  case isFalse h => exact iff_of_false (by simp) fun hand ↦ h hand.1

theorem isSome_numeric {precision scale : ℕ} {x : ℚ} :
    (numeric precision scale x).isSome = true ↔ InNumeric precision scale x := by
  rw [Option.isSome_iff_exists]
  constructor
  · intro ⟨y, hy⟩
    exact (numeric_eq_some_iff.1 hy).1
  · intro h
    exact ⟨_, numeric_eq_some_iff.2 ⟨h, rfl⟩⟩

theorem bigint_eq_some_iff {x y : ℤ} : bigint x = some y ↔ InBigint x ∧ y = x := by
  rw [bigint, InBigint]
  split
  case isTrue h => rw [and_iff_right h, eq_comm, Option.some_inj]
  case isFalse h => exact iff_of_false (by simp) fun hand ↦ h hand.1

theorem nullable_numeric_eq_some_iff {precision scale : ℕ} {x y : Option ℚ} :
    nullable (numeric precision scale) x = some y ↔
      (∀ c ∈ x, InNumeric precision scale c) ∧ y = x.map (roundTo scale) := by
  cases x with
  | none =>
    rw [nullable, Option.map_none, and_iff_right fun c hc ↦ absurd hc (Option.not_mem_none c),
      eq_comm, Option.some_inj]
  | some x =>
    rw [nullable, Option.map_eq_some_iff, Option.map_some]
    simp only [Option.mem_some_iff, forall_eq']
    constructor
    · intro ⟨r, hr, hy⟩
      obtain ⟨hx, rfl⟩ := numeric_eq_some_iff.1 hr
      exact ⟨hx, hy.symm⟩
    · intro ⟨hx, hy⟩
      exact ⟨_, numeric_eq_some_iff.2 ⟨hx, rfl⟩, hy.symm⟩

/-! ### Rows -/

/-- The columns of a row have a place for the event. -/
structure RowFits (ev : LogEvent) : Prop where
  videoSeconds : ∀ s ∈ ev.videoSeconds, InNumeric 10 2 s
  costCny : ∀ c ∈ ev.costCny, InNumeric 20 10 c
  costUsd : ∀ c ∈ ev.costUsd, InNumeric 20 10 c

theorem isSome_storedRow {ev : LogEvent} : (storedRow ev).isSome = true ↔ RowFits ev := by
  rw [Option.isSome_iff_exists]
  simp only [storedRow, Option.bind_eq_bind, Option.bind_eq_some_iff, nullable_numeric_eq_some_iff]
  constructor
  · rintro ⟨row, seconds, ⟨hseconds, _⟩, cny, ⟨hcny, _⟩, usd, ⟨husd, _⟩, _⟩
    exact ⟨hseconds, hcny, husd⟩
  · intro h
    exact ⟨_, _, ⟨h.videoSeconds, rfl⟩, _, ⟨h.costCny, rfl⟩, _, ⟨h.costUsd, rfl⟩, rfl⟩

theorem isSome_insertLogs {env : Env} {rows : List Inserted} {events : List LogEvent} :
    (insertLogs env rows events).isSome = true ↔ ∀ ev ∈ events, RowFits ev := by
  induction events generalizing rows with
  | nil => exact iff_of_true rfl fun ev hev ↦ absurd hev List.not_mem_nil
  | cons ev rest ih =>
    rw [insertLogs, Option.bind_eq_bind, List.forall_mem_cons, ← isSome_storedRow]
    cases hrow : storedRow ev with
    | none => exact iff_of_false Bool.false_ne_true fun h ↦ Bool.false_ne_true h.1
    | some row =>
      rw [Option.bind_some, Option.isSome_some, and_iff_right rfl]
      split
      · exact ih
      · have hrest := @ih (rows ++ [⟨row, env⟩])
        rw [← hrest]
        cases insertLogs env (rows ++ [⟨row, env⟩]) rest <;> rfl

/-- The events whose request has an event without a row. -/
def newEvents (rows : List Inserted) (events : List LogEvent) : List LogEvent :=
  events.filter fun ev ↦ (fresh rows events).any fun e ↦ decide (e.requestId = ev.requestId)

/-- The ids that are returned are those of the events without a row. -/
theorem mem_insertLogs_ids {env : Env} {rows rows' : List Inserted} {events : List LogEvent}
    {ids : List String} (h : insertLogs env rows events = some (rows', ids)) (id : String) :
    id ∈ ids ↔ id ∈ (fresh rows events).map LogEvent.requestId := by
  induction events generalizing rows rows' ids with
  | nil =>
    obtain ⟨-, rfl⟩ := Prod.mk.inj (Option.some.inj h)
    exact Iff.rfl
  | cons ev rest ih =>
    rw [insertLogs, Option.bind_eq_bind, Option.bind_eq_some_iff] at h
    obtain ⟨row, hrow, h⟩ := h
    by_cases hstored : isStored rows ev = true
    · rw [if_pos hstored] at h
      have hfresh : fresh rows (ev :: rest) = fresh rows rest :=
        List.filter_cons_of_neg (by simpa using hstored)
      rw [hfresh]
      exact ih h
    · rw [if_neg hstored, Option.bind_eq_bind, Option.bind_eq_some_iff] at h
      obtain ⟨⟨rows₁, ids₁⟩, hrest, h⟩ := h
      obtain ⟨-, rfl⟩ := Prod.mk.inj (Option.some.inj h)
      have hfresh : fresh rows (ev :: rest) = ev :: fresh rows rest :=
        List.filter_cons_of_pos (by simpa using hstored)
      rw [hfresh, List.map_cons, List.mem_cons, List.mem_cons, ih hrest]
      refine or_congr_right' fun hid ↦ ?_
      -- a fresh event of another request is not the row of `ev`
      rw [List.mem_map, List.mem_map]
      refine exists_congr fun e ↦ and_congr_left fun he ↦ ?_
      have hother : ¬ SameRow ev e := fun hsame ↦ hid (he.symm.trans hsame.1.symm)
      rw [fresh, fresh, List.mem_filter, List.mem_filter]
      refine and_congr_right fun _ ↦ ?_
      rw [Bool.not_eq_true', Bool.not_eq_true', ← Bool.not_eq_true, ← Bool.not_eq_true,
        isStored_append hrow, or_iff_left hother]

theorem counted_eq_newEvents {env : Env} {rows rows' : List Inserted} {events : List LogEvent}
    {ids : List String} (h : insertLogs env rows events = some (rows', ids)) :
    counted ids events = newEvents rows events := by
  refine List.filter_congr fun ev _ ↦ ?_
  rw [← Bool.coe_iff_coe, decide_eq_true_iff, mem_insertLogs_ids h, List.mem_map, List.any_eq_true]
  simp only [decide_eq_true_iff]

/-! ### Totals and counters -/

/-- The row of an hour has a place for the new totals and their sums with the old ones. -/
structure HourFits (old : Option HourlyAcc) (new : HourlyAcc) : Prop where
  requests : InBigint ((old.getD {}).requests + new.requests)
  errors : InBigint ((old.getD {}).errors + new.errors)
  promptTokens : InBigint ((old.getD {}).promptTokens + new.promptTokens)
  completionTokens : InBigint ((old.getD {}).completionTokens + new.completionTokens)
  cacheWriteTokens : InBigint ((old.getD {}).cacheWriteTokens + new.cacheWriteTokens)
  cacheReadTokens : InBigint ((old.getD {}).cacheReadTokens + new.cacheReadTokens)
  newCny : ∀ c ∈ new.costCny, InNumeric 20 10 c
  newUsd : ∀ c ∈ new.costUsd, InNumeric 20 10 c
  costCny : ∀ c ∈ addOptSum (old.getD {}).costCny (new.costCny.map (roundTo 10)),
    InNumeric 20 10 c
  costUsd : ∀ c ∈ addOptSum (old.getD {}).costUsd (new.costUsd.map (roundTo 10)),
    InNumeric 20 10 c

theorem isSome_mergeHourly {old : Option HourlyAcc} {new : HourlyAcc} :
    (mergeHourly old new).isSome = true ↔ HourFits old new := by
  rw [Option.isSome_iff_exists]
  simp only [mergeHourly, Option.bind_eq_bind, Option.bind_eq_some_iff,
    nullable_numeric_eq_some_iff, bigint_eq_some_iff]
  constructor
  · rintro ⟨total, newCny, ⟨hnewCny, hcnyEq⟩, newUsd, ⟨hnewUsd, husdEq⟩, _, ⟨hrequests, _⟩, _,
      ⟨herrors, _⟩, _, ⟨hprompt, _⟩, _, ⟨hcompletion, _⟩, _, ⟨hwrite, _⟩, _, ⟨hread, _⟩, _,
      ⟨hcny, _⟩, _, ⟨husd, _⟩, _⟩
    rw [hcnyEq] at hcny
    rw [husdEq] at husd
    exact ⟨hrequests, herrors, hprompt, hcompletion, hwrite, hread, hnewCny, hnewUsd, hcny, husd⟩
  · intro h
    exact ⟨_, _, ⟨h.newCny, rfl⟩, _, ⟨h.newUsd, rfl⟩, _, ⟨h.requests, rfl⟩, _, ⟨h.errors, rfl⟩, _,
      ⟨h.promptTokens, rfl⟩, _, ⟨h.completionTokens, rfl⟩, _, ⟨h.cacheWriteTokens, rfl⟩, _,
      ⟨h.cacheReadTokens, rfl⟩, _, ⟨h.costCny, rfl⟩, _, ⟨h.costUsd, rfl⟩, rfl⟩

/-- A counter has a place for the new amount and its sum with the old one. -/
structure CounterFits (old : Option ℚ) (new : ℚ) : Prop where
  amount : InNumeric 20 10 new
  sum : ∀ o ∈ old, InNumeric 20 10 (o + roundTo 10 new)

theorem isSome_mergeQuota {old : Option ℚ} {new : ℚ} :
    (mergeQuota old new).isSome = true ↔ CounterFits old new := by
  rw [mergeQuota, Option.bind_eq_bind]
  by_cases hnew : InNumeric 20 10 new
  · rw [numeric_eq_some_iff.2 ⟨hnew, rfl⟩, Option.bind_some]
    cases old with
    | none => exact iff_of_true rfl ⟨hnew, fun o ho ↦ absurd ho (Option.not_mem_none o)⟩
    | some o =>
      rw [isSome_numeric]
      constructor
      · intro hsum
        refine ⟨hnew, fun o' ho' ↦ ?_⟩
        rw [← Option.some.inj ho']
        exact hsum
      · intro h
        exact h.sum o rfl
  · refine iff_of_false ?_ fun h ↦ hnew h.amount
    rw [Option.not_isSome_iff_eq_none.1 fun h ↦ hnew (isSome_numeric.1 h), Option.bind_none]
    exact Bool.false_ne_true

/-- One pass over the charges of some events. -/
theorem isSome_quotaPass {env : Env} {unit : String} {new : List LogEvent} (t : Table QuotaKey ℚ) :
    (Table.upsertAll mergeQuota t (quotaSums env unit new).toList).isSome = true ↔
      ∀ k : QuotaKey, k.unit = unit → ∀ x ∈ someSum (new.filterMap (chargedTo env k)),
        CounterFits (t.lookup k) x := by
  rw [Table.isSome_upsertAll]
  constructor
  · intro h k hunit x hx
    rw [← hunit] at h
    exact isSome_mergeQuota.1 (h k x ((lookup_quotaSums env new k).trans hx))
  · intro h k x hx
    by_cases hunit : k.unit = unit
    · refine isSome_mergeQuota.2 (h k hunit x ?_)
      rw [← hunit] at hx
      exact (lookup_quotaSums env new k).symm.trans hx
    · rw [lookup_quotaSums_ne new hunit] at hx
      exact absurd hx (by simp)

/-- A pass leaves the counters of other units alone. -/
theorem lookup_quotaPass_ne {env : Env} {unit : String} {new : List LogEvent}
    {t t' : Table QuotaKey ℚ}
    (h : Table.upsertAll mergeQuota t (quotaSums env unit new).toList = some t') {k : QuotaKey}
    (hunit : k.unit ≠ unit) : t'.lookup k = t.lookup k :=
  Table.lookup_upsertAll_none h (lookup_quotaSums_ne new hunit)

/-- The counters have a place for the charges of some events. -/
def CountersFit (env : Env) (t : Table QuotaKey ℚ) (new : List LogEvent) : Prop :=
  ∀ k : QuotaKey, ∀ x ∈ someSum (new.filterMap (chargedTo env k)), CounterFits (t.lookup k) x

theorem countersFit_iff {env : Env} {t : Table QuotaKey ℚ} {new : List LogEvent} :
    CountersFit env t new ↔
      ∃ tokens, Table.upsertAll mergeQuota t (quotaSums env "tokens" new).toList = some tokens ∧
        ∃ cny, Table.upsertAll mergeQuota tokens (quotaSums env "cost_cny" new).toList =
            some cny ∧
          ∃ usd, Table.upsertAll mergeQuota cny (quotaSums env "cost_usd" new).toList =
            some usd := by
  constructor
  · intro h
    obtain ⟨tokens, htokens⟩ := Option.isSome_iff_exists.1
      ((isSome_quotaPass t).2 fun k (_ : k.unit = "tokens") x hx ↦ h k x hx)
    have hcnyFits : ∀ k : QuotaKey, k.unit = "cost_cny" →
        ∀ x ∈ someSum (new.filterMap (chargedTo env k)), CounterFits (tokens.lookup k) x := by
      intro k hunit x hx
      rw [lookup_quotaPass_ne htokens (by rw [hunit]; decide)]
      exact h k x hx
    obtain ⟨cny, hcny⟩ := Option.isSome_iff_exists.1 ((isSome_quotaPass tokens).2 hcnyFits)
    have husdFits : ∀ k : QuotaKey, k.unit = "cost_usd" →
        ∀ x ∈ someSum (new.filterMap (chargedTo env k)), CounterFits (cny.lookup k) x := by
      intro k hunit x hx
      rw [lookup_quotaPass_ne hcny (by rw [hunit]; decide),
        lookup_quotaPass_ne htokens (by rw [hunit]; decide)]
      exact h k x hx
    obtain ⟨usd, husd⟩ := Option.isSome_iff_exists.1 ((isSome_quotaPass cny).2 husdFits)
    exact ⟨tokens, htokens, cny, hcny, usd, husd⟩
  · intro ⟨tokens, htokens, cny, hcny, usd, husd⟩ k x hx
    by_cases h₁ : k.unit = "tokens"
    · exact (isSome_quotaPass t).1 (by rw [htokens]; rfl) k h₁ x hx
    by_cases h₂ : k.unit = "cost_cny"
    · have hfits := (isSome_quotaPass tokens).1 (by rw [hcny]; rfl) k h₂ x hx
      rwa [lookup_quotaPass_ne htokens h₁] at hfits
    by_cases h₃ : k.unit = "cost_usd"
    · have hfits := (isSome_quotaPass cny).1 (by rw [husd]; rfl) k h₃ x hx
      rwa [lookup_quotaPass_ne hcny h₂, lookup_quotaPass_ne htokens h₁] at hfits
    have hnone : new.filterMap (chargedTo env k) = [] :=
      List.filterMap_eq_nil_iff.2 fun ev _ ↦ chargedTo_eq_none h₁ h₂ h₃
    rw [hnone] at hx
    exact absurd hx (by simp [someSum])

/-! ### Batches -/

/-- Every column has a place for what a batch of priced events writes there. -/
structure BatchFits (db : Db) (env : Env) (priced : List LogEvent) : Prop where
  rows : ∀ ev ∈ priced, RowFits ev
  hours : ∀ key, rowsAt (newEvents db.usageLogs priced) key ≠ [] →
    HourFits (db.usageHourly.lookup key) (hourTotals (rowsAt (newEvents db.usageLogs priced) key))
  counters : CountersFit env db.quotaUsage (newEvents db.usageLogs priced)

theorem isSome_hours {t : Table HourKey HourlyAcc} {new : List LogEvent}
    (hsums : ∀ key, FitsI64 (hourTotals (rowsAt new key))) :
    (Table.upsertAll mergeHourly t
      (Table.groupInto (fun ev ↦ some (hourKey ev)) addHourly ∅ new).toList).isSome = true ↔
        ∀ key, rowsAt new key ≠ [] → HourFits (t.lookup key) (hourTotals (rowsAt new key)) := by
  rw [Table.isSome_upsertAll]
  refine forall_congr' fun key ↦ ?_
  rw [lookup_hourly key (hsums key)]
  by_cases hrows : rowsAt new key = []
  · rw [if_pos hrows]
    exact iff_of_true (fun v hv ↦ absurd hv (by simp)) fun hne ↦ absurd hrows hne
  · rw [if_neg hrows]
    constructor
    · intro h _
      exact isSome_mergeHourly.1 (h _ rfl)
    · intro h v hv
      rw [← Option.some.inj hv]
      exact isSome_mergeHourly.2 (h hrows)

/-- Without an event that is new there is nothing to add. -/
theorem batchFits_of_newEvents_eq_nil {db : Db} {env : Env} {priced : List LogEvent}
    (hnew : newEvents db.usageLogs priced = []) (hrows : ∀ ev ∈ priced, RowFits ev) :
    BatchFits db env priced where
  rows := hrows
  hours key hne := absurd (by rw [hnew]; rfl) hne
  counters k x hx := by
    rw [hnew] at hx
    exact absurd hx (Option.not_mem_none x)

/-- The rows of a batch that is inserted have their places. -/
theorem exists_insertLogs {db : Db} {env : Env} {events : List LogEvent}
    (h : (insertBatch db env events).isSome = true) :
    ∃ logs, insertLogs env db.usageLogs (events.map env.priceEvent) = some logs := by
  cases events with
  | nil => exact ⟨_, rfl⟩
  | cons ev rest =>
    rw [insertBatch, List.isEmpty_cons, if_neg Bool.false_ne_true, Option.bind_eq_bind] at h
    dsimp only at h
    cases hlogs : insertLogs env db.usageLogs ((ev :: rest).map env.priceEvent) with
    | none =>
      rw [hlogs] at h
      exact absurd h Bool.false_ne_true
    | some logs => exact ⟨logs, rfl⟩

/-- A batch is inserted when every column has a place for it. -/
theorem isSome_insertBatch {db : Db} {env : Env} {events : List LogEvent}
    (hsums : ∀ key,
      FitsI64 (hourTotals (rowsAt (newEvents db.usageLogs (events.map env.priceEvent)) key))) :
    (insertBatch db env events).isSome = true ↔ BatchFits db env (events.map env.priceEvent) := by
  cases events with
  | nil =>
    exact iff_of_true rfl
      (batchFits_of_newEvents_eq_nil rfl fun ev hev ↦ absurd hev List.not_mem_nil)
  | cons ev rest =>
    rw [insertBatch, List.isEmpty_cons, if_neg Bool.false_ne_true]
    generalize hpriced : (ev :: rest).map env.priceEvent = priced at hsums
    dsimp only
    rw [Option.bind_eq_bind]
    cases hlogs : insertLogs env db.usageLogs priced with
    | none =>
      refine iff_of_false Bool.false_ne_true fun h ↦ ?_
      have hsome := (@isSome_insertLogs env db.usageLogs priced).2 h.rows
      rw [hlogs] at hsome
      exact Bool.false_ne_true hsome
    | some logs =>
      obtain ⟨rows, ids⟩ := logs
      have hrows : ∀ ev ∈ priced, RowFits ev := isSome_insertLogs.1 (by rw [hlogs]; rfl)
      have hcounted := counted_eq_newEvents hlogs
      rw [Option.bind_some]
      by_cases hids : ids = []
      · have hnew : newEvents db.usageLogs priced = [] := by
          rw [← hcounted, hids]
          exact List.filter_eq_nil_iff.2 fun ev _ ↦ by simp
        rw [hids]
        exact iff_of_true rfl (batchFits_of_newEvents_eq_nil hnew hrows)
      · dsimp only
        rw [if_neg (by simpa using hids), hcounted, Option.isSome_iff_exists]
        simp only [Option.bind_eq_bind, Option.bind_eq_some_iff]
        have hhours := @isSome_hours db.usageHourly _ hsums
        rw [Option.isSome_iff_exists] at hhours
        constructor
        · rintro ⟨_, hourly, hhourly, tokens, htokens, cny, hcny, usd, husd, _⟩
          exact ⟨hrows, hhours.1 ⟨hourly, hhourly⟩,
            countersFit_iff.2 ⟨tokens, htokens, cny, hcny, usd, husd⟩⟩
        · intro h
          obtain ⟨hourly, hhourly⟩ := hhours.2 h.hours
          obtain ⟨tokens, htokens, cny, hcny, usd, husd⟩ := countersFit_iff.1 h.counters
          exact ⟨_, hourly, hhourly, tokens, htokens, cny, hcny, usd, husd, rfl⟩

end NextApi.Logging
