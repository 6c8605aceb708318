import NextApi.Logging.Totals

/-!
# Batches, delivered and delivered again

A batch reaches the database more than once: the writer retries it, and the replay of the journal
delivers it after a crash. A run is any sequence of deliveries, each under the settings of its time,
and each may fail and be rolled back.

The events of a batch that have no row yet are its `fresh` ones. In a clean batch they are the
events whose rows are inserted (`insertLogs_eq`) and they are the events that are counted
(`counted_eq`); the rows agree with them in all that the totals read (`alike_rowOf`).
-/

set_option autoImplicit false

namespace NextApi.Logging

/-! ### Rows and events -/

/-- A row that agrees with an event in all that the totals read. -/
structure Alike (row ev : LogEvent) : Prop where
  keyId : row.keyId = ev.keyId
  model : row.model = ev.model
  status : row.status = ev.status
  promptTokens : row.promptTokens = ev.promptTokens
  completionTokens : row.completionTokens = ev.completionTokens
  cacheWriteTokens : row.cacheWriteTokens = ev.cacheWriteTokens
  cacheReadTokens : row.cacheReadTokens = ev.cacheReadTokens
  costCny : row.costCny = ev.costCny
  costUsd : row.costUsd = ev.costUsd
  second : row.ts / 10 ^ 9 = ev.ts / 10 ^ 9

theorem Alike.hourKey {row ev : LogEvent} (h : Alike row ev) : hourKey row = hourKey ev := by
  rw [Logging.hourKey, Logging.hourKey, hourBucket, hourBucket, h.second, h.model]

theorem Alike.charge {row ev : LogEvent} (h : Alike row ev) (env : Env) (unit : String) :
    charge env unit row = charge env unit ev := by
  have hamount : quotaAmount unit row = quotaAmount unit ev := by
    simp only [quotaAmount, totalTokens, h.promptTokens, h.completionTokens, h.cacheWriteTokens,
      h.cacheReadTokens, h.costCny, h.costUsd]
  simp only [Logging.charge, h.keyId, h.second, hamount]

theorem hourTotals_map {f : LogEvent → LogEvent} {xs : List LogEvent}
    (h : ∀ x ∈ xs, Alike (f x) x) : hourTotals (xs.map f) = hourTotals xs := by
  induction xs with
  | nil => rfl
  | cons x rest ih =>
    have hx := h x List.mem_cons_self
    have hone : hourTotals [f x] = hourTotals [x] := by
      simp only [hourTotals, List.length_singleton, List.filter_singleton, List.map_singleton,
        List.filterMap_cons, List.filterMap_nil, hx.status, hx.promptTokens, hx.completionTokens,
        hx.cacheWriteTokens, hx.cacheReadTokens, hx.costCny, hx.costUsd]
      cases decide (x.status ≥ 400) <;> rfl
    rw [List.map_cons, ← List.singleton_append, hourTotals_append, hone,
      ih fun y hy ↦ h y (List.mem_cons_of_mem x hy), ← hourTotals_append, List.singleton_append]

theorem rowsAt_map {f : LogEvent → LogEvent} {xs : List LogEvent} (h : ∀ x ∈ xs, Alike (f x) x)
    (key : HourKey) : rowsAt (xs.map f) key = (rowsAt xs key).map f := by
  rw [rowsAt, rowsAt, List.filter_map]
  congr 1
  refine List.filter_congr fun x hx ↦ ?_
  rw [Function.comp_apply, (h x hx).hourKey]

/-- Costs of ten decimals. -/
structure ExactCosts (ev : LogEvent) : Prop where
  cny : ∀ c ∈ ev.costCny, Exact c
  usd : ∀ c ∈ ev.costUsd, Exact c

/-- The row of an event whose columns have a place for it. -/
def rowOf (ev : LogEvent) : LogEvent := (storedRow ev).getD ev

theorem storedRow_eq_some {ev row : LogEvent} (h : storedRow ev = some row) :
    row.requestId = ev.requestId ∧ row.ts = storedTime ev.ts ∧ ExactCosts row ∧
      (ExactCosts ev → Alike row ev) := by
  simp only [storedRow, Option.bind_eq_bind, Option.bind_eq_some_iff] at h
  obtain ⟨seconds, -, cny, hcny, usd, husd, h⟩ := h
  obtain rfl := Option.some.inj h
  obtain ⟨hcny, hkeepCny⟩ := nullable_eq_some hcny
  obtain ⟨husd, hkeepUsd⟩ := nullable_eq_some husd
  refine ⟨rfl, rfl, ⟨hcny, husd⟩, fun hexact ↦ ?_⟩
  have hsecond : storedTime ev.ts / 10 ^ 9 = ev.ts / 10 ^ 9 := by
    rw [storedTime]
    omega
  exact ⟨rfl, rfl, rfl, rfl, rfl, rfl, rfl, hkeepCny hexact.cny, hkeepUsd hexact.usd, hsecond⟩

/-! ### Fresh events -/

/-- The events that have no row yet. -/
def fresh (rows : List Inserted) (events : List LogEvent) : List LogEvent :=
  events.filter fun ev ↦ !isStored rows ev

/-- Two events that would be one row. -/
def SameRow (a b : LogEvent) : Prop :=
  a.requestId = b.requestId ∧ storedTime a.ts = storedTime b.ts

theorem isStored_append {rows : List Inserted} {ev row e : LogEvent} {env : Env}
    (h : storedRow ev = some row) :
    isStored (rows ++ [⟨row, env⟩]) e = true ↔ isStored rows e = true ∨ SameRow ev e := by
  obtain ⟨hid, hts, -⟩ := storedRow_eq_some h
  rw [isStored, List.any_append, Bool.or_eq_true, ← isStored, List.any_cons, List.any_nil,
    Bool.or_false, decide_eq_true_iff, hid, hts, SameRow]

/-- When the fresh events are different rows, they are the rows that are inserted. -/
theorem insertLogs_eq {env : Env} {rows rows' : List Inserted} {events : List LogEvent}
    {ids : List String} (hdistinct : (fresh rows events).Pairwise fun a b ↦ ¬ SameRow a b)
    (h : insertLogs env rows events = some (rows', ids)) :
    rows' = rows ++ (fresh rows events).map (fun ev ↦ ⟨rowOf ev, env⟩) ∧
      ids = (fresh rows events).map LogEvent.requestId ∧
      ∀ ev ∈ fresh rows events, ∃ row, storedRow ev = some row := by
  induction events generalizing rows rows' ids with
  | nil =>
    obtain ⟨rfl, rfl⟩ := Prod.mk.inj (Option.some.inj h)
    simp [fresh]
  | cons ev rest ih =>
    rw [insertLogs, Option.bind_eq_bind, Option.bind_eq_some_iff] at h
    obtain ⟨row, hrow, h⟩ := h
    by_cases hstored : isStored rows ev = true
    · have hfresh : fresh rows (ev :: rest) = fresh rows rest :=
        List.filter_cons_of_neg (by simpa using hstored)
      rw [if_pos hstored] at h
      rw [hfresh] at hdistinct ⊢
      exact ih hdistinct h
    · have hfresh : fresh rows (ev :: rest) = ev :: fresh rows rest :=
        List.filter_cons_of_pos (by simpa using hstored)
      rw [hfresh, List.pairwise_cons] at hdistinct
      have hlater : fresh (rows ++ [⟨row, env⟩]) rest = fresh rows rest := by
        refine List.filter_congr fun e he ↦ ?_
        by_cases hold : isStored rows e = true
        · rw [hold, (isStored_append hrow).2 (.inl hold)]
        · have hdiffers := hdistinct.1 e (List.mem_filter.2 ⟨he, by simpa using hold⟩)
          have hnew : ¬ isStored (rows ++ [⟨row, env⟩]) e = true := fun hstored ↦
            ((isStored_append hrow).1 hstored).elim hold hdiffers
          rw [Bool.eq_false_iff.2 hold, Bool.eq_false_iff.2 hnew]
      rw [if_neg hstored, Option.bind_eq_bind, Option.bind_eq_some_iff] at h
      obtain ⟨⟨rows₁, ids₁⟩, hrest, h⟩ := h
      obtain ⟨rfl, rfl⟩ := Prod.mk.inj (Option.some.inj h)
      obtain ⟨hrows, hids, hcolumns⟩ := ih (by rw [hlater]; exact hdistinct.2) hrest
      rw [hlater] at hrows hids hcolumns
      have hof : rowOf ev = row := by rw [rowOf, hrow, Option.getD_some]
      refine ⟨?_, ?_, ?_⟩
      · rw [hrows, hfresh, List.map_cons, hof, List.append_assoc, List.singleton_append]
      · rw [hids, hfresh, List.map_cons]
      · rw [hfresh]
        intro e he
        rcases List.mem_cons.1 he with rfl | he
        · exact ⟨row, hrow⟩
        · exact hcolumns e he

/-- When the events of a request are all fresh or all stored, the fresh events are counted. -/
theorem counted_eq {rows : List Inserted} {events : List LogEvent}
    (hwhole : ∀ a ∈ events, ∀ b ∈ events, a.requestId = b.requestId →
      isStored rows a = isStored rows b) :
    counted ((fresh rows events).map LogEvent.requestId) events = fresh rows events := by
  refine List.filter_congr fun ev hev ↦ ?_
  rw [← Bool.coe_iff_coe, decide_eq_true_iff, List.mem_map]
  constructor
  · rintro ⟨e, he, hid⟩
    obtain ⟨hmem, hnew⟩ := List.mem_filter.1 he
    rw [← hwhole e hmem ev hev hid]
    exact hnew
  · intro hnew
    exact ⟨ev, List.mem_filter.2 ⟨hev, hnew⟩, rfl⟩

/-! ### The hourly totals -/

/-- Totals whose costs have ten decimals. -/
structure ExactTotals (t : HourlyAcc) : Prop where
  cny : ∀ c ∈ t.costCny, Exact c
  usd : ∀ c ∈ t.costUsd, Exact c

theorem exactTotals_hourTotals {rows : List LogEvent} (h : ∀ r ∈ rows, ExactCosts r) :
    ExactTotals (hourTotals rows) where
  cny := Exact.someSum fun c hc ↦ by
    obtain ⟨r, hr, hcost⟩ := List.mem_filterMap.1 hc
    exact (h r hr).cny c hcost
  usd := Exact.someSum fun c hc ↦ by
    obtain ⟨r, hr, hcost⟩ := List.mem_filterMap.1 hc
    exact (h r hr).usd c hcost

theorem bigint_eq_some {x y : ℤ} (h : bigint x = some y) : y = x := by
  rw [bigint] at h
  split at h
  · exact (Option.some.inj h).symm
  · exact absurd h (by simp)

/-- An upsert that succeeds adds. -/
theorem mergeHourly_eq_some {old : Option HourlyAcc} {new t : HourlyAcc}
    (h : mergeHourly old new = some t) (hold : ∀ o ∈ old, ExactTotals o)
    (hnew : ExactTotals new) : t = addTotals (old.getD {}) new := by
  simp only [mergeHourly, Option.bind_eq_bind, Option.bind_eq_some_iff] at h
  obtain ⟨newCny, hnewCny, newUsd, hnewUsd, requests, hrequests, errors, herrors, prompt, hprompt,
    completion, hcompletion, write, hwrite, read, hread, cny, hcny, usd, husd, h⟩ := h
  obtain rfl := Option.some.inj h
  have hold' : ExactTotals (old.getD {}) := by
    cases old with
    | none => exact ⟨fun c hc ↦ absurd hc (by simp), fun c hc ↦ absurd hc (by simp)⟩
    | some o => exact hold o rfl
  rw [(nullable_eq_some hnewCny).2 hnew.cny] at hcny
  rw [(nullable_eq_some hnewUsd).2 hnew.usd] at husd
  rw [(nullable_eq_some hcny).2 (Exact.addOptSum hold'.cny hnew.cny),
    (nullable_eq_some husd).2 (Exact.addOptSum hold'.usd hnew.usd), bigint_eq_some hrequests,
    bigint_eq_some herrors, bigint_eq_some hprompt, bigint_eq_some hcompletion,
    bigint_eq_some hwrite, bigint_eq_some hread]
  rfl

/-- The sums of a batch, hour by hour. -/
theorem lookup_hourly {new : List LogEvent} (key : HourKey)
    (hfits : FitsI64 (hourTotals (rowsAt new key))) :
    (Table.groupInto (fun ev ↦ some (hourKey ev)) addHourly ∅ new).lookup key =
      if rowsAt new key = [] then none else some (hourTotals (rowsAt new key)) := by
  have hrows : (new.filter fun ev ↦ some (hourKey ev) = some key) = rowsAt new key :=
    List.filter_congr fun ev _ ↦ by simp
  rw [Table.lookup_groupInto, hrows, Table.lookup_empty, addAll_addHourly, hfits.wrapTotals_eq]

/-- An hour of a table that was the sum of some rows is the sum of these and the new ones. -/
theorem hourly_upserted {t t' : Table HourKey HourlyAcc} {rows new : List LogEvent}
    (h : Table.upsertAll mergeHourly t
      (Table.groupInto (fun ev ↦ some (hourKey ev)) addHourly ∅ new).toList = some t')
    (key : HourKey) (hfits : FitsI64 (hourTotals (rowsAt new key)))
    (hrows : ∀ r ∈ rows, ExactCosts r) (hnew : ∀ ev ∈ new, ExactCosts ev)
    (hold : t.lookup key = if rows = [] then none else some (hourTotals rows)) :
    t'.lookup key =
      if rows ++ rowsAt new key = [] then none
      else some (hourTotals (rows ++ rowsAt new key)) := by
  have hsums := lookup_hourly key hfits
  by_cases hempty : rowsAt new key = []
  · rw [if_pos hempty] at hsums
    rw [Table.lookup_upsertAll_none h hsums, hempty, List.append_nil, hold]
  · rw [if_neg hempty] at hsums
    obtain ⟨total, hmerge, hlookup⟩ := Table.lookup_upsertAll_some h hsums
    have hexact : ∀ o ∈ t.lookup key, ExactTotals o := by
      rw [hold]
      intro o ho
      split at ho
      · exact absurd ho (by simp)
      · exact Option.some.inj ho ▸ exactTotals_hourTotals hrows
    have hbefore : (t.lookup key).getD {} = hourTotals rows := by
      rw [hold]
      split
      case isTrue hnil => rw [hnil, Option.getD_none, hourTotals_nil]
      case isFalse => rfl
    have hadd := mergeHourly_eq_some hmerge hexact
      (exactTotals_hourTotals fun ev hev ↦ hnew ev (List.mem_filter.1 hev).1)
    rw [hlookup, if_neg fun happend ↦ hempty (List.append_eq_nil_iff.1 happend).2, hadd, hbefore,
      hourTotals_append]

/-! ### The quota counters -/

theorem charge_unit {env : Env} {unit : String} {ev : LogEvent} {c : QuotaKey × ℚ}
    (h : charge env unit ev = some c) : c.1.unit = unit ∧ quotaAmount unit ev = some c.2 := by
  simp only [charge, Option.bind_eq_bind, Option.bind_eq_some_iff] at h
  obtain ⟨keyId, -, ⟨keyUnit, window⟩, -, h⟩ := h
  split at h
  · exact absurd h (by simp)
  · obtain ⟨amount, hamount, h⟩ := Option.bind_eq_some_iff.1 h
    obtain rfl := Option.some.inj h
    exact ⟨rfl, hamount⟩

theorem chargedTo_eq_some {env : Env} {k : QuotaKey} {ev : LogEvent} {x : ℚ} :
    chargedTo env k ev = some x ↔ charge env k.unit ev = some (k, x) := by
  rw [chargedTo, Option.bind_eq_some_iff]
  constructor
  · rintro ⟨c, hc, h⟩
    split at h
    case isTrue heq =>
      rw [hc, ← heq, ← Option.some.inj h]
    case isFalse => exact absurd h (by simp)
  · intro h
    exact ⟨_, h, if_pos rfl⟩

theorem Exact.chargedTo {env : Env} {k : QuotaKey} {ev : LogEvent} {x : ℚ} (hev : ExactCosts ev)
    (h : chargedTo env k ev = some x) : Exact x := by
  have hamount := (charge_unit (chargedTo_eq_some.1 h)).2
  unfold quotaAmount at hamount
  split at hamount
  · obtain rfl := Option.some.inj hamount
    exact Exact.intCast _
  · exact hev.cny x hamount
  · exact hev.usd x hamount
  · exact absurd hamount (by simp)

/-- There are three units. -/
theorem chargedTo_eq_none {env : Env} {k : QuotaKey} {ev : LogEvent}
    (htokens : k.unit ≠ "tokens") (hcny : k.unit ≠ "cost_cny") (husd : k.unit ≠ "cost_usd") :
    chargedTo env k ev = none := by
  refine Option.eq_none_iff_forall_ne_some.2 fun x hx ↦ ?_
  have hamount := (charge_unit (chargedTo_eq_some.1 hx)).2
  unfold quotaAmount at hamount
  split at hamount
  case h_1 hunit => exact htokens hunit
  case h_2 hunit => exact hcny hunit
  case h_3 hunit => exact husd hunit
  case h_4 => exact absurd hamount (by simp)

/-- The charges of a batch in the unit of a counter. -/
theorem lookup_quotaSums (env : Env) (new : List LogEvent) (k : QuotaKey) :
    (quotaSums env k.unit new).lookup k = someSum (new.filterMap (chargedTo env k)) := by
  rw [quotaSums, Table.lookup_groupInto, Table.lookup_empty]
  induction new using List.reverseRecOn with
  | nil => rfl
  | append_singleton new ev ih =>
    rw [List.filter_append, List.filterMap_append, someSum_append, ← ih]
    cases hcharge : charge env k.unit ev with
    | none =>
      have hnone : chargedTo env k ev = none := by rw [chargedTo, hcharge, Option.bind_none]
      simp [hcharge, hnone, someSum, addOptSum]
    | some c =>
      by_cases hk : c.1 = k
      · have hto : chargedTo env k ev = some c.2 := by
          rw [chargedTo, hcharge, Option.bind_some, if_pos hk]
        rw [List.filter_cons_of_pos (by simp [hcharge, hk]), List.filter_nil,
          Table.addAll_concat, addCharge, hcharge]
        simp [hto, someSum, addOptSum]
      · have hnone : chargedTo env k ev = none := by
          rw [chargedTo, hcharge, Option.bind_some, if_neg hk]
        simp [hcharge, hk, hnone, someSum, addOptSum]

theorem lookup_quotaSums_ne {env : Env} {unit : String} (new : List LogEvent) {k : QuotaKey}
    (h : k.unit ≠ unit) : (quotaSums env unit new).lookup k = none := by
  have hnone : (new.filter fun ev ↦ (charge env unit ev).map Prod.fst = some k) = [] := by
    refine List.filter_eq_nil_iff.2 fun ev _ hev ↦ ?_
    obtain ⟨c, hc, hk⟩ := Option.map_eq_some_iff.1 (of_decide_eq_true hev)
    exact h (hk ▸ (charge_unit hc).1)
  rw [quotaSums, Table.lookup_groupInto, Table.lookup_empty, hnone]
  rfl

theorem mergeQuota_eq_some {old : Option ℚ} {new x : ℚ} (h : mergeQuota old new = some x)
    (hold : ∀ o ∈ old, Exact o) (hnew : Exact new) : some x = addOptSum old (some new) := by
  obtain ⟨new', hnew', hmerged⟩ := Option.bind_eq_some_iff.1 h
  obtain rfl := (numeric_eq_some hnew').2 hnew
  cases old with
  | none =>
    obtain rfl := Option.some.inj hmerged
    rw [addOptSum, Option.getD_none, zero_add]
  | some o =>
    rw [(numeric_eq_some hmerged).2 ((hold o rfl).add hnew)]
    rfl

/-- A pass adds to the counters of its unit. -/
theorem quota_upserted {env : Env} {unit : String} {t t' : Table QuotaKey ℚ}
    {new : List LogEvent}
    (h : Table.upsertAll mergeQuota t (quotaSums env unit new).toList = some t') (k : QuotaKey)
    (hnew : ∀ ev ∈ new, ExactCosts ev) (hold : ∀ o ∈ t.lookup k, Exact o) :
    t'.lookup k =
      if k.unit = unit then addOptSum (t.lookup k) (someSum (new.filterMap (chargedTo env k)))
      else t.lookup k := by
  by_cases hunit : k.unit = unit
  · subst hunit
    have hexact : ∀ x ∈ someSum (new.filterMap (chargedTo env k)), Exact x := by
      refine Exact.someSum fun x hx ↦ ?_
      obtain ⟨ev, hev, hcharged⟩ := List.mem_filterMap.1 hx
      exact Exact.chargedTo (hnew ev hev) hcharged
    have hsum := lookup_quotaSums env new k
    rw [if_pos rfl]
    cases hadded : someSum (new.filterMap (chargedTo env k)) with
    | none => exact Table.lookup_upsertAll_none h (hsum.trans hadded)
    | some x =>
      obtain ⟨total, hmerge, hlookup⟩ := Table.lookup_upsertAll_some h (hsum.trans hadded)
      rw [hlookup]
      exact mergeQuota_eq_some hmerge hold (hexact x hadded)
  · rw [if_neg hunit]
    exact Table.lookup_upsertAll_none h (lookup_quotaSums_ne new hunit)

/-! ### Runs -/

/-- A batch whose events are rows and are counted alike: of the events of one request either all
have a row or none has one, and then they are different rows. The costs have ten decimals, and the
tokens of an hour fit into a counter. -/
structure CleanBatch (rows : List Inserted) (events : List LogEvent) : Prop where
  whole : ∀ a ∈ events, ∀ b ∈ events, a.requestId = b.requestId →
    isStored rows a = isStored rows b
  distinct : (fresh rows events).Pairwise fun a b ↦ ¬ SameRow a b
  exact : ∀ ev ∈ fresh rows events, ExactCosts ev
  fits : ∀ key, FitsI64 (hourTotals (rowsAt (fresh rows events) key))

/-- A batch that is given to the database, and whether its transaction gets through. -/
structure Delivery where
  env : Env
  events : List LogEvent
  commits : Bool := true

/-- Without a commit, or with an error, the database stays as it was. -/
def deliver (db : Db) (d : Delivery) : Db :=
  if d.commits then ((insertBatch db d.env d.events).map Prod.fst).getD db else db

def deliverAll (db : Db) (deliveries : List Delivery) : Db := deliveries.foldl deliver db

/-- Every batch of the run is clean when it comes. -/
def CleanDeliveries : Db → List Delivery → Prop
  | _, [] => True
  | db, d :: rest =>
    CleanBatch db.usageLogs (d.events.map d.env.priceEvent) ∧ CleanDeliveries (deliver db d) rest

/-- A consistent database, whose cost columns hold what such columns can. -/
structure Sound (db : Db) : Prop extends Consistent db where
  exact : ∀ r ∈ db.usageLogs, ExactCosts r.event

theorem sound_empty : Sound {} where
  distinct := List.Pairwise.nil
  hourly _ := rfl
  quota _ := rfl
  exact _ hr := absurd hr List.not_mem_nil

/-- The rows stay different. -/
theorem distinct_append {rows : List Inserted} {events : List LogEvent} {env : Env}
    (hrows : rows.Pairwise fun a b ↦ ¬ a.SameKey b)
    (hdistinct : (fresh rows events).Pairwise fun a b ↦ ¬ SameRow a b)
    (hcolumns : ∀ ev ∈ fresh rows events, ∃ row, storedRow ev = some row) :
    (rows ++ (fresh rows events).map fun ev ↦ (⟨rowOf ev, env⟩ : Inserted)).Pairwise
      fun a b ↦ ¬ a.SameKey b := by
  have hkey : ∀ ev ∈ fresh rows events,
      (rowOf ev).requestId = ev.requestId ∧ (rowOf ev).ts = storedTime ev.ts := by
    intro ev hev
    obtain ⟨row, hrow⟩ := hcolumns ev hev
    obtain ⟨hid, hts, -⟩ := storedRow_eq_some hrow
    rw [rowOf, hrow]
    exact ⟨hid, hts⟩
  rw [List.pairwise_append, List.pairwise_map]
  refine ⟨hrows, ?_, ?_⟩
  · refine hdistinct.imp_of_mem fun {a b} ha hb hne ↦ ?_
    show ¬ ((rowOf a).requestId = (rowOf b).requestId ∧ (rowOf a).ts = (rowOf b).ts)
    rw [(hkey a ha).1, (hkey a ha).2, (hkey b hb).1, (hkey b hb).2]
    exact hne
  · intro r hr row hrow
    obtain ⟨ev, hev, rfl⟩ := List.mem_map.1 hrow
    show ¬ (r.event.requestId = (rowOf ev).requestId ∧ r.event.ts = (rowOf ev).ts)
    rw [(hkey ev hev).1, (hkey ev hev).2]
    intro hsame
    have hnew : (!isStored rows ev) = true := (List.mem_filter.1 hev).2
    have hstored : isStored rows ev = true :=
      List.any_eq_true.2 ⟨r, hr, decide_eq_true hsame⟩
    rw [hstored] at hnew
    exact absurd hnew (by simp)

/-- What a transaction that gets through does. -/
theorem insertBatch_eq_some {db db' : Db} {env : Env} {events : List LogEvent} {n : ℕ}
    (h : insertBatch db env events = some (db', n)) :
    db' = db ∨ ∃ ids, insertLogs env db.usageLogs (events.map env.priceEvent) =
        some (db'.usageLogs, ids) ∧
      let new := counted ids (events.map env.priceEvent)
      Table.upsertAll mergeHourly db.usageHourly
        (Table.groupInto (fun ev ↦ some (hourKey ev)) addHourly ∅ new).toList =
          some db'.usageHourly ∧
      ∃ tokens cny,
        Table.upsertAll mergeQuota db.quotaUsage (quotaSums env "tokens" new).toList =
          some tokens ∧
        Table.upsertAll mergeQuota tokens (quotaSums env "cost_cny" new).toList = some cny ∧
        Table.upsertAll mergeQuota cny (quotaSums env "cost_usd" new).toList =
          some db'.quotaUsage := by
  rw [insertBatch] at h
  split at h
  · exact .inl (Prod.mk.inj (Option.some.inj h)).1.symm
  · simp only [Option.bind_eq_bind, Option.bind_eq_some_iff] at h
    obtain ⟨⟨rows, ids⟩, hlogs, h⟩ := h
    split at h
    · exact .inl (Prod.mk.inj (Option.some.inj h)).1.symm
    · simp only [Option.bind_eq_some_iff] at h
      obtain ⟨hourly, hhourly, tokens, htokens, cny, hcny, usd, husd, h⟩ := h
      obtain ⟨rfl, -⟩ := Prod.mk.inj (Option.some.inj h)
      exact .inr ⟨ids, hlogs, hhourly, tokens, cny, htokens, hcny, husd⟩

/-- The three passes add to every counter what its rows are charged. -/
theorem quota_passes {env : Env} {t tokens cny t' : Table QuotaKey ℚ} {new : List LogEvent}
    (htokens : Table.upsertAll mergeQuota t (quotaSums env "tokens" new).toList = some tokens)
    (hcny : Table.upsertAll mergeQuota tokens (quotaSums env "cost_cny" new).toList = some cny)
    (husd : Table.upsertAll mergeQuota cny (quotaSums env "cost_usd" new).toList = some t')
    (k : QuotaKey) (hnew : ∀ ev ∈ new, ExactCosts ev) (hold : ∀ o ∈ t.lookup k, Exact o) :
    t'.lookup k = addOptSum (t.lookup k) (someSum (new.filterMap (chargedTo env k))) := by
  have hadded : ∀ x ∈ someSum (new.filterMap (chargedTo env k)), Exact x := by
    refine Exact.someSum fun x hx ↦ ?_
    obtain ⟨ev, hev, hcharged⟩ := List.mem_filterMap.1 hx
    exact Exact.chargedTo (hnew ev hev) hcharged
  have hfirst := quota_upserted htokens k hnew hold
  have hexactFirst : ∀ o ∈ tokens.lookup k, Exact o := by
    rw [hfirst]
    split
    · exact Exact.addOptSum hold hadded
    · exact hold
  have hsecond := quota_upserted hcny k hnew hexactFirst
  have hexactSecond : ∀ o ∈ cny.lookup k, Exact o := by
    rw [hsecond]
    split
    · exact Exact.addOptSum hexactFirst hadded
    · exact hexactFirst
  rw [quota_upserted husd k hnew hexactSecond, hsecond, hfirst]
  by_cases h₁ : k.unit = "tokens"
  · rw [h₁]
    simp
  by_cases h₂ : k.unit = "cost_cny"
  · rw [h₂]
    simp
  by_cases h₃ : k.unit = "cost_usd"
  · rw [h₃]
    simp
  have hnone : new.filterMap (chargedTo env k) = [] :=
    List.filterMap_eq_nil_iff.2 fun ev _ ↦ chargedTo_eq_none h₁ h₂ h₃
  rw [if_neg h₁, if_neg h₂, if_neg h₃, hnone]
  rfl

theorem sound_insertBatch {db db' : Db} {env : Env} {events : List LogEvent} {n : ℕ}
    (hsound : Sound db) (hclean : CleanBatch db.usageLogs (events.map env.priceEvent))
    (h : insertBatch db env events = some (db', n)) : Sound db' := by
  obtain rfl | ⟨ids, hlogs, hhourly, tokens, cny, htokens, hcny, husd⟩ := insertBatch_eq_some h
  · exact hsound
  obtain ⟨hrows, rfl, hcolumns⟩ := insertLogs_eq hclean.distinct hlogs
  rw [counted_eq hclean.whole] at hhourly htokens hcny husd
  obtain ⟨hwhole, hdistinct, hexact, hfits⟩ := hclean
  generalize hnew : fresh db.usageLogs (events.map env.priceEvent) = new at *
  have halike : ∀ ev ∈ new, Alike (rowOf ev) ev := by
    intro ev hev
    obtain ⟨row, hrow⟩ := hcolumns ev hev
    rw [rowOf, hrow]
    exact (storedRow_eq_some hrow).2.2.2 (hexact ev hev)
  have hexactRows : ∀ r ∈ db.usageLogs.map Inserted.event, ExactCosts r := by
    intro r hr
    obtain ⟨row, hrow, rfl⟩ := List.mem_map.1 hr
    exact hsound.exact row hrow
  have hevents : db'.usageLogs.map Inserted.event =
      db.usageLogs.map Inserted.event ++ new.map rowOf := by
    rw [hrows, List.map_append, List.map_map]
    rfl
  constructor
  case toConsistent =>
    constructor
    case distinct =>
      rw [hrows, ← hnew]
      exact distinct_append hsound.distinct (hnew ▸ hdistinct) (hnew ▸ hcolumns)
    case hourly =>
      intro key
      have hat : rowsAt (db'.usageLogs.map Inserted.event) key =
          rowsAt (db.usageLogs.map Inserted.event) key ++ (rowsAt new key).map rowOf := by
        rw [hevents, ← rowsAt_map halike, rowsAt, List.filter_append, ← rowsAt, ← rowsAt]
      have htotals : hourTotals ((rowsAt new key).map rowOf) = hourTotals (rowsAt new key) :=
        hourTotals_map fun ev hev ↦ halike ev (List.mem_filter.1 hev).1
      have hexactAt : ∀ r ∈ rowsAt (db.usageLogs.map Inserted.event) key, ExactCosts r :=
        fun r hr ↦ hexactRows r (List.mem_filter.1 hr).1
      have hupserted := hourly_upserted hhourly key (hfits key) hexactAt hexact
        (hsound.hourly key)
      rw [hupserted, hat, hourTotals_append, hourTotals_append, htotals]
      simp only [List.append_eq_nil_iff, List.map_eq_nil_iff]
    case quota =>
      intro k
      have hcharged : (new.map fun ev ↦ (⟨rowOf ev, env⟩ : Inserted)).filterMap
          (fun r ↦ chargedTo r.env k r.event) = new.filterMap (chargedTo env k) := by
        rw [List.filterMap_map]
        refine List.filterMap_congr fun ev hev ↦ ?_
        rw [Function.comp_apply, chargedTo, chargedTo, (halike ev hev).charge]
      have hold : ∀ o ∈ db.quotaUsage.lookup k, Exact o := by
        rw [hsound.quota k]
        refine Exact.someSum fun x hx ↦ ?_
        obtain ⟨r, hr, hx⟩ := List.mem_filterMap.1 hx
        exact Exact.chargedTo (hsound.exact r hr) hx
      rw [quota_passes htokens hcny husd k hexact hold, hsound.quota k, hrows,
        List.filterMap_append, hcharged, someSum_append]
  case exact =>
    intro r hr
    rw [hrows] at hr
    rcases List.mem_append.1 hr with hr | hr
    · exact hsound.exact r hr
    · obtain ⟨ev, hev, rfl⟩ := List.mem_map.1 hr
      obtain ⟨row, hrow⟩ := hcolumns ev hev
      show ExactCosts (rowOf ev)
      rw [rowOf, hrow]
      exact (storedRow_eq_some hrow).2.2.1

theorem sound_deliver {db : Db} {d : Delivery} (hsound : Sound db)
    (hclean : CleanBatch db.usageLogs (d.events.map d.env.priceEvent)) :
    Sound (deliver db d) := by
  rw [deliver]
  split
  · cases h : insertBatch db d.env d.events with
    | none => exact hsound
    | some result => exact sound_insertBatch hsound hclean h
  · exact hsound

theorem sound_deliverAll {db : Db} {deliveries : List Delivery} (hsound : Sound db)
    (hclean : CleanDeliveries db deliveries) : Sound (deliverAll db deliveries) := by
  induction deliveries generalizing db with
  | nil => exact hsound
  | cons d rest ih => exact ih (sound_deliver hsound hclean.1) hclean.2

/-- However often clean batches are delivered and whatever fails, the totals are the sums of the
rows. -/
theorem consistent_of_cleanDeliveries (deliveries : List Delivery) (h : CleanDeliveries {} deliveries) :
    Consistent (deliverAll {} deliveries) :=
  (sound_deliverAll sound_empty h).toConsistent

/-! ### The same events again -/

/-- An environment without prices, whose keys have a quota of tokens without end. -/
def tokenQuota : Env where
  price _ := none
  keyQuota _ := some (some "tokens", none)
  windowStart _ _ := 0

/-- Two events of one request, delivered, rolled back and delivered twice more. -/
def repeatedBatch : List Delivery :=
  [⟨tokenQuota, [eventAt 3, eventAt 5], true⟩, ⟨tokenQuota, [eventAt 3, eventAt 5], false⟩,
    ⟨tokenQuota, [eventAt 3, eventAt 5], true⟩]

theorem fitsI64_eventAt (key : HourKey) {events : List LogEvent}
    (h : events.Sublist [eventAt 3, eventAt 5]) : FitsI64 (hourTotals (rowsAt events key)) := by
  have hsub : (rowsAt events key).Sublist [eventAt 3, eventAt 5] := List.filter_sublist.trans h
  rcases List.sublist_cons_iff.1 hsub with hsub | ⟨rest, heq, hsub⟩
  · rcases List.sublist_cons_iff.1 hsub with hsub | ⟨rest, heq, hsub⟩
    · rw [List.sublist_nil.1 hsub]
      exact ⟨rfl, rfl, rfl, rfl⟩
    · rw [heq, List.sublist_nil.1 hsub]
      exact ⟨rfl, rfl, rfl, rfl⟩
  · rcases List.sublist_cons_iff.1 hsub with hsub | ⟨rest', heq', hsub⟩
    · rw [heq, List.sublist_nil.1 hsub]
      exact ⟨rfl, rfl, rfl, rfl⟩
    · rw [heq, heq', List.sublist_nil.1 hsub]
      exact ⟨rfl, rfl, rfl, rfl⟩

theorem cleanBatch_eventAt {rows : List Inserted}
    (hwhole : isStored rows (eventAt 3) = isStored rows (eventAt 5)) :
    CleanBatch rows [eventAt 3, eventAt 5] where
  whole := by
    intro a ha b hb _
    simp only [List.mem_cons, List.not_mem_nil, or_false] at ha hb
    rcases ha with rfl | rfl <;> rcases hb with rfl | rfl
    · rfl
    · exact hwhole
    · exact hwhole.symm
    · rfl
  distinct := by
    have hpair : [eventAt 3, eventAt 5].Pairwise fun a b ↦ ¬ SameRow a b := by
      rw [List.pairwise_pair]
      intro hsame
      exact absurd hsame.2 (by decide)
    exact hpair.sublist List.filter_sublist
  exact := by
    intro ev hev
    have hmem : ev ∈ [eventAt 3, eventAt 5] := (List.mem_filter.1 hev).1
    simp only [List.mem_cons, List.not_mem_nil, or_false] at hmem
    rcases hmem with rfl | rfl
    · exact ⟨fun c hc ↦ absurd hc (by simp [eventAt]), fun c hc ↦ absurd hc (by simp [eventAt])⟩
    · exact ⟨fun c hc ↦ absurd hc (by simp [eventAt]), fun c hc ↦ absurd hc (by simp [eventAt])⟩
  fits key := fitsI64_eventAt key List.filter_sublist

theorem cleanDeliveries_repeatedBatch : CleanDeliveries {} repeatedBatch :=
  ⟨cleanBatch_eventAt (by decide +kernel), cleanBatch_eventAt (by decide +kernel),
    cleanBatch_eventAt (by decide +kernel), trivial⟩

/-- The batch that comes again adds nothing. -/
theorem consistent_repeatedBatch : Consistent (deliverAll {} repeatedBatch) :=
  consistent_of_cleanDeliveries repeatedBatch cleanDeliveries_repeatedBatch

/-- An event that is twice in one batch is one row, and is added twice. -/
theorem not_consistent_twice :
    ¬ Consistent (deliverAll {} [⟨tokenQuota, [eventAt 3, eventAt 3], true⟩]) := by
  intro h
  have hhour := h.hourly (hourKey (eventAt 3))
  exact absurd hhour (by decide +kernel)

end NextApi.Logging
