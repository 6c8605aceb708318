import NextApi.Admin.AliasRuns
import NextApi.Admin.ImportReport
import NextApi.Billing.FxRates
import NextApi.Settings.Engine

/-!
# Batch writes

The routes are replaced and price rules are imported in one transaction, after all checks. Settings
are checked together and then written one by one, and exchange rates are checked and written one by
one, in no transaction.

So a failed replacement or import leaves the table as it was, and so does a batch of settings that
does not pass the checks. After a success the routes are those of the batch, and of every exchange
rate, setting and price rule the last entry of its key is stored. An import takes what it can: what
is wrong with an item is only reported, and an item that repeats keys is skipped (`batchWrites`).
-/

set_option autoImplicit false

namespace NextApi.Batches

open Admin Billing Json Pricing Settings Sql
open Logging (Uuid numeric)
open Admin.Upstreams (Cipher)
open Sql.Request

/-! ### Exchange rates -/

structure PutFxItem where
  currencyFrom : String
  currencyTo : String
  rate : ℚ
  deriving DecidableEq

/-- Two different currencies of the prices. -/
def validatePair (currencyFrom currencyTo : String) : Except ApiError Unit :=
  if ¬ (currencyFrom ∈ ["CNY", "USD"] ∧ currencyTo ∈ ["CNY", "USD"]) then
    .error (.badRequest "仅允许 CNY/USD 之间的汇率对")
  else if currencyFrom = currencyTo then .error (.badRequest "from 与 to 不能相同")
  else .ok ()

namespace PutFxItem

def pair (item : PutFxItem) : String × String :=
  ((trim item.currencyFrom).toUpper, (trim item.currencyTo).toUpper)

def check (item : PutFxItem) : Except ApiError Unit := do
  validatePair item.pair.1 item.pair.2
  if item.rate ≤ 0 then .error (.badRequest "rate 必须大于 0")

end PutFxItem

/-- The row of a pair that is set by hand. -/
def isManual (pair : String × String) (row : FxRateRow) : Bool :=
  decide (row.pair = pair) && decide (row.source = "manual")

/-- `INSERT … ON CONFLICT (currency_from, currency_to, source) DO UPDATE`, with a rate as the column
takes it. -/
def writeManual (pair : String × String) (rate : ℚ) (rows : List FxRateRow) : List FxRateRow :=
  if rows.any (isManual pair) then
    rows.map fun row ↦ if isManual pair row then { row with rate } else row
  else rows ++ [⟨pair.1, pair.2, rate, "manual", none⟩]

def upsertManual (item : PutFxItem) (rows : List FxRateRow) : Except ApiError (List FxRateRow) :=
  (numeric 20 10 item.rate).elim (.error (.internal "numeric field overflow")) fun rate ↦
    .ok (writeManual item.pair rate rows)

/-- Checks and writes one rate. -/
def putFxItem (item : PutFxItem) : Request (List FxRateRow) ApiError Unit := do
  ofExcept item.check
  execute (upsertManual item)

def putFx (body : List PutFxItem) : Request (List FxRateRow) ApiError ℕ := do
  ofExcept (if body.isEmpty then .error (.badRequest "请求体不能为空") else .ok ())
  body.forM putFxItem
  return body.length

/-- The rate is what is stored for its pair. -/
def PutFxItem.Applied (item : PutFxItem) (rows : List FxRateRow) : Prop :=
  ∃ rate, numeric 20 10 item.rate = some rate ∧
    (manualRow rows item.pair).map FxRateRow.rate = some rate

theorem manualRow_eq (rows : List FxRateRow) (pair : String × String) :
    manualRow rows pair = rows.find? (isManual pair) := rfl

/-- A row is of one pair at most. -/
theorem isManual_of_ne {pair other : String × String} (h : pair ≠ other) {row : FxRateRow}
    (hrow : isManual other row = true) : isManual pair row = false := by
  rw [isManual, Bool.and_eq_true, decide_eq_true_eq] at hrow
  rw [isManual, hrow.1, decide_eq_false (Ne.symm h), Bool.false_and]

/-- Writing a rate moves no row to another pair. -/
theorem isManual_comp_rate (pair other : String × String) (rate : ℚ) :
    (isManual other ∘ fun row ↦ if isManual pair row then { row with rate } else row) =
      isManual other := by
  funext row
  rw [Function.comp_apply]
  split
  · rfl
  · rfl

theorem rate_writeManual_self (pair : String × String) (rate : ℚ) (rows : List FxRateRow) :
    (manualRow (writeManual pair rate rows) pair).map FxRateRow.rate = some rate := by
  rw [manualRow_eq, writeManual]
  split
  · next hany =>
    obtain ⟨row, hrow⟩ := Option.isSome_iff_exists.1 (List.find?_isSome.2 (List.any_eq_true.1 hany))
    rw [List.find?_map, isManual_comp_rate, hrow, Option.map_some, Option.map_some,
      if_pos (List.find?_some hrow)]
  · next hany =>
    have hnone : rows.find? (isManual pair) = none := by
      rw [List.find?_eq_none]
      intro row hrow hmanual
      exact hany (List.any_eq_true.2 ⟨row, hrow, hmanual⟩)
    have hnew : isManual pair ⟨pair.1, pair.2, rate, "manual", none⟩ = true := by
      simp [isManual, FxRateRow.pair]
    rw [List.find?_append, hnone, Option.none_or, List.find?_singleton, hnew, if_pos rfl,
      Option.map_some]

theorem rate_writeManual_of_ne {pair other : String × String} (h : pair ≠ other) (rate : ℚ)
    (rows : List FxRateRow) : (manualRow (writeManual pair rate rows) other).map FxRateRow.rate =
      (manualRow rows other).map FxRateRow.rate := by
  rw [manualRow_eq, manualRow_eq, writeManual]
  split
  · rw [List.find?_map, isManual_comp_rate, Option.map_map]
    cases hrow : rows.find? (isManual other) with
    | none => rfl
    | some row =>
      rw [Option.map_some, Option.map_some, Function.comp_apply,
        if_neg (by rw [isManual_of_ne h (List.find?_some hrow)]; exact Bool.false_ne_true)]
  · have hnew : isManual other ⟨pair.1, pair.2, rate, "manual", none⟩ = false := by
      rw [isManual, decide_eq_false, Bool.false_and]
      exact h
    rw [List.find?_append, List.find?_singleton, hnew, if_neg Bool.false_ne_true, Option.or_none]

theorem upsertManual_eq_ok {item : PutFxItem} {rows rows' : List FxRateRow}
    (h : upsertManual item rows = .ok rows') :
    ∃ rate, numeric 20 10 item.rate = some rate ∧ rows' = writeManual item.pair rate rows := by
  rw [upsertManual] at h
  cases hrate : numeric 20 10 item.rate with
  | none =>
    rw [hrate] at h
    exact absurd h (by simp)
  | some rate =>
    rw [hrate] at h
    exact ⟨rate, rfl, (Except.ok.inj h).symm⟩

theorem meets_putFxItem_self (item : PutFxItem) :
    Meets (fun _ ↦ True) (putFxItem item) (fun _ ↦ item.Applied) fun _ ↦ True := by
  refine meets_bind (Q := fun _ _ ↦ True) (meets_ofExcept (fun _ _ _ _ ↦ trivial) fun _ _ _ _ ↦
    trivial) fun _ ↦ meets_execute (fun rows rows' _ hrows ↦ ?_) fun _ _ ↦ trivial
  obtain ⟨rate, hrate, rfl⟩ := upsertManual_eq_ok hrows
  exact ⟨rate, hrate, rate_writeManual_self item.pair rate rows⟩

theorem meets_putFxItem_of_ne {item other : PutFxItem} (h : item.pair ≠ other.pair) :
    Meets other.Applied (putFxItem item) (fun _ ↦ other.Applied) fun _ ↦ True := by
  refine meets_bind (Q := fun _ ↦ other.Applied) (meets_ofExcept (fun _ _ _ hs ↦ hs) fun _ _ _ _ ↦
    trivial) fun _ ↦ meets_execute (fun rows rows' hother hrows ↦ ?_) fun _ _ ↦ trivial
  obtain ⟨rate, -, rfl⟩ := upsertManual_eq_ok hrows
  obtain ⟨stored, hstored, hrow⟩ := hother
  exact ⟨stored, hstored, (rate_writeManual_of_ne h rate rows).trans hrow⟩

/-- After a success the last rate of every pair is stored. -/
theorem meets_putFx (body : List PutFxItem) :
    Meets (fun _ ↦ True) (putFx body) (fun _ ↦ LastApplied PutFxItem.pair PutFxItem.Applied body)
      fun _ ↦ True :=
  meets_bind (Q := fun _ _ ↦ True)
    (meets_ofExcept (fun _ _ _ _ ↦ trivial) fun _ _ _ _ ↦ trivial) fun _ ↦
    meets_bind (meets_forM_last body meets_putFxItem_self fun _ _ h ↦ meets_putFxItem_of_ne h)
      fun _ ↦ meets_pure fun _ h ↦ h

theorem halts_putFx (body : List PutFxItem) : Halts (putFx body) :=
  halts_bind (halts_ofExcept _) fun _ ↦ halts_bind
    (halts_forM (fun item ↦ halts_bind (halts_ofExcept item.check) fun _ ↦ halts_query _) body)
    fun _ ↦ halts_pure _

/-- A batch that is empty, or whose first rate does not pass the checks, is refused. -/
theorem meets_putFx_refused {body : List PutFxItem}
    (h : ∀ item ∈ body.head?, ∃ e, item.check = .error e) (rows : List FxRateRow) :
    Meets (fun t ↦ t = rows) (putFx body) (fun _ _ ↦ False) fun t ↦ t = rows := by
  cases body with
  | nil =>
    refine meets_bind (Q := fun _ _ ↦ False) (meets_ofExcept (fun _ hok ↦ ?_) fun _ _ _ hs ↦ hs)
      fun _ _ hs ↦ absurd hs id
    exact absurd hok (by simp)
  | cons item rest =>
    obtain ⟨e, he⟩ := h item rfl
    refine meets_bind (Q := fun _ t ↦ t = rows)
      (meets_ofExcept (fun _ _ _ hs ↦ hs) fun _ _ _ hs ↦ hs) fun _ ↦ ?_
    refine meets_bind (Q := fun _ _ ↦ False) ?_ fun _ _ hs ↦ absurd hs id
    rw [List.forM]
    refine meets_bind (Q := fun _ _ ↦ False) ?_ fun _ _ hs ↦ absurd hs id
    refine meets_bind (Q := fun _ _ ↦ False) (meets_ofExcept (fun a hok ↦ ?_) fun _ _ _ hs ↦ hs)
      fun _ _ hs ↦ absurd hs id
    rw [he] at hok
    exact absurd hok (by simp)

/-! ### Settings -/

/-- The body has a map of settings. -/
structure PutSettingsReq where
  settings : List (String × Value)
  nodup : (settings.map Prod.fst).Nodup

section Settings

variable [SerdeJson] (cipher : Cipher) (yaml : HotConfig)

/-- A setting is stored as its checked value. -/
def SettingApplied (entry : String × Value) (t : SettingsTable) : Prop :=
  ∃ setting, validateSetting cipher entry.1 entry.2 = .ok setting ∧
    t.lookup entry.1 = some (setting.row cipher)

theorem key_of_validateSetting {key : String} {v : Value} {setting : ValidatedSetting}
    (h : validateSetting cipher key v = .ok setting) : setting.key = key := by
  obtain ⟨-, h⟩ := guard_eq_ok.1 h
  obtain ⟨value, -, h⟩ := bind_eq_ok.1 h
  obtain ⟨-, h⟩ := guard_eq_ok.1 h
  rw [← Except.ok.inj h]

omit [SerdeJson] in
theorem meets_save (setting : ValidatedSetting) : Meets (fun _ ↦ True)
    (execute fun t : SettingsTable ↦ (.ok (t.save cipher setting) : Except ApiError SettingsTable))
    (fun _ t ↦ t.lookup setting.key = some (setting.row cipher)) fun _ ↦ True := by
  refine meets_execute (fun t t' _ ht ↦ ?_) fun _ _ ↦ trivial
  rw [← Except.ok.inj ht, SettingsTable.save, Table.lookup_insert, if_pos rfl]

omit [SerdeJson] in
theorem meets_save_of_ne {setting other : ValidatedSetting} (h : setting.key ≠ other.key) :
    Meets (fun t : SettingsTable ↦ t.lookup other.key = some (other.row cipher))
      (execute fun t ↦ (.ok (t.save cipher setting) : Except ApiError SettingsTable))
      (fun _ t ↦ t.lookup other.key = some (other.row cipher)) fun _ ↦ True := by
  refine meets_execute (fun t t' hother ht ↦ ?_) fun _ _ ↦ trivial
  rw [← Except.ok.inj ht, SettingsTable.save, Table.lookup_insert, if_neg h]
  exact hother

/-- After a success every setting of the map is stored, but for the masked ones. -/
theorem meets_put (body : PutSettingsReq) :
    Meets (fun _ ↦ True) (put cipher yaml body.settings)
      (fun _ t ↦ ∀ entry ∈ body.settings, isMaskSentinel entry.2 = true ∨
        SettingApplied cipher entry t) fun _ ↦ True := by
  refine meets_bind (Q := fun validated _ ↦ validateUpdates cipher body.settings = .ok validated)
    (meets_ofExcept (fun _ h _ _ ↦ h) fun _ _ _ _ ↦ trivial) fun validated ↦ ?_
  intro s hvalidated
  have hkeys : validated.map ValidatedSetting.key =
      (body.settings.filter fun entry ↦ !isMaskSentinel entry.2).map Prod.fst :=
    map_eq_of_mapM (fun entry setting h ↦ key_of_validateSetting cipher h) hvalidated
  have hnodup : (validated.map ValidatedSetting.key).Nodup := by
    rw [hkeys]
    exact (List.filter_sublist.map Prod.fst).nodup body.nodup
  refine meets_bind (P := fun _ ↦ True) (meets_forM_last validated (meets_save cipher)
    fun x y h ↦ meets_save_of_ne cipher h) (fun _ ↦ ?_) s trivial
  refine meets_bind (Q := fun _ t ↦ LastApplied ValidatedSetting.key
    (fun setting t ↦ t.lookup setting.key = some (setting.row cipher)) validated t)
    (meets_select (fun _ h ↦ h) fun _ _ ↦ trivial) fun _ ↦ meets_pure fun t hlast entry hentry ↦ ?_
  by_cases hmask : isMaskSentinel entry.2 = true
  · exact Or.inl hmask
  · refine Or.inr ?_
    obtain ⟨setting, hmem, hsetting⟩ := exists_of_mapM hvalidated
      (List.mem_filter.2 ⟨hentry, by simpa using hmask⟩)
    obtain ⟨before, after, rfl⟩ := List.append_of_mem hmem
    refine ⟨setting, hsetting, ?_⟩
    rw [← key_of_validateSetting cipher hsetting]
    refine hlast before setting after rfl fun later hlater hkey ↦ ?_
    rw [List.map_append, List.map_cons, List.nodup_append] at hnodup
    exact (List.nodup_cons.1 hnodup.2.1).1 (List.mem_map.2 ⟨later, hlater, hkey⟩)

/-- When a setting does not pass the checks, none is stored. -/
theorem meets_put_refused {updates : List (String × Value)} {entry : String × Value}
    (hentry : entry ∈ updates) (hmask : isMaskSentinel entry.2 = false) {e : ApiError}
    (h : validateSetting cipher entry.1 entry.2 = .error e) (t : SettingsTable) :
    Meets (fun u ↦ u = t) (put cipher yaml updates) (fun _ _ ↦ False) fun u ↦ u = t := by
  refine meets_bind (Q := fun _ _ ↦ False) (meets_ofExcept (fun validated hok ↦ ?_)
    fun _ _ _ hs ↦ hs) fun _ _ hs ↦ absurd hs id
  obtain ⟨setting, -, hsetting⟩ := exists_of_mapM hok
    (List.mem_filter.2 ⟨hentry, by rw [hmask]; rfl⟩)
  rw [h] at hsetting
  exact absurd hsetting (by simp)

theorem halts_put (updates : List (String × Value)) : Halts (put cipher yaml updates) :=
  halts_bind (halts_ofExcept _) fun validated ↦
    halts_bind (halts_forM (fun _ ↦ halts_query _) validated) fun _ ↦
      halts_bind (halts_query _) fun _ ↦ halts_pure _

end Settings

/-! ### Routes -/

def replaceRoutes (routes : List RouteItem) : Request Db ApiError Unit := do
  ofExcept (if routes.length > 5000 then .error (.badRequest "路由总数不能超过 5000") else .ok ())
  ofExcept (routes.forM RouteItem.validate)
  let found ← select fun db ↦ routes.all fun r ↦ db.hasUpstream r.upstreamId
  ofExcept (if !found then .error (.badRequest "存在无效的 upstream_id") else .ok ())
  let literalPatterns := (routes.map RouteItem.modelPattern).filter isLiteral
  if !literalPatterns.isEmpty then
    let hit ← select fun db ↦ db.aliasHit literalPatterns
    ofExcept (hit.elim (.ok ()) fun a ↦
      .error (.conflict ("model_pattern `" ++ a ++ "` 与现有模型别名冲突")))
  transaction do
    execute fun db ↦ .ok { db with routes := [] }
    (routes.map RouteItem.toRow).forM fun row ↦ execute fun db ↦ db.insertRoute row

/-- The routes are those of the batch, and nothing else has changed. -/
def RoutesReplaced (routes : List RouteItem) (old new : Db) : Prop :=
  new.upstreams = old.upstreams ∧ new.aliases = old.aliases ∧
    new.routes.map RouteRow.content = routes.map RouteItem.toRow

theorem meets_insertRoutes (db : Db) (rows : List RouteRow) :
    Meets (fun t ↦ t.upstreams = db.upstreams ∧ t.aliases = db.aliases ∧ t.routes = [])
      (rows.forM fun row ↦ (execute fun t ↦ t.insertRoute row : Request Db ApiError Unit))
      (fun _ t ↦ t.upstreams = db.upstreams ∧ t.aliases = db.aliases ∧
        t.routes.map RouteRow.content = rows.map RouteRow.content) fun _ ↦ True := by
  refine (meets_forM (fun before (t : Db) ↦ t.upstreams = db.upstreams ∧ t.aliases = db.aliases ∧
    t.routes.map RouteRow.content = before.map RouteRow.content) fun before row after _ ↦ ?_).mono
      (fun t ht ↦ ⟨ht.1, ht.2.1, by rw [ht.2.2]⟩) (fun _ _ ht ↦ ht) fun _ ht ↦ ht
  refine meets_execute (fun t t' ht hrow ↦ ?_) fun _ _ ↦ trivial
  rw [Db.insertRoute_ok hrow]
  refine ⟨ht.1, ht.2.1, ?_⟩
  rw [List.map_append, List.map_append, ht.2.2]
  rfl

/-- The routes are replaced as a whole or not at all. -/
theorem meets_replaceRoutes (db : Db) (routes : List RouteItem) :
    Meets (fun t ↦ t = db) (replaceRoutes routes) (fun _ t ↦ RoutesReplaced routes db t)
      fun t ↦ t = db := by
  have hcheck : ∀ x : Except ApiError Unit,
      Meets (fun t ↦ t = db) (ofExcept x : Request Db ApiError Unit) (fun _ t ↦ t = db)
        fun t ↦ t = db :=
    fun _ ↦ meets_ofExcept (fun _ _ _ h ↦ h) fun _ _ _ h ↦ h
  have htransaction : Meets (fun t ↦ t = db) (transaction do
      execute fun db ↦ .ok { db with routes := [] }
      (routes.map RouteItem.toRow).forM fun row ↦ execute fun db ↦ db.insertRoute row)
      (fun _ t ↦ RoutesReplaced routes db t) fun t ↦ t = db := by
    refine meets_transaction (meets_bind
      (meets_execute
        (Q := fun t ↦ t.upstreams = db.upstreams ∧ t.aliases = db.aliases ∧ t.routes = [])
        (fun t t' ht heq ↦ ?_) fun _ _ ↦ trivial) fun _ ↦
      (meets_insertRoutes db (routes.map RouteItem.toRow)).mono (fun _ h ↦ h) (fun _ t ht ↦ ?_)
        fun _ h ↦ h)
    · rw [← Except.ok.inj heq, ht]
      exact ⟨rfl, rfl, rfl⟩
    · refine ⟨ht.1, ht.2.1, ?_⟩
      rw [ht.2.2, List.map_map]
      rfl
  refine meets_bind (hcheck _) fun _ ↦ meets_bind (hcheck _) fun _ ↦
    meets_bind (meets_select (fun _ h ↦ h) fun _ h ↦ h) fun found ↦
      meets_bind (hcheck _) fun _ ↦ ?_
  dsimp only
  split
  · exact meets_bind (meets_select (fun _ h ↦ h) fun _ h ↦ h) fun hit ↦
      meets_bind (hcheck _) fun _ ↦ htransaction
  · exact htransaction

/-! ### Price rules -/

section PriceRules

variable [Jsonb] [SerdeJson] [DecimalText]

def importRules (now : ℤ) (items : List PriceExportItem) (upstreamIds : Table String Uuid)
    (dryRun : Bool) : Request PriceDb ApiError ImportReport := do
  let result := analyzeImport items upstreamIds
  if !dryRun && !result.1.isEmpty then
    transaction (result.1.forM fun r ↦ execute fun db ↦ db.upsertRule now r)
  return result.2

omit [SerdeJson] [DecimalText] in
/-- A rule has what a row of a file says, as the columns take it. -/
def RowApplied (now : ℤ) (r : ImportRow) (db : PriceDb) : Prop :=
  ∃ row, PriceDb.columns (r.newRule now) = some row ∧
    ∃ rule ∈ db.rules, rule.key = r.key ∧ rule.overwrite row = rule

omit [SerdeJson] [DecimalText] in
theorem key_of_columns {r : ImportRow} {now : ℤ} {row : PriceRule}
    (h : PriceDb.columns (r.newRule now) = some row) : row.key = r.key ∧ row.source = "import" := by
  obtain ⟨basePrice, -, h⟩ := Option.bind_eq_some_iff.1 h
  obtain ⟨dimensions, -, h⟩ := Option.bind_eq_some_iff.1 h
  obtain ⟨segments, -, rfl⟩ := Option.map_eq_some_iff.1 h
  exact ⟨rfl, rfl⟩

omit [SerdeJson] [DecimalText] in
/-- What an upsert writes: over the rules of its key, or as a new rule. -/
theorem upsertRule_eq_ok {db db' : PriceDb} {now : ℤ} {r : ImportRow}
    (h : db.upsertRule now r = .ok db') : ∃ row, PriceDb.columns (r.newRule now) = some row ∧
      (((∃ old ∈ db.rules, old.key = r.key) ∧ db'.rules = db.rules.map fun old ↦
          if old.key = r.key then old.overwrite row else old) ∨
        db'.rules = db.rules ++ [{ row with id := db.freshId }]) := by
  obtain ⟨row, hrow, h⟩ := bind_eq_ok.1 h
  have hcolumns := PriceDb.columns_of_checkColumns hrow
  refine ⟨row, hcolumns, ?_⟩
  rw [(key_of_columns hcolumns).1] at h
  split at h
  · next hany =>
    obtain ⟨old, hold, hkey⟩ := List.any_eq_true.1 hany
    rw [← Except.ok.inj h]
    exact Or.inl ⟨⟨old, hold, of_decide_eq_true hkey⟩, rfl⟩
  · rw [← Except.ok.inj h]
    exact Or.inr rfl

omit [Jsonb] [SerdeJson] [DecimalText] in
theorem overwrite_overwrite (old row : PriceRule) :
    (old.overwrite row).overwrite row = old.overwrite row := rfl

omit [SerdeJson] [DecimalText] in
theorem rowApplied_upsertRule {db db' : PriceDb} {now : ℤ} {r : ImportRow}
    (h : db.upsertRule now r = .ok db') : RowApplied now r db' := by
  obtain ⟨row, hcolumns, ⟨⟨old, hold, hkey⟩, hrules⟩ | hrules⟩ := upsertRule_eq_ok h
  · refine ⟨row, hcolumns, old.overwrite row, ?_, ?_, overwrite_overwrite old row⟩
    · rw [hrules]
      exact List.mem_map.2 ⟨old, hold, if_pos hkey⟩
    · have hdimension : row.dimensionKey = old.dimensionKey :=
        (congrArg RuleKey.dimensionKey (key_of_columns hcolumns).1).trans
          (congrArg RuleKey.dimensionKey hkey).symm
      rw [← hkey, PriceRule.key, PriceRule.overwrite, hdimension]
      rfl
  · refine ⟨row, hcolumns, { row with id := db.freshId }, ?_, (key_of_columns hcolumns).1, ?_⟩
    · rw [hrules]
      exact List.mem_append_right _ (List.mem_singleton_self _)
    · rw [PriceRule.overwrite]
      dsimp only
      rw [(key_of_columns hcolumns).2]

omit [SerdeJson] [DecimalText] in
theorem rowApplied_upsertRule_of_ne {db db' : PriceDb} {now : ℤ} {r other : ImportRow}
    (hne : r.key ≠ other.key) (hother : RowApplied now other db)
    (h : db.upsertRule now r = .ok db') : RowApplied now other db' := by
  obtain ⟨row, hrow, rule, hrule, hkey, hover⟩ := hother
  refine ⟨row, hrow, rule, ?_, hkey, hover⟩
  obtain ⟨row', -, ⟨-, hrules⟩ | hrules⟩ := upsertRule_eq_ok h
  · rw [hrules]
    exact List.mem_map.2 ⟨rule, hrule, if_neg (by rw [hkey]; exact Ne.symm hne)⟩
  · rw [hrules]
    exact List.mem_append_left _ hrule

omit [SerdeJson] [DecimalText] in
theorem meets_upsertRules (now : ℤ) (rows : List ImportRow) :
    Meets (fun _ ↦ True)
      (rows.forM fun r ↦ (execute fun db ↦ db.upsertRule now r : Request PriceDb ApiError Unit))
      (fun _ ↦ LastApplied ImportRow.key (RowApplied now) rows) fun _ ↦ True :=
  meets_forM_last rows
    (fun _ ↦ meets_execute (fun _ _ _ h ↦ rowApplied_upsertRule h) fun _ _ ↦ trivial)
    fun _ _ hne ↦ meets_execute (fun _ _ hother h ↦ rowApplied_upsertRule_of_ne hne hother h)
      fun _ _ ↦ trivial

/-- After an import every item that fails is reported, every key of a valid item is one of the rows
taken, and of these the last row of every key is stored. -/
structure Imported (now : ℤ) (items : List PriceExportItem) (upstreamIds : Table String Uuid)
    (report : ImportReport) (db : PriceDb) : Prop where
  failed : report.failed = failures upstreamIds 0 items
  total : report.total = items.length ∧
    report.total = report.succeeded + report.skipped + report.failed.length
  taken : ∃ rows : List ImportRow, rows.Sublist (validBatches upstreamIds items).flatten ∧
    (∀ r ∈ (validBatches upstreamIds items).flatten, ∃ r' ∈ rows, r'.key = r.key) ∧
    LastApplied ImportRow.key (RowApplied now) rows db

omit [Jsonb] in
theorem exists_row_analyzeImport {items : List PriceExportItem}
    {upstreamIds : Table String Uuid} {r : ImportRow}
    (hr : r ∈ (validBatches upstreamIds items).flatten) :
    ∃ r' ∈ (analyzeImport items upstreamIds).1, r'.key = r.key := by
  rw [rows_analyzeImport]
  exact Dedup.exists_mem_addBatches.2 ⟨r, hr, rfl⟩

theorem imported_of_lastApplied {now : ℤ} {items : List PriceExportItem}
    {upstreamIds : Table String Uuid} {db : PriceDb}
    (h : LastApplied ImportRow.key (RowApplied now) (analyzeImport items upstreamIds).1 db) :
    Imported now items upstreamIds (analyzeImport items upstreamIds).2 db where
  failed := failed_analyzeImport upstreamIds items
  total := total_analyzeImport upstreamIds items
  taken := by
    refine ⟨(analyzeImport items upstreamIds).1, ?_, fun _ ↦ exists_row_analyzeImport, h⟩
    rw [rows_analyzeImport]
    exact Dedup.sublist_addBatches [] (validBatches upstreamIds items)

/-- An import takes what it can, or nothing. -/
theorem meets_importRules (db : PriceDb) (now : ℤ) (items : List PriceExportItem)
    (upstreamIds : Table String Uuid) (dryRun : Bool) :
    Meets (fun t ↦ t = db) (importRules now items upstreamIds dryRun)
      (fun report t ↦ if dryRun then t = db else Imported now items upstreamIds report t)
      fun t ↦ t = db := by
  have hrows : Meets (fun t ↦ t = db) ((analyzeImport items upstreamIds).1.forM fun r ↦
      (execute fun db ↦ db.upsertRule now r : Request PriceDb ApiError Unit))
      (fun _ ↦ LastApplied ImportRow.key (RowApplied now) (analyzeImport items upstreamIds).1)
      fun _ ↦ True :=
    (meets_upsertRules now (analyzeImport items upstreamIds).1).mono (fun _ _ ↦ trivial)
      (fun _ _ h ↦ h) fun _ h ↦ h
  have htransaction := meets_transaction hrows
  rw [importRules]
  dsimp only
  split
  · next hwrites =>
    rw [Bool.and_eq_true, Bool.not_eq_true'] at hwrites
    refine meets_bind htransaction fun _ ↦ meets_pure fun t ht ↦ ?_
    rw [hwrites.1, if_neg Bool.false_ne_true]
    exact imported_of_lastApplied ht
  · next hnone =>
    refine meets_pure fun t ht ↦ ?_
    split
    · exact ht
    · next hdry =>
      rw [Bool.and_eq_true, Bool.not_eq_true', not_and, Bool.not_eq_true',
        Bool.not_eq_false] at hnone
      have hempty := List.isEmpty_iff.1 (hnone (Bool.eq_false_iff.2 hdry))
      refine imported_of_lastApplied ?_
      rw [hempty]
      intro before r after heq
      exact absurd heq (by simp)

end PriceRules

/-! ### The four batches -/

/-- Routes are replaced as a whole or not at all, and an import takes what it can or nothing. A
batch of settings that does not pass the checks stores none, and after a success every setting is
stored but for the masked ones. After a success of a batch of exchange rates the last rate of every
pair is stored; one whose first rate does not pass the checks is refused. A batch of settings or of
rates whose first statement is refused leaves the table as it was. -/
theorem batchWrites [Jsonb] [SerdeJson] [DecimalText] (routeDb : Db) (routes : List RouteItem)
    (priceDb : PriceDb) (now : ℤ) (items : List PriceExportItem) (upstreamIds : Table String Uuid)
    (dryRun : Bool) (cipher : Cipher) (yaml : HotConfig) (settings : SettingsTable)
    (body : PutSettingsReq) (rates : List FxRateRow) (fxBody : List PutFxItem) :
    Meets (fun t ↦ t = routeDb) (replaceRoutes routes)
      (fun _ t ↦ RoutesReplaced routes routeDb t) (fun t ↦ t = routeDb) ∧
    Meets (fun t ↦ t = priceDb) (importRules now items upstreamIds dryRun)
      (fun report t ↦ if dryRun then t = priceDb else Imported now items upstreamIds report t)
      (fun t ↦ t = priceDb) ∧
    (Meets (fun _ ↦ True) (put cipher yaml body.settings)
      (fun _ t ↦ ∀ entry ∈ body.settings, isMaskSentinel entry.2 = true ∨
        SettingApplied cipher entry t) (fun _ ↦ True) ∧
      ((∃ entry ∈ body.settings, isMaskSentinel entry.2 = false ∧
          ∃ e, validateSetting cipher entry.1 entry.2 = .error e) →
        Meets (fun t ↦ t = settings) (put cipher yaml body.settings) (fun _ _ ↦ False)
          fun t ↦ t = settings) ∧
      Halts (put cipher yaml body.settings)) ∧
    Meets (fun _ ↦ True) (putFx fxBody)
      (fun _ ↦ LastApplied PutFxItem.pair PutFxItem.Applied fxBody) (fun _ ↦ True) ∧
    ((∀ item ∈ fxBody.head?, ∃ e, item.check = .error e) →
      Meets (fun t ↦ t = rates) (putFx fxBody) (fun _ _ ↦ False) fun t ↦ t = rates) ∧
    Halts (putFx fxBody) := by
  refine ⟨meets_replaceRoutes routeDb routes,
    meets_importRules priceDb now items upstreamIds dryRun,
    ⟨meets_put cipher yaml body, ?_, halts_put cipher yaml body.settings⟩, meets_putFx fxBody,
    fun h ↦ meets_putFx_refused h rates, halts_putFx fxBody⟩
  intro ⟨entry, hentry, hmask, e, he⟩
  exact meets_put_refused cipher yaml hentry hmask he settings

section Fixed

local instance batchColumns : Jsonb := .lossless

local instance batchCodec : SerdeJson := Compact.codec

local instance batchDecimals : DecimalText where
  fromStrExact _ := none
  ofJson _ := none

/-- The second rate is of no currency of the prices. -/
def euroBatch : List PutFxItem := [⟨"USD", "CNY", 7⟩, ⟨"EUR", "CNY", 8⟩]

/-- The upstream is not known. -/
def strayItem : PriceExportItem :=
  { modelId := "m", upstream := "u", currency := "USD", inputPerM := some 1 }

/-- A batch of rates is refused and its first rate stays, and an import that takes nothing is a
success. -/
theorem not_allOrNothing :
    ((putFx euroBatch ⟨[], fun _ ↦ none⟩).1.isOk = false ∧
      (putFx euroBatch ⟨[], fun _ ↦ none⟩).2.store = [⟨"USD", "CNY", 7, "manual", none⟩]) ∧
    (importRules 0 [strayItem] ∅ false ⟨⟨[], [], 0⟩, fun _ ↦ none⟩).1.isOk = true ∧
      (importRules 0 [strayItem] ∅ false ⟨⟨[], [], 0⟩, fun _ ↦ none⟩).2.store.rules = [] := by
  decide +kernel

end Fixed

end NextApi.Batches
