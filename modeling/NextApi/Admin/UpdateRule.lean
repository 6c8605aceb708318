import NextApi.Admin.PriceRuleRuns
import NextApi.Logging.Totals
import NextApi.Text.Uuid

/-!
# Changing a price rule

The body of a change is an object, of which every member may be absent. The derived reader takes a
member that is `null` for an absent one, also where the field is an option of an option: the outer
option has the `null` already. So a change sets the fields that have a value in the body and leaves
all others as they are, and a field that is to be cleared keeps its value (`setsExactly_iff`).
-/

set_option autoImplicit false

namespace NextApi.Pricing

open Json Admin Logging

/-! ### Reading a body -/

/-- An `Option`: `null` is none. -/
def readOption {α : Type} (read : Value → Option α) : Value → Option (Option α)
  | .null => some none
  | v => (read v).map some

/-- A member with `#[serde(default)]`. -/
def readMember {α : Type} (body : Map) (name : String) (read : Value → Option (Option α)) :
    Option (Option α) :=
  match Map.get? body name with
  | none => some none
  | some v => read v

def readUuid (v : Value) : Option Uuid := v.asStr.bind Text.parseUuid

def readI32 (v : Value) : Option ℤ := v.asI64.filter fun n ↦ decide (-2 ^ 31 ≤ n ∧ n < 2 ^ 31)

/-- The reader of a point in time. -/
class TimeText where
  ofJson : Value → Option ℤ

section Bodies

variable [DecimalText] [TimeText]

def readUpdateRuleReq (body : Map) : Option UpdateRuleReq := do
  let upstreamId ← readMember body "upstream_id" (readOption readUuid)
  let modelId ← readMember body "model_id" (readOption Value.asStr)
  let unit ← readMember body "unit" (readOption Value.asStr)
  let currency ← readMember body "currency" (readOption Value.asStr)
  let basePrice ← readMember body "base_price" (readOption DecimalText.ofJson)
  let dimensions ← readMember body "dimensions" (readOption (readOption some))
  let segments ← readMember body "segments" (readOption (readOption some))
  let contextBasis ← readMember body "context_basis" (readOption Value.asStr)
  let effectiveFrom ← readMember body "effective_from" (readOption (readOption TimeText.ofJson))
  let effectiveTo ← readMember body "effective_to" (readOption (readOption TimeText.ofJson))
  let priority ← readMember body "priority" (readOption readI32)
  let sortOrder ← readMember body "sort_order" (readOption readI32)
  let enabled ← readMember body "enabled" (readOption Value.asBool)
  return { upstreamId, modelId, unit, currency, basePrice, dimensions, segments, contextBasis,
           effectiveFrom, effectiveTo, priority, sortOrder, enabled }

/-- Every field of a request is the member of its name. -/
structure UpdateRuleReq.ReadFrom (body : Map) (req : UpdateRuleReq) : Prop where
  upstreamId : readMember body "upstream_id" (readOption readUuid) = some req.upstreamId
  modelId : readMember body "model_id" (readOption Value.asStr) = some req.modelId
  unit : readMember body "unit" (readOption Value.asStr) = some req.unit
  currency : readMember body "currency" (readOption Value.asStr) = some req.currency
  basePrice : readMember body "base_price" (readOption DecimalText.ofJson) = some req.basePrice
  dimensions : readMember body "dimensions" (readOption (readOption some)) = some req.dimensions
  segments : readMember body "segments" (readOption (readOption some)) = some req.segments
  contextBasis : readMember body "context_basis" (readOption Value.asStr) = some req.contextBasis
  effectiveFrom :
    readMember body "effective_from" (readOption (readOption TimeText.ofJson)) =
      some req.effectiveFrom
  effectiveTo :
    readMember body "effective_to" (readOption (readOption TimeText.ofJson)) = some req.effectiveTo
  priority : readMember body "priority" (readOption readI32) = some req.priority
  sortOrder : readMember body "sort_order" (readOption readI32) = some req.sortOrder
  enabled : readMember body "enabled" (readOption Value.asBool) = some req.enabled

theorem readFrom_of_readUpdateRuleReq {body : Map} {req : UpdateRuleReq}
    (h : readUpdateRuleReq body = some req) : req.ReadFrom body := by
  obtain ⟨upstreamId, hupstreamId, h⟩ := Option.bind_eq_some_iff.1 h
  obtain ⟨modelId, hmodelId, h⟩ := Option.bind_eq_some_iff.1 h
  obtain ⟨unit, hunit, h⟩ := Option.bind_eq_some_iff.1 h
  obtain ⟨currency, hcurrency, h⟩ := Option.bind_eq_some_iff.1 h
  obtain ⟨basePrice, hbasePrice, h⟩ := Option.bind_eq_some_iff.1 h
  obtain ⟨dimensions, hdimensions, h⟩ := Option.bind_eq_some_iff.1 h
  obtain ⟨segments, hsegments, h⟩ := Option.bind_eq_some_iff.1 h
  obtain ⟨contextBasis, hcontextBasis, h⟩ := Option.bind_eq_some_iff.1 h
  obtain ⟨effectiveFrom, heffectiveFrom, h⟩ := Option.bind_eq_some_iff.1 h
  obtain ⟨effectiveTo, heffectiveTo, h⟩ := Option.bind_eq_some_iff.1 h
  obtain ⟨priority, hpriority, h⟩ := Option.bind_eq_some_iff.1 h
  obtain ⟨sortOrder, hsortOrder, h⟩ := Option.bind_eq_some_iff.1 h
  obtain ⟨enabled, henabled, h⟩ := Option.bind_eq_some_iff.1 h
  obtain rfl := Option.some.inj h
  constructor <;> assumption

end Bodies

/-! ### What a change sets -/

/-- A field takes the value in the body as its column has it, and keeps its own without one. -/
def Takes {α : Type} (body : Map) (name : String) (read : Value → Option α) (column : α → Option α)
    (old new : α) : Prop :=
  match Map.get? body name with
  | none | some .null => new = old
  | some v => ∃ x, read v = some x ∧ column x = some new

/-- A field that may be empty is also cleared by `null`. -/
def TakesOrClears {α : Type} (body : Map) (name : String) (read : Value → Option α)
    (column : α → Option α) (old new : Option α) : Prop :=
  match Map.get? body name with
  | none => new = old
  | some .null => new = none
  | some v => ∃ x, read v = some x ∧ (column x).map some = some new

/-- The dimensions that a rule is to have. -/
def resultingDimensions (body : Map) (old : PriceRule) : Option Value :=
  match Map.get? body "dimensions" with
  | none => old.dimensions
  | some .null => none
  | some v => some v

section Rules

variable [Jsonb] [SerdeJson] [DecimalText] [TimeText]

/-- A change sets exactly the fields in the body, `null` clearing those that may be empty. -/
structure SetsExactly (body : Map) (old new : PriceRule) : Prop where
  id : new.id = old.id
  upstreamId : Takes body "upstream_id" readUuid some old.upstreamId new.upstreamId
  modelId : Takes body "model_id" Value.asStr some old.modelId new.modelId
  unit : Takes body "unit" Value.asStr some old.unit new.unit
  currency : Takes body "currency" Value.asStr some old.currency new.currency
  basePrice : Takes body "base_price" DecimalText.ofJson (numeric 20 10) old.basePrice new.basePrice
  source : new.source = old.source
  dimensions : TakesOrClears body "dimensions" some Jsonb.store old.dimensions new.dimensions
  dimensionKey : new.dimensionKey = normalizeDimensionKey (resultingDimensions body old)
  segments : TakesOrClears body "segments" some Jsonb.store old.segments new.segments
  contextBasis : Takes body "context_basis" Value.asStr some old.contextBasis new.contextBasis
  effectiveFrom :
    TakesOrClears body "effective_from" TimeText.ofJson some old.effectiveFrom new.effectiveFrom
  effectiveTo :
    TakesOrClears body "effective_to" TimeText.ofJson some old.effectiveTo new.effectiveTo
  priority : Takes body "priority" readI32 some old.priority new.priority
  sortOrder : Takes body "sort_order" readI32 some old.sortOrder new.sortOrder
  enabled : Takes body "enabled" Value.asBool some old.enabled new.enabled
  createdAt : new.createdAt = old.createdAt

/-- The body clears only fields that are empty. -/
structure ClearsNothing (body : Map) (old : PriceRule) : Prop where
  dimensions : Map.get? body "dimensions" = some .null → old.dimensions = none
  segments : Map.get? body "segments" = some .null → old.segments = none
  effectiveFrom : Map.get? body "effective_from" = some .null → old.effectiveFrom = none
  effectiveTo : Map.get? body "effective_to" = some .null → old.effectiveTo = none

omit [Jsonb] [SerdeJson] [DecimalText] [TimeText] in
/-- A member is absent, or `null`, or has a value. -/
theorem readMember_cases {α : Type} {body : Map} {name : String} {read : Value → Option α}
    {given : Option α} (h : readMember body name (readOption read) = some given) :
    Map.get? body name = none ∧ given = none ∨ Map.get? body name = some .null ∧ given = none ∨
      ∃ v x, v ≠ .null ∧ Map.get? body name = some v ∧ read v = some x ∧ given = some x := by
  rw [readMember] at h
  cases hget : Map.get? body name with
  | none =>
    rw [hget] at h
    exact Or.inl ⟨rfl, (Option.some.inj h).symm⟩
  | some v =>
    rw [hget] at h
    cases v with
    | null => exact Or.inr (Or.inl ⟨rfl, (Option.some.inj h).symm⟩)
    | _ =>
      obtain ⟨x, hx, rfl⟩ := Option.map_eq_some_iff.1 h
      exact Or.inr (Or.inr ⟨_, x, by simp, rfl, hx, rfl⟩)

omit [Jsonb] [SerdeJson] [DecimalText] [TimeText] in
theorem takes_of_readMember {α : Type} {body : Map} {name : String} {read : Value → Option α}
    {column : α → Option α} {given : Option α} {old new : α}
    (h : readMember body name (readOption read) = some given) (hold : column old = some old)
    (hnew : column (given.getD old) = some new) : Takes body name read column old new := by
  rw [Takes]
  rcases readMember_cases h with ⟨hget, rfl⟩ | ⟨hget, rfl⟩ | ⟨v, x, hv, hget, hread, rfl⟩
  · rw [hget]
    exact Option.some.inj (hnew.symm.trans hold)
  · rw [hget]
    exact Option.some.inj (hnew.symm.trans hold)
  · rw [hget]
    cases v with
    | null => exact absurd rfl hv
    | _ => exact ⟨x, hread, hnew⟩

omit [Jsonb] [SerdeJson] [DecimalText] [TimeText] in
theorem takesOrClears_iff {α : Type} {body : Map} {name : String} {read : Value → Option α}
    {column : α → Option α} {given : Option (Option α)} {old new : Option α}
    (h : readMember body name (readOption (readOption read)) = some given)
    (hold : nullable column old = some old) (hnew : nullable column (given.getD old) = some new) :
    TakesOrClears body name read column old new ↔
      (Map.get? body name = some .null → old = none) := by
  rw [TakesOrClears]
  rcases readMember_cases h with ⟨hget, rfl⟩ | ⟨hget, rfl⟩ | ⟨v, x, hv, hget, hread, rfl⟩
  · rw [hget]
    exact iff_of_true (Option.some.inj (hnew.symm.trans hold)) (by simp)
  · rw [hget, Option.some.inj (hnew.symm.trans hold)]
    exact ⟨fun hnone _ ↦ hnone, fun hclear ↦ hclear rfl⟩
  · rw [hget]
    cases v with
    | null => exact absurd rfl hv
    | _ =>
      obtain ⟨y, hy, rfl⟩ := Option.map_eq_some_iff.1 hread
      exact iff_of_true ⟨y, hy, hnew⟩ (by simp)

/-! ### Stored rules are as their columns hold them -/

omit [Jsonb] [SerdeJson] [DecimalText] [TimeText] in
theorem nullable_nullable {α : Type} {column : α → Option α}
    (hcolumn : ∀ {x y : α}, column x = some y → column y = some y) {v w : Option α}
    (h : nullable column v = some w) : nullable column w = some w := by
  cases v with
  | none =>
    rw [← Option.some.inj h]
    rfl
  | some x =>
    obtain ⟨y, hy, rfl⟩ := Option.map_eq_some_iff.1 h
    exact Option.map_eq_some_iff.2 ⟨y, hcolumn hy, rfl⟩

omit [SerdeJson] [DecimalText] [TimeText] in
theorem columns_eq_some_iff {row row' : PriceRule} :
    PriceDb.columns row = some row' ↔ ∃ basePrice dimensions segments,
      row' = { row with basePrice, dimensions, segments } ∧
      numeric 20 10 row.basePrice = some basePrice ∧
      nullable Jsonb.store row.dimensions = some dimensions ∧
      nullable Jsonb.store row.segments = some segments := by
  simp only [PriceDb.columns, Option.bind_eq_some_iff, Option.map_eq_some_iff]
  constructor
  · intro ⟨basePrice, hprice, dimensions, hdimensions, segments, hsegments, hrow⟩
    exact ⟨basePrice, dimensions, segments, hrow.symm, hprice, hdimensions, hsegments⟩
  · intro ⟨basePrice, dimensions, segments, hrow, hprice, hdimensions, hsegments⟩
    exact ⟨basePrice, hprice, dimensions, hdimensions, segments, hsegments, hrow.symm⟩

/-- The columns hold the rule as it is. -/
structure PriceRule.Held (r : PriceRule) : Prop where
  basePrice : numeric 20 10 r.basePrice = some r.basePrice
  dimensions : nullable Jsonb.store r.dimensions = some r.dimensions
  segments : nullable Jsonb.store r.segments = some r.segments

omit [SerdeJson] [DecimalText] [TimeText] in
theorem held_of_columns {row row' : PriceRule} (h : PriceDb.columns row = some row') :
    row'.Held := by
  obtain ⟨basePrice, dimensions, segments, rfl, hprice, hdimensions, hsegments⟩ :=
    columns_eq_some_iff.1 h
  exact ⟨numeric_numeric hprice, nullable_nullable Jsonb.store_store hdimensions,
    nullable_nullable Jsonb.store_store hsegments⟩

namespace PriceDb

/-- The columns hold all rules as they are. -/
def AllHeld (db : PriceDb) : Prop := ∀ r ∈ db.rules, r.Held

omit [SerdeJson] [DecimalText] [TimeText] in
theorem allHeld_append {db : PriceDb} (hdb : db.AllHeld) {row : PriceRule} (hrow : row.Held)
    (id : Uuid) : ∀ r ∈ db.rules ++ [{ row with id }], r.Held := by
  intro r hr
  rcases List.mem_append.1 hr with hr | hr
  · exact hdb r hr
  · rw [List.mem_singleton.1 hr]
    exact ⟨hrow.basePrice, hrow.dimensions, hrow.segments⟩

omit [SerdeJson] [DecimalText] [TimeText] in
theorem allHeld_insertRule {db db' : PriceDb} {row : PriceRule} (hdb : db.AllHeld)
    (h : db.insertRule row = .ok db') : db'.AllHeld := by
  obtain ⟨row', hrow, h⟩ := bind_eq_ok.1 h
  rw [guard_eq_ok] at h
  rw [← Except.ok.inj h.2]
  exact allHeld_append hdb (held_of_columns (PriceDb.columns_of_checkColumns hrow)) _

omit [SerdeJson] [DecimalText] [TimeText] in
/-- What a replacement writes. -/
theorem replaceRule_eq_ok {db db' : PriceDb} {row : PriceRule} (h : db.replaceRule row = .ok db') :
    ∃ row', columns row = some row' ∧
      db' = { db with rules := db.rules.map fun r ↦ if r.id = row'.id then row' else r } := by
  obtain ⟨row', hrow, h⟩ := bind_eq_ok.1 h
  rw [guard_eq_ok] at h
  exact ⟨row', PriceDb.columns_of_checkColumns hrow, (Except.ok.inj h.2).symm⟩

omit [SerdeJson] [DecimalText] [TimeText] in
theorem allHeld_replaceRule {db db' : PriceDb} {row : PriceRule} (hdb : db.AllHeld)
    (h : db.replaceRule row = .ok db') : db'.AllHeld := by
  obtain ⟨row', hrow, rfl⟩ := replaceRule_eq_ok h
  intro r hr
  obtain ⟨r₀, hr₀, rfl⟩ := List.mem_map.1 hr
  by_cases hid : r₀.id = row'.id
  · rw [if_pos hid]
    exact held_of_columns hrow
  · rw [if_neg hid]
    exact hdb r₀ hr₀

omit [SerdeJson] [DecimalText] [TimeText] in
theorem allHeld_upsertRule {db db' : PriceDb} {now : ℤ} {r : ImportRow} (hdb : db.AllHeld)
    (h : db.upsertRule now r = .ok db') : db'.AllHeld := by
  obtain ⟨row, hrow, h⟩ := bind_eq_ok.1 h
  have hheld := held_of_columns (PriceDb.columns_of_checkColumns hrow)
  split at h
  · rw [← Except.ok.inj h]
    intro r hr
    obtain ⟨r₀, hr₀, rfl⟩ := List.mem_map.1 hr
    by_cases hkey : r₀.key = row.key
    · rw [if_pos hkey]
      exact ⟨hheld.basePrice, hheld.dimensions, hheld.segments⟩
    · rw [if_neg hkey]
      exact hdb r₀ hr₀
  · rw [← Except.ok.inj h]
    exact allHeld_append hdb hheld _

omit [SerdeJson] [DecimalText] [TimeText] in
theorem allHeld_upsertRules {db db' : PriceDb} {now : ℤ} {rows : List ImportRow} (hdb : db.AllHeld)
    (h : db.upsertRules now rows = .ok db') : db'.AllHeld := by
  induction rows generalizing db with
  | nil =>
    rw [← Except.ok.inj h]
    exact hdb
  | cons r rest ih =>
    obtain ⟨mid, hmid, h⟩ := bind_eq_ok.1 h
    exact ih (allHeld_upsertRule hdb hmid) h

omit [DecimalText] [TimeText] in
/-- A change replaces the rule by the merged one. -/
theorem updateRule_eq_ok {db db' : PriceDb} {id : Uuid} {body : UpdateRuleReq}
    (h : db.updateRule id body = .ok db') :
    ∃ old, db.rules.find? (fun r ↦ decide (r.id = id)) = some old ∧
      db.replaceRule (merged old body) = .ok db' := by
  rw [updateRule] at h
  split at h
  case h_1 => exact absurd h (by simp)
  case h_2 old hfind =>
    rw [check_eq_ok] at h
    exact ⟨old, hfind, h.2⟩

omit [TimeText] in
theorem allHeld_apply {db db' : PriceDb} {op : Op} (hdb : db.AllHeld) (h : db.apply op = .ok db') :
    db'.AllHeld := by
  cases op with
  | create now body =>
    rw [apply, createRule, check_eq_ok] at h
    exact allHeld_insertRule hdb h.2
  | update id body =>
    obtain ⟨old, -, h⟩ := updateRule_eq_ok h
    exact allHeld_replaceRule hdb h
  | delete id =>
    rw [apply, deleteRule] at h
    split at h
    · intro r hr
      rw [← Except.ok.inj h] at hr
      exact hdb r (List.mem_filter.1 hr).1
    · exact absurd h (by simp)
  | importRules now items upstreamIds dryRun =>
    obtain ⟨result, hresult, rfl⟩ := map_eq_ok.1 h
    rw [importRules] at hresult
    split at hresult
    · obtain ⟨db', hdb', rfl⟩ := map_eq_ok.1 hresult
      exact allHeld_upsertRules hdb hdb'
    · rw [← Except.ok.inj hresult]
      exact hdb

omit [TimeText] in
/-- After any operations the columns hold all rules as they are. -/
theorem allHeld_run (upstreams : List Uuid) (ops : List Op) :
    (Transition.run step { upstreams } ops).AllHeld := by
  refine Transition.run_preserves (fun db op hdb ↦ ?_) (fun r hr ↦ absurd hr List.not_mem_nil) ops
  rw [step]
  cases happly : db.apply op with
  | error e => exact hdb
  | ok db' => exact allHeld_apply hdb happly

end PriceDb

/-! ### A change sets what the body has, except where it clears -/

omit [Jsonb] [DecimalText] [TimeText] in
/-- The dimension key of a change is that of the dimensions the rule is to have, unless the change
clears dimensions that are not empty. -/
theorem dimensionKey_merged {body : Map} {given : Option (Option Value)} {old : PriceRule}
    (h : readMember body "dimensions" (readOption (readOption some)) = some given)
    (hclears : Map.get? body "dimensions" = some .null → old.dimensions = none) :
    normalizeDimensionKey (given.getD old.dimensions) =
      normalizeDimensionKey (resultingDimensions body old) := by
  rw [resultingDimensions]
  rcases readMember_cases h with ⟨hget, rfl⟩ | ⟨hget, rfl⟩ | ⟨v, x, hv, hget, hread, rfl⟩
  · rw [hget, Option.getD_none]
  · rw [hget, Option.getD_none, hclears hget]
  · rw [hget, Option.getD_some]
    cases v with
    | null => exact absurd rfl hv
    | _ => rw [← Option.some.inj hread]

/-- What the columns hold of a merged rule. -/
theorem setsExactly_merged_iff {body : Map} {req : UpdateRuleReq} {old new : PriceRule}
    (hreq : req.ReadFrom body) (hold : old.Held)
    (hnew : PriceDb.columns (PriceDb.merged old req) = some new) :
    SetsExactly body old new ↔ ClearsNothing body old := by
  obtain ⟨basePrice, dimensions, segments, rfl, hprice, hdimensions, hsegments⟩ :=
    columns_eq_some_iff.1 hnew
  have hany {α : Type} (v : Option α) : nullable some v = some v := by cases v <;> rfl
  have hclearsDimensions := takesOrClears_iff hreq.dimensions hold.dimensions hdimensions
  have hclearsSegments := takesOrClears_iff hreq.segments hold.segments hsegments
  have hclearsFrom := takesOrClears_iff hreq.effectiveFrom (hany old.effectiveFrom) (hany _)
  have hclearsTo := takesOrClears_iff hreq.effectiveTo (hany old.effectiveTo) (hany _)
  constructor
  · intro h
    exact ⟨hclearsDimensions.1 h.dimensions, hclearsSegments.1 h.segments,
      hclearsFrom.1 h.effectiveFrom, hclearsTo.1 h.effectiveTo⟩
  · intro h
    constructor
    case id => rfl
    case upstreamId => exact takes_of_readMember hreq.upstreamId rfl rfl
    case modelId => exact takes_of_readMember hreq.modelId rfl rfl
    case unit => exact takes_of_readMember hreq.unit rfl rfl
    case currency => exact takes_of_readMember hreq.currency rfl rfl
    case basePrice => exact takes_of_readMember hreq.basePrice hold.basePrice hprice
    case source => rfl
    case dimensions => exact hclearsDimensions.2 h.dimensions
    case dimensionKey => exact dimensionKey_merged hreq.dimensions h.dimensions
    case segments => exact hclearsSegments.2 h.segments
    case contextBasis => exact takes_of_readMember hreq.contextBasis rfl rfl
    case effectiveFrom => exact hclearsFrom.2 h.effectiveFrom
    case effectiveTo => exact hclearsTo.2 h.effectiveTo
    case priority => exact takes_of_readMember hreq.priority rfl rfl
    case sortOrder => exact takes_of_readMember hreq.sortOrder rfl rfl
    case enabled => exact takes_of_readMember hreq.enabled rfl rfl
    case createdAt => rfl

/-- After any operations, a change of a rule sets exactly the fields in its body, and no other rule,
if and only if it clears only what is empty. -/
theorem setsExactly_iff (upstreams : List Uuid) (ops : List Op) {id : Uuid} {body : Map}
    {req : UpdateRuleReq} {old : PriceRule} {db' : PriceDb}
    (hold : (Transition.run PriceDb.step { upstreams } ops).rules.find?
      (fun r ↦ decide (r.id = id)) = some old)
    (hreq : readUpdateRuleReq body = some req)
    (h : (Transition.run PriceDb.step { upstreams } ops).updateRule id req = .ok db') :
    ∃ new, (db'.rules = (Transition.run PriceDb.step { upstreams } ops).rules.map fun r ↦
        if r.id = id then new else r) ∧
      (SetsExactly body old new ↔ ClearsNothing body old) := by
  have hheld := PriceDb.allHeld_run upstreams ops old (List.mem_of_find?_eq_some hold)
  obtain ⟨found, hfound, h⟩ := PriceDb.updateRule_eq_ok h
  obtain rfl : old = found := Option.some.inj (hold.symm.trans hfound)
  obtain ⟨new, hnew, rfl⟩ := PriceDb.replaceRule_eq_ok h
  have holdId : old.id = id := by simpa using List.find?_some hold
  have hid : new.id = id := by
    obtain ⟨_, _, _, hnew, -⟩ := columns_eq_some_iff.1 hnew
    rw [hnew]
    exact holdId
  refine ⟨new, ?_, setsExactly_merged_iff (readFrom_of_readUpdateRuleReq hreq) hheld hnew⟩
  rw [hid]

end Rules

/-! ### A few changes -/

local instance changesCodec : SerdeJson := Compact.codec

local instance changesColumns : Jsonb := .lossless

/-- Decimals without a point. -/
local instance changesDecimals : DecimalText where
  fromStrExact s := (Compact.parseNat s.toList).map fun result ↦ (result.1 : ℚ)
  ofJson v := v.asStr.bind fun s ↦ (Compact.parseNat s.toList).map fun result ↦ (result.1 : ℚ)

/-- Points in time as seconds. -/
local instance changesTimes : TimeText where
  ofJson := Value.asI64

/-- A price of images of a size, until a point in time. -/
def imagePrice : CreateRuleReq where
  upstreamId := 0
  modelId := "m"
  unit := "image"
  currency := "CNY"
  basePrice := 3
  dimensions := some (.object [("image_size", .str "1024x1024")])
  effectiveTo := some 100

/-- The rule that is stored for it. -/
def imageRule : PriceRule := imagePrice.newRule 0

/-- A new price and new dimensions. -/
def newDimensions : Map :=
  [("base_price", .str "4"), ("dimensions", .object [("image_size", .str "512x512")])]

/-- The rule with the new price and the new dimensions. -/
def smallImageRule : PriceRule :=
  { imageRule with
    basePrice := 4
    dimensions := some (.object [("image_size", .str "512x512")])
    dimensionKey := "\x7b\"image_size\":\"512x512\"\x7d" }

/-- The rules after a change of the stored rule. -/
def changedRules (body : Map) : Except ApiError (List PriceRule) :=
  ((Transition.run PriceDb.step { upstreams := [0] } [.create 0 imagePrice]).updateRule 0
    ((readUpdateRuleReq body).getD {})).map PriceDb.rules

theorem setsExactly_newDimensions :
    changedRules newDimensions = .ok [smallImageRule] ∧
      ∃ new, ([smallImageRule] = [imageRule].map fun r ↦ if r.id = 0 then new else r) ∧
        (SetsExactly newDimensions imageRule new ↔ ClearsNothing newDimensions imageRule) := by
  refine ⟨by decide +kernel, ?_⟩
  have hrules : (Transition.run PriceDb.step { upstreams := [0] } [.create 0 imagePrice]).rules =
      [imageRule] := by decide +kernel
  have h := setsExactly_iff [0] [.create 0 imagePrice]
    (show (Transition.run PriceDb.step { upstreams := [0] } [.create 0 imagePrice]).rules.find?
      (fun r ↦ decide (r.id = 0)) = some imageRule by decide +kernel)
    (show readUpdateRuleReq newDimensions = some _ from rfl)
    (show (Transition.run PriceDb.step { upstreams := [0] } [.create 0 imagePrice]).updateRule 0
      ((readUpdateRuleReq newDimensions).getD {}) =
        .ok { upstreams := [0], rules := [smallImageRule], nextId := 1 } by decide +kernel)
  rw [hrules] at h
  exact h

/-- An end that is to be cleared stays. -/
theorem not_setsExactly_clearedEnd :
    changedRules [("effective_to", .null)] = .ok [imageRule] ∧
      ¬ SetsExactly [("effective_to", .null)] imageRule imageRule := by
  refine ⟨by decide +kernel, fun h ↦ ?_⟩
  have hto : imageRule.effectiveTo = none := h.effectiveTo
  exact absurd hto (by decide +kernel)

end NextApi.Pricing
