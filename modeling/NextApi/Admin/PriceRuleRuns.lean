import NextApi.Admin.PriceImport
import NextApi.Json.Compact

/-!
# Runs of the price rules

A stored rule is `Valid` when it would pass the checks of a new rule and its key is that of its
dimensions. A new rule is checked for all of this. A change is checked for everything but the name
of the model, and an import checks neither the name nor the depth and the length of documents: these
are what a `Careful` operation gets right by itself. The key is computed before the column rewrites
the dimensions, so they have to be ones whose text the column keeps (`KeepsText`).
-/

set_option autoImplicit false

namespace NextApi.Pricing

open Json Admin Logging

/-! ### The checks -/

def ValidModelId (modelId : String) : Prop := trim modelId ≠ "" ∧ modelId.length ≤ 255

/-- Null, or an object that is not nested too deeply. -/
def ValidDimensions (d : Value) : Prop :=
  (d.isNull = true ∨ d.isObject = true) ∧ jsonDepth d ≤ 10

/-- An array that is neither too long nor nested too deeply. -/
def ValidSegments (s : Value) : Prop :=
  s.isArray = true ∧ arrayLength s ≤ 50 ∧ jsonDepth s ≤ 10

theorem jsonDepth_of_isNull {v : Value} (h : v.isNull = true) : jsonDepth v = 1 := by
  cases v with
  | null => rfl
  | _ => exact absurd h Bool.false_ne_true

theorem validateDimensions_eq_ok {dimensions : Option Value} :
    validateDimensions dimensions = .ok () ↔ ∀ d ∈ dimensions, ValidDimensions d := by
  cases dimensions with
  | none => exact iff_of_true rfl fun d hd ↦ absurd hd (Option.not_mem_none d)
  | some d =>
    simp only [Option.mem_some_iff, forall_eq']
    rw [validateDimensions, guard_eq_ok, guard_eq_ok, and_iff_left rfl, ValidDimensions]
    cases hnull : d.isNull with
    | true =>
      rw [jsonDepth_of_isNull hnull]
      simp
    | false =>
      simp

theorem validateSegments_eq_ok {segments : Option Value} :
    validateSegments segments = .ok () ↔ ∀ s ∈ segments, ValidSegments s := by
  cases segments with
  | none => exact iff_of_true rfl fun s hs ↦ absurd hs (Option.not_mem_none s)
  | some s =>
    simp only [Option.mem_some_iff, forall_eq']
    rw [validateSegments, guard_eq_ok, guard_eq_ok, guard_eq_ok, and_iff_left rfl, ValidSegments,
      Bool.not_eq_true', Bool.not_eq_false, not_lt, not_lt]

theorem validateFields_eq_ok {unit currency : String} {contextBasis : Option String}
    {basePrice : ℚ} {dimensions segments : Option Value} :
    validateFields unit currency contextBasis basePrice dimensions segments = .ok () ↔
      validUnit unit = true ∧ validCurrency currency = true ∧
        (∀ basis ∈ contextBasis, validBasis basis = true) ∧ 0 ≤ basePrice ∧
        (∀ d ∈ dimensions, ValidDimensions d) ∧ ∀ s ∈ segments, ValidSegments s := by
  have hbasis : ¬ (contextBasis.any fun cb ↦ !validBasis cb) = true ↔
      ∀ basis ∈ contextBasis, validBasis basis = true := by
    cases contextBasis with
    | none => simp
    | some basis => simp
  rw [validateFields, guard_eq_ok, guard_eq_ok, guard_eq_ok, guard_eq_ok, hbasis, check_eq_ok,
    validateDimensions_eq_ok, validateSegments_eq_ok, Bool.not_eq_true', Bool.not_eq_false,
    Bool.not_eq_true', Bool.not_eq_false, not_lt]

theorem validateCreateFields_eq_ok {body : CreateRuleReq} :
    validateCreateFields body = .ok () ↔
      ValidModelId body.modelId ∧ validateFields body.unit body.currency body.contextBasis
        body.basePrice body.dimensions body.segments = .ok () := by
  rw [validateCreateFields, guard_eq_ok, guard_eq_ok, not_lt, ValidModelId, and_assoc]

/-! ### Valid rules -/

/-- A rule as the request that would create it. -/
def PriceRule.asRequest (r : PriceRule) : CreateRuleReq where
  upstreamId := r.upstreamId
  modelId := r.modelId
  unit := r.unit
  currency := r.currency
  basePrice := r.basePrice
  dimensions := r.dimensions
  segments := r.segments
  contextBasis := some r.contextBasis

section Valid

variable [SerdeJson]

/-- The conditions that the create operation checks, and the key of the dimensions. -/
structure PriceRule.Valid (r : PriceRule) : Prop where
  modelId : ValidModelId r.modelId
  unit : validUnit r.unit = true
  currency : validCurrency r.currency = true
  basePrice : 0 ≤ r.basePrice
  dimensions : ∀ d ∈ r.dimensions, ValidDimensions d
  segments : ∀ s ∈ r.segments, ValidSegments s
  contextBasis : validBasis r.contextBasis = true
  dimensionKey : r.dimensionKey = normalizeDimensionKey r.dimensions

theorem PriceRule.valid_iff (r : PriceRule) :
    r.Valid ↔ validateCreateFields r.asRequest = .ok () ∧
      r.dimensionKey = normalizeDimensionKey r.dimensions := by
  rw [validateCreateFields_eq_ok, validateFields_eq_ok]
  constructor
  · intro h
    refine ⟨⟨h.modelId, h.unit, h.currency, ?_, h.basePrice, h.dimensions, h.segments⟩,
      h.dimensionKey⟩
    intro basis hbasis
    rw [← Option.some.inj hbasis]
    exact h.contextBasis
  · intro ⟨⟨hmodel, hunit, hcurrency, hbasis, hprice, hdimensions, hsegments⟩, hkey⟩
    exact ⟨hmodel, hunit, hcurrency, hprice, hdimensions, hsegments, hbasis _ rfl, hkey⟩

end Valid

/-! ### Writing rows -/

section Writing

variable [Jsonb] [SerdeJson]

/-- The column may rewrite the dimensions, but not their text. -/
def KeepsText (d : Value) : Prop :=
  ∀ w, Jsonb.store d = some w → normalizeDimensionKey (some w) = normalizeDimensionKey (some d)

/-- What a row has to be right about before its columns and constraints are looked at. -/
structure PriceRule.Admissible (row : PriceRule) : Prop where
  modelId : ValidModelId row.modelId
  dimensions : ∀ d ∈ row.dimensions, ValidDimensions d
  segments : ∀ s ∈ row.segments, ValidSegments s
  dimensionKey : row.dimensionKey = normalizeDimensionKey row.dimensions
  keepsText : ∀ d ∈ row.dimensions, KeepsText d

/-- A valid rule whose documents are as the columns gave them back. -/
structure PriceRule.Stored (r : PriceRule) : Prop extends r.Valid where
  keptDimensions : ∀ d ∈ r.dimensions, Jsonb.store d = some d
  keptSegments : ∀ s ∈ r.segments, Jsonb.store s = some s

omit [SerdeJson] in
theorem checkColumns_eq_ok {db : PriceDb} {row row' : PriceRule}
    (h : db.checkColumns row = .ok row') :
    ∃ basePrice dimensions segments,
      row' = { row with basePrice, dimensions, segments } ∧ 0 ≤ basePrice ∧
      nullable Jsonb.store row.dimensions = some dimensions ∧
      nullable Jsonb.store row.segments = some segments ∧
      validUnit row.unit = true ∧ validCurrency row.currency = true ∧
      validBasis row.contextBasis = true := by
  have hcolumns := PriceDb.columns_of_checkColumns h
  obtain ⟨basePrice, -, hcolumns'⟩ := Option.bind_eq_some_iff.1 hcolumns
  obtain ⟨dimensions, hdimensions, hcolumns'⟩ := Option.bind_eq_some_iff.1 hcolumns'
  obtain ⟨segments, hsegments, hr⟩ := Option.map_eq_some_iff.1 hcolumns'
  rw [PriceDb.checkColumns, hcolumns, Option.elim_some, PriceDb.checkConstraints, guard_eq_ok,
    Bool.not_eq_true', Bool.not_eq_false, ← hr] at h
  have hchecks := h.1
  simp only [Bool.and_eq_true, decide_eq_true_iff] at hchecks
  obtain ⟨⟨⟨⟨hunit, hcurrency⟩, -⟩, hbasis⟩, hprice⟩ := hchecks
  exact ⟨basePrice, dimensions, segments, hr.symm, hprice, hdimensions, hsegments, hunit,
    hcurrency, hbasis⟩

omit [SerdeJson] in
/-- A document of a column that may be absent. -/
theorem of_nullable_store {v w : Option Value} (h : nullable Jsonb.store v = some w) :
    ∀ d ∈ w, ∃ d₀ ∈ v, Jsonb.store d₀ = some d := by
  cases v with
  | none =>
    intro d hd
    rw [← Option.some.inj h] at hd
    exact absurd hd (Option.not_mem_none d)
  | some d₀ =>
    intro d hd
    obtain ⟨d', hd', rfl⟩ := Option.map_eq_some_iff.1 h
    rw [← Option.some.inj hd]
    exact ⟨d₀, rfl, hd'⟩

omit [Jsonb] [SerdeJson] in
theorem SameShape.validDimensions {v w : Value} (h : SameShape w v) (hv : ValidDimensions v) :
    ValidDimensions w := by
  rw [ValidDimensions, h.isNull, h.isObject, h.depth]
  exact hv

omit [Jsonb] [SerdeJson] in
theorem SameShape.validSegments {v w : Value} (h : SameShape w v) (hv : ValidSegments v) :
    ValidSegments w := by
  rw [ValidSegments, h.isArray, h.length, h.depth]
  exact hv

/-- The key of an admissible row is that of its stored dimensions. -/
theorem key_of_nullable_store {v w : Option Value} (h : nullable Jsonb.store v = some w)
    (hkeeps : ∀ d ∈ v, KeepsText d) : normalizeDimensionKey w = normalizeDimensionKey v := by
  cases v with
  | none => rw [← Option.some.inj h]
  | some d =>
    obtain ⟨d', hd', rfl⟩ := Option.map_eq_some_iff.1 h
    exact hkeeps d rfl d' hd'

/-- An admissible row that the table takes is stored as a valid rule. -/
theorem PriceRule.Admissible.stored {db : PriceDb} {row row' : PriceRule} (hrow : row.Admissible)
    (h : db.checkColumns row = .ok row') : row'.Stored := by
  obtain ⟨basePrice, dimensions, segments, rfl, hprice, hdimensions, hsegments, hunit, hcurrency,
    hbasis⟩ := checkColumns_eq_ok h
  constructor
  case toValid =>
    constructor
    case modelId => exact hrow.modelId
    case unit => exact hunit
    case currency => exact hcurrency
    case basePrice => exact hprice
    case contextBasis => exact hbasis
    case dimensions =>
      intro d hd
      obtain ⟨d₀, hd₀, hstore⟩ := of_nullable_store hdimensions d hd
      exact (Jsonb.store_shape hstore).validDimensions (hrow.dimensions d₀ hd₀)
    case segments =>
      intro s hs
      obtain ⟨s₀, hs₀, hstore⟩ := of_nullable_store hsegments s hs
      exact (Jsonb.store_shape hstore).validSegments (hrow.segments s₀ hs₀)
    case dimensionKey =>
      show row.dimensionKey = normalizeDimensionKey dimensions
      rw [key_of_nullable_store hdimensions hrow.keepsText]
      exact hrow.dimensionKey
  case keptDimensions =>
    intro d hd
    obtain ⟨d₀, _, hstore⟩ := of_nullable_store hdimensions d hd
    exact Jsonb.store_store hstore
  case keptSegments =>
    intro s hs
    obtain ⟨s₀, _, hstore⟩ := of_nullable_store hsegments s hs
    exact Jsonb.store_store hstore

namespace PriceDb

/-- All rules are valid. -/
def Sound (db : PriceDb) : Prop := ∀ r ∈ db.rules, r.Stored

/-- The id of a rule does not matter. -/
theorem stored_withId {r : PriceRule} (h : r.Stored) (id : Uuid) : { r with id }.Stored where
  modelId := h.modelId
  unit := h.unit
  currency := h.currency
  basePrice := h.basePrice
  dimensions := h.dimensions
  segments := h.segments
  contextBasis := h.contextBasis
  dimensionKey := h.dimensionKey
  keptDimensions := h.keptDimensions
  keptSegments := h.keptSegments

theorem sound_insertRule {db db' : PriceDb} {row : PriceRule} (hdb : db.Sound)
    (hrow : row.Admissible) (h : db.insertRule row = .ok db') : db'.Sound := by
  obtain ⟨row', hcolumns, h⟩ := bind_eq_ok.1 h
  have hstored := hrow.stored hcolumns
  rw [guard_eq_ok] at h
  intro r hr
  rw [← Except.ok.inj h.2] at hr
  rcases List.mem_append.1 hr with hr | hr
  · exact hdb r hr
  · rw [List.mem_singleton.1 hr]
    exact stored_withId hstored _

theorem sound_replaceRule {db db' : PriceDb} {row : PriceRule} (hdb : db.Sound)
    (hrow : row.Admissible) (h : db.replaceRule row = .ok db') : db'.Sound := by
  obtain ⟨row', hcolumns, h⟩ := bind_eq_ok.1 h
  have hstored := hrow.stored hcolumns
  rw [guard_eq_ok] at h
  intro r hr
  rw [← Except.ok.inj h.2] at hr
  obtain ⟨r₀, hr₀, rfl⟩ := List.mem_map.1 hr
  by_cases hid : r₀.id = row'.id
  · rw [if_pos hid]
    exact hstored
  · rw [if_neg hid]
    exact hdb r₀ hr₀

/-- A rule that a row is written over keeps its name, unit and currency. -/
theorem stored_overwrite {old new : PriceRule} (hold : old.Stored) (hnew : new.Stored) :
    (old.overwrite new).Stored where
  modelId := hold.modelId
  unit := hold.unit
  currency := hold.currency
  basePrice := hnew.basePrice
  dimensions := hnew.dimensions
  segments := hnew.segments
  contextBasis := hnew.contextBasis
  dimensionKey := hnew.dimensionKey
  keptDimensions := hnew.keptDimensions
  keptSegments := hnew.keptSegments

theorem sound_upsertRule {db db' : PriceDb} {r : ImportRow} {now : ℤ} (hdb : db.Sound)
    (hrow : (r.newRule now).Admissible) (h : db.upsertRule now r = .ok db') : db'.Sound := by
  obtain ⟨row', hcolumns, h⟩ := bind_eq_ok.1 h
  have hstored := hrow.stored hcolumns
  split at h
  · intro r hr
    rw [← Except.ok.inj h] at hr
    obtain ⟨r₀, hr₀, rfl⟩ := List.mem_map.1 hr
    by_cases hkey : r₀.key = row'.key
    · rw [if_pos hkey]
      exact stored_overwrite (hdb r₀ hr₀) hstored
    · rw [if_neg hkey]
      exact hdb r₀ hr₀
  · intro r hr
    rw [← Except.ok.inj h] at hr
    rcases List.mem_append.1 hr with hr | hr
    · exact hdb r hr
    · rw [List.mem_singleton.1 hr]
      exact stored_withId hstored _

theorem sound_upsertRules {db db' : PriceDb} {rows : List ImportRow} {now : ℤ} (hdb : db.Sound)
    (hrows : ∀ r ∈ rows, (r.newRule now).Admissible) (h : db.upsertRules now rows = .ok db') :
    db'.Sound := by
  induction rows generalizing db with
  | nil =>
    rw [← Except.ok.inj h]
    exact hdb
  | cons r rest ih =>
    obtain ⟨mid, hmid, h⟩ := bind_eq_ok.1 h
    exact ih (sound_upsertRule hdb (hrows r List.mem_cons_self) hmid)
      (fun r' hr' ↦ hrows r' (List.mem_cons_of_mem r hr')) h

end PriceDb

end Writing

/-! ### The rows of a file -/

theorem validateRow_eq_ok {row row' : ImportRow} (h : validateRow row = .ok row') :
    row' = row ∧ (∀ d ∈ row.dimensions, d.isNull = true ∨ d.isObject = true) ∧
      ∀ s ∈ row.segments, s.isArray = true := by
  simp only [validateRow, guard_eq_ok] at h
  obtain ⟨-, -, -, hdimensions, hsegments, hrow⟩ := h
  refine ⟨(Except.ok.inj hrow).symm, fun d hd ↦ ?_, fun s hs ↦ ?_⟩
  · rw [Option.mem_def.1 hd, Option.any_some, Bool.and_eq_true, Bool.not_eq_true',
      Bool.not_eq_true', not_and_or, Bool.not_eq_false, Bool.not_eq_false] at hdimensions
    exact hdimensions
  · rw [Option.mem_def.1 hs, Option.any_some, Bool.not_eq_true', Bool.not_eq_false] at hsegments
    exact hsegments

theorem mem_validateRows {rows valid : List ImportRow} (h : validateRows rows = .ok valid) :
    valid = rows ∧ ∀ r ∈ rows, validateRow r = .ok r := by
  induction rows generalizing valid with
  | nil => exact ⟨(Except.ok.inj h).symm, fun r hr ↦ absurd hr List.not_mem_nil⟩
  | cons row rest ih =>
    obtain ⟨row', hrow, h⟩ := bind_eq_ok.1 h
    obtain ⟨valid', hrest, rfl⟩ := map_eq_ok.1 h
    obtain ⟨rfl, hvalid⟩ := ih hrest
    obtain rfl := (validateRow_eq_ok hrow).1
    refine ⟨rfl, fun r hr ↦ ?_⟩
    rcases List.mem_cons.1 hr with rfl | hr
    · exact hrow
    · exact hvalid r hr

section Files

variable [SerdeJson] [DecimalText]

/-- A row that an item of a file gives. -/
def IsCandidate (items : List PriceExportItem) (upstreamIds : Table String Uuid) (r : ImportRow) :
    Prop :=
  ∃ item ∈ items, ∃ upId, upstreamIds.lookup item.upstream = some upId ∧ r ∈ expandItem item upId

theorem mem_analyzeFrom {upstreamIds : Table String Uuid} {items : List PriceExportItem} {idx : ℕ}
    {a : Analysis} {r : ImportRow}
    (h : r ∈ (Analysis.analyzeFrom upstreamIds idx a items).rows) :
    r ∈ a.rows ∨ IsCandidate items upstreamIds r ∧ validateRow r = .ok r := by
  induction items generalizing idx a with
  | nil => exact Or.inl h
  | cons item rest ih =>
    rcases ih h with h | ⟨⟨item', hmem, hcandidate⟩, hvalid⟩
    · have hhere : r ∈ a.rows ∨ (∃ upId, upstreamIds.lookup item.upstream = some upId ∧
          r ∈ expandItem item upId) ∧ validateRow r = .ok r := by
        unfold Analysis.analyzeItem at h
        split at h
        case h_1 => exact Or.inl h
        case h_2 upId hup =>
          dsimp only at h
          split at h
          case isTrue => exact Or.inl h
          case isFalse =>
            split at h
            case h_1 => exact Or.inl h
            case h_2 valid hvalid =>
              obtain ⟨rfl, hrows⟩ := mem_validateRows hvalid
              split at h
              case isTrue => exact Or.inl h
              case isFalse =>
                rcases List.mem_append.1 h with h | h
                · exact Or.inl h
                · exact Or.inr ⟨⟨upId, hup, h⟩, hrows r h⟩
      exact hhere.imp_right (And.imp_left fun hcandidate ↦ ⟨item, List.mem_cons_self, hcandidate⟩)
    · exact Or.inr ⟨⟨item', List.mem_cons_of_mem item hmem, hcandidate⟩, hvalid⟩

/-- Every row of an item has the key of its dimensions. -/
theorem dimensionKey_of_mem_expandItem {item : PriceExportItem} {upId : Uuid} {r : ImportRow}
    (h : r ∈ expandItem item upId) : r.dimensionKey = normalizeDimensionKey r.dimensions := by
  have htoken {unit : String} {price : Option ℚ} (h : r ∈ (tokenRow item upId unit price).toList) :
      r.dimensionKey = normalizeDimensionKey r.dimensions := by
    obtain ⟨p, -, rfl⟩ := Option.map_eq_some_iff.1 (Option.mem_toList.1 h)
    rfl
  have hmedia {unit : String} {rules : Option Value} (h : r ∈ mediaRows item upId unit rules) :
      r.dimensionKey = normalizeDimensionKey r.dimensions := by
    obtain ⟨rule, -, rfl⟩ := List.mem_map.1 h
    rfl
  simp only [expandItem, List.mem_append] at h
  rcases h with ((((h | h) | h) | h) | h) | h
  · exact htoken h
  · exact htoken h
  · exact htoken h
  · exact htoken h
  · exact hmedia h
  · exact hmedia h

end Files

/-! ### Operations -/

inductive Op where
  | create (now : ℤ) (body : CreateRuleReq)
  | update (id : Uuid) (body : UpdateRuleReq)
  | delete (id : Uuid)
  | importRules (now : ℤ) (items : List PriceExportItem) (upstreamIds : Table String Uuid) (dryRun : Bool)

section Operations

variable [Jsonb] [SerdeJson] [DecimalText]

namespace PriceDb

/-- An operation, which may fail. -/
def apply (db : PriceDb) : Op → Except ApiError PriceDb
  | .create now body => db.createRule now body
  | .update id body => db.updateRule id body
  | .delete id => db.deleteRule id
  | .importRules now items upstreamIds dryRun =>
    (db.importRules now items upstreamIds dryRun).map Prod.fst

/-- An operation that fails leaves everything as it was. -/
def step (db : PriceDb) (op : Op) : PriceDb := (db.apply op).toOption.getD db

end PriceDb

/-- A row of a file that is right about what an import does not check. -/
structure ImportRow.Careful (r : ImportRow) : Prop where
  modelId : ValidModelId r.modelId
  dimensions : ∀ d ∈ r.dimensions, jsonDepth d ≤ 10 ∧ KeepsText d
  segments : ∀ s ∈ r.segments, arrayLength s ≤ 50 ∧ jsonDepth s ≤ 10

/-- An operation that is right about what the code does not check. -/
def Op.Careful : Op → Prop
  | .create _ body => ∀ d ∈ body.dimensions, KeepsText d
  | .update _ body =>
    (∀ modelId ∈ body.modelId, ValidModelId modelId) ∧
      ∀ dimensions ∈ body.dimensions, ∀ d ∈ dimensions, KeepsText d
  | .delete _ => True
  | .importRules _ items upstreamIds _ => ∀ r, IsCandidate items upstreamIds r → r.Careful

omit [DecimalText] in
theorem PriceDb.sound_createRule {db db' : PriceDb} {now : ℤ} {body : CreateRuleReq}
    (hdb : db.Sound) (hcareful : ∀ d ∈ body.dimensions, KeepsText d)
    (h : db.createRule now body = .ok db') : db'.Sound := by
  rw [PriceDb.createRule, check_eq_ok, validateCreateFields_eq_ok, validateFields_eq_ok] at h
  obtain ⟨⟨hmodel, -, -, -, -, hdimensions, hsegments⟩, h⟩ := h
  have hrow : (body.newRule now).Admissible := ⟨hmodel, hdimensions, hsegments, rfl, hcareful⟩
  exact sound_insertRule hdb hrow h

omit [DecimalText] in
theorem PriceDb.sound_updateRule {db db' : PriceDb} {id : Uuid} {body : UpdateRuleReq}
    (hdb : db.Sound) (hmodel : ∀ modelId ∈ body.modelId, ValidModelId modelId)
    (htext : ∀ dimensions ∈ body.dimensions, ∀ d ∈ dimensions, KeepsText d)
    (h : db.updateRule id body = .ok db') : db'.Sound := by
  rw [PriceDb.updateRule] at h
  split at h
  case h_1 => exact absurd h (by simp)
  case h_2 existing hfind =>
    have hexisting := hdb existing (List.mem_of_find?_eq_some hfind)
    rw [check_eq_ok, validateFields_eq_ok] at h
    obtain ⟨⟨-, -, -, -, hdimensions, hsegments⟩, h⟩ := h
    refine sound_replaceRule hdb ⟨?_, hdimensions, hsegments, rfl, ?_⟩ h
    · show ValidModelId (body.modelId.getD existing.modelId)
      cases hbody : body.modelId with
      | none => exact hexisting.modelId
      | some modelId => exact hmodel modelId hbody
    · show ∀ d ∈ body.dimensions.getD existing.dimensions, KeepsText d
      cases hbody : body.dimensions with
      | none =>
        -- dimensions that stay have been through the column already
        intro d hd w hw
        rw [hexisting.keptDimensions d hd] at hw
        rw [Option.some.inj hw]
      | some dimensions => exact htext dimensions hbody

omit [DecimalText] in
theorem PriceDb.sound_deleteRule {db db' : PriceDb} {id : Uuid} (hdb : db.Sound)
    (h : db.deleteRule id = .ok db') : db'.Sound := by
  rw [PriceDb.deleteRule] at h
  split at h
  · intro r hr
    rw [← Except.ok.inj h] at hr
    exact hdb r (List.mem_filter.1 hr).1
  · exact absurd h (by simp)

theorem PriceDb.sound_importRules {db : PriceDb} {now : ℤ} {result : PriceDb × ImportReport}
    {items : List PriceExportItem} {upstreamIds : Table String Uuid} {dryRun : Bool}
    (hdb : db.Sound) (hcareful : ∀ r, IsCandidate items upstreamIds r → r.Careful)
    (h : db.importRules now items upstreamIds dryRun = .ok result) : result.1.Sound := by
  rw [PriceDb.importRules] at h
  split at h
  · obtain ⟨db', hdb', rfl⟩ := map_eq_ok.1 h
    refine sound_upsertRules hdb (fun r hr ↦ ?_) hdb'
    rcases mem_analyzeFrom hr with hr | ⟨hcandidate, hvalid⟩
    · exact absurd hr List.not_mem_nil
    · obtain ⟨hmodel, hdimensions, hsegments⟩ := hcareful r hcandidate
      obtain ⟨item, _, upId, _, hexpand⟩ := hcandidate
      obtain ⟨-, hobject, harray⟩ := validateRow_eq_ok hvalid
      exact ⟨hmodel, fun d hd ↦ ⟨hobject d hd, (hdimensions d hd).1⟩,
        fun s hs ↦ ⟨harray s hs, hsegments s hs⟩, dimensionKey_of_mem_expandItem hexpand,
        fun d hd ↦ (hdimensions d hd).2⟩
  · rw [← Except.ok.inj h]
    exact hdb

theorem PriceDb.sound_step {db : PriceDb} {op : Op} (hdb : db.Sound) (hop : op.Careful) :
    (db.step op).Sound := by
  rw [PriceDb.step]
  cases happly : db.apply op with
  | error e => exact hdb
  | ok db' =>
    show db'.Sound
    cases op with
    | create now body => exact sound_createRule hdb hop happly
    | update id body => exact sound_updateRule hdb hop.1 hop.2 happly
    | delete id => exact sound_deleteRule hdb happly
    | importRules now items upstreamIds dryRun =>
      obtain ⟨result, hresult, rfl⟩ := map_eq_ok.1 happly
      exact sound_importRules hdb hop hresult

/-- After careful operations every stored rule is valid. -/
theorem valid_of_careful (upstreams : List Uuid) (ops : List Op) (h : ∀ op ∈ ops, op.Careful) :
    ∀ r ∈ (Transition.run PriceDb.step { upstreams } ops).rules, r.Valid := by
  suffices hsound : ∀ db : PriceDb, db.Sound → (Transition.run PriceDb.step db ops).Sound from
    fun r hr ↦ (hsound { upstreams } (fun r hr ↦ absurd hr List.not_mem_nil) r hr).toValid
  induction ops with
  | nil => exact fun db hdb ↦ hdb
  | cons op rest ih =>
    intro db hdb
    exact ih (fun op' hop' ↦ h op' (List.mem_cons_of_mem op hop')) _
      (PriceDb.sound_step hdb (h op List.mem_cons_self))

end Operations

/-! ### A few operations -/

local instance : SerdeJson := Compact.codec

local instance : Jsonb := .lossless

/-- Decimals without a point. -/
local instance : DecimalText where
  fromStrExact s := (Compact.parseNat s.toList).map fun result ↦ (result.1 : ℚ)
  ofJson v := v.asStr.bind fun s ↦ (Compact.parseNat s.toList).map fun result ↦ (result.1 : ℚ)

/-- A price of a model. -/
def inputPrice : CreateRuleReq where
  upstreamId := 0
  modelId := "m"
  unit := "token_in"
  currency := "CNY"
  basePrice := 3
  segments := some (.arr [.object [("price", .str "2")]])

/-- An item of a file with a price for images of a size. -/
def imageItem (modelId : String) : PriceExportItem where
  modelId
  upstream := "u"
  currency := "CNY"
  image := some (.arr [.object [("base_price", .str "2"),
    ("dimensions", .object [("image_size", .str "1024x1024")])]])

/-- A rule is made, changed, and another one is imported. -/
def fewOps : List Op :=
  [.create 0 inputPrice, .update 0 { basePrice := some 4, modelId := some "m2" },
    .importRules 0 [imageItem "m"] ((∅ : Table String Uuid).insert "u" 0) false]

theorem careful_imageItem :
    ∀ r, IsCandidate [imageItem "m"] ((∅ : Table String Uuid).insert "u" 0) r → r.Careful := by
  intro r ⟨item, hitem, upId, hup, hr⟩
  rw [List.mem_singleton.1 hitem] at hup hr
  rw [← Option.some.inj ((Table.lookup_insert _ _ _ _).symm.trans hup)] at hr
  have hrow : r = makeRow 0 "m" "image" "CNY" 2
      (some (.object [("image_size", .str "1024x1024")])) none := by
    refine List.mem_singleton.1 ?_
    convert hr using 1
    decide +kernel
  rw [hrow]
  refine ⟨⟨by decide +kernel, by decide +kernel⟩, ?_, fun s hs ↦ absurd hs (Option.not_mem_none s)⟩
  intro d hd
  rw [← Option.some.inj hd]
  refine ⟨by decide +kernel, fun w hw ↦ ?_⟩
  rw [Option.some.inj hw]

theorem valid_fewOps :
    (Transition.run PriceDb.step { upstreams := [0] } fewOps).rules.length = 2 ∧
      ∀ r ∈ (Transition.run PriceDb.step { upstreams := [0] } fewOps).rules, r.Valid := by
  refine ⟨by decide +kernel, valid_of_careful [0] fewOps fun op hop ↦ ?_⟩
  simp only [fewOps, List.mem_cons, List.not_mem_nil, or_false] at hop
  rcases hop with rfl | rfl | rfl
  · exact fun d hd ↦ absurd hd (Option.not_mem_none d)
  · refine ⟨fun modelId hmodelId ↦ ?_, fun dimensions hd ↦ absurd hd (Option.not_mem_none _)⟩
    rw [← Option.some.inj hmodelId]
    exact ⟨by decide +kernel, by decide +kernel⟩
  · exact careful_imageItem

/-- A change to an empty name is made, and a file with an empty name is imported. -/
theorem not_valid_emptyModelId :
    (¬ ∀ r ∈ (Transition.run PriceDb.step { upstreams := [0] }
        [.create 0 inputPrice, .update 0 { modelId := some "" }]).rules, r.Valid) ∧
      ¬ ∀ r ∈ (Transition.run PriceDb.step { upstreams := [0] }
        [.importRules 0 [imageItem ""] ((∅ : Table String Uuid).insert "u" 0) false]).rules, r.Valid := by
  constructor
  · intro h
    have hmem : { inputPrice.newRule 0 with modelId := "" } ∈ (Transition.run PriceDb.step
        { upstreams := [0] } [.create 0 inputPrice, .update 0 { modelId := some "" }]).rules := by
      decide +kernel
    exact (h _ hmem).modelId.1 (by decide +kernel)
  · intro h
    have hmem : (makeRow 0 "" "image" "CNY" 2
        (some (.object [("image_size", .str "1024x1024")])) none).newRule 0 ∈
          (Transition.run PriceDb.step { upstreams := [0] }
            [.importRules 0 [imageItem ""] ((∅ : Table String Uuid).insert "u" 0) false]).rules := by
      decide +kernel
    exact (h _ hmem).modelId.1 (by decide +kernel)

end NextApi.Pricing
