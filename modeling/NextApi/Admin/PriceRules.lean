import NextApi.Admin.Routes
import NextApi.Json.Codec
import NextApi.Logging.Batch

/-!
# Price rules

A price rule is the price of one unit of a model at an upstream, in one currency, for the requests
with its dimensions; segments change the price with the time and the length of the prompt. Rules are
created, changed and deleted one by one, or imported from a file. No two rules have the same
upstream, model, unit, currency and dimension key.

A file is taken as the list of its items. Decimals are rational numbers, and their texts belong to a
third-party package (`DecimalText`). So does what a `JSONB` column keeps of a document (`Jsonb`): it
rewrites numbers and refuses some strings, but leaves the nesting alone.
-/

set_option autoImplicit false

namespace NextApi.Pricing

open Json Admin Logging

/-! ### Documents -/

mutual

/-- The depth of nesting, a scalar counting as one. -/
def jsonDepth : Value → ℕ
  | .arr items => 1 + jsonDepthItems items
  | .obj members => 1 + jsonDepthMembers members
  | _ => 1

def jsonDepthItems : List Value → ℕ
  | [] => 0
  | v :: rest => max (jsonDepth v) (jsonDepthItems rest)

def jsonDepthMembers : List (String × Value) → ℕ
  | [] => 0
  | (_, v) :: rest => max (jsonDepth v) (jsonDepthMembers rest)

end

/-- `as_array().map_or(0, Vec::len)`. -/
def arrayLength (v : Value) : ℕ := (v.asArray.map List.length).getD 0

/-- Two documents that differ in their scalars at most. -/
structure SameShape (v w : Value) : Prop where
  isNull : v.isNull = w.isNull
  isObject : v.isObject = w.isObject
  isArray : v.isArray = w.isArray
  length : arrayLength v = arrayLength w
  depth : jsonDepth v = jsonDepth w

/-- What a `JSONB` column gives back of a document, `none` being an error. -/
class Jsonb where
  store : Value → Option Value
  store_shape {v w : Value} : store v = some w → SameShape w v
  store_store {v w : Value} : store v = some w → store w = some w

/-- A column that keeps every document as it is. -/
abbrev Jsonb.lossless : Jsonb where
  store := some
  store_shape h := by
    rw [← Option.some.inj h]
    exact ⟨rfl, rfl, rfl, rfl, rfl⟩
  store_store _ := rfl

/-- `from_str_exact` of a decimal, and the derived reader. -/
class DecimalText where
  fromStrExact : String → Option ℚ
  ofJson : Value → Option ℚ

section Key

variable [SerdeJson]

/-- The text of the dimensions, which has no text for no dimensions. -/
def normalizeDimensionKey : Option Value → String
  | none => ""
  | some .null => ""
  | some (.obj []) => ""
  | some other => SerdeJson.toText other

end Key

/-! ### Rows -/

structure PriceRule where
  id : Uuid
  upstreamId : Uuid
  modelId : String
  unit : String
  currency : String
  basePrice : ℚ
  source : String
  dimensions : Option Value := none
  dimensionKey : String := ""
  segments : Option Value := none
  contextBasis : String := "prompt_tokens"
  effectiveFrom : Option ℤ := none
  effectiveTo : Option ℤ := none
  priority : ℤ := 10
  sortOrder : ℤ := 0
  enabled : Bool := true
  createdAt : ℤ
  deriving DecidableEq, Inhabited

/-- The key that no two rules share. -/
structure RuleKey where
  upstreamId : Uuid
  modelId : String
  unit : String
  currency : String
  dimensionKey : String
  deriving DecidableEq, Inhabited

def PriceRule.key (r : PriceRule) : RuleKey :=
  ⟨r.upstreamId, r.modelId, r.unit, r.currency, r.dimensionKey⟩

/-- The rules, and the upstreams that they can refer to. Ids are numbered. -/
structure PriceDb where
  upstreams : List Uuid
  rules : List PriceRule := []
  nextId : ℕ := 0
  deriving DecidableEq, Inhabited

def validUnit (u : String) : Bool :=
  ["token_in", "token_out", "token_cache_write", "token_cache_read", "image",
    "video_second"].contains u

def validCurrency (c : String) : Bool := ["CNY", "USD"].contains c

def validBasis (b : String) : Bool := ["prompt_tokens", "total_tokens"].contains b

namespace PriceDb

def freshId (db : PriceDb) : Uuid := BitVec.ofNat 128 db.nextId

section Writing

variable [Jsonb]

/-- A row as its columns take it. -/
def columns (row : PriceRule) : Option PriceRule :=
  (numeric 20 10 row.basePrice).bind fun basePrice ↦
    (nullable Jsonb.store row.dimensions).bind fun dimensions ↦
      (nullable Jsonb.store row.segments).map fun segments ↦
        { row with basePrice, dimensions, segments }

/-- The constraints of the table. -/
def checkConstraints (db : PriceDb) (row : PriceRule) : Except ApiError PriceRule :=
  if !(validUnit row.unit && validCurrency row.currency &&
      ["manual", "import"].contains row.source && validBasis row.contextBasis &&
      decide (0 ≤ row.basePrice)) then
    .error (.internal "check violation")
  else if !db.upstreams.contains row.upstreamId then .error (.badRequest "引用的资源不存在")
  else .ok row

/-- A row as its columns take it, checked by the constraints of the table. -/
def checkColumns (db : PriceDb) (row : PriceRule) : Except ApiError PriceRule :=
  (columns row).elim (.error (.internal "invalid input")) db.checkConstraints

theorem columns_of_checkColumns {db : PriceDb} {row row' : PriceRule}
    (h : db.checkColumns row = .ok row') : columns row = some row' := by
  rw [checkColumns] at h
  cases hcolumns : columns row with
  | none =>
    rw [hcolumns] at h
    exact absurd h (by simp)
  | some held =>
    rw [hcolumns, Option.elim_some, checkConstraints, guard_eq_ok, guard_eq_ok] at h
    rw [Except.ok.inj h.2.2]

/-- Inserts a row under a new id. -/
def insertRule (db : PriceDb) (row : PriceRule) : Except ApiError PriceDb :=
  (db.checkColumns row).bind fun row ↦
    if db.rules.any fun r ↦ decide (r.key = row.key) then .error (.conflict "唯一键冲突")
    else .ok { db with
      rules := db.rules ++ [{ row with id := db.freshId }], nextId := db.nextId + 1 }

/-- Replaces the row with this id. -/
def replaceRule (db : PriceDb) (row : PriceRule) : Except ApiError PriceDb :=
  (db.checkColumns row).bind fun row ↦
    if db.rules.any fun r ↦ decide (r.key = row.key ∧ r.id ≠ row.id) then
      .error (.conflict "唯一键冲突")
    else .ok { db with rules := db.rules.map fun r ↦ if r.id = row.id then row else r }

end Writing

end PriceDb

/-! ### Creating and changing -/

structure CreateRuleReq where
  upstreamId : Uuid
  modelId : String
  unit : String
  currency : String
  basePrice : ℚ
  dimensions : Option Value := none
  segments : Option Value := none
  contextBasis : Option String := none
  effectiveFrom : Option ℤ := none
  effectiveTo : Option ℤ := none
  priority : Option ℤ := none
  sortOrder : Option ℤ := none
  enabled : Option Bool := none
  deriving Inhabited

/-- A change; what is absent stays. -/
structure UpdateRuleReq where
  upstreamId : Option Uuid := none
  modelId : Option String := none
  unit : Option String := none
  currency : Option String := none
  basePrice : Option ℚ := none
  dimensions : Option (Option Value) := none
  segments : Option (Option Value) := none
  contextBasis : Option String := none
  effectiveFrom : Option (Option ℤ) := none
  effectiveTo : Option (Option ℤ) := none
  priority : Option ℤ := none
  sortOrder : Option ℤ := none
  enabled : Option Bool := none
  deriving Inhabited

/-- The checks of the dimensions. -/
def validateDimensions (dimensions : Option Value) : Except ApiError Unit :=
  match dimensions with
  | some d =>
    if !d.isNull && !d.isObject then .error (.badRequest "dimensions 必须为 JSON 对象")
    else if !d.isNull && decide (10 < jsonDepth d) then
      .error (.badRequest "dimensions 嵌套过深（最多 10 层）")
    else .ok ()
  | none => .ok ()

/-- The checks of the segments. -/
def validateSegments (segments : Option Value) : Except ApiError Unit :=
  match segments with
  | some s =>
    if !s.isArray then .error (.badRequest "segments 必须为 JSON 数组")
    else if 50 < arrayLength s then .error (.badRequest "segments 最多 50 段")
    else if 10 < jsonDepth s then .error (.badRequest "segments 嵌套过深（最多 10 层）")
    else .ok ()
  | none => .ok ()

def validateFields (unit currency : String) (contextBasis : Option String) (basePrice : ℚ)
    (dimensions segments : Option Value) : Except ApiError Unit :=
  if !validUnit unit then
    .error (.badRequest
      "unit 必须为 token_in/token_out/token_cache_write/token_cache_read/image/video_second")
  else if !validCurrency currency then .error (.badRequest "currency 必须为 CNY/USD")
  else if contextBasis.any fun cb ↦ !validBasis cb then
    .error (.badRequest "context_basis 必须为 prompt_tokens/total_tokens")
  else if basePrice < 0 then .error (.badRequest "base_price 不能为负")
  else (validateDimensions dimensions).bind fun _ ↦ validateSegments segments

def validateCreateFields (body : CreateRuleReq) : Except ApiError Unit :=
  if trim body.modelId = "" then .error (.badRequest "model_id 不能为空")
  else if 255 < body.modelId.length then .error (.badRequest "model_id 不能超过 255 字符")
  else validateFields body.unit body.currency body.contextBasis body.basePrice body.dimensions
    body.segments

section NewRule

variable [SerdeJson]

/-- The rule that a request asks for; its id is given when it is inserted. -/
def CreateRuleReq.newRule (body : CreateRuleReq) (now : ℤ) : PriceRule where
  id := 0
  upstreamId := body.upstreamId
  modelId := body.modelId
  unit := body.unit
  currency := body.currency
  basePrice := body.basePrice
  source := "manual"
  dimensions := body.dimensions
  dimensionKey := normalizeDimensionKey body.dimensions
  segments := body.segments
  contextBasis := body.contextBasis.getD "prompt_tokens"
  effectiveFrom := body.effectiveFrom
  effectiveTo := body.effectiveTo
  priority := body.priority.getD 10
  sortOrder := body.sortOrder.getD 0
  enabled := body.enabled.getD true
  createdAt := now

end NewRule

namespace PriceDb

section Requests

variable [Jsonb] [SerdeJson]

def createRule (db : PriceDb) (now : ℤ) (body : CreateRuleReq) : Except ApiError PriceDb :=
  (validateCreateFields body).bind fun _ ↦ db.insertRule (body.newRule now)

/-- A rule with a change. -/
def merged (existing : PriceRule) (body : UpdateRuleReq) : PriceRule :=
  let dimensions := body.dimensions.getD existing.dimensions
  { existing with
    upstreamId := body.upstreamId.getD existing.upstreamId
    modelId := body.modelId.getD existing.modelId
    unit := body.unit.getD existing.unit
    currency := body.currency.getD existing.currency
    basePrice := body.basePrice.getD existing.basePrice
    dimensions
    dimensionKey := normalizeDimensionKey dimensions
    segments := body.segments.getD existing.segments
    contextBasis := body.contextBasis.getD existing.contextBasis
    effectiveFrom := body.effectiveFrom.getD existing.effectiveFrom
    effectiveTo := body.effectiveTo.getD existing.effectiveTo
    priority := body.priority.getD existing.priority
    sortOrder := body.sortOrder.getD existing.sortOrder
    enabled := body.enabled.getD existing.enabled }

def updateRule (db : PriceDb) (id : Uuid) (body : UpdateRuleReq) : Except ApiError PriceDb :=
  match db.rules.find? fun r ↦ decide (r.id = id) with
  | none => .error .notFound
  | some existing =>
    let row := merged existing body
    (validateFields row.unit row.currency (some row.contextBasis) row.basePrice row.dimensions
      row.segments).bind fun _ ↦ db.replaceRule row

def deleteRule (db : PriceDb) (id : Uuid) : Except ApiError PriceDb :=
  if db.rules.any fun r ↦ decide (r.id = id) then
    .ok { db with rules := db.rules.filter fun r ↦ decide (r.id ≠ id) }
  else .error .notFound

end Requests

end PriceDb

end NextApi.Pricing
