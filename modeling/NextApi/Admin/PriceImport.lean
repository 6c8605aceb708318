import NextApi.Admin.PriceRules

/-!
# Importing price rules

A file has an item for an upstream, a model and a currency, with up to four prices of tokens and any
number of rules for images and videos. Every item becomes rows, which are checked one by one
(`validateRow`); an item with a row that fails is left out, and so is one whose keys have all been
seen in the file. The rows are written in one transaction, each replacing the rule that has its key.
-/

set_option autoImplicit false

namespace NextApi.Pricing

open Json Admin Logging

/-! ### Items and rows -/

/-- An item of a file. -/
structure PriceExportItem where
  modelId : String
  upstream : String
  currency : String
  inputPerM : Option ℚ := none
  outputPerM : Option ℚ := none
  cacheReadPerM : Option ℚ := none
  cacheWritePerM : Option ℚ := none
  segments : Option Value := none
  image : Option Value := none
  video : Option Value := none
  deriving DecidableEq, Inhabited

structure ImportRow where
  upstreamId : Uuid
  modelId : String
  unit : String
  currency : String
  basePrice : ℚ
  dimensions : Option Value
  dimensionKey : String
  segments : Option Value
  contextBasis : String
  deriving DecidableEq, Inhabited

structure FailedRow where
  index : ℕ
  reason : String
  deriving DecidableEq, Inhabited

structure ImportReport where
  total : ℕ := 0
  succeeded : ℕ := 0
  skipped : ℕ := 0
  failed : List FailedRow := []
  deriving DecidableEq, Inhabited

section Expanding

variable [SerdeJson]

def makeRow (upId : Uuid) (modelId unit currency : String) (basePrice : ℚ)
    (dimensions segments : Option Value) : ImportRow where
  upstreamId := upId
  modelId
  unit
  currency
  basePrice
  dimensions
  dimensionKey := normalizeDimensionKey dimensions
  segments
  contextBasis := "prompt_tokens"

variable [DecimalText]

/-- A decimal in a document is a number or a string. -/
def jsonToDecimal (v : Value) : Option ℚ :=
  match v with
  | .int i => DecimalText.fromStrExact (SerdeJson.toText (.int i))
  | .float x => DecimalText.fromStrExact (SerdeJson.toText (.float x))
  | .str s => DecimalText.fromStrExact s
  | _ => none

/-- Price, dimensions and segments of a rule for images or videos. -/
def mediaParts (v : Value) : ℚ × Option Value × Option Value :=
  (((v.get? "base_price").bind jsonToDecimal).getD 0, v.get? "dimensions", v.get? "segments")

/-- The row of a price of tokens. -/
def tokenRow (item : PriceExportItem) (upId : Uuid) (unit : String) (price : Option ℚ) :
    Option ImportRow :=
  price.map fun p ↦
    makeRow upId item.modelId unit item.currency p none (item.segments.bind fun m ↦ m.get? unit)

/-- The rows of the rules for images or videos. -/
def mediaRows (item : PriceExportItem) (upId : Uuid) (unit : String) (rules : Option Value) :
    List ImportRow :=
  ((rules.bind Value.asArray).getD []).map fun rule ↦
    makeRow upId item.modelId unit item.currency (mediaParts rule).1 (mediaParts rule).2.1
      (mediaParts rule).2.2

def expandItem (item : PriceExportItem) (upId : Uuid) : List ImportRow :=
  (tokenRow item upId "token_in" item.inputPerM).toList ++
    (tokenRow item upId "token_out" item.outputPerM).toList ++
    (tokenRow item upId "token_cache_read" item.cacheReadPerM).toList ++
    (tokenRow item upId "token_cache_write" item.cacheWritePerM).toList ++
    mediaRows item upId "image" item.image ++ mediaRows item upId "video_second" item.video

end Expanding

/-- The checks of a row, and the reason when one fails. -/
def validateRow (row : ImportRow) : Except String ImportRow :=
  if !validUnit row.unit then .error s!"非法计价单位: {row.unit}"
  else if !validCurrency row.currency then .error s!"非法币种: {row.currency}"
  else if row.basePrice < 0 then .error "价格不能为负"
  else if row.dimensions.any fun d ↦ !d.isNull && !d.isObject then .error "维度必须为对象"
  else if row.segments.any fun s ↦ !s.isArray then .error "分段必须为数组"
  else .ok row

/-- Checks rows up to the first that fails. -/
def validateRows : List ImportRow → Except String (List ImportRow)
  | [] => .ok []
  | row :: rest =>
    (validateRow row).bind fun row ↦ (validateRows rest).map fun rows ↦ row :: rows

def ImportRow.key (r : ImportRow) : RuleKey :=
  ⟨r.upstreamId, r.modelId, r.unit, r.currency, r.dimensionKey⟩

/-! ### Files -/

/-- The analysis of a file so far: the rows to write, their keys, and the report. -/
structure Analysis where
  rows : List ImportRow := []
  seen : List RuleKey := []
  report : ImportReport := {}
  deriving DecidableEq, Inhabited

namespace Analysis

/-- Counts an item that fails. -/
def fail (a : Analysis) (idx : ℕ) (reason : String) : Analysis :=
  { a with report := { a.report with failed := a.report.failed ++ [⟨idx, reason⟩] } }

section Items

variable [SerdeJson] [DecimalText]

def analyzeItem (upstreamIds : Table String Uuid) (a : Analysis) (idx : ℕ) (item : PriceExportItem) :
    Analysis :=
  match upstreamIds.lookup item.upstream with
  | none => a.fail idx s!"上游不存在: {item.upstream}"
  | some upId =>
    let frags := expandItem item upId
    if frags.isEmpty then a.fail idx "无可导入的价格项"
    else
      match validateRows frags with
      | .error reason => a.fail idx reason
      | .ok valid =>
        if valid.all fun r ↦ a.seen.contains r.key then
          { a with report := { a.report with skipped := a.report.skipped + 1 } }
        else
          { rows := a.rows ++ valid
            seen := a.seen ++ valid.map ImportRow.key
            report := { a.report with succeeded := a.report.succeeded + 1 } }

/-- Goes through the items, the first having the index `idx`. -/
def analyzeFrom (upstreamIds : Table String Uuid) (idx : ℕ) (a : Analysis) :
    List PriceExportItem → Analysis
  | [] => a
  | item :: rest => analyzeFrom upstreamIds (idx + 1) (a.analyzeItem upstreamIds idx item) rest

end Items

end Analysis

section Import

variable [SerdeJson] [DecimalText]

/-- The rows that a file gives, and the report. -/
def analyzeImport (items : List PriceExportItem) (upstreamIds : Table String Uuid) :
    List ImportRow × ImportReport :=
  let a := Analysis.analyzeFrom upstreamIds 0 {} items
  (a.rows, { a.report with total := items.length })

end Import

/-- The rule of a row whose key no rule has. -/
def ImportRow.newRule (r : ImportRow) (now : ℤ) : PriceRule where
  id := 0
  upstreamId := r.upstreamId
  modelId := r.modelId
  unit := r.unit
  currency := r.currency
  basePrice := r.basePrice
  source := "import"
  dimensions := r.dimensions
  dimensionKey := r.dimensionKey
  segments := r.segments
  contextBasis := r.contextBasis
  createdAt := now

/-- What an import replaces of a rule. -/
def PriceRule.overwrite (old new : PriceRule) : PriceRule :=
  { old with
    basePrice := new.basePrice
    dimensions := new.dimensions
    dimensionKey := new.dimensionKey
    segments := new.segments
    contextBasis := new.contextBasis
    source := "import" }

namespace PriceDb

section Upserts

variable [Jsonb]

/-- `INSERT … ON CONFLICT … DO UPDATE`. -/
def upsertRule (db : PriceDb) (now : ℤ) (r : ImportRow) : Except ApiError PriceDb :=
  (db.checkColumns (r.newRule now)).bind fun row ↦
    if db.rules.any fun old ↦ decide (old.key = row.key) then
      .ok { db with
        rules := db.rules.map fun old ↦ if old.key = row.key then old.overwrite row else old }
    else .ok { db with
      rules := db.rules ++ [{ row with id := db.freshId }], nextId := db.nextId + 1 }

def upsertRules (db : PriceDb) (now : ℤ) : List ImportRow → Except ApiError PriceDb
  | [] => .ok db
  | r :: rest => (db.upsertRule now r).bind fun db ↦ upsertRules db now rest

variable [SerdeJson] [DecimalText]

/-- Imports the items of a file, or only reports on them. -/
def importRules (db : PriceDb) (now : ℤ) (items : List PriceExportItem) (upstreamIds : Table String Uuid)
    (dryRun : Bool) : Except ApiError (PriceDb × ImportReport) :=
  let result := analyzeImport items upstreamIds
  if !dryRun && !result.1.isEmpty then (db.upsertRules now result.1).map fun db ↦ (db, result.2)
  else .ok (db, result.2)

end Upserts

end PriceDb

end NextApi.Pricing
