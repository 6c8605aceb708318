import NextApi.Admin.PriceRules
import NextApi.Logging.Series

/-!
# Pricing a request

The price rules of an upstream and a model give the cost of a request. Every unit that the request
used is priced by itself: among the rules in effect those with the dimensions of the request come
before those without dimensions, and of these the best is taken for each currency. The first segment
of the rule that matches the time and the length of the prompt sets the price, else the base price
is taken. The costs are then summed up in both currencies, with exchange rates.

A rate is set by hand or fetched; a rate that is set by hand comes before one that is fetched, and a
fetched one is used as long as it is fresh. Where only the opposite rate is known, its inverse is
used, and between the two currencies of the prices there is a built-in rate when nothing is known.

The rules of one unit are listed by currency in no particular order, as a `HashMap` gives them.
Decimals are rational numbers, but their arithmetic panics when the integer part of a result needs
more than 96 bits (`decimal`); `none` stands for that. That digits beyond these bits are rounded
away is not modelled.
-/

set_option autoImplicit false

namespace NextApi.Billing

/-! ### Decimals -/

/-- The integer part has at most 96 bits. -/
def IsDecimal (x : ℚ) : Prop := |x| < 2 ^ 96 - 1 / 2

instance : DecidablePred IsDecimal := fun x ↦ inferInstanceAs (Decidable (|x| < 2 ^ 96 - 1 / 2))

/-- The result of a multiplication or an addition, `none` being a panic. -/
def decimal (x : ℚ) : Option ℚ := if IsDecimal x then some x else none

/-! ### Rates -/

structure FxRateRow where
  currencyFrom : String
  currencyTo : String
  rate : ℚ
  source : String
  fetchedAt : Option ℤ
  deriving DecidableEq, Inhabited

structure FxRate where
  rate : ℚ
  source : String
  fetchedAt : Option ℤ
  inverse : Bool
  deriving DecidableEq, Inhabited

/-- The rates that are in use, by the two currencies. -/
abbrev FxSet := Table (String × String) FxRate

/-- A fetched rate is fresh for some minutes; without a time it is not. -/
def FxRateRow.isUsable (row : FxRateRow) (now : ℤ) (staleMaxMinutes : ℕ) : Bool :=
  match row.source with
  | "manual" => true
  | "auto" => row.fetchedAt.any fun ts ↦
      decide ((now - ts).tdiv (60 * 10 ^ 9) ≤ (staleMaxMinutes : ℤ).bmod (2 ^ 64))
  | _ => false

/-- Adds a row to the direct rates. -/
def addDirect (now : ℤ) (staleMaxMinutes : ℕ) (direct : FxSet) (row : FxRateRow) : FxSet :=
  if !row.isUsable now staleMaxMinutes then direct
  else
    let pair := (row.currencyFrom, row.currencyTo)
    let rate : FxRate := ⟨row.rate, row.source, row.fetchedAt, false⟩
    match direct.lookup pair with
    | some existing =>
      if row.source = "manual" ∧ existing.source ≠ "manual" then direct.insert pair rate else direct
    | none => direct.insert pair rate

/-- Adds the inverse of a direct rate, where the opposite direction has no rate. -/
def addInverse (map : FxSet) (entry : (String × String) × FxRate) : FxSet :=
  let inverse := (entry.1.2, entry.1.1)
  if (map.lookup inverse).isSome || decide (entry.2.rate = 0) then map
  else map.insert inverse ⟨1 / entry.2.rate, entry.2.source, entry.2.fetchedAt, true⟩

def buildFxSet (rows : List FxRateRow) (now : ℤ) (staleMaxMinutes : ℕ) : FxSet :=
  let direct := rows.foldl (addDirect now staleMaxMinutes) ∅
  direct.toList.foldl addInverse direct

/-- One dollar is 6.73 yuan, when nothing else is known. -/
def defaultUsdCny : ℚ := 673 / 100

/-- The rate from one currency to another one. -/
def FxSet.rate (fx : FxSet) (currencyFrom currencyTo : String) : Option FxRate :=
  match fx.lookup (currencyFrom, currencyTo) with
  | some rate => some rate
  | none =>
    if (currencyFrom, currencyTo) = ("USD", "CNY") then
      some ⟨defaultUsdCny, "builtin", none, false⟩
    else if (currencyFrom, currencyTo) = ("CNY", "USD") then
      some ⟨1 / defaultUsdCny, "builtin", none, true⟩
    else none

/-- An amount in another currency, with the rate unless the currency is the same; `some none` when
there is no rate. -/
def FxSet.convert (fx : FxSet) (currencyFrom currencyTo : String) (amount : ℚ) :
    Option (Option (ℚ × Option FxRate)) :=
  if currencyFrom = currencyTo then some (some (amount, none))
  else
    match FxSet.rate fx currencyFrom currencyTo with
    | some rate => (decimal (amount * rate.rate)).map fun x ↦ some (x, some rate)
    | none => some none

open Json Logging Pricing

/-! ### Segments -/

structure Segment where
  name : Option String
  price : ℚ
  weekdays : Option (List String)
  windows : Option (List (String × String))
  minPromptTokens : Option ℤ
  maxPromptTokens : Option ℤ
  deriving DecidableEq, Inhabited

def readStrings (v : Value) : Option (List String) := v.asArray.bind fun items ↦ items.mapM Value.asStr

/-- A pair of strings. -/
def readWindow : Value → Option (String × String)
  | .arr [.str start, .str stop] => some (start, stop)
  | _ => none

def readWindows (v : Value) : Option (List (String × String)) :=
  v.asArray.bind fun items ↦ items.mapM readWindow

section Reading

variable [DecimalText]

/-- The derived reader of a segment. -/
def readSegment (v : Value) : Option Segment := do
  guard v.isObject
  let name ← optional Value.asStr v "name"
  let price ← required DecimalText.ofJson v "price"
  let weekdays ← optional readStrings v "weekdays"
  let windows ← optional readWindows v "windows"
  let minPromptTokens ← optional (readInt 64) v "min_prompt_tokens"
  let maxPromptTokens ← optional (readInt 64) v "max_prompt_tokens"
  return { name, price, weekdays, windows, minPromptTokens, maxPromptTokens }

def readSegments (v : Value) : Option (List Segment) :=
  v.asArray.bind fun items ↦ items.mapM readSegment

end Reading

/-! ### Usage -/

/-- The usage of a request. -/
structure PricingInput where
  time : ℤ
  promptTokens : Option ℤ := none
  completionTokens : Option ℤ := none
  cacheWriteTokens : Option ℤ := none
  cacheReadTokens : Option ℤ := none
  images : Option ℤ := none
  imageSize : Option String := none
  videoSeconds : Option ℚ := none
  videoResolution : Option String := none
  videoTaskType : Option String := none
  deriving DecidableEq, Inhabited

/-- Only positive counts are usage. -/
def countMeasure (n : Option ℤ) : Option ℚ := (n.filter fun n ↦ decide (0 < n)).map fun n ↦ (n : ℚ)

/-- Whole seconds, at least one. -/
def ceilSeconds (s : ℚ) : ℚ :=
  let s := if s < 0 then 0 else s
  let c : ℚ := (s.floor : ℚ) + if (s.floor : ℚ) < s then 1 else 0
  if c < 1 then 1 else c

def unitQuantity (unit : String) (input : PricingInput) : Option ℚ :=
  match unit with
  | "token_in" => countMeasure input.promptTokens
  | "token_out" => countMeasure input.completionTokens
  | "token_cache_write" => countMeasure input.cacheWriteTokens
  | "token_cache_read" => countMeasure input.cacheReadTokens
  | "image" => countMeasure input.images
  | "video_second" => input.videoSeconds.map ceilSeconds
  | _ => none

/-- Prices of tokens are prices of a million. -/
def unitCostDivisor (unit : String) : ℚ :=
  if ["token_in", "token_out", "token_cache_write", "token_cache_read"].contains unit then 1000000
  else 1

section Dimensions

variable [SerdeJson]

/-- The dimension key that a rule for the request has. -/
def inputDimensionKey (unit : String) (input : PricingInput) : String :=
  match unit with
  | "image" =>
    match input.imageSize with
    | some size => normalizeDimensionKey (some (.object [("image_size", .str size)]))
    | none => ""
  | "video_second" =>
    normalizeDimensionKey (some (.obj (Map.insertPresent []
      [("resolution", input.videoResolution.map .str), ("task_type", input.videoTaskType.map .str)])))
  | _ => ""

end Dimensions

/-! ### Rules -/

def inEffect (rule : PriceRule) (time : ℤ) : Bool :=
  (rule.effectiveFrom.all fun t ↦ decide (t ≤ time)) &&
    rule.effectiveTo.all fun t ↦ decide (time ≤ t)

/-- `a` comes before `b`. -/
def betterRule (a b : PriceRule) : Bool :=
  if a.priority ≠ b.priority then decide (b.priority < a.priority)
  else if a.sortOrder ≠ b.sortOrder then decide (a.sortOrder < b.sortOrder)
  else if a.createdAt ≠ b.createdAt then decide (a.createdAt < b.createdAt)
  else decide (a.id < b.id)

/-- `parse::<i32>`. -/
def parseI32 (text : List Char) : Option ℤ :=
  let digits (text : List Char) : Option ℤ :=
    if text ≠ [] ∧ text.all Char.isDigit then
      some (text.foldl (fun n c ↦ n * 10 + (c.toNat - 48 : ℕ)) 0)
    else none
  let n :=
    match text with
    | '-' :: rest => (digits rest).map fun n ↦ -n
    | '+' :: rest => digits rest
    | _ => digits text
  n.filter fun n ↦ decide (-2 ^ 31 ≤ n ∧ n < 2 ^ 31)

/-- The pieces between colons. -/
def splitColons (text : List Char) : List (List Char) := text.splitOn ':'

/-- The minutes of a time of day; an `i32`, which wraps. -/
def parseHhmm (s : String) : Option ℤ :=
  match splitColons s.toList with
  | h :: m :: _ =>
    (parseI32 (Text.trim h)).bind fun h ↦
      (parseI32 (Text.trim m)).map fun m ↦ wrapI32 (wrapI32 (h * 60) + m)
  | _ => none

/-- A window contains its ends; one that goes over midnight does not contain its end. -/
def windowHit (window : String × String) (minutes : ℤ) : Bool :=
  match parseHhmm window.1, parseHhmm window.2 with
  | some s, some e =>
    if s ≤ e then decide (s ≤ minutes ∧ minutes ≤ e) else decide (s ≤ minutes ∨ minutes < e)
  | _, _ => false

/-- The length that the segments of a rule look at. -/
def contextValue (rule : PriceRule) (input : PricingInput) : ℤ :=
  let prompt := input.promptTokens.getD 0
  if rule.contextBasis = "total_tokens" then
    max (-2 ^ 63) (min (2 ^ 63 - 1) (prompt + input.completionTokens.getD 0))
  else prompt

/-- `eq_ignore_ascii_case` with a name in lower case. -/
def isWeekday (name weekday : String) : Bool := decide (name.toList.map Char.toLower = weekday.toList)

def segmentMatches (seg : Segment) (ctx : ℤ) (weekday : String) (minutes : ℤ) : Bool :=
  (seg.weekdays.all fun days ↦ days.isEmpty || days.any fun day ↦ isWeekday day weekday) &&
    (seg.windows.all fun windows ↦
      windows.isEmpty || windows.any fun window ↦ windowHit window minutes) &&
    (seg.minPromptTokens.all fun min ↦ decide (min ≤ ctx)) &&
    seg.maxPromptTokens.all fun max ↦ decide (ctx ≤ max)

section Matching

variable [DecimalText]

/-- The price and the name of the first segment that matches. -/
def matchSegment (rule : PriceRule) (input : PricingInput) (weekday : String) (minutes : ℤ) :
    Option (ℚ × Option String) :=
  (rule.segments.bind readSegments).bind fun segs ↦
    (segs.find? fun seg ↦ segmentMatches seg (contextValue rule input) weekday minutes).map
      fun seg ↦ (seg.price, seg.name)

/-- The price of a rule and the name of the segment that sets it. -/
def rulePrice (rule : PriceRule) (input : PricingInput) (weekday : String) (minutes : ℤ) :
    ℚ × Option String :=
  (matchSegment rule input weekday minutes).getD (rule.basePrice, none)

end Matching

/-- Keeps the best rule of a currency. -/
def addBest (best : Table String PriceRule) (r : PriceRule) : Table String PriceRule :=
  match best.lookup r.currency with
  | some old => if betterRule r old then best.insert r.currency r else best
  | none => best.insert r.currency r

section Candidates

variable [SerdeJson]

/-- The rules of a unit for the dimensions of a request, or else those without dimensions. -/
def candidates (rules : List PriceRule) (unit : String) (input : PricingInput) : List PriceRule :=
  let active := rules.filter fun r ↦ decide (r.unit = unit) && r.enabled && inEffect r input.time
  let dim := inputDimensionKey unit input
  let exact' := active.filter fun r ↦ decide (r.dimensionKey = dim)
  if exact'.isEmpty && !dim.isEmpty then active.filter fun r ↦ r.dimensionKey.isEmpty else exact'

/-- The best rule of a unit in each currency. -/
def bestRules (rules : List PriceRule) (unit : String) (input : PricingInput) :
    List (String × PriceRule) :=
  ((candidates rules unit input).foldl addBest ∅).toList

end Candidates

/-! ### Lines -/

/-- The price of one unit in one currency. -/
structure PricedLine where
  unit : String
  currency : String
  quantity : ℚ
  price : ℚ
  cost : ℚ
  rule : PriceRule
  matchedSegment : Option String
  deriving DecidableEq, Inhabited

def units : List String :=
  ["token_in", "token_out", "token_cache_write", "token_cache_read", "image", "video_second"]

/-- The weekday of a local time; the first day of the epoch was a Thursday. -/
def weekdayOf (localTime : ℤ) : String :=
  ["mon", "tue", "wed", "thu", "fri", "sat", "sun"].getD
    ((localTime / (86400 * 10 ^ 9) + 3) % 7).toNat ""

/-- The minutes since midnight. -/
def minutesOf (localTime : ℤ) : ℤ := localTime % (86400 * 10 ^ 9) / (60 * 10 ^ 9)

/-- A unit, its quantity and the rule that prices it in one currency. -/
structure Match where
  unit : String
  currency : String
  quantity : ℚ
  rule : PriceRule
  price : ℚ
  matchedSegment : Option String
  deriving DecidableEq, Inhabited

section Lines

variable [SerdeJson] [DecimalText]

/-- The rules that price a request, with their prices. -/
def matched (rules : List PriceRule) (zone : Zone) (input : PricingInput) : List Match :=
  let localTime := zone.toLocal input.time
  units.flatMap fun unit ↦
    match unitQuantity unit input with
    | none => []
    | some quantity =>
      (bestRules rules unit input).map fun entry ↦
        let price := rulePrice entry.2 input (weekdayOf localTime) (minutesOf localTime)
        ⟨unit, entry.1, quantity, entry.2, price.1, price.2⟩

end Lines

/-- The cost of a line. -/
def Match.line (m : Match) : Option PricedLine :=
  (decimal (m.price * m.quantity)).map fun x ↦
    ⟨m.unit, m.currency, m.quantity, m.price, x / unitCostDivisor m.unit, m.rule, m.matchedSegment⟩

/-! ### Costs -/

/-- A sum of costs, and whether there is one. -/
structure CostSum where
  sum : ℚ := 0
  obtained : Bool := false
  deriving DecidableEq, Inhabited

def CostSum.add (acc : CostSum) (x : ℚ) : Option CostSum :=
  (decimal (acc.sum + x)).map fun sum ↦ ⟨sum, true⟩

/-- Adds the cost of a line in its own currency. -/
def CostSum.addDirect (currency : String) (acc : CostSum) (line : PricedLine) : Option CostSum :=
  if line.currency = currency then acc.add line.cost else some acc

/-- Adds the cost of a line in the other currency, if there is a rate. -/
def CostSum.addConverted (fx : FxSet) (other currency : String) (acc : CostSum)
    (line : PricedLine) : Option CostSum :=
  if line.currency = other then
    (fx.convert other currency line.cost).bind fun converted ↦
      converted.elim (some acc) fun x ↦ acc.add x.1
  else some acc

/-- The cost in one of the two currencies. -/
def costIn (fx : FxSet) (lines : List PricedLine) (currency other : String) : Option (Option ℚ) :=
  (lines.foldlM (CostSum.addDirect currency) {}).bind fun direct ↦
    (lines.foldlM (CostSum.addConverted fx other currency) direct).map fun acc ↦
      if acc.obtained then some acc.sum else none

/-! ### The result -/

section Result

variable [FieldText]

/-- What is kept of the rule of a line. -/
def PricedLine.priceUsed (line : PricedLine) (time : ℤ) : Value :=
  .object
    [("rule_id", uuidToValue line.rule.id),
      ("unit", .str line.unit),
      ("currency", .str line.currency),
      ("base_price", decimalToValue line.rule.basePrice),
      ("matched_segment", optionToValue .str line.matchedSegment),
      ("price", decimalToValue line.price),
      ("effective_at", timeToValue time)]

/-- What is kept of the rate that a line is converted with. -/
def PricedLine.fxUsed (fx : FxSet) (line : PricedLine) : Option Value :=
  let value (currencyFrom currencyTo : String) : Option Value :=
    (FxSet.rate fx currencyFrom currencyTo).map fun rate ↦
      .object
        [("from", .str currencyFrom),
          ("to", .str currencyTo),
          ("rate", decimalToValue rate.rate),
          ("source", .str rate.source),
          ("at", optionToValue timeToValue rate.fetchedAt),
          ("inverse", .bool rate.inverse)]
  if line.currency = "USD" then value "USD" "CNY"
  else if line.currency = "CNY" then value "CNY" "USD"
  else none

structure PricingResult where
  lines : List PricedLine
  costCny : Option ℚ
  costUsd : Option ℚ
  priceUsed : Value
  fxSnapshot : Value
  priced : Bool
  deriving DecidableEq, Inhabited

variable [SerdeJson] [DecimalText]

def priceWithRules (rules : List PriceRule) (fx : FxSet) (input : PricingInput) (zone : Zone) :
    Option PricingResult :=
  ((matched rules zone input).mapM Match.line).bind fun lines ↦
    (costIn fx lines "CNY" "USD").bind fun costCny ↦
      (costIn fx lines "USD" "CNY").map fun costUsd ↦
        { lines
          costCny
          costUsd
          priceUsed := .arr (lines.map fun line ↦ line.priceUsed input.time)
          fxSnapshot := .arr (lines.filterMap (PricedLine.fxUsed fx))
          priced := !lines.isEmpty }

end Result

/-! ### Events -/

/-- The name of the model at the upstream, if it is another one. -/
def effectivePriceModel (ev : LogEvent) : String :=
  (ev.upstreamModel.filter fun s ↦ !s.isEmpty).getD ev.model

def hasUsage (ev : LogEvent) : Bool :=
  decide (0 < ev.promptTokens.getD 0) || decide (0 < ev.completionTokens.getD 0) ||
    decide (0 < ev.cacheWriteTokens.getD 0) || decide (0 < ev.cacheReadTokens.getD 0) ||
    decide (0 < ev.images.getD 0) || ev.videoSeconds.isSome

def inputFromEvent (ev : LogEvent) : PricingInput where
  time := ev.ts
  promptTokens := ev.promptTokens
  completionTokens := ev.completionTokens
  cacheWriteTokens := ev.cacheWriteTokens
  cacheReadTokens := ev.cacheReadTokens
  images := ev.images
  imageSize := ev.imageSize
  videoSeconds := ev.videoSeconds
  videoResolution := ev.videoResolution
  videoTaskType := ev.videoTaskType

/-- The event is priced with its batch. -/
def isPriced (ev : LogEvent) : Bool :=
  decide (ev.status < 400) && ev.pricingSource.isNone && hasUsage ev && ev.upstreamId.isSome

/-- The enabled rules for an event. -/
def rulesFor (rules : List PriceRule) (ev : LogEvent) : List PriceRule :=
  rules.filter fun r ↦
    r.enabled && decide (some r.upstreamId = ev.upstreamId ∧ r.modelId = effectivePriceModel ev)

section Events

variable [FieldText] [SerdeJson] [DecimalText]

/-- What pricing fills in, for an event that is priced. -/
def PricingResult.pricing (result : PricingResult) : Logging.Pricing where
  costCny := result.costCny
  costUsd := result.costUsd
  pricingSource := if result.priced then some "bound" else none
  priceUsed := if result.priced then some result.priceUsed else none
  fxSnapshot := if result.priced then some result.fxSnapshot else none

/-- The pricing of an event in `price_batch`, if it is priced there. -/
def priceEvent (rules : List PriceRule) (fx : FxSet) (zone : Zone) (ev : LogEvent) :
    Option (Option Logging.Pricing) :=
  if isPriced ev then
    (priceWithRules (rulesFor rules ev) fx (inputFromEvent ev) zone).map fun result ↦
      some result.pricing
  else some none

end Events

end NextApi.Billing
