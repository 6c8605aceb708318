import NextApi.Billing.Pricing
import NextApi.Logging.Totals

/-!
# When pricing does not panic

The rules that price a request, with their prices and quantities, are found without arithmetic
(`matched`). From them come the amounts that are added up in each currency: the costs of the lines
in it, then the converted costs of the others (`amounts`). Pricing goes through when every product
and every sum on the way is a decimal (`priceWithRules_isSome`), and then the costs are the sums of
the amounts (`priceWithRules_eq_some`).
-/

set_option autoImplicit false

namespace NextApi.Billing

open Json Logging Pricing

/-! ### Lines -/

/-- The cost of a line, without a bound. -/
def Match.cost (m : Match) : ℚ := m.price * m.quantity / unitCostDivisor m.unit

/-- The line of a match, without a bound. -/
def Match.exactLine (m : Match) : PricedLine :=
  ⟨m.unit, m.currency, m.quantity, m.price, m.cost, m.rule, m.matchedSegment⟩

theorem decimal_eq_some {x y : ℚ} : decimal x = some y ↔ IsDecimal x ∧ y = x := by
  rw [decimal]
  split
  case isTrue h => rw [and_iff_right h, eq_comm, Option.some_inj]
  case isFalse h => exact iff_of_false (by simp) fun hand ↦ h hand.1

theorem line_eq_some {m : Match} {line : PricedLine} :
    m.line = some line ↔ IsDecimal (m.price * m.quantity) ∧ line = m.exactLine := by
  rw [Match.line, Option.map_eq_some_iff]
  constructor
  · intro ⟨x, hx, hline⟩
    obtain ⟨hdecimal, rfl⟩ := decimal_eq_some.1 hx
    exact ⟨hdecimal, hline.symm⟩
  · intro ⟨hdecimal, hline⟩
    exact ⟨_, decimal_eq_some.2 ⟨hdecimal, rfl⟩, hline.symm⟩

theorem mapM_line_eq_some {ms : List Match} {lines : List PricedLine} :
    ms.mapM Match.line = some lines ↔
      (∀ m ∈ ms, IsDecimal (m.price * m.quantity)) ∧ lines = ms.map Match.exactLine := by
  induction ms generalizing lines with
  | nil =>
    rw [List.mapM_nil, List.map_nil, and_iff_right fun m hm ↦ absurd hm List.not_mem_nil, eq_comm]
    exact Option.some_inj
  | cons m rest ih =>
    rw [List.mapM_cons, Option.bind_eq_bind, Option.bind_eq_some_iff, List.forall_mem_cons]
    constructor
    · intro ⟨line, hline, h⟩
      obtain ⟨lines', hlines', h⟩ := Option.bind_eq_some_iff.1 h
      obtain ⟨hm, rfl⟩ := line_eq_some.1 hline
      obtain ⟨hrest, rfl⟩ := ih.1 hlines'
      exact ⟨⟨hm, hrest⟩, (Option.some.inj h).symm⟩
    · intro ⟨⟨hm, hrest⟩, hlines⟩
      refine ⟨m.exactLine, line_eq_some.2 ⟨hm, rfl⟩, ?_⟩
      rw [Option.bind_eq_bind, ih.2 ⟨hrest, rfl⟩, hlines]
      rfl

/-! ### Amounts -/

/-- What a line adds in its own currency. -/
def directAmount (currency : String) (line : PricedLine) : Option ℚ :=
  if line.currency = currency then some line.cost else none

/-- What a line in the other currency adds. -/
def convertedAmount (fx : FxSet) (currency other : String) (line : PricedLine) : Option ℚ :=
  if line.currency = other then
    (FxSet.rate fx other currency).map fun rate ↦ line.cost * rate.rate
  else none

/-- What is added up to the cost in a currency. -/
def amounts (fx : FxSet) (lines : List PricedLine) (currency other : String) : List ℚ :=
  lines.filterMap (directAmount currency) ++ lines.filterMap (convertedAmount fx currency other)

/-- A sum, and whether something was added. -/
def CostSum.withSum (acc : CostSum) (xs : List ℚ) (sum : ℚ) : CostSum :=
  ⟨sum, acc.obtained || !xs.isEmpty⟩

/-- Adding what some lines add. -/
theorem foldlM_add {step : CostSum → PricedLine → Option CostSum} {amount : PricedLine → Option ℚ}
    {lines : List PricedLine}
    (hstep : ∀ line ∈ lines, ∀ acc, step acc line = (amount line).elim (some acc) acc.add)
    (acc : CostSum) :
    lines.foldlM step acc =
      (sumChecked IsDecimal acc.sum (lines.filterMap amount)).map
        (acc.withSum (lines.filterMap amount)) := by
  induction lines generalizing acc with
  | nil =>
    show some acc = some (acc.withSum [] acc.sum)
    rw [CostSum.withSum, List.isEmpty_nil, Bool.not_true, Bool.or_false]
  | cons line rest ih =>
    have hrest := ih fun l hl ↦ hstep l (List.mem_cons_of_mem line hl)
    rw [List.foldlM_cons, hstep line List.mem_cons_self, Option.bind_eq_bind]
    cases hamount : amount line with
    | none => rw [Option.elim_none, Option.bind_some, hrest, List.filterMap_cons_none hamount]
    | some x =>
      rw [Option.elim_some, CostSum.add, List.filterMap_cons_some hamount, sumChecked_cons,
        addChecked, decimal]
      split
      · rw [Option.map_some, Option.bind_some, Option.bind_some, hrest]
        congr 1
        funext sum
        rw [CostSum.withSum, CostSum.withSum, List.isEmpty_cons, Bool.true_or, Bool.not_false,
          Bool.or_true]
      · rfl

/-- The products with the exchange rate are decimals. -/
def ConvertsFit (fx : FxSet) (lines : List PricedLine) (currency other : String) : Prop :=
  ∀ x ∈ lines.filterMap (convertedAmount fx currency other), IsDecimal x

theorem addDirect_eq (currency : String) (acc : CostSum) (line : PricedLine) :
    acc.addDirect currency line = (directAmount currency line).elim (some acc) acc.add := by
  rw [CostSum.addDirect, directAmount]
  split <;> rfl

theorem addConverted_eq {fx : FxSet} {currency other : String} (hne : other ≠ currency)
    {line : PricedLine} (hfits : ∀ x ∈ convertedAmount fx currency other line, IsDecimal x)
    (acc : CostSum) :
    acc.addConverted fx other currency line =
      (convertedAmount fx currency other line).elim (some acc) acc.add := by
  rw [convertedAmount] at hfits ⊢
  rw [CostSum.addConverted]
  split
  case isTrue hcurrency =>
    rw [if_pos hcurrency] at hfits
    rw [FxSet.convert, if_neg hne]
    cases hrate : FxSet.rate fx other currency with
    | none => rfl
    | some rate =>
      have hx := hfits (line.cost * rate.rate) (by rw [hrate]; rfl)
      simp only [Option.map_some, Option.elim_some]
      rw [decimal, if_pos hx]
      rfl
  case isFalse => rfl

/-- A product that is no decimal stops the sum. -/
theorem addConverted_eq_none {fx : FxSet} {currency other : String} (hne : other ≠ currency)
    {line : PricedLine} {x : ℚ} (hx : convertedAmount fx currency other line = some x)
    (hlarge : ¬ IsDecimal x) (acc : CostSum) :
    acc.addConverted fx other currency line = none := by
  rw [convertedAmount] at hx
  split at hx
  case isTrue hcurrency =>
    obtain ⟨rate, hrate, rfl⟩ := Option.map_eq_some_iff.1 hx
    rw [CostSum.addConverted, if_pos hcurrency, FxSet.convert, if_neg hne, hrate]
    simp only [decimal, if_neg hlarge]
    rfl
  case isFalse => exact absurd hx (by simp)

theorem foldlM_addConverted_none {fx : FxSet} {currency other : String} (hne : other ≠ currency)
    {lines : List PricedLine} (h : ¬ ConvertsFit fx lines currency other) (acc : CostSum) :
    lines.foldlM (CostSum.addConverted fx other currency) acc = none := by
  induction lines generalizing acc with
  | nil => exact absurd (fun x hx ↦ absurd hx List.not_mem_nil) h
  | cons line rest ih =>
    rw [List.foldlM_cons, Option.bind_eq_bind]
    by_cases hline : ∀ x ∈ convertedAmount fx currency other line, IsDecimal x
    · have hrest : ¬ ConvertsFit fx rest currency other := by
        intro hrest
        refine h fun x hx ↦ ?_
        obtain ⟨l, hl, hamount⟩ := List.mem_filterMap.1 hx
        rcases List.mem_cons.1 hl with rfl | hl
        · exact hline x hamount
        · exact hrest x (List.mem_filterMap.2 ⟨l, hl, hamount⟩)
      cases hstep : acc.addConverted fx other currency line with
      | none => rfl
      | some acc' => exact ih hrest acc'
    · push Not at hline
      obtain ⟨x, hx, hlarge⟩ := hline
      rw [addConverted_eq_none hne hx hlarge, Option.bind_none]

/-- The conditions under which the cost in a currency is a decimal all the way. -/
structure AmountsFit (fx : FxSet) (lines : List PricedLine) (currency other : String) : Prop where
  converts : ConvertsFit fx lines currency other
  sums : SumsIn IsDecimal 0 (amounts fx lines currency other)

theorem someSum_eq (xs : List ℚ) : someSum xs = if !xs.isEmpty then some xs.sum else none := by
  cases xs with
  | nil => rfl
  | cons x rest => rfl

theorem costIn_eq_some {fx : FxSet} {lines : List PricedLine} {currency other : String}
    (hne : other ≠ currency) {cost : Option ℚ} :
    costIn fx lines currency other = some cost ↔
      AmountsFit fx lines currency other ∧ cost = someSum (amounts fx lines currency other) := by
  have hdirect : lines.foldlM (CostSum.addDirect currency) {} =
      (sumChecked IsDecimal 0 (lines.filterMap (directAmount currency))).map
        (CostSum.withSum {} (lines.filterMap (directAmount currency))) :=
    foldlM_add (fun line _ acc ↦ addDirect_eq currency acc line) {}
  rw [costIn, hdirect]
  by_cases hfits : ConvertsFit fx lines currency other
  · have hstep : ∀ line ∈ lines, ∀ acc : CostSum, acc.addConverted fx other currency line =
        (convertedAmount fx currency other line).elim (some acc) acc.add := fun line hline acc ↦
      addConverted_eq hne (fun x hx ↦ hfits x (List.mem_filterMap.2 ⟨line, hline, hx⟩)) acc
    have hsums : AmountsFit fx lines currency other ↔
        SumsIn IsDecimal 0 (lines.filterMap (directAmount currency)) ∧
          SumsIn IsDecimal (0 + (lines.filterMap (directAmount currency)).sum)
            (lines.filterMap (convertedAmount fx currency other)) := by
      rw [← sumsIn_append, ← amounts]
      exact ⟨AmountsFit.sums, fun hsums ↦ ⟨hfits, hsums⟩⟩
    rw [hsums, someSum_eq, amounts, List.sum_append]
    generalize lines.filterMap (directAmount currency) = direct at *
    by_cases hfirst : SumsIn IsDecimal 0 direct
    · rw [sumChecked_eq_some.2 ⟨hfirst, rfl⟩, Option.map_some, Option.bind_some,
        foldlM_add hstep, and_iff_right hfirst]
      generalize lines.filterMap (convertedAmount fx currency other) = converted
      by_cases hsecond : SumsIn IsDecimal (0 + direct.sum) converted
      · have hsecond' : sumChecked IsDecimal (CostSum.withSum {} direct (0 + direct.sum)).sum
            converted = some (0 + direct.sum + converted.sum) :=
          sumChecked_eq_some.2 ⟨hsecond, rfl⟩
        have hempty : (direct ++ converted).isEmpty = (direct.isEmpty && converted.isEmpty) := by
          cases direct <;> rfl
        rw [hsecond', and_iff_right hsecond, Option.map_some, Option.map_some, Option.some_inj,
          zero_add, CostSum.withSum, CostSum.withSum, Bool.false_or, hempty, Bool.not_and]
        exact eq_comm
      · refine iff_of_false ?_ fun h ↦ hsecond h.1
        have hsecond' : sumChecked IsDecimal (CostSum.withSum {} direct (0 + direct.sum)).sum
            converted = none :=
          Option.not_isSome_iff_eq_none.1 fun h ↦ hsecond (isSome_sumChecked.1 h)
        rw [hsecond']
        simp
    · refine iff_of_false ?_ fun h ↦ hfirst h.1.1
      have hfirst' : sumChecked IsDecimal 0 direct = none :=
        Option.not_isSome_iff_eq_none.1 fun h ↦ hfirst (isSome_sumChecked.1 h)
      rw [hfirst']
      simp
  · refine iff_of_false ?_ fun h ↦ hfits h.1.converts
    cases sumChecked IsDecimal 0 (lines.filterMap (directAmount currency)) with
    | none => simp
    | some sum =>
      rw [Option.map_some, Option.bind_some, foldlM_addConverted_none hne hfits]
      simp

/-! ### The result -/

section Result

variable [SerdeJson] [DecimalText]

/-- Every product and every sum of pricing some matches is a decimal. -/
structure MatchesFit (ms : List Match) (fx : FxSet) : Prop where
  lines : ∀ m ∈ ms, IsDecimal (m.price * m.quantity)
  cny : AmountsFit fx (ms.map Match.exactLine) "CNY" "USD"
  usd : AmountsFit fx (ms.map Match.exactLine) "USD" "CNY"

/-- The lines of a request, without a bound. -/
def exactLines (rules : List PriceRule) (input : PricingInput) (zone : Zone) : List PricedLine :=
  (matched rules zone input).map Match.exactLine

/-- Every product and every sum of pricing is a decimal. -/
structure PricingFits (rules : List PriceRule) (fx : FxSet) (input : PricingInput) (zone : Zone) :
    Prop where
  lines : ∀ m ∈ matched rules zone input, IsDecimal (m.price * m.quantity)
  cny : AmountsFit fx (exactLines rules input zone) "CNY" "USD"
  usd : AmountsFit fx (exactLines rules input zone) "USD" "CNY"

/-- Pricing of an event does not panic. -/
def EventFits (rules : List PriceRule) (fx : FxSet) (zone : Zone) (ev : LogEvent) : Prop :=
  isPriced ev = true → PricingFits (rulesFor rules ev) fx (inputFromEvent ev) zone

variable [FieldText]

/-- The result for some lines, without a bound. -/
def exactOf (lines : List PricedLine) (fx : FxSet) (input : PricingInput) : PricingResult where
  lines
  costCny := someSum (amounts fx lines "CNY" "USD")
  costUsd := someSum (amounts fx lines "USD" "CNY")
  priceUsed := .arr (lines.map fun line ↦ line.priceUsed input.time)
  fxSnapshot := .arr (lines.filterMap (PricedLine.fxUsed fx))
  priced := !lines.isEmpty

/-- The result of pricing, without a bound. -/
def exactResult (rules : List PriceRule) (fx : FxSet) (input : PricingInput) (zone : Zone) :
    PricingResult where
  lines := exactLines rules input zone
  costCny := someSum (amounts fx (exactLines rules input zone) "CNY" "USD")
  costUsd := someSum (amounts fx (exactLines rules input zone) "USD" "CNY")
  priceUsed := .arr ((exactLines rules input zone).map fun line ↦ line.priceUsed input.time)
  fxSnapshot := .arr ((exactLines rules input zone).filterMap (PricedLine.fxUsed fx))
  priced := !(exactLines rules input zone).isEmpty

/-- The result of some matches. -/
def priceMatches (ms : List Match) (fx : FxSet) (input : PricingInput) : Option PricingResult :=
  (ms.mapM Match.line).bind fun lines ↦
    (costIn fx lines "CNY" "USD").bind fun costCny ↦
      (costIn fx lines "USD" "CNY").map fun costUsd ↦
        { lines
          costCny
          costUsd
          priceUsed := .arr (lines.map fun line ↦ line.priceUsed input.time)
          fxSnapshot := .arr (lines.filterMap (PricedLine.fxUsed fx))
          priced := !lines.isEmpty }

omit [SerdeJson] [DecimalText] in
theorem priceMatches_eq_some {ms : List Match} {fx : FxSet} {input : PricingInput}
    {result : PricingResult} :
    priceMatches ms fx input = some result ↔
      MatchesFit ms fx ∧ result = exactOf (ms.map Match.exactLine) fx input := by
  rw [priceMatches, Option.bind_eq_some_iff]
  constructor
  · intro ⟨lines, hlines, h⟩
    obtain ⟨costCny, hcny, h⟩ := Option.bind_eq_some_iff.1 h
    obtain ⟨costUsd, husd, h⟩ := Option.map_eq_some_iff.1 h
    obtain ⟨hdecimal, rfl⟩ := mapM_line_eq_some.1 hlines
    obtain ⟨hcnyFits, rfl⟩ := (costIn_eq_some (by decide)).1 hcny
    obtain ⟨husdFits, rfl⟩ := (costIn_eq_some (by decide)).1 husd
    exact ⟨⟨hdecimal, hcnyFits, husdFits⟩, h.symm⟩
  · intro ⟨hfits, hresult⟩
    refine ⟨_, mapM_line_eq_some.2 ⟨hfits.lines, rfl⟩, ?_⟩
    rw [(costIn_eq_some (by decide)).2 ⟨hfits.cny, rfl⟩, Option.bind_some,
      (costIn_eq_some (by decide)).2 ⟨hfits.usd, rfl⟩, Option.map_some, hresult]
    rfl

theorem priceWithRules_eq_some {rules : List PriceRule} {fx : FxSet} {input : PricingInput}
    {zone : Zone} {result : PricingResult} :
    priceWithRules rules fx input zone = some result ↔
      PricingFits rules fx input zone ∧ result = exactResult rules fx input zone := by
  have hfits : PricingFits rules fx input zone ↔ MatchesFit (matched rules zone input) fx :=
    ⟨fun h ↦ ⟨h.lines, h.cny, h.usd⟩, fun h ↦ ⟨h.lines, h.cny, h.usd⟩⟩
  rw [hfits]
  exact priceMatches_eq_some

/-- The pricing of an event, without a bound. -/
def exactPricing (rules : List PriceRule) (fx : FxSet) (zone : Zone) (ev : LogEvent) :
    Option Logging.Pricing :=
  if isPriced ev then
    some (exactResult (rulesFor rules ev) fx (inputFromEvent ev) zone).pricing
  else none

theorem priceEvent_eq_some {rules : List PriceRule} {fx : FxSet} {zone : Zone} {ev : LogEvent}
    {pricing : Option Logging.Pricing} :
    priceEvent rules fx zone ev = some pricing ↔
      EventFits rules fx zone ev ∧ pricing = exactPricing rules fx zone ev := by
  rw [priceEvent, EventFits, exactPricing]
  by_cases h : isPriced ev = true
  · rw [if_pos h, if_pos h, Option.map_eq_some_iff]
    constructor
    · intro ⟨result, hresult, hpricing⟩
      obtain ⟨hfits, rfl⟩ := priceWithRules_eq_some.1 hresult
      exact ⟨fun _ ↦ hfits, hpricing.symm⟩
    · intro ⟨hfits, hpricing⟩
      exact ⟨_, priceWithRules_eq_some.2 ⟨hfits h, rfl⟩, hpricing.symm⟩
  · rw [if_neg h, if_neg h, Option.some_inj, eq_comm,
      and_iff_right fun hpriced ↦ absurd hpriced h]

end Result

end NextApi.Billing
