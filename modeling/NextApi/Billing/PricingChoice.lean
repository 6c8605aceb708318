import Mathlib.Data.Int.ConditionallyCompleteOrder
import NextApi.Billing.PricingBounds
import NextApi.Json.Compact
import NextApi.Stream.AnyOrder

/-!
# The rules that price a request

The comparison of two rules is that of their ranks, so the fold over the candidates keeps the best
rule of each currency (`lookup_bestRules`), in whatever order the rules come. A `HashMap` lists the
rules of a unit in any order. The lines of a currency still come in the order of the units, so the
amounts that are added up are the same ones in the same order (`amounts_eq`), and pricing is exact
when no sum or product on the way is too large (`pricedExactly_iff`).
-/

set_option autoImplicit false

namespace NextApi.Billing

open Json Logging Pricing

/-! ### The best rule -/

/-- The rank of a rule; the better one of two has the lower rank. -/
def ruleRank (r : PriceRule) : ℤ ×ₗ ℤ ×ₗ ℤ ×ₗ ℕ :=
  toLex (-r.priority, toLex (r.sortOrder, toLex (r.createdAt, r.id.toNat)))

theorem betterRule_iff (a b : PriceRule) : betterRule a b = true ↔ ruleRank a < ruleRank b := by
  have hid : a.id < b.id ↔ a.id.toNat < b.id.toNat := BitVec.lt_def
  simp only [betterRule, ruleRank, Prod.Lex.toLex_lt_toLex]
  split_ifs <;> simp only [decide_eq_true_eq, hid] <;> omega

theorem addBest_eq : addBest = keepLeast ruleRank PriceRule.currency := by
  funext best r
  rw [addBest, keepLeast]
  cases best.lookup r.currency with
  | none => rfl
  | some old => exact if_congr (betterRule_iff r old) rfl rfl

theorem id_eq_of_ruleRank_eq {a b : PriceRule} (h : ruleRank a = ruleRank b) : a.id = b.id := by
  simp only [ruleRank, toLex_inj, Prod.mk.injEq] at h
  exact BitVec.eq_of_toNat_eq h.2.2.2

section Choice

variable [SerdeJson] {rules rules' : List PriceRule} {unit currency : String}
  {input : PricingInput}

/-- A rule of a unit that is enabled and in effect. -/
def IsActive (rules : List PriceRule) (unit : String) (input : PricingInput) (r : PriceRule) :
    Prop :=
  r ∈ rules ∧ r.unit = unit ∧ r.enabled = true ∧ inEffect r input.time = true

/-- Some rule has the dimensions of the request. -/
def HasExact (rules : List PriceRule) (unit : String) (input : PricingInput) : Prop :=
  ∃ r, IsActive rules unit input r ∧ r.dimensionKey = inputDimensionKey unit input

/-- A rule that applies: of the unit and the currency, and with the dimensions of the request if a
rule of any currency has them, else without dimensions. -/
structure Applies (rules : List PriceRule) (unit currency : String) (input : PricingInput)
    (r : PriceRule) : Prop where
  active : IsActive rules unit input r
  currency : r.currency = currency
  exact' : HasExact rules unit input → r.dimensionKey = inputDimensionKey unit input
  bare : ¬ HasExact rules unit input → r.dimensionKey = ""

/-- The rule that applies and is better than every other one. -/
structure IsBestRule (rules : List PriceRule) (unit currency : String) (input : PricingInput)
    (best : PriceRule) : Prop where
  applies : Applies rules unit currency input best
  better : ∀ r, Applies rules unit currency input r → r ≠ best → betterRule best r = true

/-- Rules with the same id are the same. -/
def UniqueIds (rules : List PriceRule) : Prop := ∀ a ∈ rules, ∀ b ∈ rules, a.id = b.id → a = b

theorem mem_candidates {r : PriceRule} :
    r ∈ candidates rules unit input ↔
      IsActive rules unit input r ∧
        (HasExact rules unit input → r.dimensionKey = inputDimensionKey unit input) ∧
        (¬ HasExact rules unit input → r.dimensionKey = "") := by
  have hactive (r : PriceRule) : (r ∈ rules.filter fun r ↦
      decide (r.unit = unit) && r.enabled && inEffect r input.time) ↔
        IsActive rules unit input r := by
    rw [List.mem_filter, IsActive, Bool.and_eq_true, Bool.and_eq_true, decide_eq_true_eq, and_assoc]
  have hexact : ((rules.filter fun r ↦ decide (r.unit = unit) && r.enabled &&
      inEffect r input.time).filter fun r ↦
        decide (r.dimensionKey = inputDimensionKey unit input)) = [] ↔
      ¬ HasExact rules unit input := by
    rw [List.filter_eq_nil_iff, HasExact]
    simp only [hactive, decide_eq_true_eq, not_exists, not_and]
  rw [candidates]
  by_cases h : HasExact rules unit input
  · have hsome : ¬ (((rules.filter fun r ↦ decide (r.unit = unit) && r.enabled &&
        inEffect r input.time).filter fun r ↦
          decide (r.dimensionKey = inputDimensionKey unit input)).isEmpty &&
        !(inputDimensionKey unit input).isEmpty) = true := by
      rw [Bool.and_eq_true, List.isEmpty_iff, hexact]
      exact fun hnone ↦ hnone.1 h
    rw [if_neg hsome, List.mem_filter, hactive, decide_eq_true_eq]
    simp [h]
  · by_cases hdim : inputDimensionKey unit input = ""
    · rw [if_neg (by simp [hdim]), hexact.2 h]
      refine iff_of_false List.not_mem_nil fun hr ↦ h ⟨r, hr.1, ?_⟩
      rw [hr.2.2 h, hdim]
    · have hempty : (inputDimensionKey unit input).isEmpty = false := by
        rw [String.isEmpty_eq_false_iff]
        exact hdim
      rw [if_pos (by simp [hexact.2 h, hempty]), List.mem_filter, hactive, String.isEmpty_iff]
      simp [h]

/-- The candidates in a currency are the rules that apply. -/
theorem mem_candidates_currency {r : PriceRule} :
    r ∈ (candidates rules unit input).filter (fun r ↦ decide (r.currency = currency)) ↔
      Applies rules unit currency input r := by
  rw [List.mem_filter, mem_candidates, decide_eq_true_eq]
  exact ⟨fun h ↦ ⟨h.1.1, h.2, h.1.2.1, h.1.2.2⟩, fun h ↦ ⟨⟨h.active, h.exact', h.bare⟩, h.currency⟩⟩

/-- Rules that apply have different ranks. -/
theorem ruleRank_injOn (hids : UniqueIds rules) {a b : PriceRule}
    (ha : Applies rules unit currency input a) (hb : Applies rules unit currency input b)
    (h : ruleRank a = ruleRank b) : a = b :=
  hids a ha.active.1 b hb.active.1 (id_eq_of_ruleRank_eq h)

theorem isBestRule_iff (hids : UniqueIds rules) {best : PriceRule} :
    IsBestRule rules unit currency input best ↔
      Applies rules unit currency input best ∧
        ∀ r, Applies rules unit currency input r → ruleRank best ≤ ruleRank r := by
  constructor
  · intro h
    refine ⟨h.applies, fun r hr ↦ ?_⟩
    by_cases heq : r = best
    · rw [heq]
    · exact ((betterRule_iff best r).1 (h.better r hr heq)).le
  · intro ⟨hbest, hle⟩
    refine ⟨hbest, fun r hr hne ↦ (betterRule_iff best r).2 (lt_of_le_of_ne (hle r hr) ?_)⟩
    exact fun h ↦ hne (ruleRank_injOn hids hr hbest h.symm)

theorem mem_bestRules_iff {best : PriceRule} :
    (currency, best) ∈ bestRules rules unit input ↔
      best ∈ ((candidates rules unit input).filter fun r ↦
        decide (r.currency = currency)).argmin ruleRank := by
  rw [bestRules, Table.mem_toList, addBest_eq, lookup_foldl_keepLeast, ← Option.mem_def]

theorem applies_of_mem_bestRules {best : PriceRule}
    (h : (currency, best) ∈ bestRules rules unit input) :
    Applies rules unit currency input best :=
  mem_candidates_currency.1 (List.argmin_mem (mem_bestRules_iff.1 h))

/-- The fold over the candidates finds the best rule of each currency. -/
theorem mem_bestRules (hids : UniqueIds rules) {best : PriceRule} :
    (currency, best) ∈ bestRules rules unit input ↔ IsBestRule rules unit currency input best := by
  rw [mem_bestRules_iff, mem_argmin_of_injOn, isBestRule_iff hids]
  · simp only [mem_candidates_currency]
  · intro a ha b hb
    exact ruleRank_injOn hids (mem_candidates_currency.1 ha) (mem_candidates_currency.1 hb)

theorem exists_isBestRule (hids : UniqueIds rules) {r : PriceRule}
    (hr : Applies rules unit currency input r) :
    ∃ best, IsBestRule rules unit currency input best := by
  cases hlookup : ((candidates rules unit input).foldl addBest ∅).lookup currency with
  | some best => exact ⟨best, (mem_bestRules hids).1 (Table.mem_toList.2 hlookup)⟩
  | none =>
    rw [addBest_eq, lookup_foldl_keepLeast, List.argmin_eq_none] at hlookup
    rw [← mem_candidates_currency, hlookup] at hr
    exact absurd hr List.not_mem_nil

theorem nodup_bestRules (rules : List PriceRule) (unit : String) (input : PricingInput) :
    ((bestRules rules unit input).map Prod.fst).Nodup :=
  Table.nodup_keys_toList _

/-- What applies does not depend on the order of the rules. -/
theorem applies_of_perm (hperm : rules.Perm rules') {r : PriceRule} :
    Applies rules unit currency input r ↔ Applies rules' unit currency input r := by
  have hactive (r : PriceRule) : IsActive rules unit input r ↔ IsActive rules' unit input r := by
    rw [IsActive, IsActive, hperm.mem_iff]
  have hexact : HasExact rules unit input ↔ HasExact rules' unit input :=
    exists_congr fun r ↦ and_congr_left fun _ ↦ hactive r
  exact ⟨fun h ↦ ⟨(hactive r).1 h.active, h.currency, fun he ↦ h.exact' (hexact.2 he),
      fun hn ↦ h.bare fun he ↦ hn (hexact.1 he)⟩,
    fun h ↦ ⟨(hactive r).2 h.active, h.currency, fun he ↦ h.exact' (hexact.1 he),
      fun hn ↦ h.bare fun he ↦ hn (hexact.2 he)⟩⟩

theorem bestRules_perm (hids : UniqueIds rules) (hperm : rules.Perm rules') :
    (bestRules rules unit input).Perm (bestRules rules' unit input) := by
  have hids' : UniqueIds rules' := fun a ha b hb ↦
    hids a (hperm.mem_iff.2 ha) b (hperm.mem_iff.2 hb)
  have hnodup := (nodup_bestRules rules unit input).of_map
  refine (List.perm_ext_iff_of_nodup hnodup (nodup_bestRules rules' unit input).of_map).2 ?_
  intro ⟨currency, best⟩
  rw [mem_bestRules hids, mem_bestRules hids']
  exact ⟨fun h ↦ ⟨(applies_of_perm hperm).1 h.applies,
      fun r hr ↦ h.better r ((applies_of_perm hperm).2 hr)⟩,
    fun h ↦ ⟨(applies_of_perm hperm).2 h.applies,
      fun r hr ↦ h.better r ((applies_of_perm hperm).1 hr)⟩⟩

end Choice

/-! ### Lines in some order -/

section Listing

variable [DecimalText] {listed listed' : String → List (String × PriceRule)} {input : PricingInput}
  {zone : Zone}

/-- What a rule gives for a quantity of a unit. -/
def matchOf (input : PricingInput) (zone : Zone) (unit : String) (quantity : ℚ)
    (entry : String × PriceRule) : Match :=
  let localTime := zone.toLocal input.time
  let price := rulePrice entry.2 input (weekdayOf localTime) (minutesOf localTime)
  ⟨unit, entry.1, quantity, entry.2, price.1, price.2⟩

def unitMatches (listed : String → List (String × PriceRule)) (input : PricingInput) (zone : Zone)
    (unit : String) : List Match :=
  (unitQuantity unit input).elim [] fun quantity ↦
    (listed unit).map (matchOf input zone unit quantity)

/-- The matches of a request, with the rules of a unit in the order in which they are listed. -/
def matchesOf (listed : String → List (String × PriceRule)) (input : PricingInput) (zone : Zone) :
    List Match :=
  units.flatMap (unitMatches listed input zone)

theorem matched_eq [SerdeJson] (rules : List PriceRule) :
    matched rules zone input = matchesOf (fun unit ↦ bestRules rules unit input) input zone := by
  rw [matched, matchesOf]
  congr 1
  funext unit
  rw [unitMatches]
  cases unitQuantity unit input <;> rfl

/-- Two listings of the same rules, of one currency each. -/
structure SameListing (listed listed' : String → List (String × PriceRule)) : Prop where
  perm : ∀ unit, (listed unit).Perm (listed' unit)
  nodup : ∀ unit, ((listed unit).map Prod.fst).Nodup

theorem SameListing.unitMatches_perm (h : SameListing listed listed') (unit : String) :
    (unitMatches listed input zone unit).Perm (unitMatches listed' input zone unit) := by
  rw [unitMatches, unitMatches]
  cases unitQuantity unit input with
  | none => exact .refl _
  | some quantity => exact (h.perm unit).map _

theorem SameListing.matchesOf_perm (h : SameListing listed listed') :
    (matchesOf listed input zone).Perm (matchesOf listed' input zone) :=
  List.Perm.flatMap_left units fun unit _ ↦ h.unitMatches_perm unit

/-- The matches in one currency come in the order of the units. -/
theorem SameListing.filter_eq (h : SameListing listed listed') (currency : String) :
    ((matchesOf listed input zone).filter fun m ↦ decide (m.currency = currency)) =
      (matchesOf listed' input zone).filter fun m ↦ decide (m.currency = currency) := by
  rw [matchesOf, matchesOf, List.filter_flatMap, List.filter_flatMap]
  congr 1
  funext unit
  refine filter_eq_of_perm (h.unitMatches_perm unit) ?_
  rw [unitMatches]
  cases unitQuantity unit input with
  | none => exact Nat.zero_le 1
  | some quantity =>
    rw [Option.elim_some, List.countP_map]
    refine countP_le_one_of_nodup (h.nodup unit) fun x _ y _ hx hy ↦ ?_
    exact (of_decide_eq_true hx).trans (of_decide_eq_true hy).symm

omit [DecimalText] in
theorem filterMap_eq_of_filter {f : PricedLine → Option ℚ} {currency : String}
    (hf : ∀ line, line.currency ≠ currency → f line = none) {ms ms' : List Match}
    (h : (ms.filter fun m ↦ decide (m.currency = currency)) =
      ms'.filter fun m ↦ decide (m.currency = currency)) :
    (ms.map Match.exactLine).filterMap f = (ms'.map Match.exactLine).filterMap f := by
  have hfilter (ms : List Match) : (ms.map Match.exactLine).filterMap f =
      (ms.filter fun m ↦ decide (m.currency = currency)).filterMap fun m ↦ f m.exactLine := by
    rw [List.filterMap_map, List.filterMap_filter]
    congr 1
    funext m
    by_cases hm : m.currency = currency
    · simp [hm]
    · simp [hm, hf m.exactLine hm]
  rw [hfilter, hfilter, h]

theorem SameListing.convertedAmounts_eq (h : SameListing listed listed') (fx : FxSet)
    (currency other : String) :
    ((matchesOf listed input zone).map Match.exactLine).filterMap
        (convertedAmount fx currency other) =
      ((matchesOf listed' input zone).map Match.exactLine).filterMap
        (convertedAmount fx currency other) :=
  filterMap_eq_of_filter (fun _ hline ↦ if_neg hline) (h.filter_eq other)

/-- What is added up, and in which order, does not depend on the listing. -/
theorem SameListing.amounts_eq (h : SameListing listed listed') (fx : FxSet)
    (currency other : String) :
    amounts fx ((matchesOf listed input zone).map Match.exactLine) currency other =
      amounts fx ((matchesOf listed' input zone).map Match.exactLine) currency other := by
  rw [amounts, amounts, h.convertedAmounts_eq,
    filterMap_eq_of_filter (f := directAmount currency) (fun _ hline ↦ if_neg hline)
      (h.filter_eq currency)]

theorem SameListing.matchesFit (h : SameListing listed listed') {fx : FxSet}
    (hfits : MatchesFit (matchesOf listed input zone) fx) :
    MatchesFit (matchesOf listed' input zone) fx := by
  have hamounts {currency other : String}
      (hfit : AmountsFit fx ((matchesOf listed input zone).map Match.exactLine) currency other) :
      AmountsFit fx ((matchesOf listed' input zone).map Match.exactLine) currency other := by
    refine ⟨?_, ?_⟩
    · rw [ConvertsFit, ← h.convertedAmounts_eq]
      exact hfit.converts
    · rw [← h.amounts_eq]
      exact hfit.sums
  exact ⟨fun m hm ↦ hfits.lines m (h.matchesOf_perm.mem_iff.2 hm), hamounts hfits.cny,
    hamounts hfits.usd⟩

/-- The line of a rule, without a bound. -/
def lineOf (input : PricingInput) (zone : Zone) (unit currency : String) (quantity : ℚ)
    (rule : PriceRule) : PricedLine :=
  (matchOf input zone unit quantity (currency, rule)).exactLine

omit [DecimalText] in
theorem mem_units {unit : String} {quantity : ℚ} (h : unitQuantity unit input = some quantity) :
    unit ∈ units := by
  fun_cases unitQuantity unit input
  case case7 hquantity => simp [unitQuantity, *] at h
  all_goals decide

/-- The lines of a unit in a currency. -/
theorem filter_lines (listed : String → List (String × PriceRule)) (input : PricingInput)
    (zone : Zone) (unit currency : String) :
    (((matchesOf listed input zone).map Match.exactLine).filter fun line ↦
        decide (line.unit = unit) && decide (line.currency = currency)) =
      (unitQuantity unit input).elim [] fun quantity ↦
        ((listed unit).filter fun entry ↦ decide (entry.1 = currency)).map fun entry ↦
          lineOf input zone unit entry.1 quantity entry.2 := by
  have hunit : ((matchesOf listed input zone).filter fun m ↦ decide (m.unit = unit)) =
      unitMatches listed input zone unit := by
    rw [matchesOf, filter_flatMap_eq _ (by decide)]
    · split
      case isTrue => rfl
      case isFalse hnot =>
        rw [unitMatches]
        cases hquantity : unitQuantity unit input with
        | none => rfl
        | some quantity => exact absurd (mem_units hquantity) hnot
    · intro u m hm
      rw [unitMatches] at hm
      cases hquantity : unitQuantity u input with
      | none =>
        rw [hquantity] at hm
        exact absurd hm List.not_mem_nil
      | some quantity =>
        rw [hquantity, Option.elim_some, List.mem_map] at hm
        obtain ⟨entry, _, rfl⟩ := hm
        rfl
  have hsplit : ((matchesOf listed input zone).filter fun m ↦
      decide (m.unit = unit) && decide (m.currency = currency)) =
        (unitMatches listed input zone unit).filter fun m ↦ decide (m.currency = currency) := by
    rw [← hunit, List.filter_filter]
    exact List.filter_congr fun m _ ↦ Bool.and_comm _ _
  rw [List.filter_map]
  refine (congrArg (List.map Match.exactLine) hsplit).trans ?_
  rw [unitMatches]
  cases unitQuantity unit input with
  | none => rfl
  | some quantity =>
    rw [Option.elim_some, Option.elim_some, List.filter_map, List.map_map]
    rfl

end Listing

/-! ### Exact pricing -/

section Result

variable [SerdeJson] [DecimalText] [FieldText]

/-- Pricing with the rules of every unit in the order in which a map lists them. -/
def priceListed (listed : String → List (String × PriceRule)) (fx : FxSet) (input : PricingInput)
    (zone : Zone) : Option PricingResult :=
  priceMatches (matchesOf listed input zone) fx input

theorem priceWithRules_eq (rules : List PriceRule) (fx : FxSet) (input : PricingInput)
    (zone : Zone) :
    priceWithRules rules fx input zone =
      priceListed (fun unit ↦ bestRules rules unit input) fx input zone := by
  rw [priceListed, ← matched_eq]
  rfl

/-- The best rules of every unit, in the order of some map. -/
def IsListing (rules : List PriceRule) (input : PricingInput)
    (listed : String → List (String × PriceRule)) : Prop :=
  ∀ unit, (listed unit).Perm (bestRules rules unit input)

/-- Two results with the same lines in another order. -/
structure SameResult (a b : PricingResult) : Prop where
  lines : a.lines.Perm b.lines
  costCny : a.costCny = b.costCny
  costUsd : a.costUsd = b.costUsd
  priced : a.priced = b.priced

/-- What is asked of a result. -/
structure ExactResult (rules : List PriceRule) (fx : FxSet) (input : PricingInput) (zone : Zone)
    (result : PricingResult) : Prop where
  line : ∀ unit currency quantity, unitQuantity unit input = some quantity →
    (∃ r, Applies rules unit currency input r) →
      ∃ best, IsBestRule rules unit currency input best ∧
        (result.lines.filter fun line ↦
          decide (line.unit = unit) && decide (line.currency = currency)) =
            [lineOf input zone unit currency quantity best]
  noLine : ∀ unit currency,
    unitQuantity unit input = none ∨ (¬ ∃ r, Applies rules unit currency input r) →
      (result.lines.filter fun line ↦
        decide (line.unit = unit) && decide (line.currency = currency)) = []
  costCny : result.costCny = someSum (amounts fx result.lines "CNY" "USD")
  costUsd : result.costUsd = someSum (amounts fx result.lines "USD" "CNY")
  priceUsed : result.priceUsed = .arr (result.lines.map fun line ↦ line.priceUsed input.time)
  fxSnapshot : result.fxSnapshot = .arr (result.lines.filterMap (PricedLine.fxUsed fx))

/-- Pricing is exact, whatever the order of the rules and of the maps. -/
def PricedExactly (rules : List PriceRule) (fx : FxSet) (input : PricingInput) (zone : Zone) :
    Prop :=
  ∀ listed, IsListing rules input listed → ∃ result,
    priceListed listed fx input zone = some result ∧ ExactResult rules fx input zone result ∧
      ∀ rules' listed', rules.Perm rules' → IsListing rules' input listed' → ∃ result',
        priceListed listed' fx input zone = some result' ∧ SameResult result result'

variable {rules rules' : List PriceRule} {fx : FxSet} {input : PricingInput} {zone : Zone}
  {listed listed' : String → List (String × PriceRule)}

omit [DecimalText] [FieldText] in
theorem IsListing.same (hids : UniqueIds rules) (hperm : rules.Perm rules')
    (h : IsListing rules input listed) (h' : IsListing rules' input listed') :
    SameListing listed listed' where
  perm unit := (h unit).trans ((bestRules_perm hids hperm).trans (h' unit).symm)
  nodup unit := ((h unit).map Prod.fst).nodup_iff.2 (nodup_bestRules rules unit input)

omit [FieldText] in
theorem pricingFits_iff :
    PricingFits rules fx input zone ↔
      MatchesFit (matchesOf (fun unit ↦ bestRules rules unit input) input zone) fx := by
  rw [← matched_eq]
  exact ⟨fun h ↦ ⟨h.lines, h.cny, h.usd⟩, fun h ↦ ⟨h.lines, h.cny, h.usd⟩⟩

/-- The result of some listing is exact. -/
theorem exactResult_listed (hids : UniqueIds rules) (h : IsListing rules input listed) :
    ExactResult rules fx input zone
      (exactOf ((matchesOf listed input zone).map Match.exactLine) fx input) where
  line unit currency quantity hquantity hr := by
    obtain ⟨r, hr⟩ := hr
    obtain ⟨best, hbest⟩ := exists_isBestRule hids hr
    have hmem : (currency, best) ∈ listed unit := (h unit).mem_iff.2 ((mem_bestRules hids).2 hbest)
    have hnodup := (h.same hids (.refl _) h).nodup unit
    refine ⟨best, hbest, (filter_lines listed input zone unit currency).trans ?_⟩
    rw [hquantity, Option.elim_some, filter_eq_singleton hnodup hmem, List.map_singleton]
  noLine unit currency hnone := by
    refine (filter_lines listed input zone unit currency).trans ?_
    rcases hnone with hnone | hnone
    · rw [hnone, Option.elim_none]
    · have hempty : ((listed unit).filter fun entry ↦ decide (entry.1 = currency)) = [] := by
        refine List.filter_eq_nil_iff.2 fun entry hentry heq ↦ hnone ⟨entry.2, ?_⟩
        have hbest := (mem_bestRules hids).1 ((h unit).mem_iff.1 hentry)
        rw [of_decide_eq_true heq] at hbest
        exact hbest.applies
      rw [hempty]
      cases unitQuantity unit input <;> rfl
  costCny := rfl
  costUsd := rfl
  priceUsed := rfl
  fxSnapshot := rfl

/-- Pricing is exact when no product and no sum on the way is too large, and else it does not go
through. -/
theorem pricedExactly_iff (rules : List PriceRule) (fx : FxSet) (input : PricingInput)
    (zone : Zone) (hids : UniqueIds rules) :
    PricedExactly rules fx input zone ↔ PricingFits rules fx input zone := by
  rw [pricingFits_iff]
  constructor
  · intro h
    obtain ⟨result, hresult, _⟩ := h _ fun unit ↦ .refl (bestRules rules unit input)
    exact (priceMatches_eq_some.1 hresult).1
  · intro hfits listed hlisted
    have hbest : IsListing rules input fun unit ↦ bestRules rules unit input := fun _ ↦ .refl _
    refine ⟨_, priceMatches_eq_some.2 ⟨(hbest.same hids (.refl _) hlisted).matchesFit hfits, rfl⟩,
      exactResult_listed hids hlisted, fun rules' listed' hperm hlisted' ↦ ?_⟩
    have hsame := hlisted.same hids hperm hlisted'
    have hfits' := (hbest.same hids hperm hlisted').matchesFit hfits
    refine ⟨_, priceMatches_eq_some.2 ⟨hfits', rfl⟩, ?_, ?_, ?_, ?_⟩
    · exact hsame.matchesOf_perm.map Match.exactLine
    · exact congrArg someSum (hsame.amounts_eq fx "CNY" "USD")
    · exact congrArg someSum (hsame.amounts_eq fx "USD" "CNY")
    · exact congrArg (!·) (hsame.matchesOf_perm.map Match.exactLine).isEmpty_eq

end Result

/-! ### Two currencies and a dear rule -/

section Rules

local instance choiceCodec : SerdeJson := Compact.codec

local instance noDecimalText : DecimalText := ⟨fun _ ↦ none, fun _ ↦ none⟩

local instance noFieldText : FieldText where
  formatTime _ := ""
  parseTime _ := none
  formatUuid _ := ""
  parseUuid _ := none
  formatDecimal _ := ""
  parseDecimal _ := none

/-- A rule for the tokens of the prompt. -/
def promptRule (id : Uuid) (currency : String) (price : ℚ) (priority : ℤ) : PriceRule :=
  { id, upstreamId := 0, modelId := "m", unit := "token_in", currency, basePrice := price,
    source := "manual", priority, createdAt := 0 }

/-- Two rules in one currency and one in the other. -/
def threeRules : List PriceRule :=
  [promptRule 0 "CNY" 1 10, promptRule 1 "USD" 2 10, promptRule 2 "CNY" 3 20]

theorem pricedExactly_threeRules :
    UniqueIds threeRules ∧
      PricedExactly threeRules ∅ { time := 0, promptTokens := some 1000 } ⟨id, id⟩ := by
  have hids : UniqueIds threeRules := by
    rw [UniqueIds]
    decide +kernel
  refine ⟨hids, (pricedExactly_iff threeRules ∅ _ ⟨id, id⟩ hids).2 ?_⟩
  have hsome : (priceWithRules threeRules ∅ { time := 0, promptTokens := some 1000 }
      ⟨id, id⟩).isSome = true := by decide +kernel
  obtain ⟨result, hresult⟩ := Option.isSome_iff_exists.1 hsome
  exact (priceWithRules_eq_some.1 hresult).1

/-- Pricing panics at a dear rule and a large count. -/
theorem not_pricedExactly_dearRule :
    ¬ PricedExactly [promptRule 0 "USD" 9000000000 10] ∅
      { time := 0, promptTokens := some 9223372036854775807 } ⟨id, id⟩ := by
  intro h
  obtain ⟨result, hresult, _⟩ := h _ fun unit ↦ .refl _
  rw [← priceWithRules_eq] at hresult
  have hnone : priceWithRules [promptRule 0 "USD" 9000000000 10] ∅
      { time := 0, promptTokens := some 9223372036854775807 } ⟨id, id⟩ = none := by
    decide +kernel
  rw [hnone] at hresult
  exact absurd hresult (by simp)

end Rules

end NextApi.Billing
