import NextApi.Billing.PricingChoice

/-!
# The rates that are used

Two passes build the set of rates: one over the rows, where what is set by hand replaces what is
fetched, and one over the direct rates in the order of a `HashMap`, which adds the inverse ones.
Whatever the order of the rows and of the map, the rate of a pair is that of its own row, the one
set by hand before the fresh one, then the inverse of the opposite row, then the built-in one
(`rate_eq`). So the order does not matter, a stale row does not either, and between the two
currencies of the prices every amount is converted whose product with the rate is a decimal
(`conversions_iff`).
-/

set_option autoImplicit false

namespace NextApi.Billing

open Json Logging Pricing

/-! ### Rows -/

def FxRateRow.pair (row : FxRateRow) : String × String := (row.currencyFrom, row.currencyTo)

/-- The key of a row. -/
def FxRateRow.key (row : FxRateRow) : String × String × String :=
  (row.currencyFrom, row.currencyTo, row.source)

/-- A row that was fetched no more whole minutes ago than the limit. -/
def FxRateRow.IsFresh (now : ℤ) (staleMaxMinutes : ℕ) (row : FxRateRow) : Prop :=
  ∃ ts, row.fetchedAt = some ts ∧ (now - ts).tdiv (60 * 10 ^ 9) ≤ staleMaxMinutes

/-- The rate of a row. -/
def FxRateRow.direct (row : FxRateRow) : FxRate := ⟨row.rate, row.source, row.fetchedAt, false⟩

/-- The rate of the opposite direction. -/
def FxRate.inverted (rate : FxRate) : FxRate := ⟨1 / rate.rate, rate.source, rate.fetchedAt, true⟩

section Rows

variable (rows : List FxRateRow) (now : ℤ) (staleMaxMinutes : ℕ) (pair : String × String)

/-- The row of a pair that is set by hand. -/
def manualRow : Option FxRateRow :=
  rows.find? fun row ↦ decide (row.pair = pair) && decide (row.source = "manual")

/-- The fetched row of a pair, if it is fresh. -/
def freshRow : Option FxRateRow :=
  rows.find? fun row ↦
    decide (row.pair = pair) && (decide (row.source = "auto") && row.isUsable now staleMaxMinutes)

/-- The row whose rate is that of the pair. -/
def directRow : Option FxRateRow :=
  (manualRow rows pair).or (freshRow rows now staleMaxMinutes pair)

/-- The rate between the two currencies of the prices when nothing is known. -/
def builtinRate : Option FxRate :=
  if pair = ("USD", "CNY") then some ⟨defaultUsdCny, "builtin", none, false⟩
  else if pair = ("CNY", "USD") then some ⟨1 / defaultUsdCny, "builtin", none, true⟩
  else none

/-- The inverse of the rate of the opposite row. -/
def inverseRate : Option FxRate :=
  (directRow rows now staleMaxMinutes pair.swap).bind fun row ↦
    if row.rate = 0 then none else some row.direct.inverted

/-- The rate of a pair. -/
def rateInUse : Option FxRate :=
  (((directRow rows now staleMaxMinutes pair).map FxRateRow.direct).or
    (inverseRate rows now staleMaxMinutes pair)).or (builtinRate pair)

end Rows

/-- A set of rates that is built from the rows, with some order of the map. -/
def IsFxSet (rows : List FxRateRow) (now : ℤ) (staleMaxMinutes : ℕ) (fx : FxSet) : Prop :=
  ∃ entries : List ((String × String) × FxRate),
    entries.Perm (rows.foldl (addDirect now staleMaxMinutes) ∅).toList ∧
      fx = entries.foldl addInverse (rows.foldl (addDirect now staleMaxMinutes) ∅)

theorem isFxSet_buildFxSet (rows : List FxRateRow) (now : ℤ) (staleMaxMinutes : ℕ) :
    IsFxSet rows now staleMaxMinutes (buildFxSet rows now staleMaxMinutes) :=
  ⟨_, .refl _, rfl⟩

/-! ### Direct rates -/

section Direct

variable {now : ℤ} {staleMaxMinutes : ℕ}

theorem isUsable_of_manual {row : FxRateRow} (h : row.source = "manual") :
    row.isUsable now staleMaxMinutes = true := by
  rw [FxRateRow.isUsable, h]
  rfl

/-- What is used is set by hand or fetched. -/
theorem source_of_isUsable {row : FxRateRow} (h : row.isUsable now staleMaxMinutes = true) :
    row.source = "manual" ∨ row.source = "auto" := by
  rw [FxRateRow.isUsable] at h
  split at h
  · next heq => exact Or.inl heq
  · next heq => exact Or.inr heq
  · exact absurd h Bool.false_ne_true

theorem source_manualRow {rows : List FxRateRow} {pair : String × String} {row : FxRateRow}
    (h : manualRow rows pair = some row) : row.source = "manual" := by
  have hrow := List.find?_some h
  rw [Bool.and_eq_true, decide_eq_true_eq, decide_eq_true_eq] at hrow
  exact hrow.2

theorem source_freshRow {rows : List FxRateRow} {pair : String × String} {row : FxRateRow}
    (h : freshRow rows now staleMaxMinutes pair = some row) : row.source = "auto" := by
  have hrow := List.find?_some h
  rw [Bool.and_eq_true, Bool.and_eq_true, decide_eq_true_eq, decide_eq_true_eq] at hrow
  exact hrow.2.1

/-- One more row, seen from a pair. -/
theorem directRow_concat (rows : List FxRateRow) (row : FxRateRow) (pair : String × String) :
    directRow (rows ++ [row]) now staleMaxMinutes pair =
      if row.pair = pair ∧ row.isUsable now staleMaxMinutes = true then
        if row.source = "manual" then ((manualRow rows pair).or (some row))
        else (directRow rows now staleMaxMinutes pair).or (some row)
      else directRow rows now staleMaxMinutes pair := by
  rw [directRow, directRow, manualRow, manualRow, freshRow, freshRow, List.find?_append,
    List.find?_append, List.find?_singleton, List.find?_singleton]
  by_cases hpair : row.pair = pair
  · by_cases hmanual : row.source = "manual"
    · have husable : row.isUsable now staleMaxMinutes = true := isUsable_of_manual hmanual
      simp [hpair, hmanual, husable]
    · by_cases husable : row.isUsable now staleMaxMinutes = true
      · have hauto : row.source = "auto" := (source_of_isUsable husable).resolve_left hmanual
        simp [hpair, hauto, husable]
      · simp [hpair, hmanual, husable]
  · simp [hpair]

theorem lookup_addDirect_of_ne {direct : FxSet} {row : FxRateRow} {pair : String × String}
    (h : ¬ (row.pair = pair ∧ row.isUsable now staleMaxMinutes = true)) :
    (addDirect now staleMaxMinutes direct row).lookup pair = direct.lookup pair := by
  rw [addDirect]
  split
  · rfl
  · next husable =>
    rw [Bool.not_eq_true, Bool.not_eq_false'] at husable
    have hne : (row.currencyFrom, row.currencyTo) ≠ pair := fun hpair ↦ h ⟨hpair, husable⟩
    dsimp only
    split
    · split
      · rw [Table.lookup_insert, if_neg hne]
      · rfl
    · rw [Table.lookup_insert, if_neg hne]

theorem lookup_addDirect_self {direct : FxSet} {row : FxRateRow}
    (husable : row.isUsable now staleMaxMinutes = true) :
    (addDirect now staleMaxMinutes direct row).lookup row.pair =
      some ((direct.lookup row.pair).elim row.direct fun existing ↦
        if row.source = "manual" ∧ existing.source ≠ "manual" then row.direct else existing) := by
  rw [addDirect, husable, Bool.not_true, if_neg Bool.false_ne_true]
  dsimp only
  rw [← FxRateRow.pair]
  cases hlookup : direct.lookup row.pair with
  | none => rw [Table.lookup_insert, if_pos rfl, Option.elim_none, FxRateRow.direct]
  | some existing =>
    dsimp only
    rw [Option.elim_some]
    split
    · rw [Table.lookup_insert, if_pos rfl, FxRateRow.direct]
    · exact hlookup

/-- The first pass finds the direct row of every pair. -/
theorem lookup_direct (rows : List FxRateRow) (pair : String × String) :
    (rows.foldl (addDirect now staleMaxMinutes) ∅).lookup pair =
      (directRow rows now staleMaxMinutes pair).map FxRateRow.direct := by
  induction rows using List.reverseRecOn with
  | nil => rw [List.foldl_nil, Table.lookup_empty]; rfl
  | append_singleton rows row ih =>
    rw [List.foldl_append, List.foldl_cons, List.foldl_nil, directRow_concat]
    by_cases hrow : row.pair = pair ∧ row.isUsable now staleMaxMinutes = true
    · obtain ⟨rfl, husable⟩ := hrow
      rw [lookup_addDirect_self husable, ih, if_pos ⟨rfl, husable⟩, directRow]
      cases hmanual : manualRow rows row.pair with
      | some old =>
        have hold : old.direct.source = "manual" := source_manualRow hmanual
        simp [hold]
      | none =>
        cases hfresh : freshRow rows now staleMaxMinutes row.pair with
        | none => simp
        | some old =>
          have hold : old.direct.source = "auto" := source_freshRow hfresh
          by_cases hsource : row.source = "manual" <;> simp [hsource, hold]
    · rw [lookup_addDirect_of_ne hrow, ih, if_neg hrow]

end Direct

/-! ### Inverse rates -/

/-- What an entry of the map gives for a pair. -/
def inverseFor (pair : String × String) (entry : (String × String) × FxRate) : Option FxRate :=
  if entry.1 = pair.swap then if entry.2.rate = 0 then none else some entry.2.inverted else none

theorem lookup_addInverse (map : FxSet) (entry : (String × String) × FxRate)
    (pair : String × String) :
    (addInverse map entry).lookup pair = (map.lookup pair).or (inverseFor pair entry) := by
  have hswap : entry.1 = pair.swap ↔ entry.1.swap = pair := by
    rw [← Prod.swap_inj, Prod.swap_swap]
  have hkey : (entry.1.2, entry.1.1) = entry.1.swap := rfl
  rw [addInverse, inverseFor, hkey]
  simp only [hswap]
  by_cases hpair : entry.1.swap = pair
  · subst hpair
    cases hlookup : map.lookup entry.1.swap with
    | some rate => simp [hlookup]
    | none =>
      by_cases hzero : entry.2.rate = 0
      · simp [hlookup, hzero]
      · simp [hzero, FxRate.inverted]
  · split
    · simp
    · simp [hpair]

/-- The second pass adds what the opposite entries give. -/
theorem lookup_foldl_addInverse (entries : List ((String × String) × FxRate)) (map : FxSet)
    (pair : String × String) :
    (entries.foldl addInverse map).lookup pair =
      (map.lookup pair).or (entries.findSome? (inverseFor pair)) := by
  induction entries generalizing map with
  | nil => simp
  | cons entry rest ih =>
    rw [List.foldl_cons, ih, lookup_addInverse, Option.or_assoc, List.findSome?_cons]
    cases inverseFor pair entry <;> rfl

/-! ### The rate of a pair -/

section Rate

variable {rows : List FxRateRow} {now : ℤ} {staleMaxMinutes : ℕ} {fx : FxSet}

theorem lookup_fxSet (hfx : IsFxSet rows now staleMaxMinutes fx) (pair : String × String) :
    fx.lookup pair = ((directRow rows now staleMaxMinutes pair).map FxRateRow.direct).or
      (inverseRate rows now staleMaxMinutes pair) := by
  obtain ⟨entries, hperm, rfl⟩ := hfx
  have hinverse : entries.findSome? (inverseFor pair) =
      inverseRate rows now staleMaxMinutes pair := by
    have hentries := Table.findSome?_entries hperm pair.swap fun rate ↦
      if rate.rate = 0 then none else some rate.inverted
    rw [lookup_direct] at hentries
    rw [inverseRate]
    refine hentries.trans ?_
    cases directRow rows now staleMaxMinutes pair.swap <;> rfl
  rw [lookup_foldl_addInverse, lookup_direct, hinverse]

/-- Whatever the order of the map, the rate of a pair is the one in use. -/
theorem rate_eq (hfx : IsFxSet rows now staleMaxMinutes fx) (currencyFrom currencyTo : String) :
    FxSet.rate fx currencyFrom currencyTo =
      rateInUse rows now staleMaxMinutes (currencyFrom, currencyTo) := by
  rw [FxSet.rate, rateInUse, ← lookup_fxSet hfx, builtinRate]
  cases fx.lookup (currencyFrom, currencyTo) <;> rfl

/-- Conversions are those of the rates in use. -/
theorem convert_eq {rows' : List FxRateRow} {fx' : FxSet}
    (hfx : IsFxSet rows now staleMaxMinutes fx) (hfx' : IsFxSet rows' now staleMaxMinutes fx')
    (hrate : ∀ pair, rateInUse rows now staleMaxMinutes pair =
      rateInUse rows' now staleMaxMinutes pair) :
    FxSet.convert fx = FxSet.convert fx' := by
  funext currencyFrom currencyTo amount
  rw [FxSet.convert, FxSet.convert, rate_eq hfx, rate_eq hfx', hrate]

end Rate

/-! ### The order of the rows -/

section Order

variable {rows rows' : List FxRateRow} {now : ℤ} {staleMaxMinutes : ℕ}

theorem key_eq_key {x y : FxRateRow} (hpair : x.pair = y.pair) (hsource : x.source = y.source) :
    x.key = y.key := by
  obtain ⟨hfrom, hto⟩ := Prod.mk.inj hpair
  rw [FxRateRow.key, FxRateRow.key, hfrom, hto, hsource]

theorem manualRow_eq_of_perm (hkeys : (rows.map FxRateRow.key).Nodup) (hperm : rows.Perm rows')
    (pair : String × String) : manualRow rows pair = manualRow rows' pair := by
  refine find?_eq_of_perm hperm (countP_le_one_of_nodup hkeys fun x _ y _ hx hy ↦ ?_)
  simp only [Bool.and_eq_true, decide_eq_true_eq] at hx hy
  exact key_eq_key (hx.1.trans hy.1.symm) (hx.2.trans hy.2.symm)

theorem freshRow_eq_of_perm (hkeys : (rows.map FxRateRow.key).Nodup) (hperm : rows.Perm rows')
    (pair : String × String) :
    freshRow rows now staleMaxMinutes pair = freshRow rows' now staleMaxMinutes pair := by
  refine find?_eq_of_perm hperm (countP_le_one_of_nodup hkeys fun x _ y _ hx hy ↦ ?_)
  simp only [Bool.and_eq_true, decide_eq_true_eq] at hx hy
  exact key_eq_key (hx.1.trans hy.1.symm) (hx.2.1.trans hy.2.1.symm)

/-- Rates are those of the direct rows. -/
theorem rateInUse_eq (h : ∀ pair, directRow rows now staleMaxMinutes pair =
    directRow rows' now staleMaxMinutes pair) (pair : String × String) :
    rateInUse rows now staleMaxMinutes pair = rateInUse rows' now staleMaxMinutes pair := by
  rw [rateInUse, rateInUse, inverseRate, inverseRate, h, h]

theorem directRow_eq_of_perm (hkeys : (rows.map FxRateRow.key).Nodup) (hperm : rows.Perm rows')
    (pair : String × String) :
    directRow rows now staleMaxMinutes pair = directRow rows' now staleMaxMinutes pair := by
  rw [directRow, directRow, manualRow_eq_of_perm hkeys hperm, freshRow_eq_of_perm hkeys hperm]

end Order

/-! ### What is used -/

section Use

variable {rows : List FxRateRow} {now : ℤ} {staleMaxMinutes : ℕ}

/-- A row may be used when it is set by hand, or fetched and fresh. -/
theorem isUsable_iff (hlimit : staleMaxMinutes < 2 ^ 63) (row : FxRateRow) :
    row.isUsable now staleMaxMinutes = true ↔
      row.source = "manual" ∨ (row.source = "auto" ∧ row.IsFresh now staleMaxMinutes) := by
  have hwrap : (staleMaxMinutes : ℤ).bmod (2 ^ 64) = staleMaxMinutes :=
    Int.bmod_eq_of_le (by omega) (by omega)
  rw [FxRateRow.isUsable, hwrap, FxRateRow.IsFresh]
  split
  · next heq => simp [heq]
  · next heq => simp [heq, Option.any_eq_true]
  · next hmanual hauto =>
    exact iff_of_false Bool.false_ne_true fun h ↦ h.elim hmanual fun h ↦ hauto h.1

/-- A row that may not be used gives nothing. -/
theorem directRow_skip {before after : List FxRateRow} {row : FxRateRow}
    (h : row.isUsable now staleMaxMinutes = false) (pair : String × String) :
    directRow (before ++ row :: after) now staleMaxMinutes pair =
      directRow (before ++ after) now staleMaxMinutes pair := by
  have hmanual : row.source ≠ "manual" := by
    intro hsource
    rw [isUsable_of_manual hsource] at h
    exact absurd h (by decide)
  rw [directRow, directRow, manualRow, manualRow, freshRow, freshRow, List.find?_append,
    List.find?_append, List.find?_append, List.find?_append,
    List.find?_cons_of_neg (by simp [hmanual]), List.find?_cons_of_neg (by simp [h])]

/-- The row that is set by hand is the direct one. -/
theorem directRow_manual (hkeys : (rows.map FxRateRow.key).Nodup) {row : FxRateRow}
    (hrow : row ∈ rows) (hsource : row.source = "manual") :
    directRow rows now staleMaxMinutes row.pair = some row := by
  have hmanual : manualRow rows row.pair = some row := by
    cases hfind : manualRow rows row.pair with
    | none =>
      have hnone := List.find?_eq_none.1 hfind row hrow
      simp [hsource] at hnone
    | some found =>
      have hfound := List.find?_some hfind
      simp only [Bool.and_eq_true, decide_eq_true_eq] at hfound
      have hkey := key_eq_key hfound.1 (hfound.2.trans hsource.symm)
      rw [List.inj_on_of_nodup_map hkeys (List.mem_of_find?_eq_some hfind) hrow hkey]
  rw [directRow, hmanual, Option.some_or]

/-- Where some row may be used there is a direct one. -/
theorem isSome_directRow {row : FxRateRow} (hrow : row ∈ rows)
    (husable : row.isUsable now staleMaxMinutes = true) :
    (directRow rows now staleMaxMinutes row.pair).isSome = true := by
  rw [directRow, Option.isSome_or, Bool.or_eq_true, manualRow, freshRow, List.find?_isSome,
    List.find?_isSome]
  rcases source_of_isUsable husable with hsource | hsource
  · exact Or.inl ⟨row, hrow, by simp [hsource]⟩
  · exact Or.inr ⟨row, hrow, by simp [hsource, husable]⟩

/-- A rate that is an inverse is used where there is no direct row. -/
theorem directRow_of_inverse {pair : String × String} {rate : FxRate}
    (h : rateInUse rows now staleMaxMinutes pair = some rate) (hinverse : rate.inverse = true) :
    directRow rows now staleMaxMinutes pair = none := by
  rw [rateInUse] at h
  cases hdirect : directRow rows now staleMaxMinutes pair with
  | none => rfl
  | some row =>
    rw [hdirect, Option.map_some, Option.some_or, Option.some_or, Option.some_inj] at h
    rw [← h] at hinverse
    exact absurd hinverse Bool.false_ne_true

end Use

/-! ### The two currencies of the prices -/

section Prices

variable {rows : List FxRateRow} {now : ℤ} {staleMaxMinutes : ℕ} {fx : FxSet}

/-- There is a rate from yuan to dollars and back, whatever is known. -/
theorem isSome_rate (fx : FxSet) :
    (FxSet.rate fx "USD" "CNY").isSome = true ∧ (FxSet.rate fx "CNY" "USD").isSome = true := by
  rw [FxSet.rate, FxSet.rate]
  constructor
  · cases fx.lookup ("USD", "CNY") <;> rfl
  · cases fx.lookup ("CNY", "USD") <;> rfl

/-- The product of an amount and the rate of a pair is a decimal. -/
def AmountFits (rows : List FxRateRow) (now : ℤ) (staleMaxMinutes : ℕ) (amount : ℚ)
    (pair : String × String) : Prop :=
  ∀ rate, rateInUse rows now staleMaxMinutes pair = some rate → IsDecimal (amount * rate.rate)

/-- An amount is converted when its product with the rate is a decimal. -/
theorem converts_iff (hfx : IsFxSet rows now staleMaxMinutes fx) {currencyFrom currencyTo : String}
    (hne : currencyFrom ≠ currencyTo)
    (hrate : (FxSet.rate fx currencyFrom currencyTo).isSome = true) (amount : ℚ) :
    (∃ converted, FxSet.convert fx currencyFrom currencyTo amount = some (some converted)) ↔
      AmountFits rows now staleMaxMinutes amount (currencyFrom, currencyTo) := by
  obtain ⟨rate, hrate⟩ := Option.isSome_iff_exists.1 hrate
  rw [AmountFits, ← rate_eq hfx, hrate, FxSet.convert, if_neg hne, hrate]
  constructor
  · rintro ⟨converted, hconverted⟩ found ⟨rfl⟩
    obtain ⟨x, hx, _⟩ := Option.map_eq_some_iff.1 hconverted
    exact (decimal_eq_some.1 hx).1
  · intro hfits
    exact ⟨_, Option.map_eq_some_iff.2 ⟨_, decimal_eq_some.2 ⟨hfits rate rfl, rfl⟩, rfl⟩⟩

variable [SerdeJson] [DecimalText]

/-- The currency of a line is that of a rule. -/
theorem currency_of_mem_exactLines {rules : List PriceRule} {input : PricingInput} {zone : Zone}
    {line : PricedLine} (h : line ∈ exactLines rules input zone) :
    ∃ rule ∈ rules, line.currency = rule.currency := by
  rw [exactLines, matched_eq, List.mem_map] at h
  obtain ⟨m, hm, rfl⟩ := h
  rw [matchesOf, List.mem_flatMap] at hm
  obtain ⟨unit, _, hm⟩ := hm
  rw [unitMatches] at hm
  cases hquantity : unitQuantity unit input with
  | none =>
    rw [hquantity] at hm
    exact absurd hm List.not_mem_nil
  | some quantity =>
    rw [hquantity, Option.elim_some, List.mem_map] at hm
    obtain ⟨⟨currency, best⟩, hbest, rfl⟩ := hm
    have happlies := applies_of_mem_bestRules hbest
    exact ⟨best, happlies.active.1, happlies.currency.symm⟩

omit [SerdeJson] [DecimalText] in
/-- A line in one of two currencies with a rate between them adds to the cost. -/
theorem isSome_cost {lines : List PricedLine} {line : PricedLine} (hline : line ∈ lines)
    {currency other : String} (hcurrency : line.currency = currency ∨ line.currency = other)
    (hrate : (FxSet.rate fx other currency).isSome = true) :
    (someSum (amounts fx lines currency other)).isSome = true := by
  have hne : amounts fx lines currency other ≠ [] := by
    obtain ⟨rate, hrate⟩ := Option.isSome_iff_exists.1 hrate
    rw [amounts, Ne, List.append_eq_nil_iff, List.filterMap_eq_nil_iff, List.filterMap_eq_nil_iff]
    rintro ⟨hdirect, hconverted⟩
    rcases hcurrency with hcurrency | hcurrency
    · have hnone := hdirect line hline
      rw [directAmount, if_pos hcurrency] at hnone
      exact absurd hnone (by simp)
    · have hnone := hconverted line hline
      rw [convertedAmount, if_pos hcurrency, hrate] at hnone
      exact absurd hnone (by simp)
  rw [someSum, if_neg hne]
  rfl

variable [FieldText]

/-- What is priced has both costs. -/
theorem both_costs {rules : List PriceRule} {input : PricingInput} {zone : Zone}
    {result : PricingResult}
    (hcurrency : ∀ rule ∈ rules, rule.currency = "CNY" ∨ rule.currency = "USD")
    (hresult : priceWithRules rules fx input zone = some result) (hpriced : result.priced = true) :
    result.costCny.isSome = true ∧ result.costUsd.isSome = true := by
  obtain ⟨_, rfl⟩ := priceWithRules_eq_some.1 hresult
  rw [exactResult, Bool.not_eq_true', List.isEmpty_eq_false_iff] at hpriced
  obtain ⟨line, hline⟩ := List.exists_mem_of_ne_nil _ hpriced
  obtain ⟨rule, hrule, heq⟩ := currency_of_mem_exactLines hline
  have hline' := hcurrency rule hrule
  rw [← heq] at hline'
  exact ⟨isSome_cost hline hline' (isSome_rate fx).1,
    isSome_cost hline hline'.symm (isSome_rate fx).2⟩

end Prices

/-! ### Conversions -/

section Conversions

variable [SerdeJson] [DecimalText] [FieldText]

/-- What is asked of the conversions with the rates of some rows. -/
structure ConversionsHold (rows : List FxRateRow) (now : ℤ) (staleMaxMinutes : ℕ) (amount : ℚ) :
    Prop where
  order : ∀ rows' fx fx', rows.Perm rows' → IsFxSet rows now staleMaxMinutes fx →
    IsFxSet rows' now staleMaxMinutes fx' → FxSet.convert fx = FxSet.convert fx'
  manual : ∀ fx row, IsFxSet rows now staleMaxMinutes fx → row ∈ rows → row.source = "manual" →
    FxSet.rate fx row.currencyFrom row.currencyTo = some row.direct
  stale : ∀ before row after fx fx', rows = before ++ row :: after → row.source = "auto" →
    ¬ row.IsFresh now staleMaxMinutes → IsFxSet rows now staleMaxMinutes fx →
      IsFxSet (before ++ after) now staleMaxMinutes fx' → FxSet.convert fx = FxSet.convert fx'
  inverse : ∀ fx currencyFrom currencyTo rate, IsFxSet rows now staleMaxMinutes fx →
    FxSet.rate fx currencyFrom currencyTo = some rate → rate.inverse = true →
      ∀ row ∈ rows, row.pair = (currencyFrom, currencyTo) →
        ¬ (row.source = "manual" ∨ (row.source = "auto" ∧ row.IsFresh now staleMaxMinutes))
  converts : ∀ fx, IsFxSet rows now staleMaxMinutes fx →
    (∃ converted, FxSet.convert fx "USD" "CNY" amount = some (some converted)) ∧
      ∃ converted, FxSet.convert fx "CNY" "USD" amount = some (some converted)
  costs : ∀ fx rules input zone result, IsFxSet rows now staleMaxMinutes fx →
    (∀ rule ∈ rules, rule.currency = "CNY" ∨ rule.currency = "USD") →
      priceWithRules rules fx input zone = some result → result.priced = true →
        result.costCny.isSome = true ∧ result.costUsd.isSome = true

/-- The rates are used as they should be, and an amount is converted when its products with the two
rates are decimals. -/
theorem conversionsHold_iff (rows : List FxRateRow) (now : ℤ) (staleMaxMinutes : ℕ) (amount : ℚ)
    (hkeys : (rows.map FxRateRow.key).Nodup) (hlimit : staleMaxMinutes < 2 ^ 63) :
    ConversionsHold rows now staleMaxMinutes amount ↔
      AmountFits rows now staleMaxMinutes amount ("USD", "CNY") ∧
        AmountFits rows now staleMaxMinutes amount ("CNY", "USD") := by
  have hconverts (fx : FxSet) (hfx : IsFxSet rows now staleMaxMinutes fx) :
      ((∃ converted, FxSet.convert fx "USD" "CNY" amount = some (some converted)) ∧
        ∃ converted, FxSet.convert fx "CNY" "USD" amount = some (some converted)) ↔
      AmountFits rows now staleMaxMinutes amount ("USD", "CNY") ∧
        AmountFits rows now staleMaxMinutes amount ("CNY", "USD") :=
    and_congr (converts_iff hfx (by decide) (isSome_rate fx).1 amount)
      (converts_iff hfx (by decide) (isSome_rate fx).2 amount)
  constructor
  · intro h
    exact (hconverts _ (isFxSet_buildFxSet ..)).1 (h.converts _ (isFxSet_buildFxSet ..))
  · intro hfits
    refine ⟨?_, ?_, ?_, ?_, fun fx hfx ↦ (hconverts fx hfx).2 hfits, ?_⟩
    · intro rows' fx fx' hperm hfx hfx'
      exact convert_eq hfx hfx' (rateInUse_eq (directRow_eq_of_perm hkeys hperm))
    · intro fx row hfx hrow hsource
      rw [rate_eq hfx, rateInUse]
      change ((((directRow rows now staleMaxMinutes row.pair).map _).or _).or _) = _
      rw [directRow_manual hkeys hrow hsource, Option.map_some, Option.some_or, Option.some_or]
    · rintro before row after fx fx' rfl hauto hstale hfx hfx'
      refine convert_eq hfx hfx' (rateInUse_eq (directRow_skip ?_))
      rw [← Bool.not_eq_true, isUsable_iff hlimit]
      rintro (hmanual | hfresh)
      · rw [hauto] at hmanual
        exact absurd hmanual (by decide)
      · exact hstale hfresh.2
    · intro fx currencyFrom currencyTo rate hfx hrate hinverse row hrow hpair husable
      rw [rate_eq hfx, ← hpair] at hrate
      have hsome := isSome_directRow hrow ((isUsable_iff hlimit row).2 husable)
      rw [directRow_of_inverse hrate hinverse] at hsome
      exact Bool.false_ne_true hsome
    · intro fx rules input zone result _ hcurrency hresult hpriced
      exact both_costs hcurrency hresult hpriced

end Conversions

/-! ### Some rows -/

section SomeRows

attribute [local instance] choiceCodec noDecimalText noFieldText

/-- A fetched rate that is two hours old at time zero, one set by hand for the opposite direction,
and one that is zero. -/
def someRows : List FxRateRow :=
  [⟨"USD", "CNY", 7, "auto", some (-7200 * 10 ^ 9)⟩, ⟨"CNY", "USD", 1 / 8, "manual", none⟩,
    ⟨"EUR", "USD", 0, "auto", some 0⟩]

theorem conversionsHold_someRows :
    (someRows.map FxRateRow.key).Nodup ∧ (60 : ℕ) < 2 ^ 63 ∧ ConversionsHold someRows 0 60 5 := by
  have hkeys : (someRows.map FxRateRow.key).Nodup := by decide +kernel
  refine ⟨hkeys, by decide, (conversionsHold_iff someRows 0 60 5 hkeys (by decide)).2 ⟨?_, ?_⟩⟩
  · have hrate : rateInUse someRows 0 60 ("USD", "CNY") = some ⟨8, "manual", none, true⟩ := by
      decide +kernel
    rw [AmountFits, hrate]
    rintro rate ⟨rfl⟩
    decide +kernel
  · have hrate : rateInUse someRows 0 60 ("CNY", "USD") = some ⟨1 / 8, "manual", none, false⟩ := by
      decide +kernel
    rw [AmountFits, hrate]
    rintro rate ⟨rfl⟩
    decide +kernel

/-- A rate that the table can hold, and an amount that does not fit with it. -/
theorem not_conversionsHold_largeRate :
    ¬ ConversionsHold [⟨"USD", "CNY", 9999999999, "manual", none⟩] 0 60 (10 ^ 19) := by
  intro h
  obtain ⟨⟨converted, hconverted⟩, _⟩ := h.converts _ (isFxSet_buildFxSet ..)
  have hnone : FxSet.convert (buildFxSet [⟨"USD", "CNY", 9999999999, "manual", none⟩] 0 60)
      "USD" "CNY" (10 ^ 19) = none := by
    decide +kernel
  rw [hnone] at hconverted
  exact absurd hconverted (by simp)

end SomeRows

end NextApi.Billing
