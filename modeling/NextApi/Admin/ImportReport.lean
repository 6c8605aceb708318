import NextApi.Admin.PriceImport
import NextApi.Json.Compact
import NextApi.Stream.Dedup

/-!
# What an import takes from a file

An item of a file gives its rows, or fails as a whole. Whether it repeats what the file has already
is decided for the item: it is skipped when all of its keys are there, and otherwise all of its rows
are taken, those with a key that is there among them. The rows are written in order, so such a row
overrides an earlier one, though a file is said to keep the first of every key.

Apart from that an import is exact. The first row that is returned under a key is the first valid
one of the file, an item that fails gives no row and is reported with its index, and the counts add
up. The keys are distinct exactly when every valid item has keys that are all there, or all
different and new (`exactImport_iff`).
-/

set_option autoImplicit false

namespace NextApi.Pricing

open Json Admin Logging

section Items

variable [SerdeJson] [DecimalText]

/-! ### Items -/

/-- The rows of an item, or the reason why it fails. -/
def itemRows (upstreamIds : Table String Uuid) (item : PriceExportItem) :
    Except String (List ImportRow) :=
  match upstreamIds.lookup item.upstream with
  | none => .error s!"上游不存在: {item.upstream}"
  | some upId =>
    if (expandItem item upId).isEmpty then .error "无可导入的价格项"
    else validateRows (expandItem item upId)

/-- The rows of the valid items, one list for each of them. -/
def validBatches (upstreamIds : Table String Uuid) (items : List PriceExportItem) :
    List (List ImportRow) :=
  items.filterMap fun item ↦ (itemRows upstreamIds item).toOption

/-- The items that fail, the first item having the index `idx`. -/
def failures (upstreamIds : Table String Uuid) : ℕ → List PriceExportItem → List FailedRow
  | _, [] => []
  | idx, item :: rest =>
    match itemRows upstreamIds item with
    | .error reason => ⟨idx, reason⟩ :: failures upstreamIds (idx + 1) rest
    | .ok _ => failures upstreamIds (idx + 1) rest

/-- What is returned are distinct keys, each with its first valid row in the file; the items that
fail are reported and give no row, and every item is counted once. -/
structure ExactImport (upstreamIds : Table String Uuid) (items : List PriceExportItem)
    (result : List ImportRow × ImportReport) : Prop where
  distinct : (result.1.map ImportRow.key).Nodup
  first (k : RuleKey) : result.1.find? (fun r ↦ decide (r.key = k)) =
    (validBatches upstreamIds items).flatten.find? fun r ↦ decide (r.key = k)
  valid : result.1.Sublist (validBatches upstreamIds items).flatten
  failed : result.2.failed = failures upstreamIds 0 items
  total : result.2.total = items.length ∧
    result.2.total = result.2.succeeded + result.2.skipped + result.2.failed.length

/-- The keys of a valid item are all there already, or all different and new. -/
def OrderlyItems (upstreamIds : Table String Uuid) (items : List PriceExportItem) : Prop :=
  ∀ before item after, items = before ++ item :: after → ∀ rows,
    itemRows upstreamIds item = .ok rows →
      Dedup.Separate ImportRow.key (validBatches upstreamIds before).flatten rows

/-! ### The analysis -/

namespace Analysis

/-- What one item does. -/
theorem analyzeItem_eq (upstreamIds : Table String Uuid) (a : Analysis) (idx : ℕ)
    (item : PriceExportItem) : a.analyzeItem upstreamIds idx item =
      match itemRows upstreamIds item with
      | .error reason => a.fail idx reason
      | .ok valid =>
        if valid.all fun r ↦ a.seen.contains r.key then
          { a with report := { a.report with skipped := a.report.skipped + 1 } }
        else
          { rows := a.rows ++ valid
            seen := a.seen ++ valid.map ImportRow.key
            report := { a.report with succeeded := a.report.succeeded + 1 } } := by
  rw [analyzeItem, itemRows]
  cases upstreamIds.lookup item.upstream with
  | none => rfl
  | some upId =>
    dsimp only
    cases (expandItem item upId).isEmpty with
    | true => rfl
    | false => rfl

/-- The rows come from the valid items, batch by batch. -/
theorem rows_analyzeFrom (upstreamIds : Table String Uuid) (items : List PriceExportItem) (idx : ℕ)
    {a : Analysis} (hseen : a.seen = a.rows.map ImportRow.key) :
    (analyzeFrom upstreamIds idx a items).rows =
      Dedup.addBatches ImportRow.key a.rows (validBatches upstreamIds items) := by
  induction items generalizing idx a with
  | nil => rfl
  | cons item rest ih =>
    rw [analyzeFrom, analyzeItem_eq, validBatches]
    cases hitem : itemRows upstreamIds item with
    | error reason =>
      rw [List.filterMap_cons_none (by rw [hitem]; rfl)]
      exact ih (idx + 1) hseen
    | ok valid =>
      rw [List.filterMap_cons_some (by rw [hitem]; rfl), Dedup.addBatches, List.foldl_cons,
        ← Dedup.addBatches, Dedup.addBatch, ← hseen]
      dsimp only
      split
      · exact ih (idx + 1) hseen
      · exact ih (idx + 1) (by rw [hseen, List.map_append])

/-- Every item that fails is reported. -/
theorem failed_analyzeFrom (upstreamIds : Table String Uuid) (items : List PriceExportItem)
    (idx : ℕ) (a : Analysis) : (analyzeFrom upstreamIds idx a items).report.failed =
      a.report.failed ++ failures upstreamIds idx items := by
  induction items generalizing idx a with
  | nil => exact (List.append_nil _).symm
  | cons item rest ih =>
    rw [analyzeFrom, ih, analyzeItem_eq, failures]
    cases itemRows upstreamIds item with
    | error reason =>
      dsimp only
      rw [fail, List.append_assoc, List.singleton_append]
    | ok valid =>
      dsimp only
      split
      · rfl
      · rfl

/-- Every item is counted once. -/
theorem counts_analyzeFrom (upstreamIds : Table String Uuid) (items : List PriceExportItem)
    (idx : ℕ) (a : Analysis) :
    (analyzeFrom upstreamIds idx a items).report.succeeded +
        (analyzeFrom upstreamIds idx a items).report.skipped +
        (analyzeFrom upstreamIds idx a items).report.failed.length =
      a.report.succeeded + a.report.skipped + a.report.failed.length + items.length := by
  induction items generalizing idx a with
  | nil => rfl
  | cons item rest ih =>
    rw [analyzeFrom, ih, analyzeItem_eq, List.length_cons]
    cases itemRows upstreamIds item with
    | error reason =>
      dsimp only [fail]
      rw [List.length_append, List.length_singleton]
      omega
    | ok valid =>
      dsimp only
      split
      · dsimp only
        omega
      · dsimp only
        omega

end Analysis

theorem rows_analyzeImport (upstreamIds : Table String Uuid) (items : List PriceExportItem) :
    (analyzeImport items upstreamIds).1 =
      Dedup.addBatches ImportRow.key [] (validBatches upstreamIds items) :=
  Analysis.rows_analyzeFrom upstreamIds items 0 rfl

theorem failed_analyzeImport (upstreamIds : Table String Uuid) (items : List PriceExportItem) :
    (analyzeImport items upstreamIds).2.failed = failures upstreamIds 0 items := by
  rw [analyzeImport]
  exact (Analysis.failed_analyzeFrom upstreamIds items 0 {}).trans (List.nil_append _)

theorem total_analyzeImport (upstreamIds : Table String Uuid) (items : List PriceExportItem) :
    (analyzeImport items upstreamIds).2.total = items.length ∧
      (analyzeImport items upstreamIds).2.total =
        (analyzeImport items upstreamIds).2.succeeded +
          (analyzeImport items upstreamIds).2.skipped +
          (analyzeImport items upstreamIds).2.failed.length := by
  have h := Analysis.counts_analyzeFrom upstreamIds items 0 {}
  refine ⟨rfl, ?_⟩
  rw [analyzeImport]
  dsimp only
  rw [h]
  exact (Nat.zero_add _).symm

/-- A valid item is a batch after those of the items before it. -/
theorem forall_validBatches_iff {upstreamIds : Table String Uuid} {items : List PriceExportItem}
    {P : List (List ImportRow) → List ImportRow → Prop} :
    (∀ before batch after, validBatches upstreamIds items = before ++ batch :: after →
        P before batch) ↔
      ∀ before item after, items = before ++ item :: after → ∀ rows,
        itemRows upstreamIds item = .ok rows → P (validBatches upstreamIds before) rows := by
  constructor
  · intro h before item after hitems rows hrows
    refine h _ rows (validBatches upstreamIds after) ?_
    rw [hitems, validBatches, List.filterMap_append, List.filterMap_cons_some (by rw [hrows]; rfl)]
    rfl
  · intro h before batch after hbatches
    obtain ⟨first, rest, rfl, rfl, hrest⟩ := List.filterMap_eq_append_iff.1 hbatches
    obtain ⟨skipped, item, last, rfl, hskipped, hitem, rfl⟩ := List.filterMap_eq_cons_iff.1 hrest
    have hbefore : validBatches upstreamIds (first ++ skipped) = validBatches upstreamIds first := by
      rw [validBatches, List.filterMap_append, List.filterMap_eq_nil_iff.2 hskipped,
        List.append_nil]
      rfl
    have hrows : itemRows upstreamIds item = .ok batch := by
      cases hitem' : itemRows upstreamIds item with
      | error reason =>
        rw [hitem'] at hitem
        exact absurd hitem (by simp [Except.toOption])
      | ok rows =>
        rw [hitem'] at hitem
        rw [Option.some.inj hitem]
    have hhere := h (first ++ skipped) item last (by rw [List.append_assoc]) batch hrows
    rw [hbefore] at hhere
    exact hhere

/-- An import is exact when the keys of every valid item are all there already, or all different
and new, and only then. -/
theorem exactImport_iff (items : List PriceExportItem) (upstreamIds : Table String Uuid) :
    ExactImport upstreamIds items (analyzeImport items upstreamIds) ↔
      OrderlyItems upstreamIds items := by
  have hdistinct : ((analyzeImport items upstreamIds).1.map ImportRow.key).Nodup ↔
      OrderlyItems upstreamIds items := by
    rw [rows_analyzeImport, Dedup.nodup_addBatches_iff, forall_validBatches_iff, OrderlyItems]
  constructor
  · intro h
    exact hdistinct.1 h.distinct
  · intro h
    refine ⟨hdistinct.2 h, fun k ↦ ?_, ?_, failed_analyzeImport upstreamIds items,
      total_analyzeImport upstreamIds items⟩
    · rw [rows_analyzeImport, Dedup.find?_addBatches, List.nil_append]
    · rw [rows_analyzeImport]
      exact Dedup.sublist_addBatches [] (validBatches upstreamIds items)

end Items

/-! ### A file that prices a unit twice -/

section Fixed

local instance reportCodec : SerdeJson := Compact.codec

/-- No price of the file is a text. -/
local instance reportDecimals : DecimalText where
  fromStrExact _ := none
  ofJson _ := none

/-- Two items of one model: the second has another input price, and a price of the output. -/
def overlappingItems : List PriceExportItem :=
  [{ modelId := "m", upstream := "u", currency := "USD", inputPerM := some 1 },
    { modelId := "m", upstream := "u", currency := "USD", inputPerM := some 2,
      outputPerM := some 3 }]

def oneUpstream : Table String Uuid := (∅ : Table String Uuid).insert "u" 0

theorem not_exactImport_overlappingItems :
    ¬ ExactImport oneUpstream overlappingItems (analyzeImport overlappingItems oneUpstream) :=
  fun h ↦ absurd h.distinct (by decide +kernel)

end Fixed

end NextApi.Pricing
