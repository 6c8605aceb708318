import NextApi.Billing.PriceXmlKept

/-!
# Exporting and importing a price file

A file that is exported and imported again gives its items back as they are kept
(`parseXml_exportXml`), so that they come back as they were when nothing of them is left out. The
indented file is read as the file on one line is (`parseXml_pretty`).
-/

set_option autoImplicit false

namespace NextApi.Transfer

open Json Xml Decimals

section Items

variable {D : Type} [Decimals D] [LawfulDecimals D] [SerdeJson]

/-- The items are read back from the tree of their document. -/
theorem parseRoot_document {items : List (PriceExportItem D)}
    (h : ∀ item ∈ items, PricedItem item) :
    parseRoot (documentNode (document items)) = .ok (items.map PriceExportItem.kept) := by
  have hnodes : ∀ item : PriceExportItem D, contentNodes (itemTree item) = [itemNode item] :=
    fun _ ↦ rfl
  have hchildren : childrenNamed (documentNode (document items)) "price" =
      items.map itemNode := childrenNamed_map hnodes (fun _ ↦ rfl) "prices" items
  have hname : (documentNode (document items)).name = "prices" := rfl
  have hitems : (items.map itemNode).map parseItem = items.map PriceExportItem.kept := by
    rw [List.map_map]
    exact List.map_congr_left fun item hitem ↦ parseItem_itemNode (h item hitem)
  rw [parseRoot, hname, hchildren, hitems]
  exact if_neg (not_not_intro rfl)

/-! ### Files -/

/-- The characters of the file may stand in a document. -/
def Legal (items : List (PriceExportItem D)) : Prop :=
  ∀ c ∈ exportXmlCompact items, legalChar c = true

variable [XmlReader] [LawfulXmlReader]

theorem parseXml_compact {items : List (PriceExportItem D)} (h : ∀ item ∈ items, PricedItem item)
    (hlegal : Legal items) :
    parseXml (exportXmlCompact items) = .ok (items.map PriceExportItem.kept) := by
  rw [Legal, exportXmlCompact_eq h] at hlegal
  rw [parseXml, exportXmlCompact_eq h, parseTree_write (wellFormed_document hlegal).1]
  exact parseRoot_document h

/-- An indented file is read as the file is. -/
theorem parseXml_pretty {items : List (PriceExportItem D)} (h : ∀ item ∈ items, PricedItem item)
    (hlegal : Legal items) :
    (parseXml (prettyXml (exportXmlCompact items)) : Except ApiError (List (PriceExportItem D))) =
      parseXml (exportXmlCompact items) := by
  rw [Legal, exportXmlCompact_eq h] at hlegal
  obtain ⟨hwell, hunmixed⟩ := wellFormed_document hlegal
  rw [parseXml, parseXml, exportXmlCompact_eq h, prettyXml_write hwell hunmixed,
    parseTree_write hwell, parseTree_write (hwell.indent hunmixed)]
  show parseRoot _ = parseRoot _
  rw [← parseRoot_trimmed, trimmed_indent hunmixed, parseRoot_trimmed]

end Items

/-! ### The items of the export -/

section Export

variable {U D : Type} [Decimals D]

theorem pricedRule_mediaExportValue (row : PriceRuleRow U D) :
    PricedRule D (mediaExportValue row) := by
  intro p hp
  refine ⟨row.basePrice, ?_⟩
  simp only [mediaExportValue, Value.get?_obj, Map.get?_insertOpt, Map.get?_insert] at hp
  simpa using hp.symm

/-- The rules of a group have prices. -/
def PricedAgg (agg : ItemAgg D) : Prop :=
  (∀ rule ∈ agg.image, PricedRule D rule) ∧ ∀ rule ∈ agg.video, PricedRule D rule

theorem PricedAgg.addRow {agg : ItemAgg D} (h : PricedAgg agg) (row : PriceRuleRow U D) :
    PricedAgg (agg.addRow row) := by
  have hmedia : ∀ rules : List Value, (∀ rule ∈ rules, PricedRule D rule) →
      ∀ rule ∈ rules ++ [mediaExportValue row], PricedRule D rule := by
    intro rules hrules
    simp only [List.forall_mem_append, List.forall_mem_singleton]
    exact ⟨hrules, pricedRule_mediaExportValue row⟩
  have himage : (agg.addRow row).image = agg.image ∨
      (agg.addRow row).image = agg.image ++ [mediaExportValue row] := by
    unfold ItemAgg.addRow
    split <;> split <;> first
      | exact Or.inl rfl
      | exact Or.inr rfl
  have hvideo : (agg.addRow row).video = agg.video ∨
      (agg.addRow row).video = agg.video ++ [mediaExportValue row] := by
    unfold ItemAgg.addRow
    split <;> split <;> first
      | exact Or.inl rfl
      | exact Or.inr rfl
  constructor
  · rcases himage with himage | himage <;> rw [himage]
    · exact h.1
    · exact hmedia _ h.1
  · rcases hvideo with hvideo | hvideo <;> rw [hvideo]
    · exact h.2
    · exact hmedia _ h.2

variable [DecidableEq U]

/-- The rules of every group have prices. -/
theorem pricedAgg_aggregateRow (names : U → Option String)
    {groups : List ((U × String × String) × ItemAgg D)} (h : ∀ group ∈ groups, PricedAgg group.2)
    (row : PriceRuleRow U D) : ∀ group ∈ aggregateRow names groups row, PricedAgg group.2 := by
  intro group hgroup
  unfold aggregateRow at hgroup
  dsimp only at hgroup
  split at hgroup
  · obtain ⟨old, hold, rfl⟩ := List.mem_map.1 hgroup
    split
    · exact (h old hold).addRow row
    · exact h old hold
  · rcases List.mem_append.1 hgroup with hgroup | hgroup
    · exact h group hgroup
    · rw [List.mem_singleton.1 hgroup]
      refine PricedAgg.addRow ⟨?_, ?_⟩ row <;> exact fun _ hrule ↦ absurd hrule List.not_mem_nil

theorem pricedAgg_foldl (names : U → Option String) (rows : List (PriceRuleRow U D))
    {groups : List ((U × String × String) × ItemAgg D)}
    (h : ∀ group ∈ groups, PricedAgg group.2) :
    ∀ group ∈ rows.foldl (aggregateRow names) groups, PricedAgg group.2 := by
  induction rows generalizing groups with
  | nil => exact h
  | cons row rest ih => exact ih (pricedAgg_aggregateRow names h row)

theorem PricedAgg.item {agg : ItemAgg D} (h : PricedAgg agg) : PricedItem agg.item := by
  have harr : ∀ rules : List Value, (∀ rule ∈ rules, PricedRule D rule) →
      ∀ rule ∈ ((if rules = [] then none else some (Value.arr rules)).bind
        Value.asArray).getD [], PricedRule D rule := by
    intro rules hrules
    split
    · exact fun _ hrule ↦ absurd hrule List.not_mem_nil
    · exact hrules
  exact ⟨harr agg.image h.1, harr agg.video h.2⟩

/-- The rules of an exported item have prices. -/
theorem pricedItem_of_build {names : U → Option String} {rows : List (PriceRuleRow U D)}
    {items : List (PriceExportItem D)} (h : BuildExportItems names rows items) :
    ∀ item ∈ items, PricedItem item := by
  obtain ⟨order, horder, rfl⟩ := h
  intro item hitem
  rw [List.mem_mergeSort] at hitem
  obtain ⟨agg, hagg, rfl⟩ := List.mem_map.1 hitem
  obtain ⟨group, hgroup, rfl⟩ := List.mem_map.1 (horder.mem_iff.1 hagg)
  exact (pricedAgg_foldl names rows (fun _ hmem ↦ absurd hmem List.not_mem_nil) group hgroup).item

variable [LawfulDecimals D] [SerdeJson] [XmlReader] [LawfulXmlReader]

/-- A file gives its items back as they are kept, so that they come back as they were when nothing
of them is left out, and an indented file is read as the file is. -/
theorem parseXml_exportXml (names : U → Option String) (rows : List (PriceRuleRow U D))
    (items : List (PriceExportItem D)) (h : BuildExportItems names rows items)
    (hlegal : Legal items) :
    parseXml (exportXml items) = .ok (items.map PriceExportItem.kept) ∧
      (parseXml (exportXml items) = .ok items ↔ ∀ item ∈ items, item.kept = item) ∧
      (parseXml (prettyXml (exportXmlCompact items)) : Except ApiError (List (PriceExportItem D))) =
        parseXml (exportXmlCompact items) := by
  have hpriced := pricedItem_of_build h
  have hpretty := parseXml_pretty hpriced hlegal
  have hexport : parseXml (exportXml items) = .ok (items.map PriceExportItem.kept) := by
    rw [exportXml, hpretty, parseXml_compact hpriced hlegal]
  refine ⟨hexport, ?_, hpretty⟩
  rw [hexport, Except.ok.injEq]
  constructor
  · intro heq
    exact List.map_eq_map_iff.1 (heq.trans (List.map_id items).symm)
  · intro heq
    exact (List.map_congr_left heq).trans (List.map_id items)

end Export

/-! ### A file -/

/-- Whole numbers as decimals. -/
@[reducible] def wholeDecimals : Decimals ℕ where
  display n := Nat.toDigits 10 n
  parse := parseI64.digits
  ofJson
    | .str s => parseI64.digits s.toList
    | .int i => if 0 ≤ i then some i.toNat else none
    | _ => none
  zero := 0

local instance priceDecimals : Decimals ℕ := wholeDecimals

local instance priceCodec : SerdeJson := Compact.codec

local instance priceReader : XmlReader := tagReader

local instance priceReader_lawful : LawfulXmlReader := tagReader_lawful

local instance priceDecimals_lawful : LawfulDecimals ℕ where
  parse_display n := by
    have hall : (Nat.toDigits 10 n).all Char.isDigit = true :=
      List.all_eq_true.2 fun c hc ↦ Nat.isDigit_of_mem_toDigits (by decide) (by decide) hc
    show parseI64.digits (Nat.toDigits 10 n) = some n
    rw [parseI64.digits, if_pos ⟨Nat.toDigits_ne_nil, hall⟩, Nat.ofDigitChars_ten_toDigits]
  display_chars n c hc := Or.inl (Nat.isDigit_of_mem_toDigits (by decide) (by decide) hc)

theorem build_of_rows {names : ℕ → Option String} {rows : List (PriceRuleRow ℕ ℕ)}
    {item : PriceExportItem ℕ}
    (h : ((rows.foldl (aggregateRow names) []).map fun group ↦ group.2.item) = [item]) :
    BuildExportItems names rows [item] := by
  refine ⟨_, List.Perm.refl _, ?_⟩
  rw [List.map_map, Function.comp_def, h, List.mergeSort_singleton]

def someUpstream : ℕ → Option String := fun _ ↦ some "a<b&c>\"d\""

/-- A price of tokens with a segment, and a rule for images. -/
def sampleRows : List (PriceRuleRow ℕ ℕ) :=
  [{ upstreamId := 0, modelId := "deepseek-chat", unit := "token_in", currency := "CNY"
     basePrice := 3, dimensions := none, dimensionKey := ""
     segments := some (.arr [segmentValue
       { name := some "peak", price := 3, weekdays := some ["mon", "tue"]
         windows := some [("09:00", "12:00"), ("23:00", "02:00")]
         minPromptTokens := checkI64 32769, maxPromptTokens := none }]) },
    { upstreamId := 0, modelId := "deepseek-chat", unit := "image", currency := "CNY"
      basePrice := 2, dimensions := some (.obj [("image_size", .str "1024x1024")])
      dimensionKey := "\x7b\"image_size\":\"1024x1024\"\x7d", segments := none }]

def sampleItem : PriceExportItem ℕ where
  modelId := "deepseek-chat"
  upstream := "a<b&c>\"d\""
  currency := "CNY"
  inputPerM := some 3
  segments := some (.obj [("token_in", .arr [segmentValue
    { name := some "peak", price := 3, weekdays := some ["mon", "tue"]
      windows := some [("09:00", "12:00"), ("23:00", "02:00")]
      minPromptTokens := checkI64 32769, maxPromptTokens := none }])])
  image := some (.arr [.obj [("base_price", .str "2"),
    ("dimension_key", .str "\x7b\"image_size\":\"1024x1024\"\x7d"),
    ("dimensions", .obj [("image_size", .str "1024x1024")])]])

theorem build_sampleItem : BuildExportItems someUpstream sampleRows [sampleItem] :=
  build_of_rows (by decide +kernel)

theorem legal_sampleItem : Legal [sampleItem] := by
  have hall : (exportXmlCompact [sampleItem]).all legalChar = true := by decide +kernel
  exact List.all_eq_true.1 hall

theorem kept_sampleItem : ∀ item ∈ [sampleItem], item.kept = item := by decide +kernel

theorem parseXml_exportXml_sample : parseXml (exportXml [sampleItem]) = .ok [sampleItem] :=
  (parseXml_exportXml someUpstream sampleRows [sampleItem] build_sampleItem
    legal_sampleItem).2.1.2 kept_sampleItem

/-- A rule for images whose dimension is a number. -/
def numberRows : List (PriceRuleRow ℕ ℕ) :=
  [{ upstreamId := 0, modelId := "m", unit := "image", currency := "CNY", basePrice := 2
     dimensions := some (.obj [("n", .int 1)]), dimensionKey := "\x7b\"n\":1\x7d"
     segments := none }]

def numberItem : PriceExportItem ℕ where
  modelId := "m"
  upstream := "a<b&c>\"d\""
  currency := "CNY"
  image := some (.arr [.obj [("base_price", .str "2"), ("dimension_key", .str "\x7b\"n\":1\x7d"),
    ("dimensions", .obj [("n", .int 1)])]])

/-- The number comes back as a text. -/
theorem parseXml_exportXml_ne : BuildExportItems someUpstream numberRows [numberItem] ∧
    Legal [numberItem] ∧ parseXml (exportXml [numberItem]) ≠ .ok [numberItem] := by
  have hbuild : BuildExportItems someUpstream numberRows [numberItem] :=
    build_of_rows (by decide +kernel)
  have hall : (exportXmlCompact [numberItem]).all legalChar = true := by decide +kernel
  have hlegal : Legal [numberItem] := List.all_eq_true.1 hall
  have hpriced := pricedItem_of_build hbuild
  have hkept : numberItem.kept ≠ numberItem := by decide +kernel
  refine ⟨hbuild, hlegal, fun h ↦ hkept ?_⟩
  rw [exportXml, parseXml_pretty hpriced hlegal, parseXml_compact hpriced hlegal,
    List.map_singleton] at h
  exact (List.cons.inj (Except.ok.inj h)).1

end NextApi.Transfer
