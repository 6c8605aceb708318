import NextApi.Billing.PriceXml

/-!
# The document of a price file

The text that the export writes is a document of XML without mixed content (`exportXmlCompact_eq`),
and the indented text is the indented document (`prettyXml_eq`).
-/

set_option autoImplicit false

namespace NextApi.Transfer

open Json Xml Decimals
open Text (trim)

/-! ### Escaping -/

theorem replaceChar_append (c : Char) (text : String) (s t : List Char) :
    replaceChar c text (s ++ t) = replaceChar c text s ++ replaceChar c text t :=
  List.flatMap_append

/-- The five replacements, one after another. -/
def replaceAll (s : List Char) : List Char :=
  replaceChar '\'' "&apos;" (replaceChar '"' "&quot;" (replaceChar '>' "&gt;"
    (replaceChar '<' "&lt;" (replaceChar '&' "&amp;" s))))

theorem replaceChar_of_ne {c d : Char} (h : d ≠ c) (text : String) :
    replaceChar c text [d] = [d] := by
  rw [replaceChar, List.flatMap_singleton, if_neg h]

theorem replaceAll_singleton (c : Char) : replaceAll [c] = escapeChar c := by
  cases hname : entity c with
  | none =>
    obtain ⟨hamp, hlt, hgt, hquot, hapos⟩ := entity_eq_none_iff.1 hname
    rw [escapeChar_of_entity hname, replaceAll, replaceChar_of_ne hamp, replaceChar_of_ne hlt,
      replaceChar_of_ne hgt, replaceChar_of_ne hquot, replaceChar_of_ne hapos]
  | some name =>
    unfold entity at hname
    split at hname <;> first
      | decide
      | exact absurd hname (by simp)

/-- The replacements do not get in each other's way. -/
theorem xmlEscape_eq (s : String) : xmlEscape s = escape s.toList := by
  have hall : ∀ t : List Char, replaceAll t = escape t := by
    intro t
    induction t with
    | nil => rfl
    | cons c rest ih =>
      have hcons : replaceAll (c :: rest) = replaceAll [c] ++ replaceAll rest := by
        rw [← List.singleton_append]
        simp only [replaceAll, replaceChar_append]
      rw [hcons, replaceAll_singleton, ih, escape_cons]
  exact hall s.toList

/-! ### The document -/

/-- An element with a text. -/
def leaf (name : String) (s : List Char) : Content :=
  .element name [] (textChildren s)

def node (name : String) (children : List Content) : Content := .element name [] children

section Trees

variable {D : Type} [Decimals D]

def windowTree (w : String × String) : Content :=
  .empty "window" [("start", w.1.toList), ("end", w.2.toList)]

def segmentChildren (seg : Segment D) : List Content :=
  (seg.name.map fun name ↦ leaf "name" name.toList).toList ++
  [leaf "price" (display seg.price)] ++
  (seg.weekdays.map fun days ↦
    node "weekdays" (days.map fun d ↦ leaf "day" d.toList)).toList ++
  (seg.windows.map fun windows ↦ node "windows" (windows.map windowTree)).toList ++
  (seg.minPromptTokens.map fun m ↦ leaf "min_prompt_tokens" (Compact.printInt m.1)).toList ++
  (seg.maxPromptTokens.map fun m ↦ leaf "max_prompt_tokens" (Compact.printInt m.1)).toList

def segmentTree (seg : Segment D) : Content := node "segment" (segmentChildren seg)

variable (D) in
def segmentsTree (segArr : Value) : List Content :=
  let segs : List (Segment D) := (readSegments segArr).getD []
  if segs = [] then [] else [node "segments" (segs.map segmentTree)]

def tokenColTree (tag unit : String) (price : Option D) (segments : Option Value) : List Content :=
  match price with
  | none => []
  | some p =>
    let segs := ((unitSegments segments unit).map (segmentsTree D)).getD []
    if segs = [] then [leaf tag (display p)] else [node tag (leaf "price" (display p) :: segs)]

variable [SerdeJson]

def dimensionTree (member : String × Value) : Content :=
  .element "dimension" [("name", member.1.toList)] (textChildren (jsonValueText member.2))

def dimensionsTree (dims : Value) : List Content :=
  let members := dims.asObject.getD []
  if members = [] then [] else [node "dimensions" (members.map dimensionTree)]

variable (D) in
def mediaItemChildren (item : Value) : List Content :=
  ((item.get? "base_price").map fun p ↦ leaf "price" (jsonValueText p)).toList ++
  (((item.get? "dimension_key").bind Value.asStr).map fun dk ↦
    leaf "dimension_key" dk.toList).toList ++
  ((item.get? "dimensions").map dimensionsTree).getD [] ++
  ((item.get? "segments").map (segmentsTree D)).getD []

variable (D) in
def mediaItemTree (item : Value) : Content := node "item" (mediaItemChildren D item)

variable (D) in
def mediaTree (tag : String) (rules : Option Value) : List Content :=
  let arr := (rules.bind Value.asArray).getD []
  if arr = [] then [] else [node tag (arr.map (mediaItemTree D))]

def itemChildren (item : PriceExportItem D) : List Content :=
  [leaf "model_id" item.modelId.toList, leaf "upstream" item.upstream.toList,
    leaf "currency" item.currency.toList] ++
  tokenCols.flatMap (fun col ↦ tokenColTree col.1 col.2 (item.column col.1) item.segments) ++
  mediaTree D "image" item.image ++ mediaTree D "video" item.video

def itemTree (item : PriceExportItem D) : Content := node "price" (itemChildren item)

/-- The document of the items. -/
def document (items : List (PriceExportItem D)) : Document where
  before := ['\n']
  name := "prices"
  attrs := [("schema", "nextapi-prices/v1".toList)]
  children := items.map itemTree

/-! ### Prices of rules -/

variable (D) in
/-- The price of a rule is a decimal. -/
def PricedRule (rule : Value) : Prop :=
  ∀ p, rule.get? "base_price" = some p → ∃ d : D, p = decimalValue d

/-- The prices of the rules of an item are decimals. -/
structure PricedItem (item : PriceExportItem D) : Prop where
  image : ∀ rule ∈ (item.image.bind Value.asArray).getD [], PricedRule D rule
  video : ∀ rule ∈ (item.video.bind Value.asArray).getD [], PricedRule D rule

end Trees

/-! ### The text of the document -/

theorem writeAll_append (cs ds : List Content) :
    writeAll (cs ++ ds) = writeAll cs ++ writeAll ds := by
  induction cs with
  | nil => rfl
  | cons content rest ih => rw [List.cons_append, writeAll, writeAll, ih, List.append_assoc]

theorem writeAll_map {α : Type} (f : α → Content) (xs : List α) :
    writeAll (xs.map f) = xs.flatMap fun x ↦ (f x).write := by
  induction xs with
  | nil => rfl
  | cons x rest ih => rw [List.map_cons, writeAll, ih, List.flatMap_cons]

theorem writeAll_singleton (content : Content) : writeAll [content] = content.write :=
  List.append_nil _

theorem write_node (name : String) (children : List Content) :
    (node name children).write = wrap name (writeAll children) := by
  simp [node, wrap, Content.write, startTag, writeAttrs, endTag]

theorem write_leaf (name : String) (s : List Char) :
    (leaf name s).write = wrap name (escape s) := by
  rw [leaf, ← node, write_node, writeAll_textChildren]

/-- What is written for a value that may be missing is an element or nothing. -/
theorem writeAll_option {α : Type} {f : α → Content} {write : α → List Char}
    (h : ∀ x, (f x).write = write x) (o : Option α) :
    writeAll (o.map f).toList = optionXml write o := by
  cases o with
  | none => rfl
  | some x => rw [Option.map_some, Option.toList_some, writeAll_singleton, h, optionXml]

theorem write_windowTree (w : String × String) : (windowTree w).write = windowXml w := by
  have hxml : windowXml w = "<window start=\"".toList ++ xmlEscape w.1 ++ "\" end=\"".toList ++
      xmlEscape w.2 ++ "\"/>".toList := rfl
  rw [hxml, xmlEscape_eq, xmlEscape_eq]
  simp [windowTree, Content.write, emptyTag, writeAttrs]

theorem writeAll_flatMap {α : Type} {f : α → Content} {write : α → List Char}
    (h : ∀ x, (f x).write = write x) (xs : List α) :
    writeAll (xs.map f) = xs.flatMap write := by
  rw [writeAll_map, List.flatMap_congr fun x _ ↦ h x]

section Text

variable {D : Type} [Decimals D] [LawfulDecimals D]

theorem escape_display (d : D) : escape (display d) = display d := by
  refine escape_of_entity fun c hc ↦ entity_eq_none_iff.2 ⟨?_, ?_, ?_, ?_, ?_⟩ <;>
  · rintro rfl
    exact absurd (LawfulDecimals.display_chars d _ hc) (by decide)

theorem printInt_chars (i : ℤ) : ∀ c ∈ Compact.printInt i, c.isDigit = true ∨ c = '-' := by
  have hdigits : ∀ c ∈ Nat.toDigits 10 i.natAbs, c.isDigit = true := fun c hc ↦
    Nat.isDigit_of_mem_toDigits (by decide) (by decide) hc
  intro c hc
  unfold Compact.printInt at hc
  split at hc
  · rcases List.mem_cons.1 hc with hc | hc
    · exact Or.inr hc
    · exact Or.inl (hdigits c hc)
  · exact Or.inl (hdigits c hc)

theorem escape_printInt (i : ℤ) : escape (Compact.printInt i) = Compact.printInt i := by
  refine escape_of_entity fun c hc ↦ entity_eq_none_iff.2 ⟨?_, ?_, ?_, ?_, ?_⟩ <;>
  · rintro rfl
    exact absurd (printInt_chars i _ hc) (by decide)

theorem write_segmentTree (seg : Segment D) : (segmentTree seg).write = segmentXml seg := by
  have htext : ∀ (name : String) (s : String),
      (leaf name s.toList).write = wrap name (xmlEscape s) := by
    intro name s
    rw [write_leaf, xmlEscape_eq]
  have hint : ∀ (name : String) (m : I64),
      (leaf name (Compact.printInt m.1)).write = wrap name (Compact.printInt m.1) := by
    intro name m
    rw [write_leaf, escape_printInt]
  have hdays : ∀ days : List String,
      (node "weekdays" (days.map fun d ↦ leaf "day" d.toList)).write =
      wrap "weekdays" (days.flatMap fun d ↦ wrap "day" (xmlEscape d)) := by
    intro days
    rw [write_node, writeAll_flatMap (htext "day")]
  have hwindows : ∀ windows : List (String × String),
      (node "windows" (windows.map windowTree)).write =
      wrap "windows" (windows.flatMap windowXml) := by
    intro windows
    rw [write_node, writeAll_flatMap write_windowTree]
  rw [segmentTree, segmentXml, write_node, segmentChildren, writeAll_append, writeAll_append,
    writeAll_append, writeAll_append, writeAll_append, writeAll_option (htext "name"),
    writeAll_singleton, write_leaf, escape_display, writeAll_option hdays, writeAll_option hwindows,
    writeAll_option (hint "min_prompt_tokens"), writeAll_option (hint "max_prompt_tokens")]

variable (D) in
theorem write_segmentsTree (segArr : Value) :
    writeAll (segmentsTree D segArr) = segmentsToXml D segArr := by
  unfold segmentsTree segmentsToXml
  dsimp only
  split
  · rfl
  · rw [writeAll_singleton, write_node, writeAll_flatMap write_segmentTree]

omit [LawfulDecimals D] in
variable (D) in
theorem segmentsTree_eq_nil_iff {segArr : Value} :
    segmentsTree D segArr = [] ↔ segmentsToXml D segArr = [] := by
  unfold segmentsTree segmentsToXml
  dsimp only
  split
  · exact iff_of_true rfl rfl
  · exact iff_of_false (List.cons_ne_nil _ _) (List.cons_ne_nil _ _)

theorem write_tokenColTree (tag unit : String) (price : Option D) (segments : Option Value) :
    writeAll (tokenColTree tag unit price segments) = tokenColXml tag unit price segments := by
  unfold tokenColTree tokenColXml
  cases price with
  | none => rfl
  | some p =>
    cases unitSegments segments unit with
    | none =>
      dsimp only [Option.map_none, Option.getD_none]
      rw [if_pos rfl, if_pos rfl, writeAll_singleton, write_leaf, escape_display]
    | some segArr =>
      dsimp only [Option.map_some, Option.getD_some]
      by_cases hsegs : segmentsTree D segArr = []
      · rw [if_pos hsegs, if_pos ((segmentsTree_eq_nil_iff D).1 hsegs), writeAll_singleton,
          write_leaf, escape_display]
      · rw [if_neg hsegs, if_neg (fun h ↦ hsegs ((segmentsTree_eq_nil_iff D).2 h)),
          writeAll_singleton, write_node, writeAll, write_leaf, escape_display,
          write_segmentsTree]

section Media

variable [SerdeJson]

theorem write_dimensionTree (member : String × Value) :
    (dimensionTree member).write = dimensionXml member := by
  have hxml : dimensionXml member = "<dimension name=\"".toList ++ xmlEscape member.1 ++
      "\">".toList ++ xmlEscape (String.ofList (jsonValueText member.2)) ++
      "</dimension>".toList := rfl
  rw [hxml, xmlEscape_eq, xmlEscape_eq, String.toList_ofList, dimensionTree, Content.write,
    writeAll_textChildren]
  simp [startTag, endTag, writeAttrs]

theorem write_dimensionsTree (dims : Value) :
    writeAll (dimensionsTree dims) = dimensionsXml dims := by
  unfold dimensionsTree dimensionsXml
  cases dims.asObject with
  | none => rfl
  | some obj =>
    dsimp only [Option.getD_some]
    split
    · rfl
    · rw [writeAll_singleton, write_node, writeAll_flatMap write_dimensionTree]

theorem write_mediaItemTree {item : Value} (h : PricedRule D item) :
    (mediaItemTree D item).write = mediaItemXml D item := by
  have hprice : writeAll
      ((item.get? "base_price").map fun p ↦ leaf "price" (jsonValueText p)).toList =
      optionXml (fun p ↦ wrap "price" (jsonValueText p)) (item.get? "base_price") := by
    cases hp : item.get? "base_price" with
    | none => rfl
    | some p =>
      obtain ⟨d, rfl⟩ := h p hp
      have htext : jsonValueText (decimalValue d) = display d := String.toList_ofList
      rw [Option.map_some, Option.toList_some, writeAll_singleton, write_leaf, optionXml, htext,
        escape_display]
  have hkey : ∀ dk : String, (leaf "dimension_key" dk.toList).write =
      wrap "dimension_key" (xmlEscape dk) := by
    intro dk
    rw [write_leaf, xmlEscape_eq]
  have hdims : writeAll (((item.get? "dimensions").map dimensionsTree).getD []) =
      optionXml dimensionsXml (item.get? "dimensions") := by
    cases item.get? "dimensions" with
    | none => rfl
    | some dims => exact write_dimensionsTree dims
  have hsegs : writeAll (((item.get? "segments").map (segmentsTree D)).getD []) =
      optionXml (segmentsToXml D) (item.get? "segments") := by
    cases item.get? "segments" with
    | none => rfl
    | some segs => exact write_segmentsTree D segs
  rw [mediaItemTree, mediaItemXml, write_node, mediaItemChildren, writeAll_append,
    writeAll_append, writeAll_append, hprice, writeAll_option hkey, hdims, hsegs]

theorem write_mediaTree (tag : String) {rules : Option Value}
    (h : ∀ rule ∈ (rules.bind Value.asArray).getD [], PricedRule D rule) :
    writeAll (mediaTree D tag rules) = mediaXml D tag rules := by
  unfold mediaTree mediaXml
  cases rules with
  | none => rfl
  | some rules =>
    dsimp only [Option.bind_some] at h ⊢
    split
    · rfl
    · rw [writeAll_singleton, write_node, writeAll_map,
        List.flatMap_congr fun rule hrule ↦ write_mediaItemTree (h rule hrule)]

theorem write_itemTree {item : PriceExportItem D} (h : PricedItem item) :
    (itemTree item).write = itemXml item := by
  have hcolumns : writeAll (tokenCols.flatMap fun col ↦
      tokenColTree col.1 col.2 (item.column col.1) item.segments) =
      tokenCols.flatMap fun col ↦ tokenColXml col.1 col.2 (item.column col.1) item.segments := by
    induction tokenCols with
    | nil => rfl
    | cons col rest ih =>
      rw [List.flatMap_cons, List.flatMap_cons, writeAll_append, ih, write_tokenColTree]
  rw [itemTree, itemXml, write_node, itemChildren, writeAll_append, writeAll_append,
    writeAll_append, hcolumns, write_mediaTree "image" h.image, write_mediaTree "video" h.video,
    writeAll, writeAll, writeAll, writeAll, write_leaf, write_leaf, write_leaf, xmlEscape_eq, xmlEscape_eq, xmlEscape_eq]
  simp only [List.append_assoc, List.append_nil]

/-- The compact text is the document of the items. -/
theorem exportXmlCompact_eq {items : List (PriceExportItem D)}
    (h : ∀ item ∈ items, PricedItem item) :
    exportXmlCompact items = (document items).write := by
  have hxml : exportXmlCompact items = "<?xml version=\"1.0\" encoding=\"UTF-8\"?>\n".toList ++
      "<prices schema=\"nextapi-prices/v1\">".toList ++ items.flatMap itemXml ++
      "</prices>".toList := rfl
  have hitems : items.flatMap itemXml = writeAll (items.map itemTree) := by
    rw [writeAll_map]
    exact List.flatMap_congr fun item hitem ↦ (write_itemTree (h item hitem)).symm
  have hdecl : "<?xml version=\"1.0\" encoding=\"UTF-8\"?>\n".toList = declaration ++ ['\n'] := by
    decide
  have hopening : "<prices schema=\"nextapi-prices/v1\">".toList =
      startTag "prices" [("schema", "nextapi-prices/v1".toList)] := by decide
  have hclosing : "</prices>".toList = endTag "prices" := by decide
  rw [hxml, hitems, hdecl, hopening, hclosing, Document.write, Document.root, Content.write]
  simp only [document, List.append_assoc, List.append_nil]

end Media

end Text

end NextApi.Transfer
