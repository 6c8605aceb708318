import NextApi.Billing.PriceXmlReading

/-!
# What a price file keeps

The texts of an item are kept as XML and the import leave them (`PriceExportItem.kept`): texts
without the white space around them and with line feeds for line ends, attributes with blanks for
tabs and line ends, the values of dimensions as texts, and the segments that can be read with all of
their fields. The tree of an item is read back as the item is kept (`parseItem_itemNode`).
-/

set_option autoImplicit false

namespace NextApi.Transfer

open Json Xml Decimals
open Text (isWhitespace trim)

/-! ### What is kept -/

def keptText (s : String) : String := String.ofList (trim (eol s.toList))

def keptAttr (s : String) : String := String.ofList (attrValue s.toList)

section Kept

variable {D : Type}

/-- A segment without an empty name. -/
def Segment.kept (seg : Segment D) : Segment D where
  name := (seg.name.map keptText).filter fun name ↦ decide (name ≠ "")
  price := seg.price
  weekdays := seg.weekdays.map fun days ↦ days.map keptText
  windows := seg.windows.map fun windows ↦ windows.map fun w ↦ (keptAttr w.1, keptAttr w.2)
  minPromptTokens := seg.minPromptTokens
  maxPromptTokens := seg.maxPromptTokens

variable [Decimals D]

variable (D) in
/-- The segments that can be read, if there are any. -/
def keptSegments (segArr : Value) : Option Value :=
  let segs : List (Segment D) := (readSegments segArr).getD []
  if segs = [] then none else some (.arr (segs.map fun seg ↦ segmentValue seg.kept))

def keptColumn (item : PriceExportItem D) (m : Map) (col : String × String) : Map :=
  Map.insertOpt m col.2
    ((item.column col.1).bind fun _ ↦ (unitSegments item.segments col.2).bind (keptSegments D))

variable [SerdeJson]

def keptDimensions (dims : Value) : Option Value :=
  let members := dims.asObject.getD []
  if members = [] then none
  else some (.obj (members.foldl (fun m member ↦ Map.insert m (keptAttr member.1)
    (.str (keptText (String.ofList (jsonValueText member.2))))) []))

variable (D) in
def keptRule (rule : Value) : Value :=
  let m := Map.insertOpt [] "base_price" (rule.get? "base_price")
  let m := Map.insertOpt m "dimension_key"
    (((rule.get? "dimension_key").bind Value.asStr).map fun dk ↦ .str (keptText dk))
  let m := Map.insertOpt m "dimensions" ((rule.get? "dimensions").bind keptDimensions)
  .obj (Map.insertOpt m "segments" ((rule.get? "segments").bind (keptSegments D)))

variable (D) in
def keptMedia (rules : Option Value) : Option Value :=
  let arr := (rules.bind Value.asArray).getD []
  if arr = [] then none else some (.arr (arr.map (keptRule D)))

def PriceExportItem.kept (item : PriceExportItem D) : PriceExportItem D :=
  let segMap := tokenCols.foldl (keptColumn item) []
  { item with
    modelId := keptText item.modelId
    upstream := keptText item.upstream
    currency := keptText item.currency
    segments := if segMap = [] then none else some (.obj segMap)
    image := keptMedia D item.image
    video := keptMedia D item.video }

end Kept

/-! ### The children of an element -/

theorem nodesAll_append (cs ds : List Content) :
    nodesAll (cs ++ ds) = nodesAll cs ++ nodesAll ds := by
  induction cs with
  | nil => rfl
  | cons content rest ih => rw [List.cons_append, nodesAll, nodesAll, ih, List.append_assoc]

/-- The element that is read for one. -/
def elementNode (name : String) (children : List Content) : XNode :=
  ⟨name, [], nodesAll children, textAll children⟩

def leafNode (name : String) (s : List Char) : XNode := ⟨name, [], [], eol s⟩

theorem nodes_node (name : String) (children : List Content) :
    contentNodes (node name children) = [elementNode name children] := rfl

theorem nodes_leaf (name : String) (s : List Char) :
    contentNodes (leaf name s) = [leafNode name s] := by
  rw [leaf, contentNodes, nodesAll_textChildren, textAll_textChildren]
  rfl

/-- The first element with this name. -/
def findNode (t : String) (contents : List Content) : Option XNode :=
  (nodesAll contents).find? fun c ↦ decide (c.name = t)

theorem child_elementNode (name t : String) (children : List Content) :
    child (elementNode name children) t = findNode t children := rfl

theorem findNode_append (t : String) (cs ds : List Content) :
    findNode t (cs ++ ds) = (findNode t cs).or (findNode t ds) := by
  rw [findNode, nodesAll_append, List.find?_append, ← findNode, ← findNode]

theorem findNode_cons (t : String) (content : Content) (rest : List Content) :
    findNode t (content :: rest) = (findNode t [content]).or (findNode t rest) :=
  findNode_append t [content] rest

theorem findNode_singleton {content : Content} {n : XNode} (h : contentNodes content = [n])
    (t : String) : findNode t [content] = if n.name = t then some n else none := by
  rw [findNode, nodesAll, nodesAll, h, List.append_nil, List.find?_singleton]
  simp

theorem findNode_node (name t : String) (children : List Content) :
    findNode t [node name children] =
      if name = t then some (elementNode name children) else none :=
  findNode_singleton (nodes_node name children) t

theorem findNode_leaf (name t : String) (s : List Char) :
    findNode t [leaf name s] = if name = t then some (leafNode name s) else none :=
  findNode_singleton (nodes_leaf name s) t

theorem findNode_leaf_cons (name t : String) (s : List Char) (rest : List Content) :
    findNode t (leaf name s :: rest) =
      (if name = t then some (leafNode name s) else none).or (findNode t rest) := by
  rw [findNode_cons, findNode_leaf]

theorem findNode_option {α : Type} {f : α → Content} {g : α → XNode} {name : String}
    (h : ∀ x, contentNodes (f x) = [g x]) (hname : ∀ x, (g x).name = name) (t : String)
    (o : Option α) : findNode t (o.map f).toList = if name = t then o.map g else none := by
  cases o with
  | none =>
    rw [Option.map_none, Option.toList_none, Option.map_none, ite_self]
    rfl
  | some x =>
    rw [Option.map_some, Option.toList_some, findNode_singleton (h x), hname, Option.map_some]

theorem nodesAll_map {α : Type} {f : α → Content} {g : α → XNode}
    (h : ∀ x, contentNodes (f x) = [g x]) (xs : List α) : nodesAll (xs.map f) = xs.map g := by
  induction xs with
  | nil => rfl
  | cons x rest ih => rw [List.map_cons, nodesAll, h, ih, List.map_cons, List.singleton_append]

/-- Children that all have the name are all found. -/
theorem childrenNamed_map {α : Type} {f : α → Content} {g : α → XNode} {t : String}
    (h : ∀ x, contentNodes (f x) = [g x]) (hname : ∀ x, (g x).name = t) (name : String)
    (xs : List α) : childrenNamed (elementNode name (xs.map f)) t = xs.map g := by
  rw [childrenNamed, elementNode, nodesAll_map h]
  refine List.filter_eq_self.2 fun n hn ↦ ?_
  obtain ⟨x, -, rfl⟩ := List.mem_map.1 hn
  exact decide_eq_true (hname x)

/-! ### Texts that are kept as they are -/

theorem eol_of_not_mem {s : List Char} (h : '\r' ∉ s) : eol s = s := by
  induction s with
  | nil => rfl
  | cons c rest ih =>
    rw [List.mem_cons, not_or] at h
    rw [eol, if_neg (Ne.symm h.1), ih h.2]

theorem trim_eol_of_plain {s : List Char} (h : ∀ c ∈ s, isWhitespace c = false) :
    trim (eol s) = s := by
  have hreturn : '\r' ∉ s := fun hc ↦ absurd (h _ hc) (by decide)
  rw [eol_of_not_mem hreturn]
  exact Text.trim_of_ends (fun c hc ↦ h c (List.mem_of_mem_head? hc))
    fun c hc ↦ h c (List.mem_of_getLast? hc)

theorem isWhitespace_of_isDigit {c : Char} (h : c.isDigit = true) : isWhitespace c = false := by
  have hrange : 48 ≤ c.toNat ∧ c.toNat ≤ 57 := by
    simpa [Char.isDigit, UInt32.le_iff_toNat_le] using h
  simp [isWhitespace]
  omega

theorem trim_printInt (i : ℤ) : trim (eol (Compact.printInt i)) = Compact.printInt i := by
  refine trim_eol_of_plain fun c hc ↦ ?_
  rcases printInt_chars i c hc with h | rfl
  · exact isWhitespace_of_isDigit h
  · decide

theorem parseI64_printInt (m : I64) : parseI64 (Compact.printInt m.1) = some m := by
  have hcheck : checkI64 m.1 = some m := dif_pos m.2
  have hdigits : ∀ n : ℕ, parseI64.digits (Nat.toDigits 10 n) = some n := by
    intro n
    have hall : (Nat.toDigits 10 n).all Char.isDigit = true :=
      List.all_eq_true.2 fun c hc ↦ Nat.isDigit_of_mem_toDigits (by decide) (by decide) hc
    rw [parseI64.digits, if_pos ⟨Nat.toDigits_ne_nil, hall⟩, Nat.ofDigitChars_ten_toDigits]
  unfold Compact.printInt
  split
  · rename_i hneg
    have hvalue : -((m.1.natAbs : ℕ) : ℤ) = m.1 := by omega
    rw [parseI64, hdigits, Option.bind_some, hvalue, hcheck]
  · rename_i hpos
    have hvalue : ((m.1.natAbs : ℕ) : ℤ) = m.1 := by omega
    obtain ⟨c, rest, hrest, hc⟩ := Compact.toDigits_head m.1.natAbs
    have hnat : parseI64 (Nat.toDigits 10 m.1.natAbs) =
        (parseI64.digits (Nat.toDigits 10 m.1.natAbs)).bind fun n ↦ checkI64 n := by
      rw [hrest, parseI64] <;>
      · rintro more heq
        rw [(List.cons.inj heq).1] at hc
        exact absurd hc (by decide)
    rw [hnat, hdigits, Option.bind_some, hvalue, hcheck]

section Items

variable {D : Type} [Decimals D] [LawfulDecimals D]

theorem trim_display (d : D) : trim (eol (display d)) = display d := by
  refine trim_eol_of_plain fun c hc ↦ ?_
  rcases LawfulDecimals.display_chars d c hc with h | rfl | rfl
  · exact isWhitespace_of_isDigit h
  · decide
  · decide

/-! ### Segments -/

def windowNode (w : String × String) : XNode :=
  ⟨"window", nodeAttrs [("start", w.1.toList), ("end", w.2.toList)], [], []⟩

theorem attr_windowNode (w : String × String) :
    attr (windowNode w) "start" = some (keptAttr w.1) ∧
      attr (windowNode w) "end" = some (keptAttr w.2) := by
  simp [attr, windowNode, nodeAttrs, insertAttr, keptAttr]

def daysNode (days : List String) : XNode :=
  elementNode "weekdays" (days.map fun d ↦ leaf "day" d.toList)

def windowsNode (windows : List (String × String)) : XNode :=
  elementNode "windows" (windows.map windowTree)

omit [LawfulDecimals D] in
theorem findNode_segmentChildren (seg : Segment D) (t : String) :
    findNode t (segmentChildren seg) =
      (if "name" = t then seg.name.map fun name ↦ leafNode "name" name.toList else none).or
        ((if "price" = t then some (leafNode "price" (display seg.price)) else none).or
        ((if "weekdays" = t then seg.weekdays.map daysNode else none).or
        ((if "windows" = t then seg.windows.map windowsNode else none).or
        ((if "min_prompt_tokens" = t then seg.minPromptTokens.map fun m ↦
          leafNode "min_prompt_tokens" (Compact.printInt m.1) else none).or
        (if "max_prompt_tokens" = t then seg.maxPromptTokens.map fun m ↦
          leafNode "max_prompt_tokens" (Compact.printInt m.1) else none))))) := by
  have hname := findNode_option (fun name : String ↦ nodes_leaf "name" name.toList)
    (fun _ ↦ rfl) t seg.name
  have hdays := findNode_option (f := fun days ↦
    node "weekdays" (days.map fun d : String ↦ leaf "day" d.toList)) (g := daysNode)
    (fun _ ↦ rfl) (fun _ ↦ rfl) t seg.weekdays
  have hwindows := findNode_option (f := fun windows ↦ node "windows" (windows.map windowTree))
    (g := windowsNode) (fun _ ↦ rfl) (fun _ ↦ rfl) t seg.windows
  have hmin := findNode_option (fun m : I64 ↦
    nodes_leaf "min_prompt_tokens" (Compact.printInt m.1)) (fun _ ↦ rfl) t seg.minPromptTokens
  have hmax := findNode_option (fun m : I64 ↦
    nodes_leaf "max_prompt_tokens" (Compact.printInt m.1)) (fun _ ↦ rfl) t seg.maxPromptTokens
  rw [segmentChildren, findNode_append, findNode_append, findNode_append, findNode_append,
    findNode_append, hname, findNode_leaf, hdays, hwindows, hmin, hmax]
  simp only [Option.or_assoc]

def segmentNode (seg : Segment D) : XNode := elementNode "segment" (segmentChildren seg)

/-- A segment is read back as it is kept. -/
theorem parseSegment_segmentNode (seg : Segment D) :
    parseSegment (segmentNode seg) = seg.kept := by
  have hname : textOf (segmentNode seg) "name" =
      seg.name.map fun name ↦ trim (eol name.toList) := by
    rw [textOf, segmentNode, child_elementNode, findNode_segmentChildren]
    simp [leafNode, Function.comp_def]
  have hprice : textOf (segmentNode seg) "price" = some (display seg.price) := by
    rw [textOf, segmentNode, child_elementNode, findNode_segmentChildren]
    simp [leafNode, trim_display]
  have hdays : child (segmentNode seg) "weekdays" = seg.weekdays.map daysNode := by
    rw [segmentNode, child_elementNode, findNode_segmentChildren]
    simp
  have hwindows : child (segmentNode seg) "windows" = seg.windows.map windowsNode := by
    rw [segmentNode, child_elementNode, findNode_segmentChildren]
    simp
  have hmin : textOf (segmentNode seg) "min_prompt_tokens" =
      seg.minPromptTokens.map fun m ↦ Compact.printInt m.1 := by
    rw [textOf, segmentNode, child_elementNode, findNode_segmentChildren]
    simp [leafNode, Function.comp_def, trim_printInt]
  have hmax : textOf (segmentNode seg) "max_prompt_tokens" =
      seg.maxPromptTokens.map fun m ↦ Compact.printInt m.1 := by
    rw [textOf, segmentNode, child_elementNode, findNode_segmentChildren]
    simp [leafNode, Function.comp_def, trim_printInt]
  have hday : ∀ days, (childrenNamed (daysNode days) "day").map
      (fun d ↦ String.ofList (trim d.text)) = days.map keptText := by
    intro days
    rw [daysNode, childrenNamed_map (fun d : String ↦ nodes_leaf "day" d.toList) (fun _ ↦ rfl),
      List.map_map]
    rfl
  have hwindow : ∀ windows, (childrenNamed (windowsNode windows) "window").map
      (fun x ↦ ((attr x "start").getD "", (attr x "end").getD "")) =
      windows.map fun w ↦ (keptAttr w.1, keptAttr w.2) := by
    intro windows
    have hnodes : ∀ w, contentNodes (windowTree w) = [windowNode w] := fun _ ↦ rfl
    rw [windowsNode, childrenNamed_map hnodes (fun _ ↦ rfl), List.map_map]
    refine List.map_congr_left fun w _ ↦ ?_
    obtain ⟨hstart, hend⟩ := attr_windowNode w
    rw [Function.comp_apply, hstart, hend]
    rfl
  have hfilter : ∀ name : Option String,
      ((name.map fun name ↦ trim (eol name.toList)).filter fun s ↦ decide (s ≠ [])).map
        String.ofList = (name.map keptText).filter fun name ↦ decide (name ≠ "") := by
    intro name
    cases name with
    | none => rfl
    | some name =>
      by_cases hempty : trim (eol name.toList) = []
      · simp [keptText, hempty, Option.filter]
      · simp [keptText, hempty, Option.filter]
  have hread : ∀ m : Option I64,
      (m.map fun m ↦ Compact.printInt m.1).bind parseI64 = m := by
    intro m
    cases m with
    | none => rfl
    | some m => exact parseI64_printInt m
  rw [parseSegment, hname, hprice, hdays, hwindows, hmin, hmax, hfilter, hread, hread,
    Option.bind_some, LawfulDecimals.parse_display, Option.getD_some, Option.map_map,
    Option.map_map]
  simp only [Function.comp_def, hday, hwindow]
  rfl

theorem findNode_segments (segArr : Value) :
    (findNode "segments" (segmentsTree D segArr)).map (parseSegments D) =
      keptSegments D segArr := by
  unfold segmentsTree keptSegments
  dsimp only
  split
  · rfl
  · have hnodes : ∀ seg : Segment D, contentNodes (segmentTree seg) = [segmentNode seg] :=
      fun _ ↦ rfl
    rw [findNode_node, if_pos rfl, Option.map_some, parseSegments,
      childrenNamed_map hnodes (fun _ ↦ rfl), List.map_map]
    simp only [Function.comp_def, parseSegment_segmentNode]

omit [LawfulDecimals D] in
/-- The segments are the only element in their place. -/
theorem findNode_segmentsTree_of_ne {t : String} (h : "segments" ≠ t) (segArr : Value) :
    findNode t (segmentsTree D segArr) = none := by
  unfold segmentsTree
  dsimp only
  split
  · rfl
  · rw [findNode_node, if_neg h]

/-! ### Rules for media -/

variable [SerdeJson]

def dimensionNode (member : String × Value) : XNode :=
  ⟨"dimension", nodeAttrs [("name", member.1.toList)], [], eol (jsonValueText member.2)⟩

theorem nodes_dimensionTree (member : String × Value) :
    contentNodes (dimensionTree member) = [dimensionNode member] := by
  rw [dimensionTree, contentNodes, nodesAll_textChildren, textAll_textChildren]
  rfl

theorem attr_dimensionNode (member : String × Value) :
    attr (dimensionNode member) "name" = some (keptAttr member.1) := by
  simp [attr, dimensionNode, nodeAttrs, insertAttr, keptAttr]

theorem findNode_dimensions (dims : Value) :
    (findNode "dimensions" (dimensionsTree dims)).map parseDimensions = keptDimensions dims := by
  unfold dimensionsTree keptDimensions
  dsimp only
  split
  · rfl
  · rw [findNode_node, if_pos rfl, Option.map_some, parseDimensions,
      childrenNamed_map nodes_dimensionTree (fun _ ↦ rfl), List.foldl_map]
    simp only [attr_dimensionNode]
    simp [dimensionNode, keptText]

theorem findNode_dimensionsTree_of_ne {t : String} (h : "dimensions" ≠ t) (dims : Value) :
    findNode t (dimensionsTree dims) = none := by
  unfold dimensionsTree
  dsimp only
  split
  · rfl
  · rw [findNode_node, if_neg h]

omit [SerdeJson] in
theorem findNode_getD {α : Type} (f : α → List Content) (t : String) (o : Option α) :
    findNode t ((o.map f).getD []) = o.bind fun x ↦ findNode t (f x) := by
  cases o <;> rfl

omit [LawfulDecimals D] in
theorem findNode_mediaItemChildren (rule : Value) (t : String) :
    findNode t (mediaItemChildren D rule) =
      (if "price" = t then (rule.get? "base_price").map fun p ↦
        leafNode "price" (jsonValueText p) else none).or
      ((if "dimension_key" = t then ((rule.get? "dimension_key").bind Value.asStr).map fun dk ↦
        leafNode "dimension_key" dk.toList else none).or
      (((rule.get? "dimensions").bind fun dims ↦ findNode t (dimensionsTree dims)).or
      ((rule.get? "segments").bind fun segs ↦ findNode t (segmentsTree D segs)))) := by
  have hprice := findNode_option (fun p ↦ nodes_leaf "price" (jsonValueText p)) (fun _ ↦ rfl) t
    (rule.get? "base_price")
  have hkey := findNode_option (fun dk : String ↦ nodes_leaf "dimension_key" dk.toList)
    (fun _ ↦ rfl) t ((rule.get? "dimension_key").bind Value.asStr)
  rw [mediaItemChildren, findNode_append, findNode_append, findNode_append, hprice, hkey,
    findNode_getD, findNode_getD]
  simp only [Option.or_assoc]

variable (D) in
def mediaItemNode (rule : Value) : XNode := elementNode "item" (mediaItemChildren D rule)

/-- A rule is read back as it is kept. -/
theorem parseMediaItem_mediaItemNode {rule : Value} (h : PricedRule D rule) :
    parseMediaItem D (mediaItemNode D rule) = keptRule D rule := by
  have hnone : ∀ (t : String), "segments" ≠ t →
      ((rule.get? "segments").bind fun segs ↦ findNode t (segmentsTree D segs)) = none := by
    intro t ht
    simp [findNode_segmentsTree_of_ne ht]
  have hdimsNone : ∀ (t : String), "dimensions" ≠ t →
      ((rule.get? "dimensions").bind fun dims ↦ findNode t (dimensionsTree dims)) = none := by
    intro t ht
    simp [findNode_dimensionsTree_of_ne ht]
  have hprice : (child (mediaItemNode D rule) "price").bind
      (fun p ↦ (parse (trim p.text) : Option D).map decimalValue) = rule.get? "base_price" := by
    rw [mediaItemNode, child_elementNode, findNode_mediaItemChildren, hnone _ (by decide),
      hdimsNone _ (by decide)]
    cases hp : rule.get? "base_price" with
    | none => simp
    | some p =>
      obtain ⟨d, rfl⟩ := h p hp
      have htext : jsonValueText (decimalValue d) = display d := String.toList_ofList
      simp [leafNode, htext, trim_display, LawfulDecimals.parse_display]
  have hkey : (child (mediaItemNode D rule) "dimension_key").map
      (fun dk ↦ Value.str (String.ofList (trim dk.text))) =
      ((rule.get? "dimension_key").bind Value.asStr).map fun dk ↦ .str (keptText dk) := by
    rw [mediaItemNode, child_elementNode, findNode_mediaItemChildren, hnone _ (by decide),
      hdimsNone _ (by decide)]
    simp [leafNode, keptText, Function.comp_def]
  have hdims : (child (mediaItemNode D rule) "dimensions").map parseDimensions =
      (rule.get? "dimensions").bind keptDimensions := by
    rw [mediaItemNode, child_elementNode, findNode_mediaItemChildren, hnone _ (by decide)]
    simp [Option.map_bind, Function.comp_def, findNode_dimensions]
  have hsegs : (child (mediaItemNode D rule) "segments").map (parseSegments D) =
      (rule.get? "segments").bind (keptSegments D) := by
    rw [mediaItemNode, child_elementNode, findNode_mediaItemChildren, hdimsNone _ (by decide)]
    simp [Option.map_bind, Function.comp_def, findNode_segments]
  rw [parseMediaItem, hprice, hkey, hdims, hsegs]
  rfl

/-- Rules are read back as they are kept, if there are any. -/
theorem findNode_media (tag : String) {rules : Option Value}
    (h : ∀ rule ∈ (rules.bind Value.asArray).getD [], PricedRule D rule) :
    ((findNode tag (mediaTree D tag rules)).map (parseMedia D)).filter
      (fun v ↦ decide (v.asArray.getD [] ≠ [])) = keptMedia D rules := by
  unfold mediaTree keptMedia
  dsimp only
  split
  · rfl
  · rename_i harr
    have hnodes : ∀ rule, contentNodes (mediaItemTree D rule) = [mediaItemNode D rule] :=
      fun _ ↦ rfl
    have hitems : ((rules.bind Value.asArray).getD []).map
        (parseMediaItem D ∘ mediaItemNode D) =
        ((rules.bind Value.asArray).getD []).map (keptRule D) :=
      List.map_congr_left fun rule hrule ↦ parseMediaItem_mediaItemNode (h rule hrule)
    rw [findNode_node, if_pos rfl, Option.map_some, parseMedia,
      childrenNamed_map hnodes (fun _ ↦ rfl), List.map_map, hitems]
    simp [Option.filter, harr]

omit [LawfulDecimals D] in
theorem findNode_mediaTree_of_ne {tag t : String} (h : tag ≠ t) (rules : Option Value) :
    findNode t (mediaTree D tag rules) = none := by
  unfold mediaTree
  dsimp only
  split
  · rfl
  · rw [findNode_node, if_neg h]

/-! ### Columns -/

/-- The element of a price with or without segments. -/
def columnNode (tag : String) (p : D) (segs : List Content) : XNode :=
  if segs = [] then leafNode tag (display p)
  else elementNode tag (leaf "price" (display p) :: segs)

/-- The elements of the segments of a unit. -/
def unitTree (item : PriceExportItem D) (unit : String) : List Content :=
  ((unitSegments item.segments unit).map (segmentsTree D)).getD []

omit [LawfulDecimals D] [SerdeJson] in
theorem findNode_tokenColTree (item : PriceExportItem D) (tag unit t : String)
    (price : Option D) : findNode t (tokenColTree tag unit price item.segments) =
      if tag = t then price.map fun p ↦ columnNode tag p (unitTree item unit) else none := by
  unfold tokenColTree
  cases price with
  | none =>
    rw [Option.map_none, ite_self]
    rfl
  | some p =>
    rw [← unitTree, Option.map_some, columnNode]
    dsimp only
    split
    · rw [findNode_leaf]
    · rw [findNode_node]

omit [SerdeJson] in
theorem parseTokenCol_columnNode (item : PriceExportItem D) (tag unit : String) (p : D) :
    parseTokenCol (columnNode tag p (unitTree item unit)) =
      (some p, (unitSegments item.segments unit).bind (keptSegments D)) := by
  have hsegs : (findNode "segments" (unitTree item unit)).map (parseSegments D) =
      (unitSegments item.segments unit).bind (keptSegments D) := by
    rw [unitTree, findNode_getD, Option.map_bind]
    simp only [Function.comp_def, findNode_segments]
  unfold columnNode
  split
  · rename_i hnil
    have hchild : ∀ t, child (leafNode tag (display p)) t = none := fun _ ↦ rfl
    rw [hnil] at hsegs
    rw [parseTokenCol, hchild, hchild, ← hsegs]
    simp [leafNode, trim_display, LawfulDecimals.parse_display, findNode, nodesAll]
  · rw [parseTokenCol, child_elementNode, child_elementNode, findNode_leaf_cons,
      findNode_leaf_cons, if_pos rfl, if_neg (by decide), Option.none_or, hsegs]
    simp [leafNode, trim_display, LawfulDecimals.parse_display]

omit [LawfulDecimals D] [SerdeJson] in
/-- Segments that are kept are not empty. -/
theorem filter_keptSegments (o : Option Value) :
    (o.bind (keptSegments D)).filter (fun seg ↦ decide (seg.asArray.getD [] ≠ [])) =
      o.bind (keptSegments D) := by
  cases o with
  | none => rfl
  | some segArr =>
    rw [Option.bind_some]
    unfold keptSegments
    dsimp only
    split
    · rfl
    · rename_i hsegs
      simp [Option.filter, hsegs]

/-! ### Items -/

def itemNode (item : PriceExportItem D) : XNode := elementNode "price" (itemChildren item)

omit [LawfulDecimals D] in
theorem findNode_itemChildren (item : PriceExportItem D) (t : String) :
    findNode t (itemChildren item) =
      (if "model_id" = t then some (leafNode "model_id" item.modelId.toList) else none).or
      ((if "upstream" = t then some (leafNode "upstream" item.upstream.toList) else none).or
      ((if "currency" = t then some (leafNode "currency" item.currency.toList) else none).or
      ((findNode t (tokenCols.flatMap fun col ↦
        tokenColTree col.1 col.2 (item.column col.1) item.segments)).or
      ((findNode t (mediaTree D "image" item.image)).or
      (findNode t (mediaTree D "video" item.video)))))) := by
  rw [itemChildren, findNode_append, findNode_append, findNode_append, findNode_leaf_cons,
    findNode_leaf_cons, findNode_leaf]
  simp only [Option.or_assoc]

omit [LawfulDecimals D] [SerdeJson] in
theorem findNode_columns (item : PriceExportItem D) (t : String) :
    findNode t (tokenCols.flatMap fun col ↦
      tokenColTree col.1 col.2 (item.column col.1) item.segments) =
      (tokenCols.map fun col ↦ if col.1 = t then (item.column col.1).map fun p ↦
        columnNode col.1 p (unitTree item col.2) else none).foldr Option.or none := by
  induction tokenCols with
  | nil => rfl
  | cons col rest ih =>
    rw [List.flatMap_cons, findNode_append, ih, findNode_tokenColTree]
    rfl

omit [LawfulDecimals D] in
/-- The price of a column is found under its name. -/
theorem child_column (item : PriceExportItem D) {col : String × String} (h : col ∈ tokenCols) :
    child (itemNode item) col.1 =
      (item.column col.1).map fun p ↦ columnNode col.1 p (unitTree item col.2) := by
  have htags : ∀ col ∈ tokenCols, "image" ≠ col.1 ∧ "video" ≠ col.1 ∧ "model_id" ≠ col.1 ∧
      "upstream" ≠ col.1 ∧ "currency" ≠ col.1 := by decide
  have hcolumn : (tokenCols.map fun col' ↦ if col'.1 = col.1 then (item.column col'.1).map fun p ↦
      columnNode col'.1 p (unitTree item col'.2) else none).foldr Option.or none =
      (item.column col.1).map fun p ↦ columnNode col.1 p (unitTree item col.2) := by
    simp only [tokenCols, List.mem_cons, List.not_mem_nil, or_false] at h
    rcases h with rfl | rfl | rfl | rfl <;> simp [tokenCols]
  obtain ⟨himage, hvideo, hmodel, hupstream, hcurrency⟩ := htags col h
  rw [itemNode, child_elementNode, findNode_itemChildren, findNode_columns, hcolumn,
    findNode_mediaTree_of_ne himage, findNode_mediaTree_of_ne hvideo, if_neg hmodel,
    if_neg hupstream, if_neg hcurrency]
  simp

omit [LawfulDecimals D] in
theorem textOf_itemNode (item : PriceExportItem D) :
    textOf (itemNode item) "model_id" = some (trim (eol item.modelId.toList)) ∧
      textOf (itemNode item) "upstream" = some (trim (eol item.upstream.toList)) ∧
      textOf (itemNode item) "currency" = some (trim (eol item.currency.toList)) := by
  refine ⟨?_, ?_, ?_⟩ <;>
  · rw [textOf, itemNode, child_elementNode, findNode_itemChildren]
    simp [leafNode]

theorem readMedia_itemNode {item : PriceExportItem D} (h : PricedItem item) :
    readMedia D (itemNode item) "image" = keptMedia D item.image ∧
      readMedia D (itemNode item) "video" = keptMedia D item.video := by
  have hnone : ∀ t ∈ ["image", "video"], findNode t (tokenCols.flatMap fun col ↦
      tokenColTree col.1 col.2 (item.column col.1) item.segments) = none := by
    intro t ht
    rw [findNode_columns]
    simp only [List.mem_cons, List.not_mem_nil, or_false] at ht
    rcases ht with rfl | rfl <;> simp [tokenCols]
  constructor
  · rw [readMedia, itemNode, child_elementNode, findNode_itemChildren, hnone _ (by simp),
      findNode_mediaTree_of_ne (by decide : "video" ≠ "image"), ← findNode_media "image" h.image]
    simp
  · rw [readMedia, itemNode, child_elementNode, findNode_itemChildren, hnone _ (by simp),
      findNode_mediaTree_of_ne (by decide : "image" ≠ "video"), ← findNode_media "video" h.video]
    simp

theorem readColumn_itemNode {item : PriceExportItem D} {acc : PriceExportItem D × Map}
    {col : String × String} (hcol : col ∈ tokenCols) (hacc : acc.1.setColumn col.1 none = acc.1) :
    readColumn (itemNode item) acc col =
      (acc.1.setColumn col.1 (item.column col.1), keptColumn item acc.2 col) := by
  unfold readColumn keptColumn
  rw [child_column item hcol]
  cases hcolumn : item.column col.1 with
  | none =>
    rw [hacc]
    rfl
  | some p =>
    rw [Option.map_some]
    dsimp only
    rw [parseTokenCol_columnNode, filter_keptSegments]
    rfl

/-- An item is read back as it is kept. -/
theorem parseItem_itemNode {item : PriceExportItem D} (h : PricedItem item) :
    parseItem (itemNode item) = item.kept := by
  obtain ⟨hmodel, hupstream, hcurrency⟩ := textOf_itemNode item
  obtain ⟨himage, hvideo⟩ := readMedia_itemNode h
  have hcolumns : ∀ start : PriceExportItem D, start.inputPerM = none → start.outputPerM = none →
      start.cacheReadPerM = none → start.cacheWritePerM = none →
      tokenCols.foldl (readColumn (itemNode item)) (start, []) =
        ({ start with
            inputPerM := item.inputPerM
            outputPerM := item.outputPerM
            cacheReadPerM := item.cacheReadPerM
            cacheWritePerM := item.cacheWritePerM }, tokenCols.foldl (keptColumn item) []) := by
    intro start hin hout hread hwrite
    obtain ⟨modelId, upstream, currency, inputPerM, outputPerM, cacheReadPerM, cacheWritePerM,
      segments, image, video⟩ := start
    obtain rfl := hin
    obtain rfl := hout
    obtain rfl := hread
    obtain rfl := hwrite
    have hstep : ∀ (acc : PriceExportItem D × Map) (col : String × String), col ∈ tokenCols →
        acc.1.setColumn col.1 none = acc.1 → readColumn (itemNode item) acc col =
          (acc.1.setColumn col.1 (item.column col.1), keptColumn item acc.2 col) :=
      fun _ _ ↦ readColumn_itemNode
    simp only [tokenCols, List.foldl_cons, List.foldl_nil]
    rw [hstep _ ("input_per_m", "token_in") (by decide) rfl]
    rw [hstep _ ("output_per_m", "token_out") (by decide) rfl]
    rw [hstep _ ("cache_read_per_m", "token_cache_read") (by decide) rfl]
    rw [hstep _ ("cache_write_per_m", "token_cache_write") (by decide) rfl]
    rfl
  unfold parseItem PriceExportItem.kept
  simp only [hmodel, hupstream, hcurrency, himage, hvideo, Option.getD_some]
  rw [hcolumns _ rfl rfl rfl rfl]
  rfl

end Items

end NextApi.Transfer
