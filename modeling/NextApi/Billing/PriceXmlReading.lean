import NextApi.Billing.PriceXmlPretty
import Mathlib.Data.List.DropRight

/-!
# Reading a document into a tree

The tree that `parseTree` makes of a well-formed document has an element for each of the document's,
with the texts of the element together (`parseTree_write`). The tree of an indented document is that
of the document up to the white space around the texts (`trimmed_indent`), and the items are taken
out of a tree without that white space (`parseRoot_trimmed`).
-/

set_option autoImplicit false

namespace NextApi.Transfer

open Json Xml Decimals
open Text (isWhitespace trim)

/-! ### The tree of a document -/

/-- The attributes of an element as they are read. -/
def nodeAttrs (attrs : List Attribute) : List (String × String) :=
  attrs.foldl (fun map attr ↦ insertAttr map attr.1 (String.ofList (attrValue attr.2))) []

def contentText : Content → List Char
  | .text s => eol s
  | _ => []

/-- The texts between the elements, together. -/
def textAll (contents : List Content) : List Char := contents.flatMap contentText

mutual

def contentNodes : Content → List XNode
  | .text _ => []
  | .empty name attrs => [⟨name, nodeAttrs attrs, [], []⟩]
  | .element name attrs children =>
    [⟨name, nodeAttrs attrs, nodesAll children, textAll children⟩]

def nodesAll : List Content → List XNode
  | [] => []
  | content :: rest => contentNodes content ++ nodesAll rest

end

def documentNode (d : Document) : XNode :=
  ⟨d.name, nodeAttrs d.attrs, nodesAll d.children, textAll d.children⟩

theorem nodesAll_textChildren (s : List Char) : nodesAll (textChildren s) = [] := by
  unfold textChildren
  split <;> rfl

theorem textAll_textChildren (s : List Char) : textAll (textChildren s) = eol s := by
  unfold textChildren
  split
  · rename_i hs
    rw [hs]
    rfl
  · exact List.flatMap_singleton _ _

/-! ### Reading -/

theorem readAttrs_map (attrs : List Attribute) :
    readAttrs (attrs.map readAttr) = .ok (nodeAttrs attrs) := by
  unfold readAttrs nodeAttrs
  generalize ([] : List (String × String)) = map
  induction attrs generalizing map with
  | nil => rfl
  | cons attr rest ih => exact ih _

theorem localName_of_named {name : String} {attrs : List Attribute} (h : NamedTag name attrs) :
    localName name = name := by
  have hchars : ∀ c ∈ name.toList, decide (c ≠ ':') = true := by
    intro c hc
    rw [decide_eq_true_iff]
    rintro rfl
    exact absurd (h.name_chars _ hc) (by decide)
  rw [localName, List.dropWhile_eq_nil_iff.2 hchars]

/-- The events that are read one after another. -/
def readEvents (r : Reading) (events : List Event) : Except ApiError Reading :=
  events.foldlM readEvent r

theorem readEvents_cons {r r' : Reading} {event : Event} (h : readEvent r event = .ok r')
    (rest : List Event) : readEvents r (event :: rest) = readEvents r' rest := by
  rw [readEvents, List.foldlM_cons, h]
  rfl

theorem readEvents_append {r r' : Reading} {events : List Event} (h : readEvents r events = .ok r')
    (rest : List Event) : readEvents r (events ++ rest) = readEvents r' rest := by
  rw [readEvents, List.foldlM_append, ← readEvents, h]
  rfl

theorem pushText_nil (r : Reading) : r.pushText [] = r := by
  obtain ⟨stack, root⟩ := r
  cases stack with
  | nil => rfl
  | cons top rest =>
    obtain ⟨name, attrs, children, text⟩ := top
    simp [Reading.pushText]

theorem pushText_pushText (r : Reading) (s t : List Char) :
    (r.pushText s).pushText t = r.pushText (s ++ t) := by
  obtain ⟨stack, root⟩ := r
  cases stack with
  | nil => rfl
  | cons top rest => simp [Reading.pushText]

theorem predefinedEntity_of_entity {c : Char} {name : String} (h : entity c = some name) :
    predefinedEntity name = some c := by
  unfold entity at h
  split at h <;> first
    | (obtain rfl := Option.some.inj h; rfl)
    | exact absurd h (by simp)

theorem readEvent_run (r : Reading) (s : List Char) :
    readEvent r (Piece.run s).event = .ok (r.pushText s) := by
  rw [Piece.event, readEvent, String.toList_ofList]

/-- The pieces of a text are put together again. -/
theorem readEvents_pieces (t : List Char) (r : Reading) :
    readEvents r ((pieces t).map Piece.event) = .ok (r.pushText t) := by
  induction t generalizing r with
  | nil =>
    rw [pushText_nil]
    rfl
  | cons c rest ih =>
    have happend : ((r.pushText [c]).pushText rest) = r.pushText (c :: rest) :=
      pushText_pushText r [c] rest
    rw [pieces, ← happend, ← ih]
    split
    · rename_i name hname
      have hfirst : readEvent r (Piece.entity c name).event = .ok (r.pushText [c]) := by
        rw [Piece.event, readEvent, predefinedEntity_of_entity hname]
      rw [List.map_cons, readEvents_cons hfirst]
    · split
      · rename_i s more hpieces
        rw [hpieces, List.map_cons, List.map_cons, readEvents_cons (readEvent_run r _),
          readEvents_cons (readEvent_run _ s), pushText_pushText]
        rfl
      · rw [List.map_cons, readEvents_cons (readEvent_run r _)]

theorem readEvents_text (s : List Char) (r : Reading) :
    readEvents r (textEvents s) = .ok (r.pushText (eol s)) := readEvents_pieces (eol s) r

/-- The innermost element with more in it. -/
def XNode.extend (top : XNode) (children : List XNode) (text : List Char) : XNode :=
  { top with children := top.children ++ children, text := top.text ++ text }

mutual

/-- What is read of a content goes into the innermost element. -/
theorem readEvents_content : (content : Content) → content.WellFormed → (top : XNode) →
    (rest : List XNode) → (root : Option XNode) →
    readEvents ⟨top :: rest, root⟩ content.events =
      .ok ⟨top.extend (contentNodes content) (contentText content) :: rest, root⟩
  | .text s, _, top, rest, root => by
    rw [Content.events, readEvents_text]
    simp [Reading.pushText, XNode.extend, contentNodes, contentText]
  | .empty name attrs, h, top, rest, root => by
    have hevent : readEvent ⟨top :: rest, root⟩ (.empty name (attrs.map readAttr)) =
        .ok ⟨top.extend [⟨name, nodeAttrs attrs, [], []⟩] [] :: rest, root⟩ := by
      rw [readEvent, readAttrs_map, localName_of_named h]
      simp [Except.map, Reading.pushChild, XNode.extend]
    rw [Content.events, readEvents_cons hevent]
    rfl
  | .element name attrs children, h, top, rest, root => by
    have hstart : readEvent ⟨top :: rest, root⟩ (.start name (attrs.map readAttr)) =
        .ok ⟨⟨name, nodeAttrs attrs, [], []⟩ :: top :: rest, root⟩ := by
      rw [readEvent, readAttrs_map, localName_of_named h.1]
      rfl
    have hinside := readEvents_contents children h.2 ⟨name, nodeAttrs attrs, [], []⟩
      (top :: rest) root
    rw [Content.events, readEvents_cons hstart, readEvents_append hinside]
    simp [readEvents, readEvent, Reading.pushChild, XNode.extend, contentNodes, contentText]

theorem readEvents_contents : (contents : List Content) → WellFormedAll contents →
    (top : XNode) → (rest : List XNode) → (root : Option XNode) →
    readEvents ⟨top :: rest, root⟩ (eventsAll contents) =
      .ok ⟨top.extend (nodesAll contents) (textAll contents) :: rest, root⟩
  | [], _, top, rest, root => by
    obtain ⟨name, attrs, children, text⟩ := top
    simp [eventsAll, readEvents, XNode.extend, nodesAll, textAll]
    rfl
  | content :: more, h, top, rest, root => by
    have hfirst := readEvents_content content h.1 top rest root
    have hmore := readEvents_contents more h.2.2
      (top.extend (contentNodes content) (contentText content)) rest root
    rw [eventsAll, readEvents_append hfirst, hmore]
    simp [XNode.extend, nodesAll, textAll]

end

/-- A reader that keeps to the rules gives the tree of a document. -/
theorem parseTree_write [XmlReader] [LawfulXmlReader] {d : Document} (h : d.WellFormed) :
    parseTree d.write = .ok (documentNode d) := by
  have hoff : ∀ (s : List Char) (root : Option XNode),
      readEvents ⟨[], root⟩ (textEvents s) = .ok ⟨[], root⟩ := fun s root ↦ readEvents_text s _
  have hstart : readEvent ⟨[], none⟩ (.start d.name (d.attrs.map readAttr)) =
      .ok ⟨[⟨d.name, nodeAttrs d.attrs, [], []⟩], none⟩ := by
    rw [readEvent, readAttrs_map, localName_of_named h.root.1]
    rfl
  have hinside := readEvents_contents d.children h.root.2
    ⟨d.name, nodeAttrs d.attrs, [], []⟩ [] none
  have hroot : readEvents ⟨[], none⟩ d.root.events = .ok ⟨[], some (documentNode d)⟩ := by
    rw [Document.root, Content.events, readEvents_cons hstart, readEvents_append hinside]
    rfl
  have hevents : readEvents {} d.events = .ok ⟨[], some (documentNode d)⟩ := by
    have hother : readEvent {} .other = .ok {} := rfl
    rw [Document.events, readEvents_cons hother, readEvents_append (hoff d.before none),
      readEvents_append hroot, hoff]
  rw [parseTree, LawfulXmlReader.read_write d h]
  show (readEvents {} d.events).bind _ = _
  rw [hevents]
  rfl

/-! ### White space around texts -/

mutual

/-- The element with the texts trimmed. -/
def XNode.trimmed : XNode → XNode
  | ⟨name, attrs, children, text⟩ => ⟨name, attrs, trimmedAll children, trim text⟩

def trimmedAll : List XNode → List XNode
  | [] => []
  | node :: rest => node.trimmed :: trimmedAll rest

end

theorem trimmedAll_eq (nodes : List XNode) : trimmedAll nodes = nodes.map XNode.trimmed := by
  induction nodes with
  | nil => rfl
  | cons node rest ih => rw [trimmedAll, ih, List.map_cons]

@[simp] theorem name_trimmed (node : XNode) : node.trimmed.name = node.name := by
  cases node
  rfl

@[simp] theorem attrs_trimmed (node : XNode) : node.trimmed.attrs = node.attrs := by
  cases node
  rfl

@[simp] theorem text_trimmed (node : XNode) : node.trimmed.text = trim node.text := by
  cases node
  rfl

@[simp] theorem children_trimmed (node : XNode) :
    node.trimmed.children = node.children.map XNode.trimmed := by
  cases node
  exact trimmedAll_eq _

theorem trimmedAll_append (xs ys : List XNode) :
    trimmedAll (xs ++ ys) = trimmedAll xs ++ trimmedAll ys := by
  simp [trimmedAll_eq]

theorem textAll_of_unmixed {contents : List Content} (h : UnmixedAll contents) :
    textAll contents = [] := by
  induction contents with
  | nil => rfl
  | cons content rest ih =>
    cases content with
    | text s => exact h.1.elim
    | empty name attrs => exact ih h.2
    | element name attrs children => exact ih h.2

theorem white_lineBreak (depth : ℕ) : ∀ c ∈ '\n' :: blanks depth, white c = true := by
  intro c hc
  rcases List.mem_cons.1 hc with rfl | hc
  · rfl
  · obtain ⟨pair, hpair, hc⟩ := List.mem_flatten.1 hc
    rw [List.eq_of_mem_replicate hpair] at hc
    rw [List.mem_pair, or_self] at hc
    rw [hc]
    rfl

/-- The texts between indented elements are white space. -/
theorem white_textAll_indentAll {contents : List Content} (h : UnmixedAll contents) (depth : ℕ) :
    ∀ c ∈ textAll (indentAll depth contents), white c = true := by
  have hbreak : ∀ depth, ∀ c ∈ eol ('\n' :: blanks depth), white c = true := by
    intro depth c hc
    rcases mem_eol hc with hc | rfl
    · exact white_lineBreak depth c hc
    · rfl
  induction contents with
  | nil =>
    rw [indentAll, textAll, List.flatMap_singleton]
    exact hbreak depth
  | cons content rest ih =>
    have hfirst : contentText (content.indent (depth + 1)) = [] := by
      cases hcontent : content.indent (depth + 1) with
      | text s =>
        have htext := isText_indent h.1 (depth + 1)
        rw [hcontent] at htext
        exact absurd htext (by simp [Content.isText])
      | empty name attrs => rfl
      | element name attrs children => rfl
    intro c hc
    rw [indentAll, textAll, List.flatMap_cons, List.flatMap_cons, hfirst, List.nil_append] at hc
    rcases List.mem_append.1 hc with hc | hc
    · exact hbreak (depth + 1) c hc
    · exact ih h.2 c hc

mutual

/-- Indenting leaves the elements as they are, up to white space around the texts. -/
theorem trimmed_content : (content : Content) → content.Unmixed → (depth : ℕ) →
    trimmedAll (contentNodes (content.indent depth)) = trimmedAll (contentNodes content)
  | .text _, h, _ => h.elim
  | .empty _ _, _, _ => rfl
  | .element name attrs children, .inl ⟨s, hs⟩, depth => by
    subst hs
    have hnodes : nodesAll [.text s] = [] := rfl
    have htext : textAll [.text s] = eol s := List.flatMap_singleton _ _
    rw [indent_leaf, contentNodes, contentNodes, trimmedAll, trimmedAll, trimmedAll, trimmedAll,
      XNode.trimmed, XNode.trimmed, nodesAll_textChildren, textAll_textChildren, trim_eol_trim,
      hnodes, htext]
  | .element name attrs children, .inr h, depth => by
    have hchildren := trimmed_contents children h depth
    rw [indent_node h, contentNodes, contentNodes, trimmedAll, trimmedAll, trimmedAll, trimmedAll,
      XNode.trimmed, XNode.trimmed, hchildren, trim_white (white_textAll_indentAll h depth),
      textAll_of_unmixed h]
    rfl

theorem trimmed_contents : (contents : List Content) → UnmixedAll contents → (depth : ℕ) →
    trimmedAll (nodesAll (indentAll depth contents)) = trimmedAll (nodesAll contents)
  | [], _, _ => rfl
  | content :: rest, h, depth => by
    have hfirst := trimmed_content content h.1 (depth + 1)
    have hrest := trimmed_contents rest h.2 depth
    rw [indentAll, nodesAll, nodesAll, nodesAll, contentNodes, List.nil_append,
      trimmedAll_append, trimmedAll_append, hfirst, hrest]

end

theorem trimmed_indent {d : Document} (h : UnmixedAll d.children) :
    (documentNode d.indent).trimmed = (documentNode d).trimmed := by
  have hchildren := trimmed_contents d.children h 0
  rw [documentNode, documentNode, XNode.trimmed, XNode.trimmed, Document.indent, hchildren,
    trim_white (white_textAll_indentAll h 0), textAll_of_unmixed h]
  rfl

/-! ### Items of a trimmed tree -/

theorem trim_trim (s : List Char) : trim (trim s) = trim s := by
  have hback : (trim s).reverse.dropWhile isWhitespace = (trim s).reverse := by
    rw [trim, List.reverse_reverse]
    exact List.dropWhile_idempotent _ _
  have houter : trim (trim s) =
      (((trim s).dropWhile isWhitespace).reverse.dropWhile isWhitespace).reverse := rfl
  rw [houter, dropWhile_trim, hback, List.reverse_reverse]

theorem child_trimmed (node : XNode) (name : String) :
    child node.trimmed name = (child node name).map XNode.trimmed := by
  simp [child, List.find?_map, Function.comp_def]

theorem childrenNamed_trimmed (node : XNode) (name : String) :
    childrenNamed node.trimmed name = (childrenNamed node name).map XNode.trimmed := by
  simp [childrenNamed, List.filter_map, Function.comp_def]

theorem textOf_trimmed (node : XNode) (name : String) :
    textOf node.trimmed name = textOf node name := by
  simp [textOf, child_trimmed, Function.comp_def, trim_trim]

theorem attr_trimmed (node : XNode) (name : String) : attr node.trimmed name = attr node name := by
  simp [attr]

section Items

variable {D : Type} [Decimals D]

theorem parseSegment_trimmed (node : XNode) :
    (parseSegment node.trimmed : Segment D) = parseSegment node := by
  simp [parseSegment, textOf_trimmed, child_trimmed, childrenNamed_trimmed, attr_trimmed,
    Function.comp_def, trim_trim]

theorem parseSegments_trimmed (node : XNode) :
    parseSegments D node.trimmed = parseSegments D node := by
  simp [parseSegments, childrenNamed_trimmed, parseSegment_trimmed, Function.comp_def]

theorem parseDimensions_trimmed (node : XNode) :
    parseDimensions node.trimmed = parseDimensions node := by
  simp [parseDimensions, childrenNamed_trimmed, List.foldl_map, attr_trimmed, trim_trim]

theorem parseTokenCol_trimmed (node : XNode) :
    (parseTokenCol node.trimmed : Option D × Option Value) = parseTokenCol node := by
  simp [parseTokenCol, child_trimmed, trim_trim, parseSegments_trimmed, Function.comp_def,
    Option.bind_map]

theorem parseMediaItem_trimmed (node : XNode) :
    parseMediaItem D node.trimmed = parseMediaItem D node := by
  simp [parseMediaItem, child_trimmed, trim_trim, parseSegments_trimmed, parseDimensions_trimmed,
    Function.comp_def, Option.bind_map]

theorem parseMedia_trimmed (node : XNode) : parseMedia D node.trimmed = parseMedia D node := by
  simp [parseMedia, childrenNamed_trimmed, parseMediaItem_trimmed, Function.comp_def]

theorem readColumn_trimmed (node : XNode) (acc : PriceExportItem D × Map) (col : String × String) :
    readColumn node.trimmed acc col = readColumn node acc col := by
  unfold readColumn
  rw [child_trimmed]
  cases child node col.1 with
  | none => rfl
  | some column =>
    rw [Option.map_some]
    dsimp only
    rw [parseTokenCol_trimmed]

theorem readMedia_trimmed (node : XNode) (tag : String) :
    readMedia D node.trimmed tag = readMedia D node tag := by
  simp [readMedia, child_trimmed, parseMedia_trimmed, Function.comp_def]

theorem parseItem_trimmed (node : XNode) :
    (parseItem node.trimmed : PriceExportItem D) = parseItem node := by
  have hcolumns : (readColumn (D := D) node.trimmed) = readColumn node :=
    funext fun acc ↦ funext fun col ↦ readColumn_trimmed node acc col
  unfold parseItem
  simp only [hcolumns, textOf_trimmed, readMedia_trimmed]

/-- The items do not depend on the white space around the texts. -/
theorem parseRoot_trimmed (node : XNode) :
    (parseRoot node.trimmed : Except ApiError (List (PriceExportItem D))) = parseRoot node := by
  have hitems : (parseItem (D := D)) ∘ XNode.trimmed = parseItem :=
    funext fun price ↦ parseItem_trimmed price
  unfold parseRoot
  rw [name_trimmed, childrenNamed_trimmed, List.map_map, hitems]

end Items

end NextApi.Transfer
