import Mathlib.Data.List.Basic

/-!
# Documents in XML

A document is a declaration and one element, whose content is text and elements in turn. The text
of a document has the five characters of markup as references (`escape`), so that it is read back
by the rules of XML 1.0: line ends become line feeds (`eol`), and in the value of an attribute tabs
and line feeds become blanks (`attrValue`).

`XmlReader` is a reader that gives the events of a document one after another, each with what the
reader finds in it, and `LawfulXmlReader` is one that gives the events of every document that is
well formed.
-/

set_option autoImplicit false

namespace NextApi.Xml

/-! ### Characters -/

/-- The characters that a document may have. -/
def legalChar (c : Char) : Bool :=
  c == '\t' || c == '\n' || c == '\r' ||
    decide (0x20 ≤ c.toNat ∧ c.toNat ≠ 0xfffe ∧ c.toNat ≠ 0xffff)

/-- The characters of the names that are considered here. -/
def nameChar (c : Char) : Bool := c.isAlpha || c == '_'

/-- The characters of markup have entities. -/
def entity : Char → Option String
  | '&' => some "amp"
  | '<' => some "lt"
  | '>' => some "gt"
  | '"' => some "quot"
  | '\'' => some "apos"
  | _ => none

/-- The characters that the predefined entities stand for. -/
def predefinedEntity : String → Option Char
  | "amp" => some '&'
  | "lt" => some '<'
  | "gt" => some '>'
  | "quot" => some '"'
  | "apos" => some '\''
  | _ => none

def escapeChar (c : Char) : List Char :=
  match entity c with
  | some name => '&' :: (name.toList ++ [';'])
  | none => [c]

def escape (s : List Char) : List Char := s.flatMap escapeChar

/-- The line ends of a text as line feeds. -/
def eol : List Char → List Char
  | [] => []
  | c :: rest =>
    if c = '\r' then (if rest.head? = some '\n' then eol rest else '\n' :: eol rest)
    else c :: eol rest

/-- The value that an attribute has. -/
def attrValue (s : List Char) : List Char :=
  (eol s).map fun c ↦ if c = '\t' ∨ c = '\n' then ' ' else c

theorem escape_cons (c : Char) (s : List Char) : escape (c :: s) = escapeChar c ++ escape s := rfl

theorem escapeChar_of_entity {c : Char} (h : entity c = none) : escapeChar c = [c] := by
  rw [escapeChar, h]

/-- A text without characters of markup is written as it is. -/
theorem escape_of_entity {s : List Char} (h : ∀ c ∈ s, entity c = none) : escape s = s := by
  induction s with
  | nil => rfl
  | cons c rest ih =>
    rw [List.forall_mem_cons] at h
    rw [escape_cons, escapeChar_of_entity h.1, ih h.2]
    rfl

theorem entity_eq_none_iff {c : Char} :
    entity c = none ↔ c ≠ '&' ∧ c ≠ '<' ∧ c ≠ '>' ∧ c ≠ '"' ∧ c ≠ '\'' := by
  unfold entity
  split <;> simp_all

theorem mem_escapeChar {c d : Char} (h : d ∈ escapeChar c) : d ≠ '<' ∧ d ≠ '>' ∧ d ≠ '"' := by
  cases hname : entity c with
  | none =>
    rw [escapeChar_of_entity hname, List.mem_singleton] at h
    obtain ⟨-, hlt, hgt, hquot, -⟩ := entity_eq_none_iff.1 hname
    rw [h]
    exact ⟨hlt, hgt, hquot⟩
  | some name =>
    have hmarkup : c ∈ ['&', '<', '>', '"', '\''] := by
      by_contra hc
      simp only [List.mem_cons, List.not_mem_nil, not_or] at hc
      rw [entity_eq_none_iff.2 (by tauto)] at hname
      exact absurd hname (by simp)
    have hescape : (['&', '<', '>', '"', '\''].all fun c ↦ (escapeChar c).all fun d ↦
        decide (d ≠ '<' ∧ d ≠ '>' ∧ d ≠ '"')) = true := by decide
    exact of_decide_eq_true (List.all_eq_true.1 (List.all_eq_true.1 hescape c hmarkup) d h)

/-- No character of markup is left in a written text. -/
theorem mem_escape {s : List Char} {d : Char} (h : d ∈ escape s) :
    d ≠ '<' ∧ d ≠ '>' ∧ d ≠ '"' := by
  obtain ⟨c, -, hd⟩ := List.mem_flatMap.1 h
  exact mem_escapeChar hd

theorem escapeChar_ne_nil (c : Char) : escapeChar c ≠ [] := by
  unfold escapeChar
  split <;> exact List.cons_ne_nil _ _

theorem escape_eq_nil_iff {s : List Char} : escape s = [] ↔ s = [] := by
  cases s with
  | nil => exact iff_of_true rfl rfl
  | cons c rest =>
    refine iff_of_false (fun h ↦ ?_) (List.cons_ne_nil _ _)
    exact escapeChar_ne_nil c (List.append_eq_nil_iff.1 h).1

/-! ### Content -/

/-- An attribute, with its value before it is written. -/
abbrev Attribute := String × List Char

/-- A part of the content of an element. An element without content may be written as one tag. -/
inductive Content where
  | text (s : List Char)
  | empty (name : String) (attrs : List Attribute)
  | element (name : String) (attrs : List Attribute) (children : List Content)

def Content.isText : Content → Bool
  | .text _ => true
  | _ => false

def writeAttrs (attrs : List Attribute) : List Char :=
  attrs.flatMap fun attr ↦ ' ' :: (attr.1.toList ++ '=' :: '"' :: (escape attr.2 ++ ['"']))

def startTag (name : String) (attrs : List Attribute) : List Char :=
  '<' :: (name.toList ++ writeAttrs attrs ++ ['>'])

def endTag (name : String) : List Char := '<' :: '/' :: (name.toList ++ ['>'])

def emptyTag (name : String) (attrs : List Attribute) : List Char :=
  '<' :: (name.toList ++ writeAttrs attrs ++ ['/', '>'])

mutual

def Content.write : Content → List Char
  | .text s => escape s
  | .empty name attrs => emptyTag name attrs
  | .element name attrs children => startTag name attrs ++ (writeAll children ++ endTag name)

def writeAll : List Content → List Char
  | [] => []
  | content :: rest => content.write ++ writeAll rest

end

/-- The content of an element with nothing but a text, which may be empty. -/
def textChildren (s : List Char) : List Content := if s = [] then [] else [.text s]

theorem writeAll_textChildren (s : List Char) : writeAll (textChildren s) = escape s := by
  unfold textChildren
  split
  · rename_i hs
    rw [hs]
    rfl
  · exact List.append_nil _

/-- A document: the texts before and after its element are white space. -/
structure Document where
  before : List Char := []
  name : String
  attrs : List Attribute
  children : List Content
  after : List Char := []

def declaration : List Char := "<?xml version=\"1.0\" encoding=\"UTF-8\"?>".toList

def Document.root (d : Document) : Content := .element d.name d.attrs d.children

def Document.write (d : Document) : List Char :=
  declaration ++ (d.before ++ (d.root.write ++ d.after))

/-! ### Well-formedness -/

/-- The names of a tag. -/
structure NamedTag (name : String) (attrs : List Attribute) : Prop where
  name_ne : name.toList ≠ []
  name_chars : ∀ c ∈ name.toList, nameChar c = true
  attr_ne : ∀ attr ∈ attrs, attr.1.toList ≠ []
  attr_chars : ∀ attr ∈ attrs, ∀ c ∈ attr.1.toList, nameChar c = true
  nodup : (attrs.map Prod.fst).Nodup

mutual

/-- Texts have characters, and no two of them stand side by side. -/
def Content.WellFormed : Content → Prop
  | .text s => s ≠ []
  | .empty name attrs => NamedTag name attrs
  | .element name attrs children => NamedTag name attrs ∧ WellFormedAll children

def WellFormedAll : List Content → Prop
  | [] => True
  | content :: rest =>
    content.WellFormed ∧ (content.isText = true → ∀ next ∈ rest.head?, next.isText = false) ∧
      WellFormedAll rest

end

theorem wellFormed_textChildren (s : List Char) : WellFormedAll (textChildren s) := by
  unfold textChildren
  split
  · trivial
  · exact ⟨by assumption, by simp, trivial⟩

def white (c : Char) : Bool := c == ' ' || c == '\t' || c == '\n' || c == '\r'

structure Document.WellFormed (d : Document) : Prop where
  before : ∀ c ∈ d.before, white c = true
  root : d.root.WellFormed
  after : ∀ c ∈ d.after, white c = true
  legal : ∀ c ∈ d.write, legalChar c = true

/-! ### Events -/

/-- What a reader finds in a document, one after another. The values of attributes and the texts are
decoded, or there is an error in them; a reference is a name, and stands for a character when it is
a number. -/
inductive Event where
  | start (name : String) (attrs : List (Except String (String × Except String String)))
  | empty (name : String) (attrs : List (Except String (String × Except String String)))
  | stop (name : String)
  | text (content : Except String String)
  | reference (name : String) (char : Except String (Option Char))
  | other

/-- A text is read as runs of characters and the entities between them. -/
inductive Piece where
  | run (s : List Char)
  | entity (c : Char) (name : String)

def pieces : List Char → List Piece
  | [] => []
  | c :: rest =>
    match entity c with
    | some name => .entity c name :: pieces rest
    | none =>
      match pieces rest with
      | .run s :: more => .run (c :: s) :: more
      | more => .run [c] :: more

def Piece.event : Piece → Event
  | .run s => .text (.ok (String.ofList s))
  | .entity _ name => .reference name (.ok none)

def textEvents (s : List Char) : List Event := (pieces (eol s)).map Piece.event

/-- An attribute as it is read. -/
def readAttr (attr : Attribute) : Except String (String × Except String String) :=
  .ok (attr.1, .ok (String.ofList (attrValue attr.2)))

mutual

def Content.events : Content → List Event
  | .text s => textEvents s
  | .empty name attrs => [.empty name (attrs.map readAttr)]
  | .element name attrs children =>
    .start name (attrs.map readAttr) :: (eventsAll children ++ [.stop name])

def eventsAll : List Content → List Event
  | [] => []
  | content :: rest => content.events ++ eventsAll rest

end

def Document.events (d : Document) : List Event :=
  .other :: (textEvents d.before ++ (d.root.events ++ textEvents d.after))

/-! ### Readers -/

/-- A reader gives events, and stops at the end or at an error. -/
class XmlReader where
  read : List Char → List Event × Option String

/-- A reader that keeps to the rules of XML 1.0. -/
class LawfulXmlReader [XmlReader] : Prop where
  read_write (d : Document) : d.WellFormed → XmlReader.read d.write = (d.events, none)

end NextApi.Xml
