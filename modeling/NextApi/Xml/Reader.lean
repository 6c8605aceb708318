import NextApi.Xml.Content
import Mathlib.Data.List.TakeWhile

/-!
# Reading a document by its tags

A text is split at its tags (`split`): from a `<` to the next `>` is a tag, and what stands between
two tags is text. No character of markup is left in a written text or value, so a written document
is split as it was written (`split_write`), and the reader that takes the tags apart gives the
events of every well-formed document (`tagReader_lawful`).
-/

set_option autoImplicit false

namespace NextApi.Xml

/-! ### Splitting -/

inductive Markup where
  | tag (raw : List Char)
  | text (raw : List Char)
  deriving DecidableEq

/-- The tags of a text and the texts between them. A tag that is never closed is text. -/
def split : List Char → List Markup
  | [] => []
  | c :: rest =>
    if c = '<' then
      if '>' ∈ rest then
        .tag (c :: (rest.takeWhile (· ≠ '>') ++ ['>'])) :: split (rest.dropWhile (· ≠ '>')).tail
      else [.text (c :: rest)]
    else .text (c :: rest.takeWhile (· ≠ '<')) :: split (rest.dropWhile (· ≠ '<'))
  termination_by xml => xml.length
  decreasing_by
    · have hle : (rest.dropWhile (· ≠ '>')).length ≤ rest.length := List.length_dropWhile_le _ _
      rw [List.length_tail, List.length_cons]
      omega
    · have hle : (rest.dropWhile (· ≠ '<')).length ≤ rest.length := List.length_dropWhile_le _ _
      rw [List.length_cons]
      omega

/-- A tag begins the text. -/
def Opens (s : List Char) : Prop := ∀ c ∈ s.head?, c = '<'

theorem span_of_not_mem {stop : Char} {s : List Char} (h : stop ∉ s) (rest : List Char)
    (hrest : ∀ c ∈ rest.head?, c = stop) :
    (s ++ rest).takeWhile (· ≠ stop) = s ∧ (s ++ rest).dropWhile (· ≠ stop) = rest := by
  have hs : ∀ c ∈ s, decide (c ≠ stop) = true := by
    intro c hc
    rw [decide_eq_true_iff]
    rintro rfl
    exact h hc
  rw [List.takeWhile_append_of_pos hs, List.dropWhile_append_of_pos hs]
  cases rest with
  | nil => simp
  | cons c rest =>
    obtain rfl := hrest c rfl
    simp

theorem split_tag {inside : List Char} (h : '>' ∉ inside) (rest : List Char) :
    split ('<' :: (inside ++ '>' :: rest)) =
      .tag ('<' :: (inside ++ ['>'])) :: split rest := by
  obtain ⟨htake, hdrop⟩ := span_of_not_mem h ('>' :: rest) (by simp)
  rw [split, if_pos rfl, if_pos (by simp), hdrop, htake, List.tail_cons]

theorem split_text {s rest : List Char} (hs : s ≠ []) (h : '<' ∉ s) (hrest : Opens rest) :
    split (s ++ rest) = .text s :: split rest := by
  cases s with
  | nil => exact absurd rfl hs
  | cons c more =>
    rw [List.mem_cons, not_or] at h
    obtain ⟨htake, hdrop⟩ := span_of_not_mem h.2 rest hrest
    rw [List.cons_append, split, if_neg (Ne.symm h.1), htake, hdrop]

/-! ### The tags of a written document -/

mutual

def Content.markup : Content → List Markup
  | .text s => [.text (escape s)]
  | .empty name attrs => [.tag (emptyTag name attrs)]
  | .element name attrs children =>
    .tag (startTag name attrs) :: (markupAll children ++ [.tag (endTag name)])

def markupAll : List Content → List Markup
  | [] => []
  | content :: rest => content.markup ++ markupAll rest

end

theorem nameChar_ne {c : Char} (h : nameChar c = true) :
    c ≠ '<' ∧ c ≠ '>' ∧ c ≠ '=' ∧ c ≠ ' ' ∧ c ≠ '/' ∧ c ≠ '?' := by
  refine ⟨?_, ?_, ?_, ?_, ?_, ?_⟩ <;>
  · rintro rfl
    exact absurd h (by decide)

theorem NamedTag.not_mem_name {name : String} {attrs : List Attribute} (h : NamedTag name attrs) :
    '>' ∉ name.toList := fun hc ↦ (nameChar_ne (h.name_chars _ hc)).2.1 rfl

theorem NamedTag.not_mem_attrs {name : String} {attrs : List Attribute} (h : NamedTag name attrs) :
    '>' ∉ writeAttrs attrs := by
  intro hc
  obtain ⟨attr, hattr, hc⟩ := List.mem_flatMap.1 hc
  simp only [List.mem_cons, List.mem_append, List.not_mem_nil] at hc
  rcases hc with hc | hc | hc | hc | hc | hc | hc
  · exact absurd hc (by decide)
  · exact (nameChar_ne (h.attr_chars attr hattr _ hc)).2.1 rfl
  · exact absurd hc (by decide)
  · exact absurd hc (by decide)
  · exact (mem_escape hc).2.1 rfl
  · exact absurd hc (by decide)
  · exact hc

theorem split_startTag {name : String} {attrs : List Attribute} (h : NamedTag name attrs)
    (rest : List Char) : split (startTag name attrs ++ rest) =
      .tag (startTag name attrs) :: split rest := by
  have hinside : '>' ∉ name.toList ++ writeAttrs attrs := by
    simp [h.not_mem_name, h.not_mem_attrs]
  simpa [startTag] using split_tag hinside rest

theorem split_emptyTag {name : String} {attrs : List Attribute} (h : NamedTag name attrs)
    (rest : List Char) : split (emptyTag name attrs ++ rest) =
      .tag (emptyTag name attrs) :: split rest := by
  have hinside : '>' ∉ name.toList ++ writeAttrs attrs ++ ['/'] := by
    simp [h.not_mem_name, h.not_mem_attrs]
  simpa [emptyTag] using split_tag hinside rest

theorem split_endTag {name : String} {attrs : List Attribute} (h : NamedTag name attrs)
    (rest : List Char) : split (endTag name ++ rest) = .tag (endTag name) :: split rest := by
  have hinside : '>' ∉ '/' :: name.toList := by
    simp [h.not_mem_name]
  simpa [endTag] using split_tag hinside rest

theorem opens_writeAll {cs : List Content} (h : ∀ next ∈ cs.head?, next.isText = false)
    {rest : List Char} (hrest : Opens rest) : Opens (writeAll cs ++ rest) := by
  cases cs with
  | nil => exact hrest
  | cons content more =>
    have hcontent := h content rfl
    cases content with
    | text s => exact absurd hcontent (by simp [Content.isText])
    | empty name attrs => simp [writeAll, Content.write, emptyTag, Opens]
    | element name attrs children => simp [writeAll, Content.write, startTag, Opens]

mutual

theorem split_content : (content : Content) → content.WellFormed → {rest : List Char} →
    (content.isText = true → Opens rest) →
    split (content.write ++ rest) = content.markup ++ split rest
  | .text s, h, rest, hrest => by
    rw [Content.write, Content.markup]
    exact split_text (fun hs ↦ h (escape_eq_nil_iff.1 hs)) (fun hc ↦ (mem_escape hc).1 rfl)
      (hrest rfl)
  | .empty name attrs, h, rest, _ => split_emptyTag h rest
  | .element name attrs children, h, rest, _ => by
    have hchildren : split (writeAll children ++ (endTag name ++ rest)) =
        markupAll children ++ split (endTag name ++ rest) :=
      split_contents children h.2 (by simp [Opens, endTag])
    rw [Content.write, Content.markup, List.append_assoc, split_startTag h.1, List.append_assoc,
      hchildren, split_endTag h.1]
    simp

theorem split_contents : (contents : List Content) → WellFormedAll contents →
    {rest : List Char} → Opens rest →
    split (writeAll contents ++ rest) = markupAll contents ++ split rest
  | [], _, _, _ => rfl
  | content :: more, h, rest, hrest => by
    have hfirst : split (content.write ++ (writeAll more ++ rest)) =
        content.markup ++ split (writeAll more ++ rest) :=
      split_content content h.1 fun htext ↦ opens_writeAll (h.2.1 htext) hrest
    rw [writeAll, markupAll, List.append_assoc, hfirst, split_contents more h.2.2 hrest,
      List.append_assoc]

end

/-! ### Taking the tags apart -/

/-- The text that this one was written for. -/
def unescape : List Char → List Char
  | '&' :: 'a' :: 'm' :: 'p' :: ';' :: rest => '&' :: unescape rest
  | '&' :: 'l' :: 't' :: ';' :: rest => '<' :: unescape rest
  | '&' :: 'g' :: 't' :: ';' :: rest => '>' :: unescape rest
  | '&' :: 'q' :: 'u' :: 'o' :: 't' :: ';' :: rest => '"' :: unescape rest
  | '&' :: 'a' :: 'p' :: 'o' :: 's' :: ';' :: rest => '\'' :: unescape rest
  | c :: rest => c :: unescape rest
  | [] => []

/-- The attributes from a blank on, at most so many. -/
def readAttrs : ℕ → List Char → List (Except String (String × Except String String))
  | fuel + 1, ' ' :: rest =>
    let value := (rest.dropWhile nameChar).drop 2
    readAttr (String.ofList (rest.takeWhile nameChar), unescape (value.takeWhile (· ≠ '"'))) ::
      readAttrs fuel (value.dropWhile (· ≠ '"')).tail
  | _, _ => []

def readTag : List Char → Event
  | '<' :: '?' :: _ => .other
  | '<' :: '/' :: rest => .stop (String.ofList (rest.takeWhile nameChar))
  | '<' :: rest =>
    let name := String.ofList (rest.takeWhile nameChar)
    let attrs := readAttrs rest.length (rest.dropWhile nameChar)
    if rest.dropLast.getLast? = some '/' then .empty name attrs else .start name attrs
  | _ => .other

def Markup.events : Markup → List Event
  | .tag raw => [readTag raw]
  | .text raw => textEvents (unescape raw)

/-- The reader of documents that are written as above. -/
@[reducible] def tagReader : XmlReader where
  read xml := ((split xml).flatMap Markup.events, none)

theorem unescape_cons {c : Char} (h : c ≠ '&') (rest : List Char) :
    unescape (c :: rest) = c :: unescape rest := by
  rw [unescape] <;>
  · intro _ heq
    exact absurd heq h

theorem unescape_escapeChar (c : Char) (rest : List Char) :
    unescape (escapeChar c ++ rest) = c :: unescape rest := by
  cases hname : entity c with
  | none =>
    rw [escapeChar_of_entity hname]
    exact unescape_cons (entity_eq_none_iff.1 hname).1 rest
  | some name =>
    unfold entity at hname
    split at hname <;> first
      | rfl
      | exact absurd hname (by simp)

theorem unescape_escape (s : List Char) : unescape (escape s) = s := by
  induction s with
  | nil => rfl
  | cons c rest ih => rw [escape_cons, unescape_escapeChar, ih]

theorem span_name {s : List Char} (h : ∀ c ∈ s, nameChar c = true) (rest : List Char)
    (hrest : ∀ c ∈ rest.head?, nameChar c = false) :
    (s ++ rest).takeWhile nameChar = s ∧ (s ++ rest).dropWhile nameChar = rest := by
  rw [List.takeWhile_append_of_pos h, List.dropWhile_append_of_pos h]
  cases rest with
  | nil => simp
  | cons c rest =>
    have hc : ¬ nameChar c = true := Bool.eq_false_iff.1 (hrest c rfl)
    rw [List.takeWhile_cons_of_neg hc, List.dropWhile_cons_of_neg hc, List.append_nil]
    exact ⟨rfl, rfl⟩

/-- What follows the name in a tag. -/
def Ending (rest : List Char) : Prop := ∀ c ∈ rest.head?, c = '>' ∨ c = '/'

theorem nameChar_head_attrs (attrs : List Attribute) {rest : List Char} (hrest : Ending rest) :
    ∀ c ∈ (writeAttrs attrs ++ rest).head?, nameChar c = false := by
  intro c hc
  cases attrs with
  | nil => rcases hrest c hc with rfl | rfl <;> decide
  | cons attr more =>
    obtain rfl := Option.some.inj hc
    decide

theorem readAttrs_writeAttrs {rest : List Char} (hrest : Ending rest) :
    {attrs : List Attribute} → (∀ attr ∈ attrs, ∀ c ∈ attr.1.toList, nameChar c = true) →
    {fuel : ℕ} → attrs.length ≤ fuel →
    readAttrs fuel (writeAttrs attrs ++ rest) = attrs.map readAttr
  | [], _, fuel, _ => by
    cases rest with
    | nil => cases fuel <;> rfl
    | cons c rest =>
      rcases hrest c rfl with rfl | rfl <;> cases fuel <;> rfl
  | attr :: more, h, fuel + 1, hfuel => by
    rw [List.forall_mem_cons] at h
    have hmore : readAttrs fuel (writeAttrs more ++ rest) = more.map readAttr :=
      readAttrs_writeAttrs hrest h.2 (by simpa using hfuel)
    obtain ⟨hname, hvalue⟩ := span_name h.1
      ('=' :: '"' :: (escape attr.2 ++ '"' :: (writeAttrs more ++ rest)))
      (fun c hc ↦ by obtain rfl := Option.some.inj hc; decide)
    obtain ⟨htake, hdrop⟩ := span_of_not_mem (fun hc ↦ (mem_escape (s := attr.2) hc).2.2 rfl)
      ('"' :: (writeAttrs more ++ rest)) (by simp)
    have hwritten : writeAttrs (attr :: more) ++ rest = ' ' :: (attr.1.toList ++
        '=' :: '"' :: (escape attr.2 ++ '"' :: (writeAttrs more ++ rest))) := by
      simp [writeAttrs]
    rw [hwritten, readAttrs, hname, hvalue, List.drop_succ_cons, List.drop_succ_cons,
      List.drop_zero, htake, hdrop, List.tail_cons, hmore, unescape_escape,
      String.ofList_toList, List.map_cons]

theorem writeAttrs_length (attrs : List Attribute) : attrs.length ≤ (writeAttrs attrs).length := by
  induction attrs with
  | nil => exact Nat.le_refl 0
  | cons attr more ih =>
    rw [writeAttrs, List.flatMap_cons, List.length_append, ← writeAttrs, List.length_cons,
      List.length_cons]
    omega

theorem exists_name {name : String} {attrs : List Attribute} (h : NamedTag name attrs) :
    ∃ c more, name.toList = c :: more ∧ nameChar c = true := by
  obtain ⟨c, more, hname⟩ := List.exists_cons_of_ne_nil h.name_ne
  exact ⟨c, more, hname, h.name_chars c (by simp [hname])⟩

/-- Neither a name nor an attribute ends with a slash. -/
theorem last_ne {name : String} {attrs : List Attribute} (h : NamedTag name attrs) :
    (name.toList ++ writeAttrs attrs).getLast? ≠ some '/' := by
  intro hlast
  rcases List.eq_nil_or_concat attrs with rfl | ⟨init, attr, rfl⟩
  · rw [writeAttrs, List.flatMap_nil, List.append_nil] at hlast
    exact (nameChar_ne (h.name_chars _ (List.mem_of_getLast? hlast))).2.2.2.2.1 rfl
  · have hquote : writeAttrs (init.concat attr) =
        (writeAttrs init ++ ' ' :: (attr.1.toList ++ '=' :: '"' :: escape attr.2)) ++ ['"'] := by
      simp [writeAttrs]
    rw [hquote, ← List.append_assoc, List.getLast?_concat] at hlast
    exact absurd hlast (by decide)

/-- A tag that begins with a name is one of an element. -/
theorem readTag_name {name : String} {attrs : List Attribute} (h : NamedTag name attrs)
    {rest : List Char} (hrest : Ending rest) :
    readTag ('<' :: (name.toList ++ (writeAttrs attrs ++ rest))) =
      if (name.toList ++ (writeAttrs attrs ++ rest)).dropLast.getLast? = some '/' then
        .empty name (attrs.map readAttr) else .start name (attrs.map readAttr) := by
  obtain ⟨htake, hdrop⟩ := span_name h.name_chars _ (nameChar_head_attrs attrs hrest)
  have hfuel : attrs.length ≤ (name.toList ++ (writeAttrs attrs ++ rest)).length := by
    have hle := writeAttrs_length attrs
    rw [List.length_append, List.length_append]
    omega
  obtain ⟨c, more, hname, hc⟩ := exists_name h
  obtain ⟨-, -, -, -, hslash, hquestion⟩ := nameChar_ne hc
  rw [readTag, htake, hdrop, readAttrs_writeAttrs hrest h.attr_chars hfuel, String.ofList_toList]
  all_goals
    intro after heq
    rw [hname, List.cons_append] at heq
    exact absurd (List.cons.inj heq).1 (by assumption)

theorem readTag_startTag {name : String} {attrs : List Attribute} (h : NamedTag name attrs) :
    readTag (startTag name attrs) = .start name (attrs.map readAttr) := by
  rw [startTag, List.append_assoc, readTag_name h (by simp [Ending]), if_neg]
  rw [← List.append_assoc, List.dropLast_concat]
  exact last_ne h

theorem readTag_emptyTag {name : String} {attrs : List Attribute} (h : NamedTag name attrs) :
    readTag (emptyTag name attrs) = .empty name (attrs.map readAttr) := by
  rw [emptyTag, List.append_assoc, readTag_name h (by simp [Ending]), if_pos]
  rw [← List.append_assoc, List.dropLast_append_of_ne_nil (by simp)]
  simp

theorem readTag_endTag {name : String} {attrs : List Attribute} (h : NamedTag name attrs) :
    readTag (endTag name) = .stop name := by
  obtain ⟨htake, -⟩ := span_name h.name_chars ['>'] fun c hc ↦ by
    obtain rfl := Option.some.inj hc
    decide
  rw [endTag, readTag, htake, String.ofList_toList]

mutual

theorem events_markup : (content : Content) → content.WellFormed →
    content.markup.flatMap Markup.events = content.events
  | .text s, _ => by
    rw [Content.markup, Content.events, List.flatMap_singleton, Markup.events, unescape_escape]
  | .empty name attrs, h => by
    rw [Content.markup, Content.events, List.flatMap_singleton, Markup.events, readTag_emptyTag h]
  | .element name attrs children, h => by
    rw [Content.markup, Content.events, List.flatMap_cons, List.flatMap_append,
      List.flatMap_singleton, Markup.events, Markup.events, readTag_startTag h.1,
      readTag_endTag h.1, events_markupAll children h.2]
    rfl

theorem events_markupAll : (contents : List Content) → WellFormedAll contents →
    (markupAll contents).flatMap Markup.events = eventsAll contents
  | [], _ => rfl
  | content :: more, h => by
    rw [markupAll, eventsAll, List.flatMap_append, events_markup content h.1,
      events_markupAll more h.2.2]

end

/-! ### Documents -/

/-- The texts of a piece of white space, which are none when it is empty. -/
def markupWhite (s : List Char) : List Markup := if s = [] then [] else [.text s]

theorem entity_of_white {c : Char} (h : white c = true) : entity c = none ∧ c ≠ '<' := by
  have hne : c ≠ '&' ∧ c ≠ '<' ∧ c ≠ '>' ∧ c ≠ '"' ∧ c ≠ '\'' := by
    refine ⟨?_, ?_, ?_, ?_, ?_⟩ <;>
    · rintro rfl
      exact absurd h (by decide)
  exact ⟨entity_eq_none_iff.2 hne, hne.2.1⟩

theorem split_white {s : List Char} (h : ∀ c ∈ s, white c = true) {rest : List Char}
    (hrest : Opens rest) : split (s ++ rest) = markupWhite s ++ split rest := by
  unfold markupWhite
  split
  · rename_i hs
    rw [hs]
    rfl
  · rename_i hs
    exact split_text hs (fun hc ↦ (entity_of_white (h _ hc)).2 rfl) hrest

theorem events_markupWhite {s : List Char} (h : ∀ c ∈ s, white c = true) :
    (markupWhite s).flatMap Markup.events = textEvents s := by
  unfold markupWhite
  split
  · rename_i hs
    rw [hs]
    rfl
  · have hescape : unescape s = s := by
      conv_lhs => rw [← escape_of_entity fun c hc ↦ (entity_of_white (h c hc)).1]
      exact unescape_escape s
    rw [List.flatMap_singleton, Markup.events, hescape]

def Document.markup (d : Document) : List Markup :=
  .tag declaration :: (markupWhite d.before ++ (d.root.markup ++ markupWhite d.after))

theorem split_write {d : Document} (h : d.WellFormed) : split d.write = d.markup := by
  have hroot : Opens (d.root.write ++ d.after) := by
    simp [Opens, Document.root, Content.write, startTag]
  have hafter : split d.after = markupWhite d.after := by
    have hsplit : split (d.after ++ []) = markupWhite d.after ++ split [] :=
      split_white h.after (by simp [Opens])
    rw [List.append_nil] at hsplit
    rw [hsplit, split, List.append_nil]
  have hdecl : declaration =
      '<' :: ("?xml version=\"1.0\" encoding=\"UTF-8\"?".toList ++ ['>']) := by decide
  have hopen : d.root.isText = true → Opens d.after := fun htext ↦ absurd htext Bool.false_ne_true
  rw [Document.write, Document.markup, hdecl, List.cons_append, List.append_assoc,
    List.singleton_append, split_tag (by decide), split_white h.before hroot,
    split_content d.root h.root hopen, hafter]

/-- The reader gives the events of every well-formed document. -/
theorem tagReader_lawful : @LawfulXmlReader tagReader := by
  refine @LawfulXmlReader.mk tagReader fun d h ↦ ?_
  have hdecl : Markup.events (.tag declaration) = [.other] := rfl
  show ((split d.write).flatMap Markup.events, none) = (d.events, none)
  rw [split_write h, Document.markup, Document.events, List.flatMap_cons, List.flatMap_append,
    List.flatMap_append, hdecl, events_markupWhite h.before, events_markup d.root h.root,
    events_markupWhite h.after]
  rfl

end NextApi.Xml
