import NextApi.Xml.Content
import NextApi.Text.Lines
import Mathlib.Data.List.TakeWhile

/-!
# Indented documents

A document without mixed content is indented by putting every element on a line of its own, with
two blanks for each element around it, and the text of an element without blanks around it on the
line of the element (`Content.indent`). The document stays well formed (`wellFormed_indent`), and no
other characters come in (`mem_write_indent`). What a reader makes of a text without the blanks
around it stays the same (`trim_eol_trim`).
-/

set_option autoImplicit false

namespace NextApi.Xml

open Text (isWhitespace trim)

/-! ### Trimmed texts -/

theorem dropWhile_flatMap {f : Char → List Char} (hwhite : ∀ c, isWhitespace c = true → f c = [c])
    (hhead : ∀ c, isWhitespace c = false → ∃ d more, f c = d :: more ∧ isWhitespace d = false)
    (s : List Char) :
    (s.flatMap f).dropWhile isWhitespace = (s.dropWhile isWhitespace).flatMap f := by
  induction s with
  | nil => rfl
  | cons c rest ih =>
    cases hc : isWhitespace c with
    | true =>
      rw [List.flatMap_cons, hwhite c hc, List.singleton_append, List.dropWhile_cons_of_pos hc,
        List.dropWhile_cons_of_pos hc, ih]
    | false =>
      obtain ⟨d, more, hf, hd⟩ := hhead c hc
      rw [List.dropWhile_cons_of_neg (Bool.eq_false_iff.1 hc), List.flatMap_cons, hf,
        List.cons_append, List.dropWhile_cons_of_neg (Bool.eq_false_iff.1 hd)]

theorem entity_of_isWhitespace {c : Char} (h : isWhitespace c = true) : entity c = none := by
  refine entity_eq_none_iff.2 ⟨?_, ?_, ?_, ?_, ?_⟩ <;>
  · rintro rfl
    exact absurd h (by decide)

/-- What is written for a character that is no white space has none at its ends. -/
theorem escapeChar_ends {c : Char} (h : isWhitespace c = false) :
    (∃ d more, escapeChar c = d :: more ∧ isWhitespace d = false) ∧
      ∃ d more, (escapeChar c).reverse = d :: more ∧ isWhitespace d = false := by
  cases hname : entity c with
  | none =>
    rw [escapeChar_of_entity hname]
    exact ⟨⟨c, [], rfl, h⟩, c, [], rfl, h⟩
  | some name =>
    have hescape : escapeChar c = '&' :: (name.toList ++ [';']) := by
      rw [escapeChar, hname]
    rw [hescape, List.reverse_cons, List.reverse_append]
    exact ⟨⟨'&', _, rfl, by decide⟩, ';', _, rfl, by decide⟩

/-- A text may be trimmed after it is written. -/
theorem trim_escape (s : List Char) : trim (escape s) = escape (trim s) := by
  have hfront : ∀ s : List Char,
      (escape s).dropWhile isWhitespace = escape (s.dropWhile isWhitespace) :=
    dropWhile_flatMap (fun c hc ↦ escapeChar_of_entity (entity_of_isWhitespace hc))
      fun c hc ↦ (escapeChar_ends hc).1
  have hback : ∀ s : List Char, (s.flatMap fun c ↦ (escapeChar c).reverse).dropWhile isWhitespace =
      (s.dropWhile isWhitespace).flatMap fun c ↦ (escapeChar c).reverse := by
    refine dropWhile_flatMap (fun c hc ↦ ?_) fun c hc ↦ (escapeChar_ends hc).2
    rw [escapeChar_of_entity (entity_of_isWhitespace hc)]
    rfl
  have hreverse : ∀ s : List Char,
      (escape s).reverse = s.reverse.flatMap fun c ↦ (escapeChar c).reverse :=
    fun s ↦ List.reverse_flatMap
  rw [trim, hfront, hreverse, hback, trim, ← List.reverse_reverse (List.dropWhile _ _),
    ← hreverse, List.reverse_reverse, List.reverse_reverse]

theorem mem_eol {s : List Char} {c : Char} (h : c ∈ eol s) : c ∈ s ∨ c = '\n' := by
  induction s with
  | nil => exact absurd h List.not_mem_nil
  | cons d rest ih =>
    rw [eol] at h
    split_ifs at h with hd hnext
    · exact (ih h).imp_left (List.mem_cons_of_mem d)
    · rcases List.mem_cons.1 h with h | h
      · exact Or.inr h
      · exact (ih h).imp_left (List.mem_cons_of_mem d)
    · rcases List.mem_cons.1 h with h | h
      · exact Or.inl (h ▸ List.mem_cons_self)
      · exact (ih h).imp_left (List.mem_cons_of_mem d)

theorem dropWhile_eol (s : List Char) :
    (eol s).dropWhile isWhitespace = eol (s.dropWhile isWhitespace) := by
  induction s with
  | nil => rfl
  | cons c rest ih =>
    rw [eol]
    split_ifs with hc hnext
    · rw [hc, List.dropWhile_cons_of_pos (by decide), ih]
    · rw [hc, List.dropWhile_cons_of_pos (by decide), List.dropWhile_cons_of_pos (by decide), ih]
    · cases hwhite : isWhitespace c with
      | true => rw [List.dropWhile_cons_of_pos hwhite, List.dropWhile_cons_of_pos hwhite, ih]
      | false =>
        rw [List.dropWhile_cons_of_neg (Bool.eq_false_iff.1 hwhite),
          List.dropWhile_cons_of_neg (Bool.eq_false_iff.1 hwhite), eol, if_neg hc]

/-- White space at the end of a text stays there. -/
theorem eol_append_white (s : List Char) {w : List Char} (hw : ∀ c ∈ w, isWhitespace c = true) :
    ∃ w', (∀ c ∈ w', isWhitespace c = true) ∧ eol (s ++ w) = eol s ++ w' := by
  have hwhite : ∀ w : List Char, (∀ c ∈ w, isWhitespace c = true) →
      ∀ c ∈ eol w, isWhitespace c = true := by
    intro w hw c hc
    rcases mem_eol hc with hc | rfl
    · exact hw c hc
    · decide
  induction s with
  | nil => exact ⟨eol w, hwhite w hw, rfl⟩
  | cons c rest ih =>
    obtain ⟨w', hw', heq⟩ := ih
    rw [List.cons_append, eol, eol]
    cases rest with
    | cons d more =>
      simp only [List.cons_append, List.head?_cons] at heq ⊢
      rw [heq]
      refine ⟨w', hw', ?_⟩
      by_cases hc : c = '\r' <;> by_cases hd : d = '\n' <;> simp [hc, hd]
    | nil =>
      rw [List.nil_append]
      by_cases hnext : w.head? = some '\n'
      · obtain ⟨more, rfl⟩ : ∃ more, w = '\n' :: more := by
          cases w with
          | nil => exact absurd hnext (by simp)
          | cons d more => exact ⟨more, by rw [Option.some.inj hnext]⟩
        by_cases hc : c = '\r'
        · refine ⟨eol more, hwhite more fun d hd ↦ hw d (List.mem_cons_of_mem _ hd), ?_⟩
          simp [hc, eol]
        · exact ⟨eol ('\n' :: more), hwhite _ hw, by simp [hc, eol]⟩
      · exact ⟨eol w, hwhite w hw, by by_cases hc : c = '\r' <;> simp [hc, hnext, eol]⟩

/-- What trimming leaves, and the white space after it. -/
theorem exists_trim_append (s : List Char) : ∃ w, (∀ c ∈ w, isWhitespace c = true) ∧
    s.dropWhile isWhitespace = trim s ++ w := by
  set t := s.dropWhile isWhitespace with ht
  refine ⟨(t.reverse.takeWhile isWhitespace).reverse, fun c hc ↦ ?_, ?_⟩
  · exact List.mem_takeWhile_imp (List.mem_reverse.1 hc)
  · rw [trim, ← ht, ← List.reverse_append, List.takeWhile_append_dropWhile, List.reverse_reverse]

theorem dropWhile_trim (s : List Char) : (trim s).dropWhile isWhitespace = trim s := by
  obtain ⟨w, -, hsplit⟩ := exists_trim_append s
  refine Text.dropWhile_of_head fun c hc ↦ ?_
  have hhead : (s.dropWhile isWhitespace).head? = some c := by
    rw [hsplit]
    exact List.mem_head?_append_of_mem_head? hc
  have hnot := List.head?_dropWhile_not isWhitespace s
  rw [hhead] at hnot
  exact hnot

/-- White space around a text is trimmed with its line ends read or not. -/
theorem trim_eol_trim (s : List Char) : trim (eol (trim s)) = trim (eol s) := by
  obtain ⟨w, hw, hsplit⟩ := exists_trim_append s
  obtain ⟨w', hw', heq⟩ := eol_append_white (trim s) hw
  have hend : ∀ c ∈ w'.reverse, isWhitespace c = true := fun c hc ↦ hw' c (List.mem_reverse.1 hc)
  have hleft : trim (eol (trim s)) = ((eol (trim s)).reverse.dropWhile isWhitespace).reverse := by
    rw [trim, dropWhile_eol, dropWhile_trim]
  have hright : trim (eol s) = ((eol (trim s) ++ w').reverse.dropWhile isWhitespace).reverse := by
    rw [trim, dropWhile_eol, hsplit, heq]
  rw [hleft, hright, List.reverse_append, List.dropWhile_append_of_pos hend]

/-! ### Unmixed content -/

mutual

/-- An element that has either one text or elements. -/
def Content.Unmixed : Content → Prop
  | .text _ => False
  | .empty _ _ => True
  | .element _ _ children => (∃ s, children = [.text s]) ∨ UnmixedAll children

def UnmixedAll : List Content → Prop
  | [] => True
  | content :: rest => content.Unmixed ∧ UnmixedAll rest

end

/-- The blanks in front of an element. -/
def blanks (depth : ℕ) : List Char := (List.replicate depth [' ', ' ']).flatten

mutual

def Content.indent : ℕ → Content → Content
  | _, .text s => .text s
  | _, .empty name attrs => .empty name attrs
  | depth, .element name attrs children =>
    match children with
    | [.text s] => .element name attrs (textChildren (trim s))
    | _ => .element name attrs (indentAll depth children)

def indentAll : ℕ → List Content → List Content
  | depth, [] => [.text ('\n' :: blanks depth)]
  | depth, content :: rest =>
    .text ('\n' :: blanks (depth + 1)) :: content.indent (depth + 1) :: indentAll depth rest

end

theorem indent_leaf (depth : ℕ) (name : String) (attrs : List Attribute) (s : List Char) :
    (Content.element name attrs [.text s]).indent depth =
      .element name attrs (textChildren (trim s)) := by
  rw [Content.indent]

theorem indent_node {children : List Content} (h : UnmixedAll children) (depth : ℕ) (name : String)
    (attrs : List Attribute) : (Content.element name attrs children).indent depth =
      .element name attrs (indentAll depth children) := by
  rw [Content.indent]
  rintro s rfl
  exact h.1

theorem isText_indent {content : Content} (h : content.Unmixed) (depth : ℕ) :
    (content.indent depth).isText = false := by
  cases content with
  | text s => exact h.elim
  | empty name attrs => rfl
  | element name attrs children =>
    rcases h with ⟨s, rfl⟩ | h
    · rw [indent_leaf]
      rfl
    · rw [indent_node h]
      rfl

mutual

theorem wellFormed_indent : (content : Content) → content.WellFormed → content.Unmixed →
    (depth : ℕ) → (content.indent depth).WellFormed
  | .text _, _, h, _ => h.elim
  | .empty _ _, h, _, _ => h
  | .element name attrs children, h, .inl ⟨s, hs⟩, depth => by
    rw [hs, indent_leaf]
    exact ⟨h.1, wellFormed_textChildren (trim s)⟩
  | .element name attrs children, h, .inr hunmixed, depth => by
    rw [indent_node hunmixed]
    exact ⟨h.1, wellFormed_indentAll children h.2 hunmixed depth⟩

theorem wellFormed_indentAll : (contents : List Content) → WellFormedAll contents →
    UnmixedAll contents → (depth : ℕ) → WellFormedAll (indentAll depth contents)
  | [], _, _, _ => ⟨List.cons_ne_nil _ _, by simp, trivial⟩
  | content :: rest, h, hunmixed, depth => by
    have hfirst : (content.indent (depth + 1)).isText = false := isText_indent hunmixed.1 _
    refine ⟨List.cons_ne_nil _ _, fun _ next hnext ↦ ?_,
      wellFormed_indent content h.1 hunmixed.1 _, fun htext ↦ ?_,
      wellFormed_indentAll rest h.2.2 hunmixed.2 depth⟩
    · rw [← Option.some.inj hnext]
      exact hfirst
    · exact absurd htext (Bool.eq_false_iff.1 hfirst)

end

/-! ### Characters of an indented document -/

theorem mem_trim {s : List Char} {c : Char} (h : c ∈ trim s) : c ∈ s := by
  obtain ⟨w, -, hsplit⟩ := exists_trim_append s
  have hdrop : c ∈ s.dropWhile isWhitespace := by
    rw [hsplit]
    exact List.mem_append_left w h
  exact (List.dropWhile_sublist _).mem hdrop

/-- A character of the text, or one that stands between the elements. -/
def Spaced (s : List Char) (c : Char) : Prop := c ∈ s ∨ c = ' ' ∨ c = '\n'

theorem Spaced.mono {s t : List Char} (h : s ⊆ t) {c : Char} (hc : Spaced s c) : Spaced t c :=
  hc.imp_left fun hmem ↦ h hmem

theorem spaced_blanks {s : List Char} {depth : ℕ} {c : Char} (h : c ∈ blanks depth) :
    Spaced s c := by
  obtain ⟨line, hline, hc⟩ := List.mem_flatten.1 h
  rw [List.eq_of_mem_replicate hline] at hc
  exact Or.inr (Or.inl (by simpa using hc))

theorem escape_lineBreak (depth : ℕ) : escape ('\n' :: blanks depth) = '\n' :: blanks depth := by
  have hplain : ∀ d ∈ '\n' :: blanks depth, entity d = none := by
    intro d hd
    rcases List.mem_cons.1 hd with rfl | hd
    · rfl
    · rcases spaced_blanks (s := []) hd with hd | rfl | rfl
      · exact absurd hd List.not_mem_nil
      · rfl
      · rfl
  exact escape_of_entity hplain

theorem spaced_lineBreak {s : List Char} {depth : ℕ} {c : Char}
    (h : c ∈ escape ('\n' :: blanks depth)) : Spaced s c := by
  rw [escape_lineBreak] at h
  rcases List.mem_cons.1 h with rfl | h
  · exact Or.inr (Or.inr rfl)
  · exact spaced_blanks h

mutual

theorem mem_write_indent : (content : Content) → content.Unmixed → {depth : ℕ} → {c : Char} →
    c ∈ (content.indent depth).write → Spaced content.write c
  | .text _, h, _, _, _ => h.elim
  | .empty _ _, _, _, _, hc => Or.inl hc
  | .element name attrs children, .inl ⟨s, hs⟩, depth, c, hc => by
    subst hs
    rw [indent_leaf] at hc
    rw [Content.write, writeAll_textChildren] at hc
    rw [Content.write]
    rcases List.mem_append.1 hc with hc | hc
    · exact Or.inl (List.mem_append_left _ hc)
    · rcases List.mem_append.1 hc with hc | hc
      · rw [← trim_escape] at hc
        exact Or.inl (by simp [writeAll, Content.write, mem_trim hc])
      · exact Or.inl (by simp [hc])
  | .element name attrs children, .inr h, depth, c, hc => by
    rw [indent_node h, Content.write] at hc
    rw [Content.write]
    rcases List.mem_append.1 hc with hc | hc
    · exact Or.inl (List.mem_append_left _ hc)
    · rcases List.mem_append.1 hc with hc | hc
      · exact (mem_writeAll_indentAll children h hc).mono fun d hd ↦ by simp [hd]
      · exact Or.inl (by simp [hc])

theorem mem_writeAll_indentAll : (contents : List Content) → UnmixedAll contents → {depth : ℕ} →
    {c : Char} → c ∈ writeAll (indentAll depth contents) → Spaced (writeAll contents) c
  | [], _, depth, c, hc => by
    rw [indentAll, writeAll, writeAll, List.append_nil] at hc
    exact spaced_lineBreak hc
  | content :: rest, h, depth, c, hc => by
    rw [indentAll, writeAll, writeAll] at hc
    rw [writeAll]
    rcases List.mem_append.1 hc with hc | hc
    · exact spaced_lineBreak hc
    · rcases List.mem_append.1 hc with hc | hc
      · exact (mem_write_indent content h.1 hc).mono (List.subset_append_left _ _)
      · exact (mem_writeAll_indentAll rest h.2 hc).mono (List.subset_append_right _ _)

end

/-! ### Indented documents -/

/-- The document with every element on a line of its own. -/
def Document.indent (d : Document) : Document where
  before := ['\n']
  name := d.name
  attrs := d.attrs
  children := indentAll 0 d.children
  after := ['\n']

theorem root_indent {d : Document} (h : UnmixedAll d.children) :
    d.indent.root = d.root.indent 0 := (indent_node h 0 d.name d.attrs).symm

theorem Document.WellFormed.indent {d : Document} (h : d.WellFormed)
    (hunmixed : UnmixedAll d.children) : d.indent.WellFormed where
  before := by
    exact List.forall_mem_singleton.2 rfl
  root := by
    rw [root_indent hunmixed]
    exact wellFormed_indent d.root h.root (Or.inr hunmixed) 0
  after := by
    exact List.forall_mem_singleton.2 rfl
  legal := by
    intro c hc
    have hlines : ∀ e ∈ ['\n'], legalChar e = true := List.forall_mem_singleton.2 rfl
    rw [Document.write, root_indent hunmixed] at hc
    rcases List.mem_append.1 hc with hc | hc
    · exact h.legal c (List.mem_append_left _ hc)
    · rcases List.mem_append.1 hc with hc | hc
      · exact hlines c hc
      · rcases List.mem_append.1 hc with hc | hc
        · rcases mem_write_indent d.root (Or.inr hunmixed) hc with hc | rfl | rfl
          · exact h.legal c (by simp [Document.write, hc])
          · rfl
          · rfl
        · exact hlines c hc

end NextApi.Xml
