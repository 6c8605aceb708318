import NextApi.Billing.PriceXmlDocument

/-!
# Indenting a price file

The document that the export writes is well formed and without mixed content (`sound_itemTree`), and
its text is indented as the document is (`prettyXml_write`).
-/

set_option autoImplicit false

namespace NextApi.Transfer

open Json Xml Decimals
open Text (isWhitespace trim)

/-! ### Tokens -/

theorem tok_startTag {name : String} {attrs : List Attribute} (h : NamedTag name attrs) :
    Tok.ofMarkup (.tag (startTag name attrs)) = .opening (startTag name attrs) := by
  obtain ⟨c, more, hname, hc⟩ := exists_name h
  obtain ⟨-, -, -, -, hslash, hquestion⟩ := nameChar_ne hc
  have hdecl : "<?".toList.isPrefixOf (startTag name attrs) = false := by
    rw [startTag, hname]
    simp [List.isPrefixOf, Ne.symm hquestion]
  have hclosing : "</".toList.isPrefixOf (startTag name attrs) = false := by
    rw [startTag, hname]
    simp [List.isPrefixOf, Ne.symm hslash]
  have hempty : "/>".toList.isSuffixOf (startTag name attrs) = false := by
    rw [Bool.eq_false_iff]
    intro hsuffix
    obtain ⟨t, ht⟩ := List.isSuffixOf_iff_suffix.1 hsuffix
    have hend : t ++ ['/'] ++ ['>'] = '<' :: (name.toList ++ writeAttrs attrs) ++ ['>'] := by
      rw [List.append_assoc]
      exact ht
    have hinit : t ++ ['/'] = '<' :: (name.toList ++ writeAttrs attrs) :=
      List.append_cancel_right hend
    refine last_ne h ?_
    have hne : name.toList ++ writeAttrs attrs ≠ [] := by simp [hname]
    rw [← List.getLast?_cons_of_ne_nil hne, ← hinit, List.getLast?_concat]
  rw [Tok.ofMarkup, hdecl, hclosing, hempty]
  rfl

theorem tok_emptyTag {name : String} {attrs : List Attribute} (h : NamedTag name attrs) :
    Tok.ofMarkup (.tag (emptyTag name attrs)) = .empty (emptyTag name attrs) := by
  obtain ⟨c, more, hname, hc⟩ := exists_name h
  obtain ⟨-, -, -, -, hslash, hquestion⟩ := nameChar_ne hc
  have hdecl : "<?".toList.isPrefixOf (emptyTag name attrs) = false := by
    rw [emptyTag, hname]
    simp [List.isPrefixOf, Ne.symm hquestion]
  have hclosing : "</".toList.isPrefixOf (emptyTag name attrs) = false := by
    rw [emptyTag, hname]
    simp [List.isPrefixOf, Ne.symm hslash]
  have hempty : "/>".toList.isSuffixOf (emptyTag name attrs) = true :=
    List.isSuffixOf_iff_suffix.2 ⟨'<' :: (name.toList ++ writeAttrs attrs), rfl⟩
  rw [Tok.ofMarkup, hdecl, hclosing, hempty]
  rfl

theorem tok_endTag (name : String) :
    Tok.ofMarkup (.tag (endTag name)) = .closing (endTag name) := rfl

/-- The tokens of contents. -/
def toks (contents : List Content) : List Tok := (markupAll contents).map Tok.ofMarkup

theorem toks_cons (content : Content) (rest : List Content) :
    toks (content :: rest) = content.markup.map Tok.ofMarkup ++ toks rest := by
  rw [toks, markupAll, List.map_append, ← toks]

/-- No text comes first among elements. -/
theorem not_text_toks {contents : List Content} (h : WellFormedAll contents)
    (hunmixed : UnmixedAll contents) (close : List Char) (rest : List Tok) (t : List Char)
    (more : List Tok) : toks contents ++ .closing close :: rest ≠ .text t :: more := by
  intro heq
  cases contents with
  | nil => exact Tok.noConfusion (List.cons.inj heq).1
  | cons content others =>
    rw [toks_cons] at heq
    cases content with
    | text s => exact hunmixed.1
    | empty name attrs =>
      rw [Content.markup, List.map_singleton, tok_emptyTag h.1] at heq
      exact Tok.noConfusion (List.cons.inj heq).1
    | element name attrs children =>
      rw [Content.markup, List.map_cons, tok_startTag h.1.1] at heq
      exact Tok.noConfusion (List.cons.inj heq).1

/-! ### Lines -/

theorem prettyLines_opening {rest : List Tok}
    (h : ∀ t more, rest ≠ .text t :: more) (depth : ℕ) (raw : List Char) :
    prettyLines depth (.opening raw :: rest) =
      blanks depth ++ raw ++ ['\n'] ++ prettyLines (depth + 1) rest := by
  rw [prettyLines]
  intro t close more heq
  exact h t _ heq

mutual

/-- The lines of an element are the element indented. -/
theorem prettyLines_content : (content : Content) → content.WellFormed → content.Unmixed →
    (depth : ℕ) → (rest : List Tok) →
    prettyLines depth (content.markup.map Tok.ofMarkup ++ rest) =
      blanks depth ++ ((content.indent depth).write ++ '\n' :: prettyLines depth rest)
  | .text _, _, h, _, _ => h.elim
  | .empty name attrs, h, _, depth, rest => by
    rw [Content.markup, List.map_singleton, tok_emptyTag h, List.singleton_append, prettyLines,
      Content.indent, Content.write]
    simp
  | .element name attrs children, h, .inl ⟨s, hs⟩, depth, rest => by
    subst hs
    have htoks : (Content.element name attrs [.text s]).markup.map Tok.ofMarkup ++ rest =
        .opening (startTag name attrs) :: .text (escape s) :: .closing (endTag name) :: rest := by
      rw [Content.markup, List.map_cons, tok_startTag h.1]
      rfl
    rw [htoks, prettyLines, indent_leaf, Content.write, writeAll_textChildren, trim_escape]
    simp
  | .element name attrs children, h, .inr hunmixed, depth, rest => by
    have hinside : '\n' :: prettyLines (depth + 1)
        (toks children ++ .closing (endTag name) :: rest) =
        writeAll (indentAll depth children) ++ (endTag name ++ '\n' :: prettyLines depth rest) :=
      prettyLines_contents children h.2 hunmixed depth (endTag name) rest
    have htoks : (Content.element name attrs children).markup.map Tok.ofMarkup ++ rest =
        .opening (startTag name attrs) ::
          (toks children ++ .closing (endTag name) :: rest) := by
      rw [Content.markup, List.map_cons, List.map_append, tok_startTag h.1, ← toks,
        List.map_singleton, tok_endTag, List.cons_append, List.append_assoc,
        List.singleton_append]
    rw [htoks, prettyLines_opening (not_text_toks h.2 hunmixed _ _), indent_node hunmixed,
      Content.write, List.append_assoc, List.append_assoc, List.singleton_append, hinside,
      List.append_assoc, List.append_assoc]

theorem prettyLines_contents : (contents : List Content) → WellFormedAll contents →
    UnmixedAll contents → (depth : ℕ) → (close : List Char) → (rest : List Tok) →
    '\n' :: prettyLines (depth + 1) (toks contents ++ .closing close :: rest) =
      writeAll (indentAll depth contents) ++ (close ++ '\n' :: prettyLines depth rest)
  | [], _, _, depth, close, rest => by
    have htoks : toks [] ++ .closing close :: rest = .closing close :: rest := rfl
    rw [htoks, prettyLines, indentAll, writeAll_singleton, Content.write, escape_lineBreak,
      Nat.add_sub_cancel]
    simp
  | content :: more, h, hunmixed, depth, close, rest => by
    have hfirst := prettyLines_content content h.1 hunmixed.1 (depth + 1)
      (toks more ++ .closing close :: rest)
    have hmore := prettyLines_contents more h.2.2 hunmixed.2 depth close rest
    rw [toks_cons, List.append_assoc, hfirst, hmore, indentAll, writeAll, writeAll, Content.write,
      escape_lineBreak]
    simp

end

theorem trim_white {s : List Char} (h : ∀ c ∈ s, white c = true) : trim s = [] := by
  have hspace : ∀ c ∈ s, isWhitespace c = true := by
    intro c hc
    have hwhite := h c hc
    simp only [white, Bool.or_eq_true, beq_iff_eq] at hwhite
    rcases hwhite with ((rfl | rfl) | rfl) | rfl <;> decide
  rw [trim, List.dropWhile_eq_nil_iff.2 hspace]
  rfl

/-- White space between the elements is dropped. -/
theorem prettyLines_white {s : List Char} (h : ∀ c ∈ s, white c = true) (depth : ℕ)
    (rest : List Tok) : prettyLines depth ((markupWhite s).map Tok.ofMarkup ++ rest) =
      prettyLines depth rest := by
  unfold markupWhite
  split
  · rfl
  · rw [List.map_singleton, Tok.ofMarkup, List.singleton_append, prettyLines, trim_white h,
      if_pos rfl, List.nil_append]

/-- The text of a document is indented as the document is. -/
theorem prettyXml_write {d : Document} (h : d.WellFormed) (hunmixed : UnmixedAll d.children) :
    prettyXml d.write = d.indent.write := by
  have hdecl : Tok.ofMarkup (.tag declaration) = .decl declaration := by rfl
  have hafter : prettyLines 0 ((markupWhite d.after).map Tok.ofMarkup) = [] := by
    have hwhite := prettyLines_white h.after 0 []
    rw [List.append_nil] at hwhite
    rw [hwhite, prettyLines]
  have hroot : prettyLines 0 (d.root.markup.map Tok.ofMarkup ++
      (markupWhite d.after).map Tok.ofMarkup) = (d.root.indent 0).write ++ ['\n'] := by
    rw [prettyLines_content d.root h.root (Or.inr hunmixed), hafter]
    rfl
  rw [prettyXml, split_write h, Document.markup, List.map_cons, List.map_append, List.map_append,
    hdecl, prettyLines, prettyLines_white h.before, hroot, Document.write, root_indent hunmixed,
    blanks, List.replicate_zero, List.flatten_nil, List.nil_append, List.append_assoc]
  rfl

/-! ### The elements of a file -/

/-- An element that is well formed and has no mixed content. -/
def Sound (content : Content) : Prop := content.WellFormed ∧ content.Unmixed

def elementNames : List String :=
  ["prices", "price", "model_id", "upstream", "currency", "input_per_m", "output_per_m",
    "cache_read_per_m", "cache_write_per_m", "segments", "segment", "name", "weekdays", "day",
    "windows", "window", "min_prompt_tokens", "max_prompt_tokens", "image", "video", "item",
    "dimension_key", "dimensions", "dimension"]

theorem named {tag : String} (h : tag ∈ elementNames) {attrs : List Attribute}
    (hattrs : attrs.map Prod.fst ∈ [[], ["name"], ["start", "end"], ["schema"]]) :
    NamedTag tag attrs := by
  have hnames : ∀ tag ∈ elementNames, tag.toList ≠ [] ∧ tag.toList.all nameChar = true := by
    decide +kernel
  have hkeys : ∀ keys ∈ [[], ["name"], ["start", "end"], ["schema"]], keys.Nodup ∧
      ∀ key ∈ keys, key.toList ≠ [] ∧ key.toList.all nameChar = true := by decide +kernel
  obtain ⟨hne, hchars⟩ := hnames tag h
  obtain ⟨hnodup, hkey⟩ := hkeys _ hattrs
  have hattr : ∀ attr ∈ attrs, attr.1.toList ≠ [] ∧ attr.1.toList.all nameChar = true :=
    fun attr hmem ↦ hkey attr.1 (List.mem_map_of_mem hmem)
  exact ⟨hne, List.all_eq_true.1 hchars, fun attr hmem ↦ (hattr attr hmem).1,
    fun attr hmem ↦ List.all_eq_true.1 (hattr attr hmem).2, hnodup⟩

theorem isText_of_unmixed {content : Content} (h : content.Unmixed) :
    content.isText = false := by
  cases content with
  | text s => exact h.elim
  | empty name attrs => rfl
  | element name attrs children => rfl

theorem wellFormedAll_of_sound {contents : List Content} (h : ∀ content ∈ contents, Sound content) :
    WellFormedAll contents ∧ UnmixedAll contents := by
  induction contents with
  | nil => exact ⟨trivial, trivial⟩
  | cons content rest ih =>
    rw [List.forall_mem_cons] at h
    obtain ⟨hwell, hunmixed⟩ := ih h.2
    refine ⟨⟨h.1.1, fun htext ↦ ?_, hwell⟩, h.1.2, hunmixed⟩
    exact absurd htext (Bool.eq_false_iff.1 (isText_of_unmixed h.1.2))

theorem sound_text {name : String} {attrs : List Attribute} (h : NamedTag name attrs)
    (s : List Char) :
    Sound (.element name attrs (textChildren s)) := by
  unfold textChildren
  split
  · exact ⟨⟨h, trivial⟩, Or.inr trivial⟩
  · rename_i hs
    exact ⟨⟨h, hs, by simp, trivial⟩, Or.inl ⟨s, rfl⟩⟩

theorem sound_leaf {name : String} (h : name ∈ elementNames) (s : List Char) :
    Sound (leaf name s) := sound_text (named h (by simp)) s

theorem sound_node {name : String} (h : name ∈ elementNames) {children : List Content}
    (hchildren : ∀ content ∈ children, Sound content) : Sound (node name children) := by
  obtain ⟨hwell, hunmixed⟩ := wellFormedAll_of_sound hchildren
  exact ⟨⟨named h (by simp), hwell⟩, Or.inr hunmixed⟩

theorem sound_map {α : Type} {f : α → Content} (h : ∀ x, Sound (f x)) (xs : List α) :
    ∀ content ∈ xs.map f, Sound content := by
  intro content hcontent
  obtain ⟨x, -, rfl⟩ := List.mem_map.1 hcontent
  exact h x

theorem sound_option {α : Type} {f : α → Content} (h : ∀ x, Sound (f x)) (o : Option α) :
    ∀ content ∈ (o.map f).toList, Sound content := by
  intro content hcontent
  rw [Option.mem_toList, Option.map_eq_some_iff] at hcontent
  obtain ⟨x, -, rfl⟩ := hcontent
  exact h x

section Sound

variable {D : Type} [Decimals D]

theorem sound_segmentTree (seg : Segment D) : Sound (segmentTree seg) := by
  refine sound_node (by decide) ?_
  have hdays : ∀ days : List String,
      Sound (node "weekdays" (days.map fun d ↦ leaf "day" d.toList)) := fun days ↦
    sound_node (by decide) (sound_map (fun d ↦ sound_leaf (by decide) _) days)
  have hwindow : ∀ w, Sound (windowTree w) := fun w ↦ ⟨named (by decide) (by simp), trivial⟩
  have hwindows : ∀ windows : List (String × String),
      Sound (node "windows" (windows.map windowTree)) := fun windows ↦
    sound_node (by decide) (sound_map hwindow windows)
  simp only [segmentChildren, List.forall_mem_append, List.forall_mem_singleton]
  exact ⟨⟨⟨⟨⟨sound_option (fun _ ↦ sound_leaf (by decide) _) _, sound_leaf (by decide) _⟩,
    sound_option hdays _⟩, sound_option hwindows _⟩,
    sound_option (fun _ ↦ sound_leaf (by decide) _) _⟩,
    sound_option (fun _ ↦ sound_leaf (by decide) _) _⟩

theorem sound_segmentsTree (segArr : Value) :
    ∀ content ∈ segmentsTree D segArr, Sound content := by
  unfold segmentsTree
  dsimp only
  split
  · exact fun _ h ↦ absurd h List.not_mem_nil
  · rw [List.forall_mem_singleton]
    exact sound_node (by decide) (sound_map sound_segmentTree _)

theorem sound_tokenColTree {tag : String} (h : tag ∈ elementNames) (unit : String)
    (price : Option D) (segments : Option Value) :
    ∀ content ∈ tokenColTree tag unit price segments, Sound content := by
  unfold tokenColTree
  cases price with
  | none => exact fun _ h ↦ absurd h List.not_mem_nil
  | some p =>
    have hsegs : ∀ content ∈ ((unitSegments segments unit).map (segmentsTree D)).getD [],
        Sound content := by
      cases unitSegments segments unit with
      | none => exact fun _ h ↦ absurd h List.not_mem_nil
      | some segArr => exact sound_segmentsTree segArr
    dsimp only
    split
    · rw [List.forall_mem_singleton]
      exact sound_leaf h _
    · rw [List.forall_mem_singleton]
      exact sound_node h (List.forall_mem_cons.2 ⟨sound_leaf (by decide) _, hsegs⟩)

variable [SerdeJson]

theorem sound_dimensionsTree (dims : Value) : ∀ content ∈ dimensionsTree dims, Sound content := by
  have hdimension : ∀ member, Sound (dimensionTree member) := fun member ↦
    sound_text (named (by decide) (by simp)) _
  unfold dimensionsTree
  dsimp only
  split
  · exact fun _ h ↦ absurd h List.not_mem_nil
  · rw [List.forall_mem_singleton]
    exact sound_node (by decide) (sound_map hdimension _)

theorem sound_mediaItemTree (item : Value) : Sound (mediaItemTree D item) := by
  refine sound_node (by decide) ?_
  have hdims : ∀ content ∈ ((item.get? "dimensions").map dimensionsTree).getD [],
      Sound content := by
    cases item.get? "dimensions" with
    | none => exact fun _ h ↦ absurd h List.not_mem_nil
    | some dims => exact sound_dimensionsTree dims
  have hsegs : ∀ content ∈ ((item.get? "segments").map (segmentsTree D)).getD [],
      Sound content := by
    cases item.get? "segments" with
    | none => exact fun _ h ↦ absurd h List.not_mem_nil
    | some segs => exact sound_segmentsTree segs
  simp only [mediaItemChildren, List.forall_mem_append]
  exact ⟨⟨⟨sound_option (fun _ ↦ sound_leaf (by decide) _) _,
    sound_option (fun _ ↦ sound_leaf (by decide) _) _⟩, hdims⟩, hsegs⟩

theorem sound_mediaTree {tag : String} (h : tag ∈ elementNames) (rules : Option Value) :
    ∀ content ∈ mediaTree D tag rules, Sound content := by
  unfold mediaTree
  dsimp only
  split
  · exact fun _ h ↦ absurd h List.not_mem_nil
  · rw [List.forall_mem_singleton]
    exact sound_node h (sound_map sound_mediaItemTree _)

theorem sound_itemTree (item : PriceExportItem D) : Sound (itemTree item) := by
  have htags : ∀ col ∈ tokenCols, col.1 ∈ elementNames := by decide
  refine sound_node (by decide) ?_
  simp only [itemChildren, List.forall_mem_append, List.forall_mem_cons, List.forall_mem_flatMap]
  refine ⟨⟨⟨⟨sound_leaf (by decide) _, sound_leaf (by decide) _, sound_leaf (by decide) _,
    fun _ h ↦ absurd h List.not_mem_nil⟩, ?_⟩, sound_mediaTree (by decide) _⟩,
    sound_mediaTree (by decide) _⟩
  intro col hcol
  exact sound_tokenColTree (htags col hcol) _ _ _

/-- The document of items is well formed when its characters may stand in a document. -/
theorem wellFormed_document {items : List (PriceExportItem D)}
    (h : ∀ c ∈ (document items).write, legalChar c = true) :
    (document items).WellFormed ∧ UnmixedAll (document items).children := by
  obtain ⟨hwell, hunmixed⟩ := wellFormedAll_of_sound (sound_map sound_itemTree items)
  have hbefore : ∀ c ∈ ['\n'], white c = true := List.forall_mem_singleton.2 rfl
  have hroot : NamedTag "prices" [("schema", "nextapi-prices/v1".toList)] :=
    named (by decide) (by simp)
  exact ⟨⟨hbefore, ⟨hroot, hwell⟩,
    fun _ hc ↦ absurd hc List.not_mem_nil, h⟩, hunmixed⟩

end Sound

end NextApi.Transfer
