import Mathlib.Data.List.TakeWhile
import NextApi.Upstream.Devin.Request

/-!
# Placeholders in the system information

A placeholder is a known name between braces. `substitute` is what rendering a template is for: from
left to right, every placeholder is replaced by the value of its name, and all other characters stay
as they are. `renderVars` pairs an opening brace with the next closing one and goes on after that,
also when the text between them is not a known name; a placeholder that begins between them is then
lost.

The two agree for all values if and only if no placeholder is lost (`replaces_iff`).
-/

set_option autoImplicit false

namespace NextApi.Devin

/-! ### Placeholders -/

/-- The name that is meant by a text between braces. -/
def nameOf (text : List Char) : String := Ir.toAsciiLowercase (String.ofList (Text.trim text))

def Known (names : List String) (text : List Char) : Prop := nameOf text ∈ names

instance (names : List String) (text : List Char) : Decidable (Known names text) :=
  inferInstanceAs (Decidable (_ ∈ names))

def valueOf (vars : List (String × String)) (text : List Char) : Option (List Char) :=
  (vars.find? fun var ↦ decide (var.1 = nameOf text)).map fun var ↦ var.2.toList

/-- The value of the placeholder that a text begins with, and the text after it. -/
def placeholder (vars : List (String × String)) : List Char → Option (List Char × List Char)
  | [] => none
  | opening :: after =>
    if opening = '\x7b' then
      match after.dropWhile fun ch ↦ ch != '\x7d' with
      | [] => none
      | _ :: rest => (valueOf vars (after.takeWhile fun ch ↦ ch != '\x7d')).map fun v ↦ (v, rest)
    else none

theorem placeholder_shorter {vars : List (String × String)} {text v rest : List Char}
    (h : placeholder vars text = some (v, rest)) : rest.length < text.length := by
  cases text with
  | nil => exact nomatch h
  | cons opening after =>
    rw [placeholder] at h
    split at h
    · have hafter := (List.dropWhile_sublist (l := after) fun ch ↦ ch != '\x7d').length_le
      split at h
      · exact nomatch h
      · rename_i hclosing
        obtain ⟨w, -, hw⟩ := Option.map_eq_some_iff.1 h
        rw [hclosing, List.length_cons] at hafter
        rw [← (Prod.mk.inj hw).2, List.length_cons]
        omega
    · exact nomatch h

/-- Replaces every placeholder by its value. -/
def substitute (vars : List (String × String)) (template : List Char) : List Char :=
  match template with
  | [] => []
  | c :: rest =>
    match _h : placeholder vars (c :: rest) with
    | some (v, after) => v ++ substitute vars after
    | none => c :: substitute vars rest
termination_by template.length
decreasing_by
  · exact placeholder_shorter _h
  · exact Nat.lt_succ_self _

/-! ### Texts with braces -/

section Braces

variable {name : List Char} (hname : '\x7d' ∉ name) (rest : List Char)

include hname

theorem takeWhile_name : (name ++ '\x7d' :: rest).takeWhile (fun ch ↦ ch != '\x7d') = name := by
  rw [List.takeWhile_append_of_pos, List.takeWhile_cons_of_neg, List.append_nil]
  · simp
  · intro c hc
    exact bne_iff_ne.2 fun heq ↦ hname (heq ▸ hc)

theorem dropWhile_name :
    (name ++ '\x7d' :: rest).dropWhile (fun ch ↦ ch != '\x7d') = '\x7d' :: rest := by
  rw [List.dropWhile_append_of_pos, List.dropWhile_cons_of_neg]
  · simp
  · intro c hc
    exact bne_iff_ne.2 fun heq ↦ hname (heq ▸ hc)

omit rest in
theorem dropWhile_open : name.dropWhile (fun ch ↦ ch != '\x7d') = [] :=
  
  List.dropWhile_eq_nil_iff.2 fun _ hc ↦ bne_iff_ne.2 fun heq ↦ hname (heq ▸ hc)

end Braces

/-- A text goes on after a character, after an opening brace that is not closed, or after a pair of
braces. -/
theorem braces_induction {P : List Char → Prop} (nil : P [])
    (cons : ∀ c rest, c ≠ '\x7b' → P rest → P (c :: rest))
    (unclosed : ∀ after, '\x7d' ∉ after → P ('\x7b' :: after))
    (pair : ∀ name rest, '\x7d' ∉ name → P rest → P ('\x7b' :: (name ++ '\x7d' :: rest))) :
    (text : List Char) → P text
  | [] => nil
  | c :: after => by
    by_cases hc : c = '\x7b'
    · rw [hc]
      by_cases hclosed : '\x7d' ∈ after
      · obtain ⟨name, rest, hafter, hname⟩ := List.eq_append_cons_of_mem hclosed
        rw [hafter]
        exact pair name rest hname (braces_induction nil cons unclosed pair rest)
      · exact unclosed after hclosed
    · exact cons c after hc (braces_induction nil cons unclosed pair after)
termination_by text => text.length
decreasing_by
  · rw [hafter, List.length_cons, List.length_append, List.length_cons]
    omega
  · exact Nat.lt_succ_self _

variable {vars : List (String × String)}

/-! ### Steps of the two -/

section Step

variable {template after rest : List Char} {opening closing : Char}

theorem renderVars_of_nil (h : template.dropWhile (fun ch ↦ ch != '\x7b') = []) :
    renderVars vars template = template := by
  rw [renderVars]
  split
  · rfl
  · rename_i hopening
    rw [h] at hopening
    cases hopening

theorem renderVars_of_open (h : template.dropWhile (fun ch ↦ ch != '\x7b') = opening :: after)
    (hafter : after.dropWhile (fun ch ↦ ch != '\x7d') = []) :
    renderVars vars template = template := by
  rw [renderVars]
  split
  · rfl
  · rename_i hopening
    rw [h] at hopening
    obtain ⟨-, rfl⟩ := List.cons.inj hopening
    split
    · rfl
    · rename_i hclosing
      rw [hafter] at hclosing
      cases hclosing

theorem renderVars_of_closed (h : template.dropWhile (fun ch ↦ ch != '\x7b') = opening :: after)
    (hafter : after.dropWhile (fun ch ↦ ch != '\x7d') = closing :: rest) :
    renderVars vars template = template.takeWhile (fun ch ↦ ch != '\x7b') ++
      (valueOf vars (after.takeWhile fun ch ↦ ch != '\x7d')).getD
        (opening :: after.takeWhile (fun ch ↦ ch != '\x7d') ++ [closing]) ++
      renderVars vars rest := by
  conv_lhs => rw [renderVars]
  split
  · rename_i hopening
    rw [h] at hopening
    cases hopening
  · rename_i hopening
    rw [h] at hopening
    obtain ⟨rfl, rfl⟩ := List.cons.inj hopening
    split
    · rename_i hclosing
      rw [hafter] at hclosing
      cases hclosing
    · rename_i hclosing
      rw [hafter] at hclosing
      obtain ⟨rfl, rfl⟩ := List.cons.inj hclosing
      dsimp only
      rw [valueOf, nameOf]
      cases vars.find? _ with
      | none => rfl
      | some var => rfl

end Step

theorem renderVars_nil : renderVars vars [] = [] := renderVars_of_nil rfl

theorem renderVars_unclosed {after : List Char} (h : '\x7d' ∉ after) :
    renderVars vars ('\x7b' :: after) = '\x7b' :: after :=
  renderVars_of_open (List.dropWhile_cons_of_neg (by simp)) (dropWhile_open h)

theorem renderVars_pair {name : List Char} (hname : '\x7d' ∉ name) (rest : List Char) :
    renderVars vars ('\x7b' :: (name ++ '\x7d' :: rest)) =
      (valueOf vars name).getD ('\x7b' :: name ++ ['\x7d']) ++ renderVars vars rest := by
  rw [renderVars_of_closed (List.dropWhile_cons_of_neg (by simp)) (dropWhile_name hname rest),
    takeWhile_name hname, List.takeWhile_cons_of_neg (by simp), List.nil_append]

theorem renderVars_cons {c : Char} (hc : c ≠ '\x7b') (rest : List Char) :
    renderVars vars (c :: rest) = c :: renderVars vars rest := by
  have hopen : (fun ch ↦ ch != '\x7b') c = true := bne_iff_ne.2 hc
  have hdrop : (c :: rest).dropWhile (fun ch ↦ ch != '\x7b') =
      rest.dropWhile fun ch ↦ ch != '\x7b' := List.dropWhile_cons_of_pos hopen
  have htake : (c :: rest).takeWhile (fun ch ↦ ch != '\x7b') =
      c :: rest.takeWhile fun ch ↦ ch != '\x7b' := List.takeWhile_cons_of_pos hopen
  cases hopening : rest.dropWhile fun ch ↦ ch != '\x7b' with
  | nil => rw [renderVars_of_nil (hdrop.trans hopening), renderVars_of_nil hopening]
  | cons opening after =>
    cases hclosing : after.dropWhile fun ch ↦ ch != '\x7d' with
    | nil =>
      rw [renderVars_of_open (hdrop.trans hopening) hclosing,
        renderVars_of_open hopening hclosing]
    | cons closing rest' =>
      rw [renderVars_of_closed (hdrop.trans hopening) hclosing, htake,
        renderVars_of_closed hopening hclosing]
      rfl

theorem substitute_nil : substitute vars [] = [] := by rw [substitute]

theorem substitute_of_placeholder {template v after : List Char}
    (h : placeholder vars template = some (v, after)) :
    substitute vars template = v ++ substitute vars after := by
  cases template with
  | nil => exact nomatch h
  | cons c rest =>
    rw [substitute]
    split
    · rename_i h'
      rw [h] at h'
      obtain ⟨rfl, rfl⟩ := Prod.mk.inj (Option.some.inj h')
      rfl
    · rename_i h'
      rw [h] at h'
      exact nomatch h'

theorem substitute_of_none {c : Char} {rest : List Char}
    (h : placeholder vars (c :: rest) = none) :
    substitute vars (c :: rest) = c :: substitute vars rest := by
  rw [substitute]
  split
  · rename_i h'
    rw [h] at h'
    exact nomatch h'
  · rfl

theorem placeholder_pair {name : List Char} (hname : '\x7d' ∉ name) (rest : List Char) :
    placeholder vars ('\x7b' :: (name ++ '\x7d' :: rest)) =
      (valueOf vars name).map fun v ↦ (v, rest) := by
  rw [placeholder, if_pos rfl, dropWhile_name hname, takeWhile_name hname]

theorem placeholder_unclosed {after : List Char} (h : '\x7d' ∉ after) :
    placeholder vars ('\x7b' :: after) = none := by
  rw [placeholder, if_pos rfl, dropWhile_open h]

theorem substitute_cons {c : Char} (hc : c ≠ '\x7b') (rest : List Char) :
    substitute vars (c :: rest) = c :: substitute vars rest :=
  substitute_of_none (if_neg hc)

/-- Nothing is replaced where no brace is closed. -/
theorem substitute_unclosed {text : List Char} (h : '\x7d' ∉ text) :
    substitute vars text = text := by
  induction text with
  | nil => exact substitute_nil
  | cons c rest ih =>
    have hrest : '\x7d' ∉ rest := fun hmem ↦ h (List.mem_cons_of_mem c hmem)
    by_cases hc : c = '\x7b'
    · rw [hc, substitute_of_none (placeholder_unclosed hrest), ih hrest]
    · rw [substitute_cons hc, ih hrest]

/-! ### Lost placeholders -/

/-- A text before a closing brace has a known name after one of its opening braces. -/
def Hides (names : List String) (name : List Char) : Prop :=
  ∃ outer inner, name = outer ++ '\x7b' :: inner ∧ Known names inner

/-- Every opening brace of a text has a closing one after it. -/
def Settled (text : List Char) : Prop := ∀ x y, text = x ++ '\x7b' :: y → '\x7d' ∈ y

/-- No placeholder begins between the braces of a name that is not known. -/
def NoneLost (names : List String) (template : List Char) : Prop :=
  ∀ before name after, template = before ++ '\x7b' :: (name ++ '\x7d' :: after) →
    Settled before → '\x7d' ∉ name → Hides names name → Known names name

theorem pair_inj {x y s t : List Char} (hx : '\x7d' ∉ x) (hy : '\x7d' ∉ y)
    (h : x ++ '\x7d' :: s = y ++ '\x7d' :: t) : x = y ∧ s = t := by
  have hxy : x = y := by rw [← takeWhile_name hx s, h, takeWhile_name hy t]
  subst hxy
  exact ⟨rfl, (List.cons.inj (List.append_cancel_left h)).2⟩

theorem settled_nil : Settled [] := fun x y h ↦ absurd h (by simp)

theorem settled_cons {c : Char} (hc : c ≠ '\x7b') {text : List Char} :
    Settled (c :: text) ↔ Settled text := by
  constructor
  · intro h x y htext
    exact h (c :: x) y (by rw [htext, List.cons_append])
  · intro h x y htext
    cases x with
    | nil => exact absurd (List.cons.inj htext).1 hc
    | cons d x => exact h x y (List.cons.inj htext).2

theorem settled_pair (name : List Char) {text : List Char} :
    Settled ('\x7b' :: (name ++ '\x7d' :: text)) ↔ Settled text := by
  constructor
  · intro h x y htext
    exact h ('\x7b' :: (name ++ '\x7d' :: x)) y (by rw [htext]; simp)
  · intro h x y htext
    cases x with
    | nil =>
      rw [← (List.cons.inj htext).2]
      simp
    | cons d x =>
      rcases List.append_eq_append_iff.1 (List.cons.inj htext).2 with ⟨a, -, ha⟩ | ⟨a, -, ha⟩
      · cases a with
        | nil => exact absurd (List.cons.inj ha).1 (by decide)
        | cons e a => exact h a y (List.cons.inj ha).2
      · cases a with
        | nil => exact absurd (List.cons.inj ha).1 (by decide)
        | cons e a =>
          rw [(List.cons.inj ha).2]
          simp

variable {names : List String}

theorem hides_cons {c : Char} {name : List Char} :
    Hides names (c :: name) ↔ (c = '\x7b' ∧ Known names name) ∨ Hides names name := by
  constructor
  · intro ⟨outer, inner, hname, hknown⟩
    cases outer with
    | nil =>
      obtain ⟨rfl, rfl⟩ := List.cons.inj hname
      exact .inl ⟨rfl, hknown⟩
    | cons d outer => exact .inr ⟨outer, inner, (List.cons.inj hname).2, hknown⟩
  · rintro (⟨rfl, hknown⟩ | ⟨outer, inner, rfl, hknown⟩)
    · exact ⟨[], name, rfl, hknown⟩
    · exact ⟨c :: outer, inner, rfl, hknown⟩

theorem noneLost_nil : NoneLost names [] := fun before name after h ↦ absurd h (by simp)

theorem noneLost_unclosed {after : List Char} (h : '\x7d' ∉ after) :
    NoneLost names ('\x7b' :: after) := by
  intro before name rest htemplate
  refine absurd ?_ h
  have hmem : '\x7d' ∈ '\x7b' :: after := by
    rw [htemplate]
    simp
  exact (List.mem_cons.1 hmem).resolve_left (by decide)

theorem noneLost_cons {c : Char} (hc : c ≠ '\x7b') {rest : List Char} :
    NoneLost names (c :: rest) ↔ NoneLost names rest := by
  constructor
  · intro h before name after hrest hsettled
    exact h (c :: before) name after (by rw [hrest, List.cons_append])
      ((settled_cons hc).2 hsettled)
  · intro h before name after hrest hsettled
    cases before with
    | nil => exact absurd (List.cons.inj hrest).1 hc
    | cons d before =>
      obtain ⟨rfl, htail⟩ := List.cons.inj hrest
      exact h before name after htail ((settled_cons hc).1 hsettled)

theorem noneLost_pair {name : List Char} (hname : '\x7d' ∉ name) {rest : List Char} :
    NoneLost names ('\x7b' :: (name ++ '\x7d' :: rest)) ↔
      (Hides names name → Known names name) ∧ NoneLost names rest := by
  constructor
  · intro h
    refine ⟨h [] name rest rfl settled_nil hname, fun before name' after hrest hsettled ↦ ?_⟩
    exact h ('\x7b' :: (name ++ '\x7d' :: before)) name' after (by rw [hrest]; simp)
      ((settled_pair name).2 hsettled)
  · intro ⟨hfirst, hothers⟩ before name' after htemplate hsettled hname'
    cases before with
    | nil =>
      obtain ⟨rfl, -⟩ := pair_inj hname hname' (List.cons.inj htemplate).2
      exact hfirst
    | cons d before =>
      obtain ⟨rfl, htail⟩ := List.cons.inj htemplate
      obtain ⟨y, before', rfl, hy⟩ := List.eq_append_cons_of_mem (hsettled [] before rfl)
      rw [List.append_eq, List.append_assoc, List.cons_append] at htail
      obtain ⟨rfl, hrest⟩ := pair_inj hname hy htail
      exact hothers before' name' after hrest ((settled_pair name).1 hsettled) hname'

/-! ### Agreement -/

theorem valueOf_eq_none_iff {text : List Char} :
    valueOf vars text = none ↔ ¬ Known (vars.map Prod.fst) text := by
  rw [valueOf, Option.map_eq_none_iff, List.find?_eq_none, Known, List.mem_map]
  constructor
  · rintro h ⟨var, hvar, hname⟩
    exact h var hvar (decide_eq_true hname)
  · intro h var hvar hname
    exact h ⟨var, hvar, of_decide_eq_true hname⟩

theorem substitute_name {name : List Char} (hname : '\x7d' ∉ name) (rest : List Char)
    (h : ¬ Hides (vars.map Prod.fst) name) :
    substitute vars (name ++ '\x7d' :: rest) = name ++ '\x7d' :: substitute vars rest := by
  induction name with
  | nil => exact substitute_cons (by decide) rest
  | cons c name ih =>
    rw [hides_cons, not_or] at h
    have hrest : '\x7d' ∉ name := fun hmem ↦ hname (List.mem_cons_of_mem c hmem)
    rw [List.cons_append, List.cons_append, ← ih hrest h.2]
    by_cases hc : c = '\x7b'
    · subst hc
      refine substitute_of_none ?_
      rw [placeholder_pair hrest, valueOf_eq_none_iff.2 fun hknown ↦ h.1 ⟨rfl, hknown⟩,
        Option.map_none]
    · exact substitute_cons hc _

theorem renderVars_eq_substitute {template : List Char}
    (h : NoneLost (vars.map Prod.fst) template) :
    renderVars vars template = substitute vars template := by
  induction template using braces_induction with
  | nil => rw [renderVars_nil, substitute_nil]
  | cons c rest hc ih =>
    rw [renderVars_cons hc, substitute_cons hc, ih ((noneLost_cons hc).1 h)]
  | unclosed after hafter =>
    rw [renderVars_unclosed hafter, substitute_of_none (placeholder_unclosed hafter),
      substitute_unclosed hafter]
  | pair name rest hname ih =>
    obtain ⟨hfirst, hrest⟩ := (noneLost_pair hname).1 h
    rw [renderVars_pair hname, ih hrest]
    cases hvalue : valueOf vars name with
    | none =>
      have hnot := valueOf_eq_none_iff.1 hvalue
      rw [substitute_of_none (by rw [placeholder_pair hname, hvalue, Option.map_none]),
        substitute_name hname rest fun hhides ↦ hnot (hfirst hhides)]
      simp
    | some v =>
      have hplaceholder :
          placeholder vars ('\x7b' :: (name ++ '\x7d' :: rest)) = some (v, rest) := by
        rw [placeholder_pair hname, hvalue, Option.map_some]
      rw [substitute_of_placeholder hplaceholder, Option.getD_some]

/-! ### Empty values -/

/-- All names with nothing as their value. -/
def emptyVars (names : List String) : List (String × String) := names.map fun name ↦ (name, "")

theorem map_fst_emptyVars (names : List String) : (emptyVars names).map Prod.fst = names := by
  rw [emptyVars, List.map_map]
  exact List.map_id names

theorem valueOf_emptyVars {text : List Char} (h : Known names text) :
    valueOf (emptyVars names) text = some [] := by
  cases hvalue : valueOf (emptyVars names) text with
  | none => exact absurd h (map_fst_emptyVars names ▸ valueOf_eq_none_iff.1 hvalue)
  | some v =>
    obtain ⟨var, hvar, rfl⟩ := Option.map_eq_some_iff.1 hvalue
    obtain ⟨name, -, rfl⟩ := List.mem_map.1 (List.mem_of_find?_eq_some hvar)
    rfl

theorem valueOf_emptyVars_of_not {text : List Char} (h : ¬ Known names text) :
    valueOf (emptyVars names) text = none :=
  valueOf_eq_none_iff.2 (by rwa [map_fst_emptyVars])

/-- A placeholder that begins between braces leaves nothing behind. -/
theorem length_substitute_name {name : List Char} (hname : '\x7d' ∉ name) (rest : List Char) :
    (substitute (emptyVars names) (name ++ '\x7d' :: rest)).length ≤
        name.length + 1 + (substitute (emptyVars names) rest).length ∧
      (Hides names name → (substitute (emptyVars names) (name ++ '\x7d' :: rest)).length <
        name.length + 1 + (substitute (emptyVars names) rest).length) := by
  induction name with
  | nil =>
    rw [List.nil_append, substitute_cons (by decide), List.length_cons, List.length_nil]
    refine ⟨by omega, fun ⟨outer, inner, h, _⟩ ↦ absurd h (by simp)⟩
  | cons c name ih =>
    have hrest : '\x7d' ∉ name := fun hmem ↦ hname (List.mem_cons_of_mem c hmem)
    obtain ⟨hle, hlt⟩ := ih hrest
    rw [List.cons_append, hides_cons, List.length_cons]
    by_cases hopening : c = '\x7b' ∧ Known names name
    · obtain ⟨rfl, hknown⟩ := hopening
      have hplaceholder : placeholder (emptyVars names) ('\x7b' :: (name ++ '\x7d' :: rest)) =
          some ([], rest) := by
        rw [placeholder_pair hrest, valueOf_emptyVars hknown, Option.map_some]
      rw [substitute_of_placeholder hplaceholder, List.nil_append]
      exact ⟨by omega, fun _ ↦ by omega⟩
    · have hcopied : substitute (emptyVars names) (c :: (name ++ '\x7d' :: rest)) =
          c :: substitute (emptyVars names) (name ++ '\x7d' :: rest) := by
        by_cases hc : c = '\x7b'
        · subst hc
          refine substitute_of_none ?_
          rw [placeholder_pair hrest,
            valueOf_emptyVars_of_not fun hknown ↦ hopening ⟨rfl, hknown⟩, Option.map_none]
        · exact substitute_cons hc _
      rw [hcopied, List.length_cons, or_iff_right hopening]
      exact ⟨by omega, fun hhides ↦ by have := hlt hhides; omega⟩

/-- With empty values a lost placeholder makes the text longer. -/
theorem length_substitute_le (names : List String) (template : List Char) :
    (substitute (emptyVars names) template).length ≤
        (renderVars (emptyVars names) template).length ∧
      ((substitute (emptyVars names) template).length =
        (renderVars (emptyVars names) template).length → NoneLost names template) := by
  induction template using braces_induction with
  | nil =>
    rw [renderVars_nil, substitute_nil]
    exact ⟨Nat.le_refl _, fun _ ↦ noneLost_nil⟩
  | cons c rest hc ih =>
    rw [renderVars_cons hc, substitute_cons hc, List.length_cons, List.length_cons,
      noneLost_cons hc]
    exact ⟨by omega, fun h ↦ ih.2 (by omega)⟩
  | unclosed after hafter =>
    rw [renderVars_unclosed hafter, substitute_of_none (placeholder_unclosed hafter),
      substitute_unclosed hafter]
    exact ⟨Nat.le_refl _, fun _ ↦ noneLost_unclosed hafter⟩
  | pair name rest hname ih =>
    rw [renderVars_pair hname, noneLost_pair hname]
    by_cases hknown : Known names name
    · have hplaceholder : placeholder (emptyVars names) ('\x7b' :: (name ++ '\x7d' :: rest)) =
          some ([], rest) := by
        rw [placeholder_pair hname, valueOf_emptyVars hknown, Option.map_some]
      rw [valueOf_emptyVars hknown, substitute_of_placeholder hplaceholder, Option.getD_some,
        List.nil_append, List.nil_append]
      exact ⟨ih.1, fun h ↦ ⟨fun _ ↦ hknown, ih.2 h⟩⟩
    · obtain ⟨hle, hlt⟩ := @length_substitute_name names name hname rest
      have hplaceholder :
          placeholder (emptyVars names) ('\x7b' :: (name ++ '\x7d' :: rest)) = none := by
        rw [placeholder_pair hname, valueOf_emptyVars_of_not hknown, Option.map_none]
      rw [valueOf_emptyVars_of_not hknown, substitute_of_none hplaceholder, Option.getD_none]
      simp only [List.length_append, List.length_cons, List.length_nil]
      refine ⟨by omega, fun h ↦ ⟨fun hhides ↦ ?_, ih.2 (by omega)⟩⟩
      have := hlt hhides
      omega

/-- Rendering replaces every placeholder, whatever the values are, if and only if none is lost
between the braces of a name that is not known. -/
theorem replaces_iff (names : List String) (template : List Char) :
    (∀ vars : List (String × String), vars.map Prod.fst = names →
      renderVars vars template = substitute vars template) ↔ NoneLost names template := by
  constructor
  · intro h
    refine (length_substitute_le names template).2 ?_
    rw [h (emptyVars names) (map_fst_emptyVars names)]
  · rintro h vars rfl
    exact renderVars_eq_substitute h

/-- A template that is a JSON object. -/
def dirTemplate : List Char := "\x7b\"dir\":\"\x7bcwd\x7d\"\x7d".toList

/-- The brace of the object takes the closing brace of the placeholder, which stays. -/
theorem renderVars_dirTemplate :
    renderVars [("cwd", "/workspace")] dirTemplate ≠
      substitute [("cwd", "/workspace")] dirTemplate := by
  have htemplate : dirTemplate =
      '\x7b' :: (['"', 'd', 'i', 'r', '"', ':', '"', '\x7b', 'c', 'w', 'd'] ++
        '\x7d' :: ['"', '\x7d']) := by decide +kernel
  have hrender : renderVars [("cwd", "/workspace")] dirTemplate = dirTemplate := by
    have hunknown : valueOf [("cwd", "/workspace")]
        ['"', 'd', 'i', 'r', '"', ':', '"', '\x7b', 'c', 'w', 'd'] = none := by decide +kernel
    rw [htemplate, renderVars_pair (by decide), hunknown, renderVars_cons (by decide),
      renderVars_cons (by decide), renderVars_nil]
    rfl
  have hsubstitute : substitute [("cwd", "/workspace")] dirTemplate =
      "\x7b\"dir\":\"/workspace\"\x7d".toList := by
    have hplaceholder : placeholder [("cwd", "/workspace")]
        ['\x7b', 'c', 'w', 'd', '\x7d', '"', '\x7d'] =
          some ("/workspace".toList, ['"', '\x7d']) := by decide +kernel
    have hobject : placeholder [("cwd", "/workspace")] dirTemplate = none := by decide +kernel
    rw [htemplate] at hobject ⊢
    rw [substitute_of_none hobject]
    simp only [List.cons_append, List.nil_append]
    iterate 7 rw [substitute_cons (by decide)]
    rw [substitute_of_placeholder hplaceholder, substitute_cons (by decide),
      substitute_cons (by decide), substitute_nil]
    decide +kernel
  rw [hrender, hsubstitute]
  decide +kernel

end NextApi.Devin
