import Mathlib.Data.List.Forall2

/-!
# Texts of lists

A list is written as the texts of its items with a separator between them, and one of several
characters at the end. When the text of an item can be told from what follows it, and does not begin
with a separator or an end itself, the list can be told from what follows too, item by item
(`joined_cancel`). A text that is split at a separator has it in none of its pieces
(`not_mem_of_mem_splitOn`).
-/

set_option autoImplicit false

namespace NextApi.Text

variable {α β : Type}

/-- The texts with a separator between them. -/
def joinTexts (sep : α) : List (List α) → List α
  | [] => []
  | text :: rest => text ++ rest.flatMap fun text ↦ sep :: text

/-- A text that is empty, or goes on with one of the characters that end an item. -/
def Stops (stop : α → Prop) (text : List α) : Prop := ∀ c ∈ text.head?, stop c

/-- A text that begins with another character. -/
def Opens (stop : α → Prop) (text : List α) : Prop := ∃ c rest, text = c :: rest ∧ ¬ stop c

/-- Every item of a list has one that it is alike in a list that is alike. -/
theorem exists_of_forall₂ {R : α → β → Prop} {xs : List α} {ys : List β}
    (h : List.Forall₂ R xs ys) {x : α} (hx : x ∈ xs) : ∃ y ∈ ys, R x y := by
  induction h with
  | nil => exact absurd hx List.not_mem_nil
  | cons hxy _ ih =>
    rcases List.mem_cons.1 hx with rfl | hx
    · exact ⟨_, List.mem_cons_self, hxy⟩
    · obtain ⟨y, hy, hxy⟩ := ih hx
      exact ⟨y, List.mem_cons_of_mem _ hy, hxy⟩

section Cancel

variable {stop : α → Prop} {sep close : α} {print : β → List α} {R : β → β → Prop}

theorem stops_cons {c : α} (h : stop c) (text : List α) : Stops stop (c :: text) := by
  intro d hd
  rw [← Option.some.inj hd]
  exact h

theorem not_stops_of_opens {text : List α} (h : Opens stop text) (rest : List α) :
    ¬ Stops stop (text ++ rest) := by
  obtain ⟨c, text', rfl, hc⟩ := h
  exact fun hstops ↦ hc (hstops c rfl)

/-- After an item comes a separator or the end. -/
theorem stops_tail (hsep : stop sep) (hclose : stop close) (texts : List (List α)) (r : List α) :
    Stops stop ((texts.flatMap fun text ↦ sep :: text) ++ close :: r) := by
  cases texts with
  | nil => exact stops_cons hclose r
  | cons text texts => exact stops_cons hsep _

/-- The items after the first one. -/
theorem tail_cancel (hsep : stop sep) (hclose : stop close) (hne : sep ≠ close) {xs ys : List β}
    (hcancel : ∀ x ∈ xs, ∀ y ∈ ys, ∀ r r', Stops stop r → Stops stop r' →
      print x ++ r = print y ++ r' → R x y ∧ r = r') {r r' : List α}
    (h : ((xs.map print).flatMap fun text ↦ sep :: text) ++ close :: r =
      ((ys.map print).flatMap fun text ↦ sep :: text) ++ close :: r') :
    List.Forall₂ R xs ys ∧ r = r' := by
  induction xs generalizing ys with
  | nil =>
    cases ys with
    | nil => exact ⟨List.Forall₂.nil, (List.cons.inj h).2⟩
    | cons y ys => exact absurd (List.cons.inj h).1 (Ne.symm hne)
  | cons x xs ih =>
    cases ys with
    | nil => exact absurd (List.cons.inj h).1 hne
    | cons y ys =>
      rw [List.map_cons, List.map_cons, List.flatMap_cons, List.flatMap_cons, List.append_assoc,
        List.append_assoc] at h
      obtain ⟨hxy, hrest⟩ := hcancel x List.mem_cons_self y List.mem_cons_self _ _
        (stops_tail hsep hclose _ r) (stops_tail hsep hclose _ r') (List.cons.inj h).2
      obtain ⟨hall, hr⟩ := ih (fun x hx y hy ↦ hcancel x (List.mem_cons_of_mem _ hx) y
        (List.mem_cons_of_mem _ hy)) hrest
      exact ⟨List.Forall₂.cons hxy hall, hr⟩

/-- Two lists of the same text, with what follows, are alike, and so is what follows. -/
theorem joined_cancel (hsep : stop sep) (hclose : stop close) (hne : sep ≠ close) {xs ys : List β}
    (hopens : ∀ x, Opens stop (print x))
    (hcancel : ∀ x ∈ xs, ∀ y ∈ ys, ∀ r r', Stops stop r → Stops stop r' →
      print x ++ r = print y ++ r' → R x y ∧ r = r') {r r' : List α}
    (h : joinTexts sep (xs.map print) ++ close :: r = joinTexts sep (ys.map print) ++ close :: r') :
    List.Forall₂ R xs ys ∧ r = r' := by
  cases xs with
  | nil =>
    cases ys with
    | nil => exact ⟨List.Forall₂.nil, (List.cons.inj h).2⟩
    | cons y ys =>
      rw [List.map_cons, joinTexts, List.append_assoc] at h
      have hstops := stops_cons hclose r
      rw [show close :: r = _ from h] at hstops
      exact absurd hstops (not_stops_of_opens (hopens y) _)
  | cons x xs =>
    cases ys with
    | nil =>
      rw [List.map_cons, joinTexts, List.append_assoc] at h
      have hstops := stops_cons hclose r'
      rw [show close :: r' = _ from h.symm] at hstops
      exact absurd hstops (not_stops_of_opens (hopens x) _)
    | cons y ys =>
      rw [List.map_cons, List.map_cons, joinTexts, joinTexts, List.append_assoc,
        List.append_assoc] at h
      obtain ⟨hxy, hrest⟩ := hcancel x List.mem_cons_self y List.mem_cons_self _ _
        (stops_tail hsep hclose _ r) (stops_tail hsep hclose _ r') h
      obtain ⟨hall, hr⟩ := tail_cancel hsep hclose hne (fun x hx y hy ↦
        hcancel x (List.mem_cons_of_mem _ hx) y (List.mem_cons_of_mem _ hy)) hrest
      exact ⟨List.Forall₂.cons hxy hall, hr⟩

end Cancel

/-! ### Splitting -/

section Split

variable [BEq α] [LawfulBEq α]

omit [LawfulBEq α] [BEq α] in
theorem mem_of_mem_splitOnP {p : α → Bool} {xs piece : List α} {x : α}
    (h : piece ∈ xs.splitOnP p) (hx : x ∈ piece) : x ∈ xs := by
  induction xs generalizing piece with
  | nil =>
    rw [List.splitOnP_nil, List.mem_singleton] at h
    rwa [h] at hx
  | cons y ys ih =>
    obtain ⟨first, rest, hsplit⟩ := List.exists_cons_of_ne_nil (List.splitOnP_ne_nil p ys)
    rw [List.splitOnP_cons_eq_if_modifyHead, hsplit] at h
    rw [hsplit] at ih
    split at h
    · rcases List.mem_cons.1 h with rfl | h
      · exact absurd hx List.not_mem_nil
      · exact List.mem_cons_of_mem _ (ih h hx)
    · rcases List.mem_cons.1 h with rfl | h
      · rcases List.mem_cons.1 hx with rfl | hx
        · exact List.mem_cons_self
        · exact List.mem_cons_of_mem _ (ih List.mem_cons_self hx)
      · exact List.mem_cons_of_mem _ (ih (List.mem_cons_of_mem _ h) hx)

theorem not_mem_of_mem_splitOn {a : α} {xs piece : List α} (h : piece ∈ xs.splitOn a) :
    a ∉ piece := by
  induction xs generalizing piece with
  | nil =>
    rw [List.splitOn_nil, List.mem_singleton] at h
    rw [h]
    exact List.not_mem_nil
  | cons x xs ih =>
    obtain ⟨first, rest, hsplit⟩ := List.exists_cons_of_ne_nil (List.splitOn_ne_nil a xs)
    rw [List.splitOn_cons_eq_if_modifyHead, hsplit] at h
    rw [hsplit] at ih
    split at h
    · rcases List.mem_cons.1 h with rfl | h
      · exact List.not_mem_nil
      · exact ih h
    · rename_i hne
      rcases List.mem_cons.1 h with rfl | h
      · rw [List.mem_cons, not_or]
        exact ⟨fun heq ↦ hne (by simp [← heq]), ih List.mem_cons_self⟩
      · exact ih (List.mem_cons_of_mem _ h)

/-- Splitting after a map that tells the separator from all others. -/
theorem splitOn_map [BEq β] [LawfulBEq β] {f : α → β} {a : α} {b : β} (h : ∀ x, f x = b ↔ x = a)
    (xs : List α) : (xs.map f).splitOn b = (xs.splitOn a).map (List.map f) := by
  induction xs with
  | nil => simp [List.splitOn_nil]
  | cons x xs ih =>
    obtain ⟨first, rest, hsplit⟩ := List.exists_cons_of_ne_nil (List.splitOn_ne_nil a xs)
    rw [List.map_cons, List.splitOn_cons_eq_if_modifyHead, List.splitOn_cons_eq_if_modifyHead, ih,
      hsplit]
    by_cases hx : x = a
    · simp [hx, (h a).2 rfl]
    · simp [hx, h x]

end Split

end NextApi.Text
