import Mathlib.Data.List.Induction
import NextApi.Protocol.Ir

/-!
# What messages say

A message says its text and media, in order, and its thoughts, in one. What a list of messages says
is what those of them say that say anything (`Spoken.all`). Messages without content come and go in
a conversion, and two lists of them say the same when they do so one by one (`all_map_eq_iff`).

A reader that sorts the parts of a message into texts and media keeps their order when no text comes
after a medium (`filter_append_filter_eq_self`), and one that keeps the last thought only keeps all
of them when the others are empty (`getLast_eq_join_iff`).
-/

set_option autoImplicit false

namespace NextApi.Ir

/-- The text and media of a message, in order, and its thoughts, in one. -/
structure Spoken where
  parts : List IrPart := []
  thought : String := ""
  deriving DecidableEq, Inhabited

namespace Spoken

/-- What the messages say that say anything. -/
def all (xs : List Spoken) : List Spoken := xs.filter fun s ↦ decide (s ≠ {})

@[simp] theorem all_nil : all [] = [] := rfl

theorem all_append (xs ys : List Spoken) : all (xs ++ ys) = all xs ++ all ys :=
  List.filter_append xs ys

/-- Who says nothing does not matter. -/
theorem all_cons_silent (xs : List Spoken) : all ({} :: xs) = all xs := by
  rw [all, List.filter_cons_of_neg (by simp)]
  rfl

theorem all_cons_of_ne {s : Spoken} (h : s ≠ {}) (xs : List Spoken) :
    all (s :: xs) = s :: all xs := by
  rw [all, List.filter_cons_of_pos (by simpa using h)]
  rfl

theorem all_eq_nil {xs : List Spoken} (h : ∀ s ∈ xs, s = {}) : all xs = [] := by
  rw [all, List.filter_eq_nil_iff]
  intro s hs
  simpa using h s hs

section Pointwise

variable {α : Type} {f g : α → Spoken}

theorem length_all_map_le {xs : List α} (h : ∀ x ∈ xs, g x = {} → f x = {}) :
    (all (xs.map f)).length ≤ (all (xs.map g)).length := by
  induction xs with
  | nil => exact le_rfl
  | cons x rest ih =>
    rw [List.forall_mem_cons] at h
    rw [List.map_cons, List.map_cons]
    by_cases hg : g x = {}
    · rw [hg, h.1 hg, all_cons_silent, all_cons_silent]
      exact ih h.2
    · rw [all_cons_of_ne hg, List.length_cons]
      by_cases hf : f x = {}
      · rw [hf, all_cons_silent]
        exact Nat.le_succ_of_le (ih h.2)
      · rw [all_cons_of_ne hf, List.length_cons]
        exact Nat.succ_le_succ (ih h.2)

/-- Two accounts of the same messages, the second of which is silent only where the first is, say
the same when they do so message by message. -/
theorem all_map_eq_iff {xs : List α} (h : ∀ x ∈ xs, g x = {} → f x = {}) :
    all (xs.map f) = all (xs.map g) ↔ ∀ x ∈ xs, f x = g x := by
  induction xs with
  | nil => exact iff_of_true rfl fun x hx ↦ (List.not_mem_nil hx).elim
  | cons x rest ih =>
    rw [List.forall_mem_cons] at h
    rw [List.forall_mem_cons, List.map_cons, List.map_cons, ← ih h.2]
    by_cases hg : g x = {}
    · rw [hg, h.1 hg, all_cons_silent, all_cons_silent]
      exact (and_iff_right rfl).symm
    · rw [all_cons_of_ne hg]
      by_cases hf : f x = {}
      · rw [hf, all_cons_silent]
        refine iff_of_false (fun heq ↦ ?_) fun hand ↦ hg hand.1.symm
        have hlength := congrArg List.length heq
        have hle := length_all_map_le h.2
        rw [List.length_cons] at hlength
        omega
      · rw [all_cons_of_ne hf, List.cons.injEq]

end Pointwise

/-! ### Messages of the representation -/

/-- The parts of a content; a text is one. -/
def partsOf : Option IrContent → List IrPart
  | some (.text s) => [.text s]
  | some (.parts ps) => ps
  | none => []

def ofMessage (m : IrMessage) : Spoken := ⟨partsOf m.content, m.reasoningContent.getD ""⟩

/-- What a message of the conversation says; system messages and tool results are no part of it. -/
def inConversation (m : IrMessage) : Spoken :=
  if m.role = .user ∨ m.role = .assistant then ofMessage m else {}

end Spoken

/-! ### Sorted parts, last thoughts -/

section Lists

variable {α : Type} {p q : α → Bool}

/-- What is sorted into two heaps keeps its order when it was sorted, and everything had a heap. -/
theorem filter_append_filter_eq_self (hdisjoint : ∀ x, p x = true → q x = false) {l : List α} :
    l.filter p ++ l.filter q = l ↔
      (∀ x ∈ l, p x = true ∨ q x = true) ∧ l.Pairwise fun x y ↦ p y = true → p x = true := by
  constructor
  · intro h
    constructor
    · intro x hx
      rw [← h, List.mem_append, List.mem_filter, List.mem_filter] at hx
      exact hx.imp And.right And.right
    · rw [← h, List.pairwise_append]
      refine ⟨?_, ?_, ?_⟩
      · exact List.pairwise_of_forall_mem_list fun x hx y _ _ ↦ (List.mem_filter.1 hx).2
      · refine List.pairwise_of_forall_mem_list fun x _ y hy hp ↦ ?_
        exact absurd (List.mem_filter.1 hy).2 (by rw [hdisjoint y hp]; exact Bool.false_ne_true)
      · exact fun x hx y _ _ ↦ (List.mem_filter.1 hx).2
  · intro ⟨hall, hsorted⟩
    induction l with
    | nil => rfl
    | cons x rest ih =>
      rw [List.forall_mem_cons] at hall
      rw [List.pairwise_cons] at hsorted
      by_cases hp : p x = true
      · rw [List.filter_cons_of_pos hp,
          List.filter_cons_of_neg (by rw [hdisjoint x hp]; exact Bool.false_ne_true),
          List.cons_append, ih hall.2 hsorted.2]
      · have hq : q x = true := hall.1.resolve_left hp
        have hnone : rest.filter p = [] :=
          List.filter_eq_nil_iff.2 fun y hy hpy ↦ hp (hsorted.1 y hy hpy)
        have hrest : rest.filter q = rest := by
          have := ih hall.2 hsorted.2
          rwa [hnone, List.nil_append] at this
        rw [List.filter_cons_of_neg hp, List.filter_cons_of_pos hq, hnone, hrest, List.nil_append]

theorem join_eq_empty {ts : List String} : String.join ts = "" ↔ ∀ t ∈ ts, t = "" := by
  induction ts with
  | nil => exact iff_of_true rfl fun t ht ↦ (List.not_mem_nil ht).elim
  | cons t rest ih =>
    rw [String.join_cons, String.append_eq_empty_iff, ih, List.forall_mem_cons]

/-- The last of some texts is all of them when the others are empty. -/
theorem getLast_eq_join_iff {ts : List String} :
    ts.getLast?.getD "" = String.join ts ↔ ∀ t ∈ ts.dropLast, t = "" := by
  induction ts using List.reverseRecOn with
  | nil => exact iff_of_true rfl fun t ht ↦ (List.not_mem_nil ht).elim
  | append_singleton init t _ =>
    rw [List.getLast?_concat, Option.getD_some, List.dropLast_concat, String.join_append,
      String.join_cons, String.join_nil, String.append_empty, ← join_eq_empty, eq_comm,
      String.append_eq_right_iff]

end Lists

end NextApi.Ir
