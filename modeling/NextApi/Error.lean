import Mathlib.Init

/-!
# Errors of the management API

Every request of the management API ends with an answer or with an `ApiError`, whose kind decides
the HTTP status.
-/

set_option autoImplicit false

namespace NextApi

inductive ApiError where
  | unauthorized
  | forbidden
  | notFound
  | badRequest (message : String)
  | conflict (message : String)
  | rateLimited
  | totpRequired
  | totpInvalid
  | badGateway (message : String)
  | internal (message : String)
  deriving DecidableEq, Inhabited

section Except

variable {ε α β γ : Type}

/-- A computation that goes on succeeds when both of its parts do. -/
theorem bind_eq_ok {x : Except ε α} {f : α → Except ε β} {b : β} :
    x.bind f = .ok b ↔ ∃ a, x = .ok a ∧ f a = .ok b := by
  cases x with
  | error e =>
    refine iff_of_false (fun h ↦ by simp [Except.bind] at h) ?_
    intro ⟨a, ha, _⟩
    exact absurd ha (by simp)
  | ok a =>
    constructor
    · intro h
      exact ⟨a, rfl, h⟩
    · intro ⟨a', ha, h⟩
      rw [Except.ok.inj ha]
      exact h

theorem map_eq_ok {x : Except ε α} {f : α → β} {b : β} :
    x.map f = .ok b ↔ ∃ a, x = .ok a ∧ f a = b := by
  cases x with
  | error e =>
    refine iff_of_false (fun h ↦ by simp [Except.map] at h) ?_
    intro ⟨a, ha, _⟩
    exact absurd ha (by simp)
  | ok a =>
    constructor
    · intro h
      exact ⟨a, rfl, Except.ok.inj h⟩
    · intro ⟨a', ha, h⟩
      rw [Except.ok.inj ha, ← h]
      rfl

/-- A check in a function of its own, before the rest. -/
theorem check_eq_ok {x : Except ε Unit} {y : Except ε α} {a : α} :
    (x.bind fun _ ↦ y) = .ok a ↔ x = .ok () ∧ y = .ok a := by
  rw [bind_eq_ok]
  constructor
  · intro ⟨_, hx, hy⟩
    exact ⟨hx, hy⟩
  · intro ⟨hx, hy⟩
    exact ⟨(), hx, hy⟩

/-- A check that can fail, before the rest. -/
theorem guard_eq_ok {c : Prop} [Decidable c] {e : ε} {x : Except ε α} {a : α} :
    (if c then .error e else x) = .ok a ↔ ¬ c ∧ x = .ok a := by
  by_cases h : c
  · rw [if_pos h]
    exact iff_of_false (by simp) fun hand ↦ hand.1 h
  · rw [if_neg h]
    exact (and_iff_right h).symm

theorem mapM_cons_eq_ok {f : α → Except ε β} {x : α} {xs : List α} {ys : List β} :
    (x :: xs).mapM f = .ok ys ↔ ∃ y tail, f x = .ok y ∧ xs.mapM f = .ok tail ∧ y :: tail = ys := by
  rw [List.mapM_cons]
  constructor
  · intro h
    obtain ⟨y, hy, h⟩ := bind_eq_ok.1 h
    obtain ⟨tail, htail, h⟩ := bind_eq_ok.1 h
    exact ⟨y, tail, hy, htail, Except.ok.inj h⟩
  · intro ⟨y, tail, hy, htail, hys⟩
    exact bind_eq_ok.2 ⟨y, hy, bind_eq_ok.2 ⟨tail, htail, congrArg Except.ok hys⟩⟩

/-- What is observed of every item is observed of the results. -/
theorem map_eq_of_mapM {f : α → Except ε β} {observe : β → γ} {expect : α → γ}
    (h : ∀ x y, f x = .ok y → observe y = expect x) {xs : List α} {ys : List β}
    (hok : xs.mapM f = .ok ys) : ys.map observe = xs.map expect := by
  induction xs generalizing ys with
  | nil =>
    rw [List.mapM_nil] at hok
    rw [← Except.ok.inj hok]
    rfl
  | cons x rest ih =>
    obtain ⟨y, tail, hy, htail, rfl⟩ := mapM_cons_eq_ok.1 hok
    rw [List.map_cons, List.map_cons, h x y hy, ih htail]

/-- Every item has a result. -/
theorem exists_of_mapM {f : α → Except ε β} {xs : List α} {ys : List β} (hok : xs.mapM f = .ok ys)
    {x : α} (hx : x ∈ xs) : ∃ y ∈ ys, f x = .ok y := by
  induction xs generalizing ys with
  | nil => exact (List.not_mem_nil hx).elim
  | cons first rest ih =>
    obtain ⟨y, tail, hy, htail, rfl⟩ := mapM_cons_eq_ok.1 hok
    rcases List.mem_cons.1 hx with rfl | hx
    · exact ⟨y, List.mem_cons_self, hy⟩
    · obtain ⟨y', hy', hok'⟩ := ih htail hx
      exact ⟨y', List.mem_cons_of_mem y hy', hok'⟩

/-- When it is known of each item whether it is read, and as what, it is known of a list. -/
theorem exists_mapM_eq_ok {f : α → Except ε β} {observe : β → γ} {P : α → Prop} {expect : α → γ}
    (h : ∀ x c, (∃ y, f x = .ok y ∧ observe y = c) ↔ P x ∧ c = expect x) {xs : List α}
    {cs : List γ} : (∃ ys, xs.mapM f = .ok ys ∧ ys.map observe = cs) ↔
      (∀ x ∈ xs, P x) ∧ cs = xs.map expect := by
  induction xs generalizing cs with
  | nil =>
    rw [List.mapM_nil]
    constructor
    · intro ⟨ys, hys, hcs⟩
      rw [← hcs, ← Except.ok.inj hys]
      exact ⟨fun x hx ↦ (List.not_mem_nil hx).elim, rfl⟩
    · intro ⟨_, hcs⟩
      exact ⟨[], rfl, hcs.symm⟩
  | cons x rest ih =>
    rw [List.forall_mem_cons]
    constructor
    · intro ⟨ys, hys, hcs⟩
      obtain ⟨y, tail, hy, htail, rfl⟩ := mapM_cons_eq_ok.1 hys
      obtain ⟨hx, hyc⟩ := (h x _).1 ⟨y, hy, rfl⟩
      obtain ⟨hrest, htc⟩ := ih.1 ⟨tail, htail, rfl⟩
      rw [List.map_cons, hyc, htc] at hcs
      exact ⟨⟨hx, hrest⟩, hcs.symm⟩
    · intro ⟨⟨hx, hrest⟩, hcs⟩
      obtain ⟨y, hy, hyc⟩ := (h x _).2 ⟨hx, rfl⟩
      obtain ⟨tail, htail, htc⟩ := ih.2 ⟨hrest, rfl⟩
      refine ⟨y :: tail, mapM_cons_eq_ok.2 ⟨y, tail, hy, htail, rfl⟩, ?_⟩
      rw [List.map_cons, hyc, htc, hcs, List.map_cons]

end Except

end NextApi
