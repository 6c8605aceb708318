import Mathlib.Algebra.BigOperators.Group.List.Basic
import Mathlib.Algebra.GroupWithZero.Nat
import Mathlib.Data.List.Basic

/-!
# A window on the end of a stream

Items have sizes. A buffer of bounded size follows a stream of items by dropping from its front,
each time pieces of the stream are appended, just enough to be within the bound. Which items it
holds does not depend on the pieces: it is the longest end of the stream that fits
(`foldl_push`).

The second part is about streams of updates of one register: the register holds the last value
that an update gave it (`lastly`), and that is found in any end of the stream that has such an
update.
-/

set_option autoImplicit false

namespace NextApi.Stream.Window

variable {α : Type*} (size : α → ℕ)

/-- The size of a stretch of the stream. -/
def total (items : List α) : ℕ := (items.map size).sum

@[simp] theorem total_nil : total size [] = 0 := rfl

@[simp] theorem total_cons (item : α) (rest : List α) :
    total size (item :: rest) = size item + total size rest :=
  List.sum_cons

@[simp] theorem total_append (s t : List α) : total size (s ++ t) = total size s + total size t := by
  rw [total, List.map_append, List.sum_append, total, total]

/-- Drops the fewest items from the front that have together at least this size. -/
def drain : ℕ → List α → List α
  | _, [] => []
  | excess, item :: rest => if excess = 0 then item :: rest else drain (excess - size item) rest

@[simp] theorem drain_zero (items : List α) : drain size 0 items = items := by
  cases items with
  | nil => rfl
  | cons item rest => exact if_pos rfl

/-- The longest end of the stream whose size is within the bound. -/
def window (bound : ℕ) (items : List α) : List α := drain size (total size items - bound) items

theorem window_of_le {bound : ℕ} {items : List α} (h : total size items ≤ bound) :
    window size bound items = items := by
  rw [window, Nat.sub_eq_zero_of_le h, drain_zero]

theorem window_cons {bound : ℕ} {item : α} {rest : List α}
    (h : bound < size item + total size rest) :
    window size bound (item :: rest) = window size bound rest := by
  have hne : total size (item :: rest) - bound ≠ 0 := by
    rw [total_cons]
    omega
  rw [window, drain, if_neg hne, total_cons, window]
  congr 1
  omega

/-- The window is within the bound. -/
theorem total_window_le (bound : ℕ) (items : List α) :
    total size (window size bound items) ≤ bound := by
  induction items with
  | nil => exact Nat.zero_le _
  | cons item rest ih =>
    by_cases h : total size (item :: rest) ≤ bound
    · rwa [window_of_le size h]
    · rw [total_cons, Nat.not_le] at h
      rwa [window_cons size h]

/-- The window is an end of the stream. -/
theorem exists_append_window (bound : ℕ) (items : List α) :
    ∃ dropped, items = dropped ++ window size bound items := by
  induction items with
  | nil => exact ⟨[], rfl⟩
  | cons item rest ih =>
    by_cases h : total size (item :: rest) ≤ bound
    · exact ⟨[], by rw [window_of_le size h, List.nil_append]⟩
    · rw [total_cons, Nat.not_le] at h
      obtain ⟨dropped, hdropped⟩ := ih
      refine ⟨item :: dropped, ?_⟩
      rw [window_cons size h, List.cons_append, ← hdropped]

/-- What the window has dropped is never missed: it may be taken before more is appended. -/
theorem window_window_append (bound : ℕ) (s t : List α) :
    window size bound (window size bound s ++ t) = window size bound (s ++ t) := by
  induction s with
  | nil => rfl
  | cons item rest ih =>
    by_cases h : total size (item :: rest) ≤ bound
    · rw [window_of_le size h]
    · rw [total_cons, Nat.not_le] at h
      have hlong : bound < size item + total size (rest ++ t) := by
        rw [total_append]
        omega
      rw [window_cons size h, ih, List.cons_append, window_cons size hlong]

/-- Appends a piece, and drops what no longer fits. -/
def push (bound : ℕ) (kept piece : List α) : List α := window size bound (kept ++ piece)

/-- A buffer holds the longest end of the stream that fits, whatever the pieces were. -/
theorem foldl_push (bound : ℕ) (pieces : List (List α)) (before : List α) :
    pieces.foldl (push size bound) (window size bound before) =
      window size bound (before ++ pieces.flatten) := by
  induction pieces generalizing before with
  | nil => rw [List.foldl_nil, List.flatten_nil, List.append_nil]
  | cons piece rest ih =>
    rw [List.foldl_cons, push, window_window_append, ih, List.flatten_cons, List.append_assoc]

/-- A front that leaves exactly the bound is what the window drops, if each item has a size. -/
theorem window_append_of_total_eq (hpos : ∀ item, 0 < size item) {bound : ℕ} (s : List α)
    {t : List α} (h : total size t = bound) : window size bound (s ++ t) = t := by
  induction s with
  | nil => exact window_of_le size (Nat.le_of_eq h)
  | cons item rest ih =>
    have hlong : bound < size item + total size (rest ++ t) := by
      have := hpos item
      rw [total_append]
      omega
    rw [List.cons_append, window_cons size hlong, ih]

end NextApi.Stream.Window

namespace NextApi.Stream.Register

/-! ### A register under updates -/

variable {α β : Type*}

/-- The last value given to the register, if there was an update of it. -/
def lastly (update : α → Option β) : List α → Option β
  | [] => none
  | a :: rest => (lastly update rest).or (update a)

variable (update : α → Option β)

@[simp] theorem lastly_nil : lastly update [] = none := rfl

@[simp] theorem lastly_cons (a : α) (rest : List α) :
    lastly update (a :: rest) = (lastly update rest).or (update a) := rfl

theorem lastly_append (s t : List α) :
    lastly update (s ++ t) = (lastly update t).or (lastly update s) := by
  induction s with
  | nil => rw [List.nil_append, lastly_nil, Option.or_none]
  | cons a rest ih => rw [List.cons_append, lastly_cons, ih, lastly_cons, Option.or_assoc]

theorem lastly_isSome {items : List α} :
    (lastly update items).isSome ↔ ∃ a ∈ items, (update a).isSome := by
  induction items with
  | nil => simp
  | cons a rest ih => rw [lastly_cons, Option.isSome_or, Bool.or_eq_true, ih, List.exists_mem_cons_iff,
      or_comm]

theorem lastly_eq_none {items : List α} (h : ∀ a ∈ items, update a = none) :
    lastly update items = none := by
  induction items with
  | nil => rfl
  | cons a rest ih =>
    rw [lastly_cons, ih fun b hb ↦ h b (List.mem_cons_of_mem _ hb), h a List.mem_cons_self,
      Option.or_none]

/-- Updates that are the same, one by one, leave the same value. -/
theorem lastly_congr {s t : List α} (h : s.map update = t.map update) :
    lastly update s = lastly update t := by
  induction s generalizing t with
  | nil => rw [List.map_eq_nil_iff.1 h.symm]
  | cons a rest ih =>
    cases t with
    | nil => exact absurd h (List.cons_ne_nil _ _)
    | cons b more =>
      rw [List.map_cons, List.map_cons, List.cons.injEq] at h
      rw [lastly_cons, lastly_cons, ih h.2, h.1]

/-- An update that looks at a part of the item is one by that part. -/
theorem lastly_filterMap {γ : Type*} (f : α → Option γ) (g : γ → Option β) (items : List α) :
    lastly g (items.filterMap f) = lastly (fun a ↦ (f a).bind g) items := by
  induction items with
  | nil => rfl
  | cons a rest ih =>
    rw [lastly_cons, ← ih]
    cases hf : f a with
    | none => rw [List.filterMap_cons_none hf, Option.bind_none, Option.or_none]
    | some b => rw [List.filterMap_cons_some hf, lastly_cons, Option.bind_some]

/-- The value comes from one of the items. -/
theorem exists_of_lastly_eq_some {items : List α} {b : β} (h : lastly update items = some b) :
    ∃ a ∈ items, update a = some b := by
  induction items with
  | nil => exact nomatch h
  | cons a rest ih =>
    rw [lastly_cons, Option.or_eq_some_iff] at h
    rcases h with h | ⟨-, h⟩
    · obtain ⟨c, hc, hupdate⟩ := ih h
      exact ⟨c, List.mem_cons_of_mem _ hc, hupdate⟩
    · exact ⟨a, List.mem_cons_self, h⟩

theorem lastly_map {γ : Type*} (f : α → Option γ) (g : γ → β) (items : List α) :
    lastly (fun a ↦ (f a).map g) items = (lastly f items).map g := by
  induction items with
  | nil => rfl
  | cons a rest ih =>
    rw [lastly_cons, ih, lastly_cons]
    cases lastly f rest <;> rfl

/-- Items without an update may be left out. -/
theorem lastly_filter {keep : α → Bool} (h : ∀ a, keep a = false → update a = none)
    (items : List α) : lastly update (items.filter keep) = lastly update items := by
  induction items with
  | nil => rfl
  | cons a rest ih =>
    rw [lastly_cons, ← ih]
    cases hkeep : keep a with
    | true => rw [List.filter_cons_of_pos hkeep, lastly_cons]
    | false =>
      rw [List.filter_cons_of_neg (Bool.eq_false_iff.1 hkeep), h a hkeep, Option.or_none]

/-- A register that each item overwrites or leaves alone holds the last value given to it. -/
theorem foldl_eq_lastly {σ : Type*} (step : σ → α → σ) (read : σ → Option β)
    (hstep : ∀ s a, read (step s a) = (update a).or (read s)) (s : σ) (items : List α) :
    read (items.foldl step s) = (lastly update items).or (read s) := by
  induction items generalizing s with
  | nil => rfl
  | cons a rest ih => rw [List.foldl_cons, ih, hstep, lastly_cons, Option.or_assoc]

end NextApi.Stream.Register
