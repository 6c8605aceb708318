import Mathlib.Logic.Function.Basic
import NextApi.Stream.Run
import NextApi.Stream.Table

/-!
# A copy of a store, made part by part

A store has parts, and every change of it makes a new version. A writer changes the store at once,
and then reads all its parts, one after another, and puts what it has read in the place of the
copy. Changes and reads of other writers may come in between.

A copy is `Fresh` if it has every change of every writer that has returned. Nothing makes a writer
wait for another one, so that an old reading may replace a newer copy. `fresh_run_iff` says that
this is all that can go wrong: the copy is fresh in every state of a run when no writer puts in its
place a reading that is older than a change which has returned.
-/

set_option autoImplicit false

namespace NextApi.Mirror

variable {ι : Type} [DecidableEq ι] {V : ι → Type}

/-! ### Stores, writers and their steps -/

/-- A change of a store: the parts that it writes, and what it writes. -/
structure Change (V : ι → Type) where
  touched : List ι
  value : ((i : ι) → V i) → (i : ι) → V i

/-- A change leaves the other parts as they are. -/
def Change.apply (c : Change V) (store : (i : ι) → V i) (i : ι) : V i :=
  if i ∈ c.touched then c.value store i else store i

/-- A writer whose change is made. -/
structure Writer (V : ι → Type) where
  change : Change V
  /-- The version that was changed. -/
  base : ℕ
  /-- The parts read so far, each with the version that was read. -/
  reading : (i : ι) → Option (ℕ × V i)
  /-- The parts that are still to be read. -/
  rest : List ι
  returned : Bool

/-- A store with all its versions, the writers, and the copy. -/
structure State (V : ι → Type) where
  versions : ℕ → (i : ι) → V i
  latest : ℕ
  writers : Table ℕ (Writer V)
  copy : (i : ι) → ℕ × V i

inductive Action (V : ι → Type) where
  /-- A new writer changes the store. -/
  | commit (w : ℕ) (c : Change V)
  /-- A writer reads the next part. -/
  | read (w : ℕ)
  /-- A writer that has read all parts puts them in the place of the copy, and returns. -/
  | swap (w : ℕ)

namespace State

/-- The store as it is. -/
def store (s : State V) : (i : ι) → V i := s.versions s.latest

/-- A store that nothing has changed yet, and its copy. -/
def start (store : (i : ι) → V i) : State V where
  versions _ := store
  latest := 0
  writers := ∅
  copy i := (0, store i)

def commit (order : List ι) (s : State V) (w : ℕ) (c : Change V) : State V :=
  { s with
    versions := Function.update s.versions (s.latest + 1) (c.apply s.store)
    latest := s.latest + 1
    writers := s.writers.insert w ⟨c, s.latest, fun _ ↦ none, order, false⟩ }

def read (s : State V) (w : ℕ) (x : Writer V) (i : ι) (rest : List ι) : State V :=
  let reading := Function.update x.reading i (some (s.latest, s.store i))
  { s with writers := s.writers.insert w { x with reading := reading, rest := rest } }

def swap (s : State V) (w : ℕ) (x : Writer V) : State V :=
  { s with
    writers := s.writers.insert w { x with returned := true }
    copy := fun i ↦ (x.reading i).getD (s.copy i) }

/-- One action. Every writer reads the parts in the same order. -/
def step (order : List ι) (s : State V) : Action V → State V
  | .commit w c => if (s.writers.lookup w).isSome then s else s.commit order w c
  | .read w =>
    match s.writers.lookup w with
    | none => s
    | some x =>
      match x.rest with
      | [] => s
      | i :: rest => s.read w x i rest
  | .swap w =>
    match s.writers.lookup w with
    | none => s
    | some x => if x.rest.isEmpty && !x.returned then s.swap w x else s

/-- What an action does to a state, if it does anything. -/
theorem step_cases (order : List ι) (s : State V) (a : Action V) :
    s.step order a = s ∨
      (∃ w c, a = .commit w c ∧ s.writers.lookup w = none ∧ s.step order a = s.commit order w c) ∨
      (∃ w x i rest, a = .read w ∧ s.writers.lookup w = some x ∧ x.rest = i :: rest ∧
        s.step order a = s.read w x i rest) ∨
      ∃ w x, a = .swap w ∧ s.writers.lookup w = some x ∧ x.rest = [] ∧ x.returned = false ∧
        s.step order a = s.swap w x := by
  cases a with
  | commit w c =>
    rw [step]
    split
    · exact Or.inl rfl
    · next h => exact Or.inr (Or.inl ⟨w, c, rfl, Option.not_isSome_iff_eq_none.1 h, rfl⟩)
  | read w =>
    rw [step]
    split
    · exact Or.inl rfl
    · next x hx =>
      split
      · exact Or.inl rfl
      · next i rest hrest => exact Or.inr (Or.inr (Or.inl ⟨w, x, i, rest, rfl, hx, hrest, rfl⟩))
  | swap w =>
    rw [step]
    split
    · exact Or.inl rfl
    · next x hx =>
      split
      · next h =>
        rw [Bool.and_eq_true, List.isEmpty_iff, Bool.not_eq_true'] at h
        exact Or.inr (Or.inr (Or.inr ⟨w, x, rfl, hx, h.1, h.2, rfl⟩))
      · exact Or.inl rfl

/-! ### The invariant -/

/-- Everything that was read is a part of the version it is said to be of, every change has made
the version after the one it was made to, and what a writer has read is not older than its
change. -/
structure Inv (order : List ι) (s : State V) : Prop where
  copied (i : ι) : (s.copy i).1 ≤ s.latest ∧ (s.copy i).2 = s.versions (s.copy i).1 i
  changed {w : ℕ} {x : Writer V} : s.writers.lookup w = some x →
    x.base < s.latest ∧ s.versions (x.base + 1) = x.change.apply (s.versions x.base)
  readFrom {w : ℕ} {x : Writer V} {i : ι} {n : ℕ} {v : V i} : s.writers.lookup w = some x →
    x.reading i = some (n, v) → x.base < n ∧ n ≤ s.latest ∧ v = s.versions n i
  complete {w : ℕ} {x : Writer V} {i : ι} : s.writers.lookup w = some x → i ∈ order →
    i ∉ x.rest → ∃ r, x.reading i = some r
  made {n : ℕ} : n < s.latest → ∃ w x, s.writers.lookup w = some x ∧ x.base = n

variable {order : List ι}

theorem inv_start (store : (i : ι) → V i) : (start store).Inv order where
  copied _ := ⟨Nat.le_refl _, rfl⟩
  changed h := absurd h (by simp [start])
  readFrom h := absurd h (by simp [start])
  complete h := absurd h (by simp [start])
  made h := absurd h (Nat.not_lt_zero _)

/-- The versions there were are not changed. -/
theorem versions_commit (s : State V) (w : ℕ) (c : Change V) {n : ℕ} (h : n ≤ s.latest) :
    (s.commit order w c).versions n = s.versions n :=
  Function.update_of_ne (by omega) _ _

theorem inv_commit {s : State V} (h : s.Inv order) {w : ℕ} {c : Change V}
    (hw : s.writers.lookup w = none) : (s.commit order w c).Inv order where
  copied i := by
    obtain ⟨hle, heq⟩ := h.copied i
    exact ⟨Nat.le_succ_of_le hle, heq.trans (congrFun (versions_commit s w c hle) i).symm⟩
  changed {v y} hy := by
    rcases Table.lookup_insert_cases hy with ⟨-, rfl⟩ | ⟨-, hy⟩
    · refine ⟨Nat.lt_succ_self _, ?_⟩
      rw [versions_commit s w c (Nat.le_refl _)]
      exact Function.update_self _ _ _
    · obtain ⟨hlt, heq⟩ := h.changed hy
      refine ⟨Nat.lt_succ_of_lt hlt, ?_⟩
      rw [versions_commit s w c hlt, versions_commit s w c (Nat.le_of_lt hlt)]
      exact heq
  readFrom {v y i n value} hy hread := by
    rcases Table.lookup_insert_cases hy with ⟨-, rfl⟩ | ⟨-, hy⟩
    · exact absurd hread (by simp)
    · obtain ⟨hlt, hle, heq⟩ := h.readFrom hy hread
      refine ⟨hlt, Nat.le_succ_of_le hle, ?_⟩
      rw [versions_commit s w c hle]
      exact heq
  complete {v y i} hy hi hrest := by
    rcases Table.lookup_insert_cases hy with ⟨-, rfl⟩ | ⟨-, hy⟩
    · exact absurd hi hrest
    · exact h.complete hy hi hrest
  made {n} hn := by
    by_cases hlast : n = s.latest
    · exact ⟨w, _, by rw [commit, Table.lookup_insert, if_pos rfl], hlast.symm⟩
    · obtain ⟨v, y, hy, hbase⟩ := h.made (n := n) (by rw [commit] at hn; dsimp only at hn; omega)
      refine ⟨v, y, ?_, hbase⟩
      rw [commit, Table.lookup_insert, if_neg]
      · exact hy
      · rintro rfl
        exact absurd hy (by rw [hw]; simp)

/-- A writer that goes on keeps its change. -/
theorem inv_insert {s : State V} (h : s.Inv order) {w : ℕ} {x y : Writer V}
    (hx : s.writers.lookup w = some x) (hchange : y.change = x.change) (hbase : y.base = x.base)
    (hread : ∀ i n v, y.reading i = some (n, v) →
      x.base < n ∧ n ≤ s.latest ∧ v = s.versions n i)
    (hcomplete : ∀ i ∈ order, i ∉ y.rest → ∃ r, y.reading i = some r) :
    Inv order { s with writers := s.writers.insert w y } where
  copied := h.copied
  changed {v z} hz := by
    rcases Table.lookup_insert_cases hz with ⟨-, rfl⟩ | ⟨-, hz⟩
    · rw [hchange, hbase]
      exact h.changed hx
    · exact h.changed hz
  readFrom {v z i n value} hz hvalue := by
    rcases Table.lookup_insert_cases hz with ⟨-, rfl⟩ | ⟨-, hz⟩
    · rw [hbase]
      exact hread i n value hvalue
    · exact h.readFrom hz hvalue
  complete {v z i} hz hi hrest := by
    rcases Table.lookup_insert_cases hz with ⟨-, rfl⟩ | ⟨-, hz⟩
    · exact hcomplete i hi hrest
    · exact h.complete hz hi hrest
  made {n} hn := by
    obtain ⟨v, z, hz, hzbase⟩ := h.made hn
    by_cases hv : w = v
    · rw [← hv, hx] at hz
      refine ⟨w, y, by rw [Table.lookup_insert, if_pos rfl], ?_⟩
      rw [hbase, Option.some.inj hz, hzbase]
    · exact ⟨v, z, by rw [Table.lookup_insert, if_neg hv]; exact hz, hzbase⟩

theorem inv_read {s : State V} (h : s.Inv order) {w : ℕ} {x : Writer V} {i : ι} {rest : List ι}
    (hx : s.writers.lookup w = some x) (hrest : x.rest = i :: rest) :
    (s.read w x i rest).Inv order := by
  refine inv_insert h hx rfl rfl ?_ ?_
  · intro j n v hread
    dsimp only at hread
    by_cases hj : j = i
    · subst hj
      rw [Function.update_self] at hread
      obtain ⟨hn, hvalue⟩ := Prod.mk.inj (Option.some.inj hread)
      rw [← hn]
      exact ⟨(h.changed hx).1, Nat.le_refl _, hvalue.symm⟩
    · rw [Function.update_of_ne hj] at hread
      exact h.readFrom hx hread
  · intro j hj hnot
    by_cases hji : j = i
    · subst hji
      exact ⟨_, Function.update_self _ _ _⟩
    · have hold : j ∉ x.rest := by
        rw [hrest, List.mem_cons]
        exact fun hmem ↦ hmem.elim hji hnot
      obtain ⟨r, hr⟩ := h.complete hx hj hold
      exact ⟨r, (Function.update_of_ne hji _ _).trans hr⟩

theorem inv_swap {s : State V} (h : s.Inv order) {w : ℕ} {x : Writer V}
    (hx : s.writers.lookup w = some x) : (s.swap w x).Inv order := by
  have hwriters := inv_insert h hx (y := { x with returned := true }) rfl rfl
    (fun i n v hread ↦ h.readFrom (x := x) hx hread)
    (fun i hi hrest ↦ h.complete (x := x) hx hi hrest)
  refine ⟨?_, hwriters.changed, hwriters.readFrom, hwriters.complete, hwriters.made⟩
  intro i
  rw [swap]
  dsimp only
  cases hread : x.reading i with
  | none => exact h.copied i
  | some r =>
    obtain ⟨n, v⟩ := r
    obtain ⟨-, hle, heq⟩ := h.readFrom hx hread
    exact ⟨hle, heq⟩

theorem inv_step {s : State V} (h : s.Inv order) (a : Action V) : (s.step order a).Inv order := by
  rcases step_cases order s a with heq | ⟨w, c, -, hw, heq⟩ | ⟨w, x, i, rest, -, hx, hrest, heq⟩ |
    ⟨w, x, -, hx, -, -, heq⟩
  · rw [heq]
    exact h
  · rw [heq]
    exact inv_commit h hw
  · rw [heq]
    exact inv_read h hx hrest
  · rw [heq]
    exact inv_swap h hx

/-! ### Fresh copies -/

/-- The copy has every change of every writer that has returned. -/
def Fresh (s : State V) : Prop :=
  ∀ w x, s.writers.lookup w = some x → x.returned = true →
    ∀ i ∈ x.change.touched, x.base < (s.copy i).1

/-- No part that is put in the place of the copy was read before a change of it that has
returned. -/
def Timely (s : State V) : Action V → Prop
  | .swap w => ∀ x, s.writers.lookup w = some x → x.rest = [] → x.returned = false →
      ∀ v y, s.writers.lookup v = some y → y.returned = true →
        ∀ i ∈ y.change.touched, ∀ n value, x.reading i = some (n, value) → y.base < n
  | _ => True

omit [DecidableEq ι] in
theorem fresh_start (store : (i : ι) → V i) : (start store).Fresh := by
  intro w x hx
  exact absurd hx (by simp [start])

/-- The copy after a writer has put its reading in its place. -/
theorem fresh_swap_iff {s : State V} (h : s.Inv order) (hall : ∀ i, i ∈ order) {w : ℕ}
    {x : Writer V} (hx : s.writers.lookup w = some x) (hrest : x.rest = [])
    (hreturned : x.returned = false) : (s.swap w x).Fresh ↔ s.Timely (.swap w) := by
  have hread : ∀ i, ∃ n v, x.reading i = some (n, v) ∧ (s.swap w x).copy i = (n, v) := by
    intro i
    obtain ⟨⟨n, v⟩, hr⟩ := h.complete hx (hall i) (by rw [hrest]; exact List.not_mem_nil)
    exact ⟨n, v, hr, by rw [swap]; dsimp only; rw [hr, Option.getD_some]⟩
  constructor
  · intro hfresh x' hx' _ _ v y hy hyreturned i hi n value hvalue
    rw [hx] at hx'
    rw [← Option.some.inj hx'] at hvalue
    obtain ⟨m, u, hm, hcopy⟩ := hread i
    have hne : w ≠ v := by
      rintro rfl
      rw [hx] at hy
      rw [← Option.some.inj hy, hreturned] at hyreturned
      exact absurd hyreturned Bool.false_ne_true
    have hlt := hfresh v y (by rw [swap, Table.lookup_insert, if_neg hne]; exact hy) hyreturned i hi
    rw [hcopy] at hlt
    rw [hm] at hvalue
    rw [← (Prod.mk.inj (Option.some.inj hvalue)).1]
    exact hlt
  · intro htimely v y hy hyreturned i hi
    obtain ⟨n, u, hn, hcopy⟩ := hread i
    rw [hcopy]
    rcases Table.lookup_insert_cases hy with ⟨-, rfl⟩ | ⟨-, hy⟩
    · exact (h.readFrom hx hn).1
    · exact htimely x hx hrest hreturned v y hy hyreturned i hi n u hn

theorem fresh_commit {s : State V} (h : s.Fresh) (w : ℕ) (c : Change V) :
    (s.commit order w c).Fresh := by
  intro v y hy hreturned i hi
  rcases Table.lookup_insert_cases hy with ⟨-, rfl⟩ | ⟨-, hy⟩
  · exact absurd hreturned Bool.false_ne_true
  · exact h v y hy hreturned i hi

theorem fresh_read {s : State V} (h : s.Fresh) {w : ℕ} {x : Writer V}
    (hx : s.writers.lookup w = some x) (i : ι) (rest : List ι) : (s.read w x i rest).Fresh := by
  intro v y hy hreturned j hj
  rcases Table.lookup_insert_cases hy with ⟨-, rfl⟩ | ⟨-, hy⟩
  · exact h w x hx hreturned j hj
  · exact h v y hy hreturned j hj

/-- A copy stays fresh when no part put in its place is too old, and only then. -/
theorem fresh_step_iff {s : State V} (h : s.Inv order) (hall : ∀ i, i ∈ order) (hfresh : s.Fresh)
    (a : Action V) : (s.step order a).Fresh ↔ s.Timely a := by
  rcases step_cases order s a with heq | ⟨w, c, rfl, -, heq⟩ | ⟨w, x, i, rest, rfl, hx, -, heq⟩ |
    ⟨w, x, rfl, hx, hrest, hreturned, heq⟩
  · rw [heq]
    refine iff_of_true hfresh ?_
    cases a with
    | commit w c => trivial
    | read w => trivial
    | swap w =>
      intro x hx hrest hreturned
      rw [step, hx] at heq
      dsimp only at heq
      rw [hrest, hreturned, List.isEmpty_nil, Bool.not_false, Bool.and_true, if_pos rfl] at heq
      have hlookup : (s.swap w x).writers.lookup w = some { x with returned := true } := by
        rw [swap, Table.lookup_insert, if_pos rfl]
      rw [heq, hx] at hlookup
      have := congrArg Writer.returned (Option.some.inj hlookup)
      rw [hreturned] at this
      exact absurd this Bool.false_ne_true
  · rw [heq]
    exact iff_of_true (fresh_commit hfresh w c) trivial
  · rw [heq]
    exact iff_of_true (fresh_read hfresh hx i rest) trivial
  · rw [heq]
    exact fresh_swap_iff h hall hx hrest hreturned

/-! ### Runs -/

def run (order : List ι) (s : State V) (actions : List (Action V)) : State V :=
  Transition.run (step order) s actions

theorem inv_run {s : State V} (h : s.Inv order) (actions : List (Action V)) :
    (s.run order actions).Inv order :=
  Transition.run_preserves (P := Inv order) (fun _ a h ↦ inv_step h a) h actions

/-- The copy is fresh in every state of a run. -/
def FreshRun (order : List ι) (s : State V) (actions : List (Action V)) : Prop :=
  ∀ before after, actions = before ++ after → (s.run order before).Fresh

def TimelyRun (order : List ι) (s : State V) (actions : List (Action V)) : Prop :=
  ∀ before a after, actions = before ++ a :: after → (s.run order before).Timely a

theorem timelyRun_nil (s : State V) : s.TimelyRun order [] :=
  Transition.eachStep_nil

theorem timelyRun_cons {s : State V} {a : Action V} {actions : List (Action V)} :
    s.TimelyRun order (a :: actions) ↔ s.Timely a ∧ (s.step order a).TimelyRun order actions :=
  @Transition.eachStep_cons _ _ (step order) Timely s a actions

/-- The copy stays fresh over a run in which nothing put in its place is older than a change that
has returned, and over no other run. -/
theorem fresh_run_iff (hall : ∀ i, i ∈ order) (store : (i : ι) → V i)
    (actions : List (Action V)) :
    (start store).FreshRun order actions ↔ (start store).TimelyRun order actions :=
  Transition.forall_run_iff_eachStep (fresh_start store)
    (fun before a hbefore ↦ fresh_step_iff (inv_run (inv_start store) before) hall hbefore a) actions

/-! ### What a fresh copy has -/

/-- A part is the same in two versions if no change made in between has written it. -/
theorem versions_eq_of_untouched {s : State V} (h : s.Inv order) {i : ι} {m n : ℕ} (hmn : m ≤ n)
    (hn : n ≤ s.latest)
    (huntouched : ∀ w x, s.writers.lookup w = some x → m ≤ x.base → i ∉ x.change.touched) :
    s.versions n i = s.versions m i := by
  induction n, hmn using Nat.le_induction with
  | base => rfl
  | succ n hmn ih =>
    obtain ⟨w, x, hx, hbase⟩ := h.made hn
    have hsame := congrFun (h.changed hx).2 i
    rw [Change.apply, if_neg (huntouched w x hx (by omega)), hbase] at hsame
    rw [hsame]
    exact ih (Nat.le_of_succ_le hn)

/-- Once all writers have returned, a fresh copy is the store. -/
theorem copy_eq_store {s : State V} (h : s.Inv order) (hfresh : s.Fresh)
    (hreturned : ∀ w x, s.writers.lookup w = some x → x.returned = true) (i : ι) :
    (s.copy i).2 = s.store i := by
  obtain ⟨hle, heq⟩ := h.copied i
  rw [heq, store]
  refine (versions_eq_of_untouched h hle (Nat.le_refl _) ?_).symm
  intro w x hx hbase htouched
  exact absurd (hfresh w x hx (hreturned w x hx) i htouched) (Nat.not_lt.2 hbase)

/-- What holds of a part in every version from a change of it on, holds of the copy once its writer
has returned. -/
theorem copy_since {s : State V} (h : s.Inv order) (hfresh : s.Fresh) {w : ℕ} {x : Writer V}
    (hx : s.writers.lookup w = some x) (hreturned : x.returned = true) {i : ι}
    (hi : i ∈ x.change.touched) {P : V i → Prop}
    (hsince : ∀ n, x.base < n → n ≤ s.latest → P (s.versions n i)) : P (s.copy i).2 := by
  obtain ⟨hle, heq⟩ := h.copied i
  rw [heq]
  exact hsince _ (hfresh w x hx hreturned i hi) hle

end State

end NextApi.Mirror
