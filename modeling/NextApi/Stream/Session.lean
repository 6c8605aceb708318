import Mathlib.Data.List.Basic

/-!
# Requests to a database

A request runs statements one after another against what is stored, and ends with an answer or an
error. A statement fails by itself, or because the database refuses it for a reason that has nothing
to do with the statement, a lost connection for one. What a statement has done stays when a later
one fails (`query`), unless both are in one transaction (`transaction`).

`Meets P r Q E` says of a request that is started on a store with `P`, whatever the database
refuses, that an answer comes with a store with `Q` and an error with a store with `E`. There is a
rule for every way to build a request; a loop is judged by what holds after each part of its list
(`meets_forM`), and a transaction ends with an error only on the store that it began with
(`meets_transaction`). Of a loop that writes entries by their keys, the last entry of every key stays
(`meets_forM_last`).
-/

set_option autoImplicit false

namespace NextApi.Sql

variable {σ ε α β : Type}

/-! ### Requests -/

/-- What is stored, and the reason for which the database refuses a statement to come, by the
number of the statement. -/
structure Session (σ ε : Type) where
  store : σ
  refusal : ℕ → Option ε

/-- The session after a statement. -/
def Session.next (s : Session σ ε) (store : σ) : Session σ ε := ⟨store, fun n ↦ s.refusal (n + 1)⟩

def Request (σ ε α : Type) : Type := Session σ ε → Except ε α × Session σ ε

namespace Request

instance : Monad (Request σ ε) where
  pure a := fun s ↦ (.ok a, s)
  bind r next := fun s ↦
    match r s with
    | (.ok a, s') => next a s'
    | (.error e, s') => (.error e, s')

/-- A computation without statements. -/
def ofExcept (x : Except ε α) : Request σ ε α := fun s ↦ (x, s)

/-- One statement, which leaves the store as it is when it fails. -/
def query (statement : σ → Except ε (α × σ)) : Request σ ε α := fun s ↦
  match s.refusal 0 with
  | some e => (.error e, s.next s.store)
  | none =>
    match statement s.store with
    | .ok (a, store) => (.ok a, s.next store)
    | .error e => (.error e, s.next s.store)

/-- A statement that changes the store. -/
def execute (statement : σ → Except ε σ) : Request σ ε Unit :=
  query fun store ↦ (statement store).map fun store' ↦ ((), store')

/-- A statement that reads. -/
def select (read : σ → α) : Request σ ε α := query fun store ↦ .ok (read store, store)

/-- A request between `BEGIN` and `COMMIT`, which are statements themselves. On an error the store
is what it was before. -/
def transaction (body : Request σ ε α) : Request σ ε α := fun s ↦
  let committed : Request σ ε α := do
    execute .ok
    let a ← body
    execute .ok
    return a
  match committed s with
  | (.ok a, s') => (.ok a, s')
  | (.error e, s') => (.error e, { s' with store := s.store })

/-! ### What a request meets -/

/-- An answer or an error, and the store that it comes with. -/
def Ends (result : Except ε α × Session σ ε) (Q : α → σ → Prop) (E : σ → Prop) : Prop :=
  match result with
  | (.ok a, s) => Q a s.store
  | (.error _, s) => E s.store

def Meets (P : σ → Prop) (r : Request σ ε α) (Q : α → σ → Prop) (E : σ → Prop) : Prop :=
  ∀ s : Session σ ε, P s.store → Ends (r s) Q E

variable {P P' E E' : σ → Prop} {Q Q' : α → σ → Prop} {R : β → σ → Prop}

theorem Ends.mono {result : Except ε α × Session σ ε} (h : Ends result Q E)
    (hQ : ∀ a store, Q a store → Q' a store) (hE : ∀ store, E store → E' store) :
    Ends result Q' E' := by
  obtain ⟨x, s⟩ := result
  cases x with
  | ok a => exact hQ a s.store h
  | error e => exact hE s.store h

theorem Meets.mono {r : Request σ ε α} (h : Meets P r Q E) (hP : ∀ store, P' store → P store)
    (hQ : ∀ a store, Q a store → Q' a store) (hE : ∀ store, E store → E' store) :
    Meets P' r Q' E' :=
  fun s hs ↦ (h s (hP s.store hs)).mono hQ hE

theorem meets_pure {a : α} (h : ∀ store, P store → Q a store) :
    Meets P (pure a : Request σ ε α) Q E :=
  fun s hs ↦ h s.store hs

theorem meets_bind {r : Request σ ε α} {next : α → Request σ ε β} (hr : Meets P r Q E)
    (hnext : ∀ a, Meets (Q a) (next a) R E) : Meets P (r >>= next) R E := by
  intro s hs
  have hfirst := hr s hs
  show Ends (match r s with | (.ok a, s') => next a s' | (.error e, s') => (.error e, s')) R E
  split
  · next a s' heq =>
    rw [heq] at hfirst
    exact hnext a s' hfirst
  · next e s' heq =>
    rw [heq] at hfirst
    exact hfirst

/-- A computation leaves the store as it is. -/
theorem meets_ofExcept {x : Except ε α} (hok : ∀ a, x = .ok a → ∀ store, P store → Q a store)
    (herror : ∀ e, x = .error e → ∀ store, P store → E store) :
    Meets P (ofExcept x : Request σ ε α) Q E := by
  intro s hs
  rw [ofExcept]
  cases x with
  | ok a => exact hok a rfl s.store hs
  | error e => exact herror e rfl s.store hs

theorem meets_query {statement : σ → Except ε (α × σ)}
    (hok : ∀ store a store', P store → statement store = .ok (a, store') → Q a store')
    (herror : ∀ store, P store → E store) : Meets P (query statement) Q E := by
  intro s hs
  rw [query]
  split
  · exact herror s.store hs
  · split
    · next a store' heq => exact hok s.store a store' hs heq
    · exact herror s.store hs

theorem meets_execute {statement : σ → Except ε σ} {Q : σ → Prop}
    (hok : ∀ store store', P store → statement store = .ok store' → Q store')
    (herror : ∀ store, P store → E store) : Meets P (execute statement) (fun _ ↦ Q) E := by
  refine meets_query (fun store a store' hstore heq ↦ ?_) herror
  cases hstatement : statement store with
  | error e =>
    rw [hstatement] at heq
    exact absurd heq (by simp [Except.map])
  | ok after =>
    rw [hstatement] at heq
    rw [← (Prod.mk.inj (Except.ok.inj heq)).2]
    exact hok store after hstore hstatement

theorem meets_select {read : σ → α} (hok : ∀ store, P store → Q (read store) store)
    (herror : ∀ store, P store → E store) : Meets P (select read : Request σ ε α) Q E := by
  refine meets_query (fun store a store' hstore heq ↦ ?_) herror
  obtain ⟨rfl, rfl⟩ := Prod.mk.inj (Except.ok.inj heq)
  exact hok store hstore

/-- A loop over a list: `inv` holds of the part that is done and the store. -/
theorem meets_forM {xs : List β} {f : β → Request σ ε PUnit} (inv : List β → σ → Prop)
    (hstep : ∀ before x after, xs = before ++ x :: after →
      Meets (inv before) (f x) (fun _ ↦ inv (before ++ [x])) E) :
    Meets (inv []) (xs.forM f) (fun _ ↦ inv xs) E := by
  suffices h : ∀ before rest, xs = before ++ rest →
      Meets (inv before) (rest.forM f) (fun _ ↦ inv xs) E from h [] xs rfl
  intro before rest
  induction rest generalizing before with
  | nil =>
    intro hxs
    rw [hxs, List.append_nil, List.forM]
    exact meets_pure fun _ h ↦ h
  | cons x rest ih =>
    intro hxs
    rw [List.forM]
    refine meets_bind (hstep before x rest hxs) fun _ ↦ ih (before ++ [x]) ?_
    rw [hxs, List.append_assoc, List.singleton_append]

/-- What holds of every entry that no later entry has the key of. -/
def LastApplied {κ : Type} (key : β → κ) (Applied : β → σ → Prop) (xs : List β) (store : σ) :
    Prop :=
  ∀ before x after, xs = before ++ x :: after → (∀ y ∈ after, key y ≠ key x) → Applied x store

/-- Where every entry is applied, and stays so until another one has its key, the last entry of
every key is applied after a loop. -/
theorem meets_forM_last {κ : Type} {key : β → κ} {Applied : β → σ → Prop}
    {f : β → Request σ ε PUnit} (xs : List β)
    (hwrite : ∀ x, Meets (fun _ ↦ True) (f x) (fun _ ↦ Applied x) E)
    (hkeep : ∀ x y, key x ≠ key y → Meets (Applied y) (f x) (fun _ ↦ Applied y) E) :
    Meets (fun _ ↦ True) (xs.forM f) (fun _ ↦ LastApplied key Applied xs) E := by
  have hnone : ∀ store, LastApplied key Applied [] store :=
    fun store before x after h ↦ absurd h (by simp)
  refine (meets_forM (LastApplied key Applied) fun before x after _ ↦ ?_).mono
    (fun store _ ↦ hnone store) (fun _ _ h ↦ h) fun _ h ↦ h
  intro s hs
  have hx := hwrite x s trivial
  have hother := fun y hy happlied ↦ hkeep x y hy s happlied
  revert hx hother
  cases f x s with
  | mk result s' =>
    cases result with
    | error e => exact fun hx _ ↦ hx
    | ok a =>
      intro hx hother before' y after' heq hlast
      rcases List.eq_nil_or_concat' after' with rfl | ⟨rest, z, rfl⟩
      · obtain ⟨-, hxy⟩ := List.append_inj' heq rfl
        rw [← List.singleton_inj.1 hxy]
        exact hx
      · rw [← List.cons_append, ← List.append_assoc] at heq
        obtain ⟨hbefore, hxz⟩ := List.append_inj' heq rfl
        obtain rfl := List.singleton_inj.1 hxz
        refine hother y (hlast x (by simp)) (hs before' y rest hbefore fun y' hy' ↦ ?_)
        exact hlast y' (List.mem_append_left _ hy')

/-- A transaction does what its body does, or nothing. -/
theorem meets_transaction {body : Request σ ε α} {store : σ}
    (h : Meets (fun t ↦ t = store) body Q fun _ ↦ True) :
    Meets (fun t ↦ t = store) (transaction body) Q fun t ↦ t = store := by
  intro s hs
  have hcommitted : Meets (fun t ↦ t = store) (do execute .ok; let a ← body; execute .ok; return a)
      Q fun _ ↦ True := by
    refine meets_bind (Q := fun _ t ↦ t = store) (meets_execute ?_ fun _ _ ↦ trivial) fun _ ↦
      meets_bind h fun a ↦ meets_bind (Q := fun _ ↦ Q a) (meets_execute ?_ fun _ _ ↦ trivial)
        fun _ ↦ meets_pure fun _ ht ↦ ht
    · intro t t' ht heq
      rw [← Except.ok.inj heq]
      exact ht
    · intro t t' ht heq
      rw [← Except.ok.inj heq]
      exact ht
  have hends := hcommitted s hs
  rw [transaction]
  split
  · next a s' heq =>
    rw [heq] at hends
    exact hends
  · exact hs

/-! ### A refused first statement -/

/-- When its first statement is refused, a request ends with an error, or has not made a statement
so far, and the store is as it was. -/
def Halts (r : Request σ ε α) : Prop :=
  ∀ s e, s.refusal 0 = some e →
    (∃ a, r s = (.ok a, s)) ∨ ∃ e' s', r s = (.error e', s') ∧ s'.store = s.store

theorem halts_pure (a : α) : Halts (pure a : Request σ ε α) := fun _ _ _ ↦ Or.inl ⟨a, rfl⟩

theorem halts_ofExcept (x : Except ε α) : Halts (ofExcept x : Request σ ε α) := by
  intro s e _
  cases x with
  | ok a => exact Or.inl ⟨a, rfl⟩
  | error e' => exact Or.inr ⟨e', s, rfl, rfl⟩

theorem halts_query (statement : σ → Except ε (α × σ)) : Halts (query statement) := by
  intro s e h
  exact Or.inr ⟨e, s.next s.store, by rw [query, h], rfl⟩

theorem halts_bind {r : Request σ ε α} {next : α → Request σ ε β} (hr : Halts r)
    (hnext : ∀ a, Halts (next a)) : Halts (r >>= next) := by
  intro s e h
  rcases hr s e h with ⟨a, ha⟩ | ⟨e', s', he, hs⟩
  · have hbind : (r >>= next) s = next a s := by
      show (match r s with | (.ok a, s') => next a s' | (.error e, s') => (.error e, s')) = _
      rw [ha]
    rw [hbind]
    exact hnext a s e h
  · refine Or.inr ⟨e', s', ?_, hs⟩
    show (match r s with | (.ok a, s') => next a s' | (.error e, s') => (.error e, s')) = _
    rw [he]

theorem halts_forM {f : β → Request σ ε PUnit} (hf : ∀ x, Halts (f x)) (xs : List β) :
    Halts (xs.forM f) := by
  induction xs with
  | nil => exact halts_pure PUnit.unit
  | cons x rest ih => exact halts_bind (hf x) fun _ ↦ ih

end Request

end NextApi.Sql
