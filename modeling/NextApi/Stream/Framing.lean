import Mathlib.Data.List.Basic

/-!
# Reading items from a stream of chunks

A reader takes one item off the front of its input, or asks for more, or fails. What it takes does
not depend on what comes after, so that the chunks in which the input comes do not matter
(`feedAll_eq_some`): all the items of a list of chunks are those of the input as a whole.
-/

set_option autoImplicit false

namespace NextApi.Framing

variable {β α ε : Type}

/-- Takes an item off the front of the input. -/
structure Reader (β α ε : Type) where
  next : List β → Except ε (Option (α × List β))
  shrinks {buf : List β} {x : α} {rest : List β} :
    next buf = .ok (some (x, rest)) → rest.length < buf.length
  item_append {buf : List β} {x : α} {rest : List β} (more : List β) :
    next buf = .ok (some (x, rest)) → next (buf ++ more) = .ok (some (x, rest ++ more))
  error_append {buf : List β} {e : ε} (more : List β) :
    next buf = .error e → next (buf ++ more) = .error e

/-- Takes at most so many items. -/
def splitUpTo (next : List β → Except ε (Option (α × List β))) :
    ℕ → List β → List α × Except ε (List β)
  | 0, buf => ([], .ok buf)
  | n + 1, buf =>
    match next buf with
    | .error e => ([], .error e)
    | .ok none => ([], .ok buf)
    | .ok (some (x, rest)) => (x :: (splitUpTo next n rest).1, (splitUpTo next n rest).2)

namespace Reader

variable (r : Reader β α ε)

/-- All items of the input, and what is left of it or why reading stopped. -/
def split (buf : List β) : List α × Except ε (List β) := splitUpTo r.next (buf.length + 1) buf

variable {r}

/-- Any bound above the length of the input will do. -/
theorem splitUpTo_eq {n m : ℕ} {buf : List β} (hn : buf.length < n) (hm : buf.length < m) :
    splitUpTo r.next n buf = splitUpTo r.next m buf := by
  induction n generalizing m buf with
  | zero => exact absurd hn (Nat.not_lt_zero _)
  | succ n ih =>
    cases m with
    | zero => exact absurd hm (Nat.not_lt_zero _)
    | succ m =>
      rw [splitUpTo, splitUpTo]
      cases hnext : r.next buf with
      | error e => rfl
      | ok item =>
        match item with
        | none => rfl
        | some (x, rest) =>
          have hlt := r.shrinks hnext
          dsimp only
          rw [ih (by omega) (by omega : rest.length < m)]

theorem split_of_error {buf : List β} {e : ε} (h : r.next buf = .error e) :
    r.split buf = ([], .error e) := by
  rw [split, splitUpTo, h]

theorem split_of_none {buf : List β} (h : r.next buf = .ok none) : r.split buf = ([], .ok buf) := by
  rw [split, splitUpTo, h]

theorem split_of_some {buf : List β} {x : α} {rest : List β}
    (h : r.next buf = .ok (some (x, rest))) :
    r.split buf = (x :: (r.split rest).1, (r.split rest).2) := by
  have hrest : splitUpTo r.next buf.length rest = r.split rest :=
    splitUpTo_eq (r.shrinks h) (Nat.lt_succ_self _)
  rw [split, splitUpTo, h]
  dsimp only
  rw [hrest]

/-- Reading stops at once or after an item. -/
theorem split_induction {P : List β → List α → Except ε (List β) → Prop}
    (error : ∀ buf e, r.next buf = .error e → P buf [] (.error e))
    (none : ∀ buf, r.next buf = .ok none → P buf [] (.ok buf))
    (some : ∀ buf x tail, r.next buf = .ok (some (x, tail)) →
      P tail (r.split tail).1 (r.split tail).2 →
        P buf (x :: (r.split tail).1) (r.split tail).2)
    {buf : List β} {xs : List α} {left : Except ε (List β)} (h : r.split buf = (xs, left)) :
    P buf xs left := by
  have hall : P buf (r.split buf).1 (r.split buf).2 := by
    clear h
    induction hn : buf.length using Nat.strongRecOn generalizing buf with
    | ind n ih =>
      cases hnext : r.next buf with
      | error e =>
        rw [split_of_error hnext]
        exact error buf e hnext
      | ok item =>
        match item with
        | .none =>
          rw [split_of_none hnext]
          exact none buf hnext
        | .some (x, tail) =>
          rw [split_of_some hnext]
          exact some buf x tail hnext (ih tail.length (hn ▸ r.shrinks hnext) rfl)
  rw [h] at hall
  exact hall

/-- Reading goes on in what is left of the first part. -/
theorem split_append {buf : List β} {xs : List α} {rest : List β}
    (h : r.split buf = (xs, .ok rest)) (more : List β) :
    r.split (buf ++ more) = (xs ++ (r.split (rest ++ more)).1, (r.split (rest ++ more)).2) := by
  refine split_induction (P := fun buf xs left ↦ ∀ rest, left = .ok rest →
    r.split (buf ++ more) = (xs ++ (r.split (rest ++ more)).1, (r.split (rest ++ more)).2))
    ?_ ?_ ?_ h rest rfl
  · exact fun buf e _ rest hleft ↦ nomatch hleft
  · intro buf _ rest hleft
    rw [← Except.ok.inj hleft]
    rfl
  · intro buf x tail hnext ih rest hleft
    rw [split_of_some (r.item_append more hnext), ih rest hleft]
    rfl


theorem split_append_of_error {buf : List β} {xs : List α} {e : ε}
    (h : r.split buf = (xs, .error e)) (more : List β) :
    r.split (buf ++ more) = (xs, .error e) := by
  refine split_induction (P := fun buf xs left ↦ left = .error e →
    r.split (buf ++ more) = (xs, .error e)) ?_ ?_ ?_ h rfl
  · intro buf e' hnext hleft
    rw [split_of_error (r.error_append more hnext), hleft]
  · exact fun buf _ hleft ↦ nomatch hleft
  · intro buf x tail hnext ih hleft
    rw [split_of_some (r.item_append more hnext), ih hleft]


/-- The items of some chunks, each read with what is left of the ones before. -/
def feedAll (r : Reader β α ε) : List β → List (List β) → Except ε (List α × List β)
  | buf, [] => .ok ([], buf)
  | buf, chunk :: chunks =>
    match r.split (buf ++ chunk) with
    | (_, .error e) => .error e
    | (xs, .ok rest) => (feedAll r rest chunks).map fun fed ↦ (xs ++ fed.1, fed.2)

theorem feedAll_cons {buf chunk rest : List β} {xs : List α}
    (h : r.split (buf ++ chunk) = (xs, .ok rest)) (chunks : List (List β)) :
    r.feedAll buf (chunk :: chunks) =
      (r.feedAll rest chunks).map fun fed ↦ (xs ++ fed.1, fed.2) := by
  rw [feedAll, h]

/-- The first chunk, and then the others. -/
theorem feedAll_cons_eq_ok {buf chunk last : List β} {chunks : List (List β)} {xs : List α} :
    r.feedAll buf (chunk :: chunks) = .ok (xs, last) ↔
      ∃ first rest more, r.split (buf ++ chunk) = (first, .ok rest) ∧
        r.feedAll rest chunks = .ok (more, last) ∧ xs = first ++ more := by
  constructor
  · intro h
    cases hsplit : r.split (buf ++ chunk) with
    | mk first ending =>
      cases ending with
      | error e =>
        rw [feedAll, hsplit] at h
        exact nomatch h
      | ok rest =>
        rw [feedAll_cons hsplit] at h
        cases hfed : r.feedAll rest chunks with
        | error e =>
          rw [hfed] at h
          exact nomatch h
        | ok fed =>
          rw [hfed] at h
          obtain ⟨rfl, rfl⟩ := Prod.mk.inj (Except.ok.inj h)
          exact ⟨first, rest, fed.1, rfl, hfed, rfl⟩
  · intro ⟨first, rest, more, hsplit, hfed, hxs⟩
    rw [feedAll_cons hsplit, hfed, hxs]
    rfl

/-- What is left has no whole item. -/
theorem next_of_split {buf : List β} {xs : List α} {rest : List β}
    (h : r.split buf = (xs, .ok rest)) : r.next rest = .ok none := by
  refine split_induction (P := fun _ _ left ↦ ∀ rest, left = .ok rest → r.next rest = .ok none)
    ?_ ?_ ?_ h rest rfl
  · exact fun buf e _ rest hleft ↦ nomatch hleft
  · intro buf hnext rest hleft
    rw [← Except.ok.inj hleft]
    exact hnext
  · exact fun buf x tail _ ih ↦ ih


/-- The items of some chunks are those of the input as a whole. -/
theorem feedAll_eq_ok {buf : List β} (hbuf : r.next buf = .ok none) {chunks : List (List β)}
    {xs : List α} {rest : List β} :
    r.feedAll buf chunks = .ok (xs, rest) ↔ r.split (buf ++ chunks.flatten) = (xs, .ok rest) := by
  induction chunks generalizing buf xs rest with
  | nil =>
    rw [feedAll, List.flatten_nil, List.append_nil, split_of_none hbuf, Except.ok.injEq,
      Prod.mk.injEq, Prod.mk.injEq, Except.ok.injEq]
  | cons chunk chunks ih =>
    rw [feedAll_cons_eq_ok, List.flatten_cons, ← List.append_assoc]
    constructor
    · intro ⟨first, left, more, hsplit, hfed, hxs⟩
      rw [split_append hsplit, (ih (next_of_split hsplit)).1 hfed, hxs]
    · intro h
      cases hsplit : r.split (buf ++ chunk) with
      | mk first ending =>
        cases ending with
        | error e =>
          rw [split_append_of_error hsplit] at h
          exact nomatch (Prod.mk.inj h).2
        | ok left =>
          rw [split_append hsplit] at h
          obtain ⟨hxs, hrest⟩ := Prod.mk.inj h
          exact ⟨first, left, _, rfl, (ih (next_of_split hsplit)).2 (Prod.ext rfl hrest), hxs.symm⟩

end Reader

end NextApi.Framing
