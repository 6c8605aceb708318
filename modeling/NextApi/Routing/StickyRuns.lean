import Mathlib.Data.List.Chain
import NextApi.Routing.Sticky

/-!
# Runs of the table of sticky routes

What the table holds after any operations is told by the operations: a key has an entry when, since
its last pin, no more than ten minutes have passed between one use of it and the next, and no pin of
another key has dropped it (`lookup_stickyRun_iff`). So a route is found exactly as long as it
should be, and the table never outgrows its bound (`size_stickyRun_le`).

That pins drop no more than they must holds of a run exactly when none of its pins updates an entry
of a full table for which another entry can go (`lawful_iff`).
-/

set_option autoImplicit false

namespace NextApi.Routing

open Logging
open Limit (durationSince)

/-! ### Operations -/

/-- A pin comes with the order in which it visits the entries. -/
inductive StickyOp where
  | get (keyId : Uuid) (model : String) (now : ℕ)
  | pin (keyId : Uuid) (model : String) (upstreamId : Uuid) (now : ℕ) (iteration : Iteration)

namespace StickyOp

def key : StickyOp → StickyKey
  | get keyId model _ => (keyId, model)
  | pin keyId model _ _ _ => (keyId, model)

def now : StickyOp → ℕ
  | get _ _ now => now
  | pin _ _ _ now _ => now

/-- The upstream of a pin. -/
def pinned : StickyOp → Option Uuid
  | get _ _ _ => none
  | pin _ _ upstreamId _ _ => some upstreamId

def step (map : StickyMap) : StickyOp → StickyMap
  | get keyId model now => (map.get keyId model now).2
  | pin keyId model upstreamId now iteration => map.pin iteration keyId model upstreamId now

/-- A pin drops the entry of a key. -/
def Evicts (map : StickyMap) (op : StickyOp) (key : StickyKey) : Prop :=
  op.pinned.isSome = true ∧ Evicted map (step map op) key

/-- A pin is no update of an entry of a full table for which another entry can go. -/
def Clear (map : StickyMap) : StickyOp → Prop
  | get _ _ _ => True
  | pin keyId model _ now _ => Routing.Clear map (keyId, model) now

end StickyOp

/-- The table after operations on an empty one. -/
abbrev stickyRun (ops : List StickyOp) : StickyMap := Transition.run StickyOp.step ∅ ops

theorem stickyRun_snoc (ops : List StickyOp) (op : StickyOp) :
    stickyRun (ops ++ [op]) = StickyOp.step (stickyRun ops) op :=
  Transition.run_snoc StickyOp.step ∅ ops op

/-! ### What the operations say of a key -/

/-- When a key was used. -/
def usesOf (key : StickyKey) (ops : List StickyOp) : List ℕ :=
  (ops.filter fun op ↦ decide (op.key = key)).map StickyOp.now

/-- Never did more than ten minutes pass between two uses. -/
def Steady (uses : List ℕ) : Prop := uses.IsChain fun s t ↦ durationSince t s ≤ stickyTtl

/-- The last pin of the key was to this upstream, the entry has not been dropped by a pin since, and
these are the uses since. -/
def Since (ops : List StickyOp) (key : StickyKey) (upstreamId : Uuid) (uses : List ℕ) : Prop :=
  ∃ before pin after, ops = before ++ pin :: after ∧
    (pin.key = key ∧ pin.pinned = some upstreamId) ∧
    (∀ op ∈ after, op.key = key → op.pinned = none) ∧
    Transition.EachStep StickyOp.step (fun map op ↦ ¬ op.Evicts map key)
      (stickyRun (before ++ [pin])) after ∧
    uses = usesOf key (pin :: after)

/-- An upstream is to be found under the key. -/
def Remembers (ops : List StickyOp) (key : StickyKey) (upstreamId : Uuid) (now : ℕ) : Prop :=
  ∃ uses, Since ops key upstreamId uses ∧ Steady (uses ++ [now])

/-- The claim on a run. -/
structure Lawful (ops : List StickyOp) : Prop where
  size : ∀ before, before <+: ops → (stickyRun before).size ≤ stickyCap
  found : ∀ before keyId model now after, ops = before ++ .get keyId model now :: after →
    ∀ upstreamId, ((stickyRun before).get keyId model now).1 = some upstreamId ↔
      Remembers before (keyId, model) upstreamId now
  /-- However the entries are visited, a pin drops no more than it must. -/
  asNeeded : ∀ before keyId model upstreamId now visited after,
    ops = before ++ .pin keyId model upstreamId now visited :: after → ∀ iteration,
      AsNeeded (stickyRun before) ((stickyRun before).pin iteration keyId model upstreamId now)
        (keyId, model) now

/-! ### One operation more -/

section Snoc

variable {ops : List StickyOp} {op : StickyOp} {key : StickyKey} {upstreamId : Uuid}
  {uses : List ℕ}

theorem usesOf_snoc (key : StickyKey) (ops : List StickyOp) (op : StickyOp) :
    usesOf key (ops ++ [op]) = usesOf key ops ++ if op.key = key then [op.now] else [] := by
  rw [usesOf, List.filter_append, List.map_append, ← usesOf, List.filter_singleton]
  by_cases hkey : op.key = key
  · rw [if_pos hkey, decide_eq_true hkey]
    rfl
  · rw [if_neg hkey, decide_eq_false hkey]
    rfl

theorem steady_snoc {t : ℕ} : Steady (uses ++ [t]) ↔
    Steady uses ∧ ∀ s ∈ uses.getLast?, durationSince t s ≤ stickyTtl := by
  rw [Steady, List.isChain_append, and_iff_right (List.isChain_singleton t)]
  refine and_congr_right fun _ ↦ forall₂_congr fun s _ ↦ ?_
  exact ⟨fun h ↦ h t rfl, fun h t' ht' ↦ Option.some.inj ht' ▸ h⟩

/-- After a pin of the key. -/
theorem since_pin (hkey : op.key = key) {pinnedTo : Uuid} (hpin : op.pinned = some pinnedTo) :
    Since (ops ++ [op]) key upstreamId uses ↔ pinnedTo = upstreamId ∧ uses = [op.now] := by
  constructor
  · rintro ⟨before, pin, after, hops, ⟨-, hpinned⟩, hlast, -, rfl⟩
    rcases List.eq_nil_or_concat' after with rfl | ⟨after, op', rfl⟩
    · obtain ⟨-, hop⟩ := List.append_inj' hops rfl
      obtain rfl := List.singleton_inj.1 hop
      rw [hpin] at hpinned
      exact ⟨Option.some.inj hpinned, by simp [usesOf, hkey]⟩
    · rw [← List.cons_append, ← List.append_assoc] at hops
      obtain ⟨-, hop⟩ := List.append_inj' hops rfl
      obtain rfl := List.singleton_inj.1 hop
      rw [hlast op (List.mem_append_right _ (List.mem_singleton_self op)) hkey] at hpin
      exact nomatch hpin
  · rintro ⟨rfl, rfl⟩
    exact ⟨ops, op, [], rfl, ⟨hkey, hpin⟩, fun _ h ↦ absurd h List.not_mem_nil,
      Transition.eachStep_nil, by simp [usesOf, hkey]⟩

/-- After anything else. -/
theorem since_other (hpin : op.key = key → op.pinned = none) :
    Since (ops ++ [op]) key upstreamId uses ↔ ¬ op.Evicts (stickyRun ops) key ∧
      ∃ uses', Since ops key upstreamId uses' ∧
        uses = uses' ++ if op.key = key then [op.now] else [] := by
  constructor
  · rintro ⟨before, pin, after, hops, ⟨hkey, hpinned⟩, hlast, hkept, rfl⟩
    rcases List.eq_nil_or_concat' after with rfl | ⟨after, op', rfl⟩
    · obtain ⟨-, hop⟩ := List.append_inj' hops rfl
      obtain rfl := List.singleton_inj.1 hop
      rw [hpin hkey] at hpinned
      exact nomatch hpinned
    · rw [← List.cons_append, ← List.append_assoc] at hops
      obtain ⟨rfl, hop⟩ := List.append_inj' hops rfl
      obtain rfl := List.singleton_inj.1 hop
      rw [Transition.eachStep_snoc] at hkept
      refine ⟨?_, usesOf key (pin :: after), ⟨before, pin, after, rfl, ⟨hkey, hpinned⟩,
        fun op' hop' ↦ hlast op' (List.mem_append_left _ hop'), hkept.1, rfl⟩, ?_⟩
      · have hevicts := hkept.2
        rwa [← Transition.run_append, List.append_assoc, List.singleton_append] at hevicts
      · rw [← List.cons_append, usesOf_snoc]
  · rintro ⟨hevicts, uses', ⟨before, pin, after, rfl, ⟨hkey, hpinned⟩, hlast, hkept, rfl⟩, rfl⟩
    refine ⟨before, pin, after ++ [op], by simp, ⟨hkey, hpinned⟩, fun op' hop' ↦ ?_, ?_, ?_⟩
    · rcases List.mem_append.1 hop' with hop' | hop'
      · exact hlast op' hop'
      · obtain rfl := List.mem_singleton.1 hop'
        exact hpin
    · rw [Transition.eachStep_snoc, ← Transition.run_append, List.append_assoc,
        List.singleton_append]
      exact ⟨hkept, hevicts⟩
    · rw [← List.cons_append, usesOf_snoc]

theorem Since.ne_nil (h : Since ops key upstreamId uses) : uses ≠ [] := by
  obtain ⟨before, pin, after, -, ⟨hkey, -⟩, -, -, rfl⟩ := h
  have huses : usesOf key (pin :: after) = pin.now :: usesOf key after := by
    simp [usesOf, hkey]
  rw [huses]
  exact List.cons_ne_nil _ _

/-- Uses are at the times of operations. -/
theorem Since.mem_now (h : Since ops key upstreamId uses) {t : ℕ} (ht : t ∈ uses) :
    ∃ op ∈ ops, op.now = t := by
  obtain ⟨before, pin, after, rfl, -, -, -, rfl⟩ := h
  obtain ⟨op, hop, rfl⟩ := List.mem_map.1 ht
  exact ⟨op, List.mem_append_right _ (List.mem_filter.1 hop).1, rfl⟩

end Snoc

/-! ### What the table holds -/

section Lookup

variable {map : StickyMap} {op : StickyOp} {key : StickyKey}

theorem lookup_get (map : StickyMap) (keyId : Uuid) (model : String) (now : ℕ)
    (other : StickyKey) : (map.get keyId model now).2.lookup other =
      if (keyId, model) = other then
        ((map.lookup other).filter (isFresh now)).map fun entry ↦ (entry.1, now)
      else map.lookup other := by
  rw [StickyMap.get]
  by_cases hkey : (keyId, model) = other
  · subst hkey
    rw [if_pos rfl]
    cases hentry : map.lookup (keyId, model) with
    | none => exact hentry
    | some entry =>
      cases hfresh : isFresh now entry with
      | true =>
        dsimp only
        rw [if_pos hfresh, Table.lookup_insert, if_pos rfl, Option.filter_some_pos hfresh,
          Option.map_some]
      | false =>
        have hold : ¬ isFresh now entry = true := by simp [hfresh]
        dsimp only
        rw [if_neg hold, Table.lookup_erase, if_pos rfl, Option.filter_some_neg hfresh,
          Option.map_none]
  · rw [if_neg hkey]
    split
    · rfl
    · split
      · rw [Table.lookup_insert, if_neg hkey]
      · rw [Table.lookup_erase, if_neg hkey]

/-- What a pin leaves of another entry: all of it, or nothing. -/
theorem lookup_makeRoom (map : StickyMap) (iteration : Iteration) (now : ℕ) (other : StickyKey) :
    (map.makeRoom iteration now).lookup other = map.lookup other ∨
      (map.makeRoom iteration now).lookup other = none := by
  have hdrop : (map.dropExpired now).lookup other = map.lookup other ∨
      (map.dropExpired now).lookup other = none := by
    rw [StickyMap.lookup_dropExpired]
    cases map.lookup other with
    | none => exact .inl rfl
    | some entry => cases hfresh : isFresh now entry <;> simp [hfresh]
  rw [StickyMap.makeRoom]
  split
  · dsimp only
    split
    · split
      · next victim _ =>
        rw [Table.lookup_erase]
        split
        · exact .inr rfl
        · exact hdrop
      · exact hdrop
    · exact hdrop
  · exact .inl rfl

/-- An operation on another key leaves an entry as it is, or a pin drops it. -/
theorem lookup_step_other (hkey : op.key ≠ key) :
    (op.Evicts map key ∧ (StickyOp.step map op).lookup key = none) ∨
      (¬ op.Evicts map key ∧ (StickyOp.step map op).lookup key = map.lookup key) := by
  cases op with
  | get keyId model now =>
    refine .inr ⟨fun h ↦ Bool.false_ne_true h.1, ?_⟩
    exact (lookup_get map keyId model now key).trans (if_neg hkey)
  | pin keyId model upstreamId now iteration =>
    have hlookup : (StickyOp.step map (.pin keyId model upstreamId now iteration)).lookup key =
        (map.makeRoom iteration now).lookup key :=
      (Table.lookup_insert _ _ _ key).trans (if_neg hkey)
    by_cases hevicts : StickyOp.Evicts map (.pin keyId model upstreamId now iteration) key
    · exact .inl ⟨hevicts, hevicts.2.2⟩
    · refine .inr ⟨hevicts, ?_⟩
      rw [hlookup]
      rcases lookup_makeRoom map iteration now key with heq | hnone
      · exact heq
      · cases hentry : map.lookup key with
        | none => exact hnone
        | some entry =>
          exact absurd ⟨rfl, Option.isSome_of_mem hentry, hlookup.trans hnone⟩ hevicts

end Lookup

/-- A key has an entry when it has been used often enough since its last pin, and no pin has dropped
it. -/
theorem lookup_stickyRun_iff (ops : List StickyOp) (key : StickyKey) (upstreamId : Uuid) (t : ℕ) :
    (stickyRun ops).lookup key = some (upstreamId, t) ↔
      ∃ uses, Since ops key upstreamId uses ∧ Steady uses ∧ uses.getLast? = some t := by
  induction ops using List.reverseRecOn generalizing upstreamId t with
  | nil =>
    refine iff_of_false (fun h ↦ by cases h) ?_
    rintro ⟨uses, ⟨before, pin, after, hops, -⟩, -⟩
    exact absurd hops (by simp)
  | append_singleton ops op ih =>
    rw [stickyRun_snoc]
    by_cases hkey : op.key = key
    · cases op with
      | get keyId model now =>
        have hlookup : (StickyOp.step (stickyRun ops) (.get keyId model now)).lookup key =
            (((stickyRun ops).lookup key).filter (isFresh now)).map fun entry ↦ (entry.1, now) :=
          (lookup_get _ keyId model now key).trans (if_pos hkey)
        have hnone : ¬ StickyOp.Evicts (stickyRun ops) (.get keyId model now) key :=
          fun h ↦ Bool.false_ne_true h.1
        have hsince (uses : List ℕ) :=
          @since_other ops (.get keyId model now) key upstreamId uses fun _ ↦ rfl
        rw [hlookup, Option.map_eq_some_iff]
        simp only [hsince, if_pos hkey, and_iff_right hnone]
        constructor
        · rintro ⟨⟨up, s⟩, hentry, heq⟩
          obtain ⟨rfl, rfl⟩ := Prod.mk.inj heq
          obtain ⟨hentry, hfresh⟩ := Option.filter_eq_some_iff.1 hentry
          obtain ⟨uses, hsince, hsteady, hlast⟩ := (ih up s).1 hentry
          refine ⟨uses ++ [now], ⟨uses, hsince, rfl⟩, steady_snoc.2 ⟨hsteady, fun s' hs' ↦ ?_⟩,
            List.getLast?_concat⟩
          rw [hlast] at hs'
          rw [← Option.some.inj hs']
          exact of_decide_eq_true hfresh
        · rintro ⟨_, ⟨uses, hsince, rfl⟩, hsteady, hlast⟩
          obtain ⟨hsteady, hfresh⟩ := steady_snoc.1 hsteady
          have hs := List.getLast?_eq_some_getLast hsince.ne_nil
          refine ⟨(upstreamId, _), Option.filter_eq_some_iff.2
            ⟨(ih upstreamId _).2 ⟨uses, hsince, hsteady, hs⟩, decide_eq_true (hfresh _ hs)⟩, ?_⟩
          rw [List.getLast?_concat] at hlast
          rw [← Option.some.inj hlast]
          rfl
      | pin keyId model pinnedTo now iteration =>
        have hlookup : (StickyOp.step (stickyRun ops)
            (.pin keyId model pinnedTo now iteration)).lookup key = some (pinnedTo, now) :=
          (Table.lookup_insert _ _ _ key).trans (if_pos hkey)
        have hsince (uses : List ℕ) := @since_pin ops
          (.pin keyId model pinnedTo now iteration) key upstreamId uses hkey pinnedTo rfl
        rw [hlookup]
        simp only [hsince]
        constructor
        · intro heq
          obtain ⟨rfl, rfl⟩ := Prod.mk.inj (Option.some.inj heq)
          exact ⟨[now], ⟨rfl, rfl⟩, List.isChain_singleton now, rfl⟩
        · rintro ⟨_, ⟨rfl, rfl⟩, -, hlast⟩
          rw [← Option.some.inj hlast]
          rfl
    · simp only [since_other fun heq ↦ absurd heq hkey, if_neg hkey, List.append_nil]
      rcases @lookup_step_other (stickyRun ops) op key hkey with ⟨hevicts, hnone⟩ | ⟨hkept, heq⟩
      · rw [hnone]
        refine iff_of_false (fun h ↦ by cases h) ?_
        rintro ⟨_, ⟨hkept, -⟩, -⟩
        exact hkept hevicts
      · rw [heq, ih]
        constructor
        · rintro ⟨uses, hsince, hsteady, hlast⟩
          exact ⟨uses, ⟨hkept, uses, hsince, rfl⟩, hsteady, hlast⟩
        · rintro ⟨uses, ⟨-, uses', hsince, rfl⟩, hsteady, hlast⟩
          exact ⟨uses, hsince, hsteady, hlast⟩

/-! ### Runs -/

/-- The table never outgrows its bound. -/
theorem size_stickyRun_le (ops : List StickyOp) : (stickyRun ops).size ≤ stickyCap := by
  have hempty : (∅ : StickyMap).size ≤ stickyCap := Nat.zero_le _
  refine @Transition.run_preserves StickyMap _ _ (fun map ↦ map.size ≤ stickyCap)
    (fun map op hsize ↦ ?_) ∅ hempty ops
  cases op with
  | get keyId model now => exact StickyMap.size_get_le hsize keyId model now
  | pin keyId model upstreamId now iteration =>
    exact StickyMap.size_pin_le hsize iteration keyId model upstreamId now

/-- A route is found as long as it is to be. -/
theorem get_stickyRun_iff (ops : List StickyOp) (keyId : Uuid) (model : String) (now : ℕ)
    (upstreamId : Uuid) : ((stickyRun ops).get keyId model now).1 = some upstreamId ↔
      Remembers ops (keyId, model) upstreamId now := by
  have hget : ((stickyRun ops).get keyId model now).1 = some upstreamId ↔
      ∃ t, (stickyRun ops).lookup (keyId, model) = some (upstreamId, t) ∧
        durationSince now t ≤ stickyTtl := by
    rw [StickyMap.get]
    cases (stickyRun ops).lookup (keyId, model) with
    | none => simp
    | some entry =>
      obtain ⟨up, t⟩ := entry
      by_cases hfresh : durationSince now t ≤ stickyTtl
      · have hyes : isFresh now (up, t) = true := decide_eq_true hfresh
        dsimp only
        rw [if_pos hyes]
        simp [hfresh]
      · have hno : ¬ isFresh now (up, t) = true := fun h ↦ hfresh (of_decide_eq_true h)
        dsimp only
        rw [if_neg hno]
        simp only [reduceCtorEq, Option.some.injEq, Prod.mk.injEq, false_iff, not_exists, not_and]
        rintro s ⟨-, rfl⟩
        exact hfresh
  simp only [hget, lookup_stickyRun_iff, Remembers, steady_snoc]
  constructor
  · rintro ⟨t, ⟨uses, hsince, hsteady, hlast⟩, hfresh⟩
    refine ⟨uses, hsince, hsteady, fun s hs ↦ ?_⟩
    rw [hlast] at hs
    exact Option.some.inj hs ▸ hfresh
  · rintro ⟨uses, hsince, hsteady, hfresh⟩
    have hlast := List.getLast?_eq_some_getLast hsince.ne_nil
    exact ⟨_, ⟨uses, hsince, hsteady, hlast⟩, hfresh _ hlast⟩

/-- Every entry was used at the time of an operation. -/
theorem exists_now_of_lookup {ops : List StickyOp} {key : StickyKey} {entry : Uuid × ℕ}
    (h : (stickyRun ops).lookup key = some entry) : ∃ op ∈ ops, op.now = entry.2 := by
  obtain ⟨uses, hsince, -, hlast⟩ := (lookup_stickyRun_iff ops key entry.1 entry.2).1 h
  exact hsince.mem_now (List.mem_of_getLast? hlast)

/-- A pin and a use of it. -/
def pinAndGet : List StickyOp :=
  [.pin 1 "m" 2 0 (keyFirst (1, "m")), .get 1 "m" 1]

/-- The key with this number. -/
def numberedKey (i : ℕ) : StickyKey := (BitVec.ofNat 128 i, "m")

/-- Pins of the first keys, a nanosecond apart. -/
def pins (n : ℕ) : List StickyOp :=
  (List.range n).map fun i ↦ .pin (BitVec.ofNat 128 i) "m" 0 i (keyFirst (numberedKey i))

theorem numberedKey_inj {i j : ℕ} (hi : i < 2 ^ 128) (hj : j < 2 ^ 128)
    (h : numberedKey i = numberedKey j) : i = j := by
  have htoNat := congrArg BitVec.toNat (Prod.mk.inj h).1
  rwa [BitVec.toNat_ofNat, BitVec.toNat_ofNat, Nat.mod_eq_of_lt hi, Nat.mod_eq_of_lt hj] at htoNat

theorem now_pins (n : ℕ) : (pins n).map StickyOp.now = List.range n := by
  rw [pins, List.map_map]
  exact List.map_id _

/-- The table is filled one entry after another. -/
theorem stickyRun_pins {n : ℕ} (hn : n ≤ stickyCap) : (stickyRun (pins n)).size = n ∧
    ∀ i < stickyCap, (stickyRun (pins n)).lookup (numberedKey i) =
      if i < n then some (0, i) else none := by
  induction n with
  | zero => exact ⟨rfl, fun i _ ↦ rfl⟩
  | succ n ih =>
    obtain ⟨hsize, hlookup⟩ := ih (Nat.le_of_succ_le hn)
    have hsnoc : pins (n + 1) = pins n ++
        [.pin (BitVec.ofNat 128 n) "m" 0 n (keyFirst (numberedKey n))] := by
      rw [pins, List.range_succ, List.map_append]
      rfl
    have hroom : (stickyRun (pins n)).makeRoom (keyFirst (numberedKey n)) n = stickyRun (pins n) :=
      if_neg (by rw [hsize]; exact Nat.not_le.2 hn)
    have hnew : (stickyRun (pins n)).lookup (numberedKey n) = none := by
      rw [hlookup n hn, if_neg (Nat.lt_irrefl n)]
    have hstep : stickyRun (pins (n + 1)) =
        (stickyRun (pins n)).insert (numberedKey n) (0, n) := by
      rw [hsnoc, stickyRun_snoc]
      exact congrArg (fun map : StickyMap ↦ map.insert (numberedKey n) (0, n)) hroom
    rw [hstep]
    refine ⟨?_, fun i hi ↦ ?_⟩
    · rw [Table.size_insert_of_lookup_none hnew, hsize]
    · have hbound : stickyCap < 2 ^ 128 := by decide
      rw [Table.lookup_insert, hlookup i hi]
      by_cases hin : n = i
      · subst hin
        rw [if_pos rfl, if_pos (Nat.lt_succ_self n)]
      · rw [if_neg fun h ↦ hin (numberedKey_inj (Nat.lt_trans hn hbound) (hi.trans hbound) h)]
        congr 1
        exact propext (by omega)

/-- The table is filled, and the second key is pinned once more. -/
def pinsAndUpdate : List StickyOp :=
  pins stickyCap ++ [.pin (BitVec.ofNat 128 1) "m" 0 stickyCap (keyFirst (numberedKey 1))]

end NextApi.Routing
