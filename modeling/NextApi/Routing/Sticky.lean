import Mathlib.Data.List.MinMax
import NextApi.Limit.RateLimiter
import NextApi.Stream.Grouping

/-!
# The table of sticky routes

After a success the upstream is pinned for the key and the model of the request, and the next such
request asks for it. An entry that has not been used for more than ten minutes is dropped when it
is asked for. The table has at most 10,000 entries: a pin to a full table first drops all entries
that have expired and, when there are none, the one that has not been used for the longest time.

Entries are visited in an arbitrary order, which decides between entries of the same age. What a pin
does to the table before it writes is one of three things (`makeRoom_cases`). It does not look
whether its key is in the table already, so a pin that only updates an entry of a full table may
drop another entry (`asNeeded_iff`).

All readings of the clock within one operation are taken to be the same instant.
-/

set_option autoImplicit false

namespace NextApi.Routing

open Logging
open Limit (durationSince)

/-! ### The table -/

def stickyTtl : ℕ := 600 * 10 ^ 9

def stickyCap : ℕ := 10000

/-- A key and a model. -/
abbrev StickyKey := Uuid × String

/-- The upstream of every entry, and when the entry was last used. -/
abbrev StickyMap := Table StickyKey (Uuid × ℕ)

/-- An order in which the entries of a table are visited. -/
structure Iteration where
  entries : StickyMap → List (StickyKey × Uuid × ℕ)
  mem_entries : ∀ map key entry, (key, entry) ∈ entries map ↔ map.lookup key = some entry

/-- `ts.elapsed() <= STICKY_TTL`. -/
def isFresh (now : ℕ) (entry : Uuid × ℕ) : Bool := decide (durationSince now entry.2 ≤ stickyTtl)

namespace StickyMap

/-- The upstream for a key and a model. An entry that is found is used by that. -/
def get (map : StickyMap) (keyId : Uuid) (model : String) (now : ℕ) : Option Uuid × StickyMap :=
  match map.lookup (keyId, model) with
  | none => (none, map)
  | some entry =>
    if isFresh now entry then (some entry.1, map.insert (keyId, model) (entry.1, now))
    else (none, map.erase (keyId, model))

/-- `max_by_key`: of the entries with the greatest age, the last one that is visited. -/
def oldest (map : StickyMap) (iteration : Iteration) (now : ℕ) : Option StickyKey :=
  ((iteration.entries map).reverse.argmax fun entry ↦ durationSince now entry.2.2).map Prod.fst

def dropExpired (map : StickyMap) (now : ℕ) : StickyMap :=
  map.retain fun _ entry ↦ isFresh now entry

/-- What a pin does when the table is full. -/
def makeRoom (map : StickyMap) (iteration : Iteration) (now : ℕ) : StickyMap :=
  if stickyCap ≤ map.size then
    let map := map.dropExpired now
    if stickyCap ≤ map.size then
      match map.oldest iteration now with
      | some key => map.erase key
      | none => map
    else map
  else map

def pin (map : StickyMap) (iteration : Iteration) (keyId : Uuid) (model : String)
    (upstreamId : Uuid) (now : ℕ) : StickyMap :=
  (map.makeRoom iteration now).insert (keyId, model) (upstreamId, now)

end StickyMap

/-! ### What a pin may drop -/

/-- An entry is there before and not after. -/
def Evicted (before after : StickyMap) (key : StickyKey) : Prop :=
  (before.lookup key).isSome = true ∧ after.lookup key = none

/-- An entry has expired. -/
def Expired (map : StickyMap) (now : ℕ) (key : StickyKey) : Prop :=
  ∃ entry, map.lookup key = some entry ∧ isFresh now entry = false

/-- No entry was used before this one. -/
def LeastRecent (map : StickyMap) (key : StickyKey) : Prop :=
  ∃ entry, map.lookup key = some entry ∧
    ∀ other entry', map.lookup other = some entry' → entry.2 ≤ entry'.2

/-- A pin of a key drops entries only from a full table without the key: those that have expired,
or the one that was used least recently. -/
def AsNeeded (map after : StickyMap) (key : StickyKey) (now : ℕ) : Prop :=
  (∃ other, Evicted map after other) → stickyCap ≤ map.size ∧ map.lookup key = none ∧
    ((∀ other, Evicted map after other ↔ Expired map now other) ∨
      ∃ victim, LeastRecent map victim ∧ ∀ other, Evicted map after other ↔ other = victim)

/-- In a full table that has the key, all other entries are fresh, and its own entry has expired or
was used before all others. -/
def Clear (map : StickyMap) (key : StickyKey) (now : ℕ) : Prop :=
  stickyCap ≤ map.size → ∀ own, map.lookup key = some own →
    ∀ other entry, other ≠ key → map.lookup other = some entry →
      isFresh now entry = true ∧ (isFresh now own = true → own.2 < entry.2)

/-! ### The entry that is found -/

section Oldest

variable {map : StickyMap} {iteration : Iteration} {now : ℕ}

/-- No entry is older than the one that is found. -/
theorem oldest_spec {victim : StickyKey} (h : map.oldest iteration now = some victim) :
    ∃ entry, map.lookup victim = some entry ∧ ∀ other entry', map.lookup other = some entry' →
      durationSince now entry'.2 ≤ durationSince now entry.2 := by
  obtain ⟨⟨key, entry⟩, hmax, rfl⟩ := Option.map_eq_some_iff.1 h
  have hmem := List.mem_reverse.1 (List.argmax_mem hmax)
  refine ⟨entry, (iteration.mem_entries map key entry).1 hmem, fun other entry' hother ↦ ?_⟩
  have hin := List.mem_reverse.2 ((iteration.mem_entries map other entry').2 hother)
  have hle := List.le_of_mem_argmax hin hmax
  exact hle

theorem exists_oldest (h : 0 < map.size) (iteration : Iteration) (now : ℕ) :
    ∃ victim, map.oldest iteration now = some victim := by
  obtain ⟨key, hkey⟩ := List.exists_mem_of_length_pos h
  obtain ⟨entry, hentry⟩ := Option.isSome_iff_exists.1 (Table.mem_keys_iff.1 hkey)
  have hmem := (iteration.mem_entries map key entry).2 hentry
  cases hfound : map.oldest iteration now with
  | some victim => exact ⟨victim, rfl⟩
  | none =>
    rw [StickyMap.oldest, Option.map_eq_none_iff, List.argmax_eq_none, List.reverse_eq_nil_iff]
      at hfound
    rw [hfound] at hmem
    exact absurd hmem List.not_mem_nil

/-- The order that visits the entry of a key first. -/
def keyFirst (key : StickyKey) : Iteration where
  entries map := ((map.lookup key).map fun entry ↦ (key, entry)).toList ++
    map.toList.filter fun entry ↦ decide (entry.1 ≠ key)
  mem_entries map other entry := by
    rw [List.mem_append, List.mem_filter, Table.mem_toList, Option.mem_toList,
      Option.map_eq_some_iff, decide_eq_true_iff]
    constructor
    · rintro (⟨entry', hentry, heq⟩ | ⟨hentry, -⟩)
      · obtain ⟨rfl, rfl⟩ := Prod.mk.inj heq
        exact hentry
      · exact hentry
    · intro hentry
      by_cases hkey : other = key
      · subst hkey
        exact .inl ⟨entry, hentry, rfl⟩
      · exact .inr ⟨hentry, hkey⟩

/-- In that order, another entry that is as old is found instead. -/
theorem oldest_keyFirst {key other : StickyKey} {own entry : Uuid × ℕ} (hne : other ≠ key)
    (hown : map.lookup key = some own) (hentry : map.lookup other = some entry)
    (hage : durationSince now own.2 ≤ durationSince now entry.2) :
    map.oldest (keyFirst key) now ≠ some key := by
  set rest := (map.toList.filter fun entry ↦ decide (entry.1 ≠ key)).reverse with hrest
  have hlist : ((keyFirst key).entries map).reverse = rest ++ [(key, own)] := by
    show (((map.lookup key).map fun entry ↦ (key, entry)).toList ++ _).reverse = _
    rw [hown, List.reverse_append]
    rfl
  have hmem : (other, entry) ∈ rest := by
    rw [hrest, List.mem_reverse, List.mem_filter, Table.mem_toList, decide_eq_true_iff]
    exact ⟨hentry, hne⟩
  rw [StickyMap.oldest, hlist, List.argmax_concat]
  cases hmax : rest.argmax fun entry ↦ durationSince now entry.2.2 with
  | none =>
    rw [List.argmax_eq_none] at hmax
    rw [hmax] at hmem
    exact absurd hmem List.not_mem_nil
  | some found =>
    have hle := List.le_of_mem_argmax hmem hmax
    have hfound : found.1 ≠ key := by
      have hin := List.argmax_mem hmax
      rw [hrest, List.mem_reverse, List.mem_filter, decide_eq_true_iff] at hin
      exact hin.2
    show (if _ then _ else _ : Option (StickyKey × Uuid × ℕ)).map Prod.fst ≠ _
    rw [if_neg (Nat.not_lt.2 (hage.trans hle)), Option.map_some]
    exact fun heq ↦ hfound (Option.some.inj heq)

end Oldest

/-! ### What a pin does -/

namespace StickyMap

variable {map : StickyMap} {iteration : Iteration} {now : ℕ}

theorem lookup_dropExpired (map : StickyMap) (now : ℕ) (key : StickyKey) :
    (map.dropExpired now).lookup key = (map.lookup key).filter (isFresh now) :=
  Table.lookup_retain map _ key

/-- There is room, or the entries that have expired make room, or the oldest entry does. -/
theorem makeRoom_cases (hsize : map.size ≤ stickyCap) (iteration : Iteration) (now : ℕ) :
    (map.size < stickyCap ∧ map.makeRoom iteration now = map) ∨
    (stickyCap ≤ map.size ∧ (map.dropExpired now).size < stickyCap ∧
      map.makeRoom iteration now = map.dropExpired now) ∨
    (stickyCap ≤ map.size ∧ map.dropExpired now = map ∧
      ∃ victim, map.oldest iteration now = some victim ∧
        map.makeRoom iteration now = map.erase victim) := by
  by_cases hfull : stickyCap ≤ map.size
  · refine .inr ?_
    rw [makeRoom, if_pos hfull]
    by_cases hstill : stickyCap ≤ (map.dropExpired now).size
    · refine .inr ⟨hfull, ?_⟩
      have hsame : map.dropExpired now = map :=
        Table.retain_eq_self (hsize.trans hstill)
      obtain ⟨victim, hvictim⟩ :=
        exists_oldest (Nat.lt_of_lt_of_le (by decide) hfull) iteration now
      refine ⟨hsame, victim, hvictim, ?_⟩
      rw [hsame] at hstill ⊢
      rw [if_pos hstill, hvictim]
    · exact .inl ⟨hfull, Nat.lt_of_not_le hstill, if_neg hstill⟩
  · exact .inl ⟨Nat.lt_of_not_le hfull, if_neg hfull⟩

/-- After a pin the table has no more entries than it may have. -/
theorem size_pin_le (hsize : map.size ≤ stickyCap) (iteration : Iteration) (keyId : Uuid)
    (model : String) (upstreamId : Uuid) (now : ℕ) :
    (map.pin iteration keyId model upstreamId now).size ≤ stickyCap := by
  refine (Table.size_insert_le _ _ _).trans ?_
  rcases makeRoom_cases hsize iteration now with ⟨hroom, heq⟩ | ⟨-, hroom, heq⟩ |
    ⟨hfull, -, victim, hvictim, heq⟩
  · rw [heq]
    exact hroom
  · rw [heq]
    exact hroom
  · obtain ⟨entry, hentry, -⟩ := oldest_spec hvictim
    rw [heq, Table.size_erase_of_mem (Option.isSome_of_mem hentry)]
    exact hsize

theorem size_get_le (hsize : map.size ≤ stickyCap) (keyId : Uuid) (model : String) (now : ℕ) :
    (map.get keyId model now).2.size ≤ stickyCap := by
  rw [get]
  split
  · exact hsize
  · next entry hentry =>
    split
    · rw [Table.size_insert_of_mem (Option.isSome_of_mem hentry)]
      exact hsize
    · exact (Table.size_erase_le _ _).trans hsize

end StickyMap

/-! ### What a pin drops -/

section Evicted

variable {map : StickyMap} {keyId : Uuid} {model : String} {now : ℕ}

theorem evicted_pin_iff {iteration : Iteration} {upstreamId : Uuid} {other : StickyKey} :
    Evicted map (map.pin iteration keyId model upstreamId now) other ↔
      other ≠ (keyId, model) ∧ Evicted map (map.makeRoom iteration now) other := by
  rw [Evicted, Evicted, StickyMap.pin, Table.lookup_insert]
  by_cases hkey : (keyId, model) = other
  · rw [if_pos hkey]
    exact iff_of_false (fun h ↦ nomatch h.2) fun h ↦ h.1 hkey.symm
  · rw [if_neg hkey, and_iff_right (Ne.symm hkey)]

theorem evicted_dropExpired_iff {other : StickyKey} :
    Evicted map (map.dropExpired now) other ↔ Expired map now other := by
  rw [Evicted, StickyMap.lookup_dropExpired, Expired]
  cases map.lookup other with
  | none => simp
  | some entry => simp [Option.filter]

theorem evicted_erase_iff {victim other : StickyKey} (h : (map.lookup victim).isSome) :
    Evicted map (map.erase victim) other ↔ other = victim := by
  rw [Evicted, Table.lookup_erase]
  constructor
  · rintro ⟨hsome, hnone⟩
    by_contra hne
    rw [if_neg (Ne.symm hne)] at hnone
    rw [hnone] at hsome
    exact nomatch hsome
  · rintro rfl
    exact ⟨h, if_pos rfl⟩

/-- Nothing is dropped, or what has expired, or the oldest entry when nothing has. -/
theorem evicted_cases (hsize : map.size ≤ stickyCap) (iteration : Iteration) :
    (map.size < stickyCap ∧ ∀ other, ¬ Evicted map (map.makeRoom iteration now) other) ∨
    (stickyCap ≤ map.size ∧ (∃ other, Expired map now other) ∧
      ∀ other, Evicted map (map.makeRoom iteration now) other ↔ Expired map now other) ∨
    (stickyCap ≤ map.size ∧ (∀ other, ¬ Expired map now other) ∧
      ∃ victim, map.oldest iteration now = some victim ∧
        ∀ other, Evicted map (map.makeRoom iteration now) other ↔ other = victim) := by
  rcases StickyMap.makeRoom_cases hsize iteration now with ⟨hroom, heq⟩ | ⟨hfull, hroom, heq⟩ |
    ⟨hfull, hsame, victim, hvictim, heq⟩
  · refine .inl ⟨hroom, fun other h ↦ ?_⟩
    rw [heq] at h
    rw [Evicted, h.2] at h
    exact nomatch h.1
  · refine .inr (.inl ⟨hfull, ?_, fun other ↦ by rw [heq, evicted_dropExpired_iff]⟩)
    by_contra hnone
    have hsame : map.dropExpired now = map := Table.retain_of_forall fun key entry hentry ↦ by
      by_contra hold
      exact hnone ⟨key, entry, hentry, Bool.eq_false_iff.2 hold⟩
    rw [hsame] at hroom
    exact absurd hfull (Nat.not_le.2 hroom)
  · refine .inr (.inr ⟨hfull, fun other hexpired ↦ ?_, victim, hvictim, fun other ↦ ?_⟩)
    · rw [← evicted_dropExpired_iff, hsame, Evicted] at hexpired
      rw [hexpired.2] at hexpired
      exact nomatch hexpired.1
    · obtain ⟨entry, hentry, -⟩ := oldest_spec hvictim
      rw [heq, evicted_erase_iff (Option.isSome_of_mem hentry)]

/-- Among entries that were used in the past, the oldest is the one that was used first. -/
theorem leastRecent_of_oldest (hpast : ∀ key entry, map.lookup key = some entry → entry.2 ≤ now)
    {iteration : Iteration} {victim : StickyKey} (h : map.oldest iteration now = some victim) :
    LeastRecent map victim := by
  obtain ⟨entry, hentry, hmax⟩ := oldest_spec h
  refine ⟨entry, hentry, fun other entry' hother ↦ ?_⟩
  have hle : now - entry'.2 ≤ now - entry.2 := hmax other entry' hother
  have hnow := hpast victim entry hentry
  have hnow' := hpast other entry' hother
  omega

/-- However the entries are visited, a pin drops only what it must, exactly when it is no update of
an entry of a full table for which another entry can go. -/
theorem asNeeded_iff (hsize : map.size ≤ stickyCap)
    (hpast : ∀ key entry, map.lookup key = some entry → entry.2 ≤ now) (upstreamId : Uuid) :
    (∀ iteration, AsNeeded map (map.pin iteration keyId model upstreamId now) (keyId, model) now) ↔
      Clear map (keyId, model) now := by
  constructor
  · intro hneeded hfull own hown other entry hne hentry
    -- the key is there, so that nothing may go
    have hkept (iteration : Iteration) (other : StickyKey) (hother : other ≠ (keyId, model)) :
        ¬ Evicted map (map.makeRoom iteration now) other := fun hevicted ↦ by
      have hnone := (hneeded iteration ⟨other, evicted_pin_iff.2 ⟨hother, hevicted⟩⟩).2.1
      rw [hown] at hnone
      exact nomatch hnone
    have hfresh (other : StickyKey) (hother : other ≠ (keyId, model)) :
        ¬ Expired map now other := fun hexpired ↦ by
      rcases evicted_cases hsize (keyFirst (keyId, model)) with ⟨hroom, -⟩ | ⟨-, -, hiff⟩ |
        ⟨-, hnone, -⟩
      · exact absurd hfull (Nat.not_le.2 hroom)
      · exact hkept _ other hother ((hiff other).2 hexpired)
      · exact hnone other hexpired
    refine ⟨?_, fun hown' ↦ ?_⟩
    · by_contra hold
      exact hfresh other hne ⟨entry, hentry, Bool.eq_false_iff.2 hold⟩
    · by_contra hlater
      rcases evicted_cases hsize (keyFirst (keyId, model)) with ⟨hroom, -⟩ |
        ⟨-, ⟨expired, entry', hentry', hold⟩, -⟩ | ⟨-, -, victim, hvictim, hiff⟩
      · exact absurd hfull (Nat.not_le.2 hroom)
      · by_cases hkey : expired = (keyId, model)
        · rw [hkey, hown] at hentry'
          rw [← Option.some.inj hentry', hown'] at hold
          exact nomatch hold
        · exact hfresh expired hkey ⟨entry', hentry', hold⟩
      · have hvictim' : victim ≠ (keyId, model) := fun heq ↦
          oldest_keyFirst hne hown hentry (Nat.sub_le_sub_left (Nat.not_lt.1 hlater) now)
            (hvictim.trans (congrArg some heq))
        exact hkept _ victim hvictim' ((hiff victim).2 rfl)
  · rintro hclear iteration ⟨other, hother⟩
    obtain ⟨hne, hevicted⟩ := evicted_pin_iff.1 hother
    obtain ⟨entry, hentry⟩ := Option.isSome_iff_exists.1 hevicted.1
    rcases evicted_cases hsize iteration with ⟨-, hnone⟩ | ⟨hfull, -, hiff⟩ |
      ⟨hfull, hfresh, victim, hvictim, hiff⟩
    · exact absurd hevicted (hnone other)
    · -- only what has expired goes, and for an update there is no such entry but its own
      have hnew : map.lookup (keyId, model) = none := by
        by_contra hold
        obtain ⟨own, hown⟩ := Option.ne_none_iff_exists'.1 hold
        obtain ⟨entry', hentry', hexpired⟩ := (hiff other).1 hevicted
        rw [hentry] at hentry'
        rw [← Option.some.inj hentry',
          (hclear hfull own hown other entry hne hentry).1] at hexpired
        exact nomatch hexpired
      refine ⟨hfull, hnew, .inl fun x ↦ ?_⟩
      rw [evicted_pin_iff, hiff, and_iff_right_iff_imp]
      rintro ⟨entry', hentry', -⟩ rfl
      rw [hnew] at hentry'
      exact nomatch hentry'
    · obtain rfl := (hiff other).1 hevicted
      have hleast := leastRecent_of_oldest hpast hvictim
      -- an update of an entry that is older than all others drops that one
      have hnew : map.lookup (keyId, model) = none := by
        by_contra hold
        obtain ⟨own, hown⟩ := Option.ne_none_iff_exists'.1 hold
        obtain ⟨entry', hentry', hle⟩ := hleast
        rw [hentry] at hentry'
        obtain rfl := Option.some.inj hentry'
        have hown' : isFresh now own = true := by
          by_contra hold'
          exact hfresh _ ⟨own, hown, Bool.eq_false_iff.2 hold'⟩
        exact absurd ((hclear hfull own hown other entry hne hentry).2 hown')
          (Nat.not_lt.2 (hle _ own hown))
      refine ⟨hfull, hnew, .inr ⟨other, hleast, fun x ↦ ?_⟩⟩
      rw [evicted_pin_iff, hiff, and_iff_right_iff_imp]
      rintro rfl
      exact hne

end Evicted

end NextApi.Routing
