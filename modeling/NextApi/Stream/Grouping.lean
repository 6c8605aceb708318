import NextApi.Stream.Table

/-!
# Grouping and upserting

Two ways of filling a table. `groupInto` goes through a list and adds every item to the entry of
its key, as `entry(key).or_default()` does: the entry of a key is what adding the items of that key
gives (`lookup_groupInto`). `upsertAll` writes the entries of one table into another, merging each
with the entry that is there; merging may fail, and then nothing is written
(`lookup_upsertAll_some`, `lookup_upsertAll_none`). The order in which the entries are written does
not matter, since a table has one entry for a key.
-/

set_option autoImplicit false

namespace NextApi.Table

variable {α κ ν : Type} [DecidableEq κ]

/-! ### Grouping -/

/-- Adds an item to the entry of its key; an item without a key is left out. -/
def addTo (key : α → Option κ) (add : Option ν → α → ν) (t : Table κ ν) (x : α) : Table κ ν :=
  match key x with
  | some k => t.insert k (add (t.lookup k) x)
  | none => t

def groupInto (key : α → Option κ) (add : Option ν → α → ν) (t : Table κ ν) (xs : List α) :
    Table κ ν :=
  xs.foldl (addTo key add) t

/-- Adds items to one entry. -/
def addAll (add : Option ν → α → ν) (entry : Option ν) (xs : List α) : Option ν :=
  xs.foldl (fun entry x ↦ some (add entry x)) entry

theorem addAll_concat (add : Option ν → α → ν) (entry : Option ν) (xs : List α) (x : α) :
    addAll add entry (xs ++ [x]) = some (add (addAll add entry xs) x) := by
  rw [addAll, List.foldl_concat, addAll]

theorem lookup_addTo (key : α → Option κ) (add : Option ν → α → ν) (t : Table κ ν) (x : α)
    (k : κ) :
    (addTo key add t x).lookup k =
      if key x = some k then some (add (t.lookup k) x) else t.lookup k := by
  rw [addTo]
  cases hkey : key x with
  | none => rfl
  | some k' =>
    dsimp only
    rw [lookup_insert]
    by_cases h : k' = k
    · subst h
      rw [if_pos rfl, if_pos rfl]
    · rw [if_neg h, if_neg fun heq ↦ h (Option.some.inj heq)]

/-- The entry of a key is what its items add up to. -/
theorem lookup_groupInto (key : α → Option κ) (add : Option ν → α → ν) (t : Table κ ν)
    (xs : List α) (k : κ) :
    (groupInto key add t xs).lookup k =
      addAll add (t.lookup k) (xs.filter fun x ↦ key x = some k) := by
  induction xs generalizing t with
  | nil => rfl
  | cons x rest ih =>
    rw [groupInto, List.foldl_cons, ← groupInto, ih, lookup_addTo]
    by_cases h : key x = some k
    · rw [if_pos h, List.filter_cons_of_pos (by simpa using h)]
      rfl
    · rw [if_neg h, List.filter_cons_of_neg (by simpa using h)]

/-! ### Upserting -/

/-- The entries of a table. -/
def toList (t : Table κ ν) : List (κ × ν) := t.entries.map fun e ↦ (e.1, e.2)

theorem mem_toList {t : Table κ ν} {k : κ} {v : ν} : (k, v) ∈ t.toList ↔ t.lookup k = some v := by
  rw [toList, List.mem_map]
  constructor
  · rintro ⟨⟨k', v'⟩, hmem, heq⟩
    obtain ⟨rfl, rfl⟩ := Prod.mk.inj heq
    exact AList.mem_lookup_iff.2 hmem
  · intro h
    exact ⟨⟨k, v⟩, AList.mem_lookup_iff.1 h, rfl⟩

omit [DecidableEq κ] in
theorem nodup_keys_toList (t : Table κ ν) : (t.toList.map Prod.fst).Nodup := by
  rw [toList, List.map_map]
  exact t.nodupKeys

/-- Writes one entry, merged with the one that is there. -/
def upsert (merge : Option ν → ν → Option ν) (t : Table κ ν) (entry : κ × ν) :
    Option (Table κ ν) :=
  (merge (t.lookup entry.1) entry.2).map fun v ↦ t.insert entry.1 v

/-- Writes entries in order, as long as merging succeeds. -/
def upsertAll (merge : Option ν → ν → Option ν) (t : Table κ ν) (entries : List (κ × ν)) :
    Option (Table κ ν) :=
  entries.foldlM (upsert merge) t

theorem lookup_upsertEntries {merge : Option ν → ν → Option ν} {entries : List (κ × ν)}
    {t t' : Table κ ν} (hnodup : (entries.map Prod.fst).Nodup)
    (h : upsertAll merge t entries = some t') (k : κ) :
    (∀ v, (k, v) ∈ entries → ∃ w, merge (t.lookup k) v = some w ∧ t'.lookup k = some w) ∧
      (k ∉ entries.map Prod.fst → t'.lookup k = t.lookup k) := by
  induction entries generalizing t with
  | nil =>
    obtain rfl : t = t' := Option.some.inj h
    exact ⟨fun v hv ↦ absurd hv List.not_mem_nil, fun _ ↦ rfl⟩
  | cons entry rest ih =>
    obtain ⟨key, w⟩ := entry
    rw [upsertAll, List.foldlM_cons, Option.bind_eq_bind, Option.bind_eq_some_iff] at h
    obtain ⟨mid, hmid, hrest⟩ := h
    rw [upsert, Option.map_eq_some_iff] at hmid
    obtain ⟨merged, hmerged, rfl⟩ := hmid
    rw [List.map_cons, List.nodup_cons] at hnodup
    obtain ⟨hin, hout⟩ := ih hnodup.2 hrest
    rw [lookup_insert] at hin hout
    constructor
    · intro v hv
      rcases List.mem_cons.1 hv with heq | hv
      · obtain ⟨rfl, rfl⟩ := Prod.mk.inj heq
        refine ⟨merged, hmerged, ?_⟩
        rw [hout hnodup.1, if_pos rfl]
      · have hne : key ≠ k := by
          rintro rfl
          exact hnodup.1 (List.mem_map.2 ⟨_, hv, rfl⟩)
        rw [if_neg hne] at hin
        exact hin v hv
    · intro hk
      rw [List.map_cons, List.mem_cons, not_or] at hk
      rw [hout hk.2, if_neg (Ne.symm hk.1)]

/-- An entry that is written is merged with the one that is there. -/
theorem lookup_upsertAll_some {merge : Option ν → ν → Option ν} {from' t t' : Table κ ν}
    (h : upsertAll merge t from'.toList = some t') {k : κ} {v : ν}
    (hlookup : from'.lookup k = some v) :
    ∃ w, merge (t.lookup k) v = some w ∧ t'.lookup k = some w :=
  (lookup_upsertEntries (nodup_keys_toList from') h k).1 v (mem_toList.2 hlookup)

/-- The other entries stay. -/
theorem lookup_upsertAll_none {merge : Option ν → ν → Option ν} {from' t t' : Table κ ν}
    (h : upsertAll merge t from'.toList = some t') {k : κ} (hlookup : from'.lookup k = none) :
    t'.lookup k = t.lookup k := by
  refine (lookup_upsertEntries (nodup_keys_toList from') h k).2 fun hk ↦ ?_
  obtain ⟨⟨k', v⟩, hmem, rfl⟩ := List.mem_map.1 hk
  rw [mem_toList.1 hmem] at hlookup
  exact absurd hlookup (by simp)

theorem isSome_upsertEntries {merge : Option ν → ν → Option ν} {entries : List (κ × ν)}
    (hnodup : (entries.map Prod.fst).Nodup) (t : Table κ ν) :
    (upsertAll merge t entries).isSome = true ↔
      ∀ e ∈ entries, (merge (t.lookup e.1) e.2).isSome = true := by
  induction entries generalizing t with
  | nil => exact iff_of_true rfl fun e he ↦ absurd he List.not_mem_nil
  | cons entry rest ih =>
    rw [List.map_cons, List.nodup_cons] at hnodup
    rw [upsertAll, List.foldlM_cons, Option.bind_eq_bind, List.forall_mem_cons, upsert]
    cases hmerge : merge (t.lookup entry.1) entry.2 with
    | none => exact iff_of_false Bool.false_ne_true fun h ↦ Bool.false_ne_true h.1
    | some v =>
      have hkept : ∀ e ∈ rest, (t.insert entry.1 v).lookup e.1 = t.lookup e.1 := by
        intro e he
        rw [lookup_insert, if_neg]
        intro heq
        exact hnodup.1 (heq ▸ List.mem_map_of_mem he)
      rw [Option.map_some, Option.bind_some, ← upsertAll, ih hnodup.2, Option.isSome_some,
        and_iff_right rfl]
      refine forall₂_congr fun e he ↦ ?_
      rw [hkept e he]

/-- A table is written when each of its entries can be merged. -/
theorem isSome_upsertAll {merge : Option ν → ν → Option ν} {from' : Table κ ν} (t : Table κ ν) :
    (upsertAll merge t from'.toList).isSome = true ↔
      ∀ k v, from'.lookup k = some v → (merge (t.lookup k) v).isSome = true := by
  rw [isSome_upsertEntries (nodup_keys_toList from') t]
  constructor
  · intro h k v hv
    exact h (k, v) (mem_toList.2 hv)
  · intro h e he
    exact h e.1 e.2 (mem_toList.1 he)

end NextApi.Table
