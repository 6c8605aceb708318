import Mathlib.Data.List.AList

/-!
# Tables

A table is a finite map without dependent values, the model of a `HashMap` whose order of
iteration is never used. It is an `AList`, read and changed through functions whose types do not
depend on the key, so that a key can be rewritten.
-/

set_option autoImplicit false

namespace NextApi

/-- A finite map from `κ` to `ν`. -/
def Table (κ ν : Type) := AList fun _ : κ ↦ ν

namespace Table

variable {κ ν : Type}

instance : EmptyCollection (Table κ ν) := inferInstanceAs (EmptyCollection (AList fun _ : κ ↦ ν))

instance : Inhabited (Table κ ν) := ⟨∅⟩

def keys {κ ν : Type} (t : Table κ ν) : List κ := AList.keys t

variable [DecidableEq κ]

def lookup (t : Table κ ν) (key : κ) : Option ν := AList.lookup key t

def insert (t : Table κ ν) (key : κ) (value : ν) : Table κ ν := AList.insert key value t

def erase (t : Table κ ν) (key : κ) : Table κ ν := AList.erase key t

/-- The values, in no particular order. -/
def values {κ ν : Type} (t : Table κ ν) : List ν := t.entries.map Sigma.snd

/-- The number of keys. -/
def size {κ ν : Type} (t : Table κ ν) : ℕ := t.keys.length

/-- Keeps what has a property. -/
def retain {κ ν : Type} (t : Table κ ν) (keep : κ → ν → Bool) : Table κ ν :=
  ⟨t.entries.filter fun entry ↦ keep entry.1 entry.2, t.nodupKeys.sublist List.filter_sublist⟩

@[simp] theorem lookup_empty (key : κ) : (∅ : Table κ ν).lookup key = none :=
  AList.lookup_empty key

@[simp] theorem lookup_insert (t : Table κ ν) (key : κ) (value : ν) (other : κ) :
    (t.insert key value).lookup other = if key = other then some value else t.lookup other := by
  by_cases h : key = other
  · subst h
    rw [if_pos rfl]
    exact AList.lookup_insert t
  · rw [if_neg h]
    exact AList.lookup_insert_ne (Ne.symm h)

@[simp] theorem lookup_erase (t : Table κ ν) (key other : κ) :
    (t.erase key).lookup other = if key = other then none else t.lookup other := by
  by_cases h : key = other
  · subst h
    rw [if_pos rfl]
    exact AList.lookup_erase key t
  · rw [if_neg h]
    exact AList.lookup_erase_ne (Ne.symm h)

@[simp] theorem lookup_retain (t : Table κ ν) (keep : κ → ν → Bool) (key : κ) :
    (t.retain keep).lookup key = (t.lookup key).filter (keep key) := by
  ext value
  rw [← Option.mem_def, ← Option.mem_def, Option.mem_filter_iff]
  exact AList.mem_lookup_iff.trans (List.mem_filter.trans
    (and_congr_left fun _ ↦ AList.mem_lookup_iff.symm))

theorem size_retain_le {κ ν : Type} (t : Table κ ν) (keep : κ → ν → Bool) :
    (t.retain keep).size ≤ t.size :=
  (List.filter_sublist.map _).length_le

theorem mem_keys_iff {t : Table κ ν} {key : κ} : key ∈ t.keys ↔ (t.lookup key).isSome :=
  AList.lookup_isSome.symm

theorem keys_insert (t : Table κ ν) (key : κ) (value : ν) :
    (t.insert key value).keys = key :: t.keys.erase key :=
  AList.keys_insert t

theorem size_insert_of_mem {t : Table κ ν} {key : κ} (h : (t.lookup key).isSome) (value : ν) :
    (t.insert key value).size = t.size := by
  have hmem := mem_keys_iff.2 h
  rw [size, keys_insert, List.length_cons, List.length_erase_of_mem hmem, size,
    Nat.sub_add_cancel (List.length_pos_of_mem hmem)]

theorem size_insert_le (t : Table κ ν) (key : κ) (value : ν) :
    (t.insert key value).size ≤ t.size + 1 := by
  rw [size, keys_insert, List.length_cons, size]
  exact Nat.succ_le_succ List.erase_sublist.length_le

theorem size_erase_of_mem {t : Table κ ν} {key : κ} (h : (t.lookup key).isSome) :
    (t.erase key).size + 1 = t.size := by
  have hmem := mem_keys_iff.2 h
  have hkeys : (t.erase key).keys = t.keys.erase key := AList.keys_erase key t
  rw [size, hkeys, List.length_erase_of_mem hmem, size,
    Nat.sub_add_cancel (List.length_pos_of_mem hmem)]

theorem size_erase_le (t : Table κ ν) (key : κ) : (t.erase key).size ≤ t.size := by
  have hkeys : (t.erase key).keys = t.keys.erase key := AList.keys_erase key t
  rw [size, hkeys]
  exact List.erase_sublist.length_le

theorem size_insert_of_lookup_none {t : Table κ ν} {key : κ} (h : t.lookup key = none) (value : ν) :
    (t.insert key value).size = t.size + 1 := by
  have hmem : key ∉ t.keys := fun hmem ↦ by
    rw [mem_keys_iff, h] at hmem
    exact nomatch hmem
  rw [size, keys_insert, List.length_cons, List.erase_of_not_mem hmem, size]

/-- A table that loses nothing is kept as it is. -/
theorem retain_eq_self {κ ν : Type} {t : Table κ ν} {keep : κ → ν → Bool}
    (h : t.size ≤ (t.retain keep).size) : t.retain keep = t := by
  have hsub : (t.entries.filter fun entry ↦ keep entry.1 entry.2).Sublist t.entries :=
    List.filter_sublist
  refine AList.ext (hsub.eq_of_length_le ?_)
  have hlength (t : Table κ ν) : t.size = t.entries.length := List.length_map _
  rwa [hlength, hlength] at h

theorem retain_of_forall {t : Table κ ν} {keep : κ → ν → Bool}
    (h : ∀ key value, t.lookup key = some value → keep key value = true) : t.retain keep = t := by
  refine AList.ext (List.filter_eq_self.2 fun entry hentry ↦ ?_)
  exact h entry.1 entry.2 (AList.mem_lookup_iff.2 hentry)

theorem mem_keys_of_lookup {t : Table κ ν} {key : κ} {value : ν} (h : t.lookup key = some value) :
    key ∈ t.keys :=
  AList.mem_keys.1 (AList.lookup_isSome.1 (Option.isSome_of_mem h))

/-- What is found after an insertion is what was inserted, or was there under another key. -/
theorem lookup_insert_cases {t : Table κ ν} {key other : κ} {value found : ν}
    (h : (t.insert key value).lookup other = some found) :
    (other = key ∧ found = value) ∨ (other ≠ key ∧ t.lookup other = some found) := by
  rw [lookup_insert] at h
  split at h
  · next heq => exact Or.inl ⟨heq.symm, (Option.some.inj h).symm⟩
  · next hne => exact Or.inr ⟨Ne.symm hne, h⟩

end Table

end NextApi
