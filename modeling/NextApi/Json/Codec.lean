import NextApi.Json.Value

/-!
# JSON text

The printer and the parser of JSON come from a third-party package. A `SerdeJson` instance is
that pair: `toText` is `serde_json::to_string` on a value, which cannot fail, and `ofText` is
`serde_json::from_str`, whose error is a message.

`LawfulSerdeJson` says what the gateway relies on. Reading back a printed document gives the
document, with three provisos. The package reads documents of at most 127 nested arrays and
objects. A double may come back with its last digit off. And an object is a `BTreeMap`, so members
come in the order of their names, one for each name: `Value.normalize` is the document with its
members so arranged, and every document that the package can hold is its own normal form.
-/

set_option autoImplicit false

namespace NextApi.Json

/-- A printer and a parser of JSON values. -/
class SerdeJson where
  toText : Value → String
  ofText : String → Except String Value

/-! ### Members in order -/

namespace Map

/-- The names of the members are strictly increasing. -/
def Sorted (m : Map) : Prop := (keys m).Pairwise (· < ·)

@[simp] theorem sorted_nil : Sorted [] := List.Pairwise.nil

theorem sorted_cons {name : String} {v : Value} {rest : Map} :
    Sorted ((name, v) :: rest) ↔ (∀ key ∈ keys rest, name < key) ∧ Sorted rest :=
  List.pairwise_cons

/-- Inserting adds no name but its own. -/
theorem mem_keys_insert {m : Map} {key : String} {v : Value} {other : String}
    (h : other ∈ keys (insert m key v)) : other = key ∨ other ∈ keys m := by
  induction m with
  | nil => exact Or.inl (by simpa [insert, keys] using h)
  | cons member rest ih =>
    obtain ⟨name, w⟩ := member
    rw [insert] at h
    split at h
    · exact Or.inr (by simpa [keys] using h)
    · split at h
      · simpa [keys] using h
      · rw [keys, List.map_cons, List.mem_cons] at h
        rcases h with h | h
        · exact Or.inr (by simp [keys, h])
        · exact (ih h).imp_right fun hm ↦ by
            rw [keys, List.map_cons]
            exact List.mem_cons_of_mem _ hm

/-- Inserting into sorted members keeps them sorted. -/
theorem Sorted.insert {m : Map} (h : Sorted m) (key : String) (v : Value) :
    Sorted (insert m key v) := by
  induction m with
  | nil => exact List.pairwise_singleton _ _
  | cons member rest ih =>
    obtain ⟨name, w⟩ := member
    obtain ⟨hfirst, hrest⟩ := sorted_cons.1 h
    rw [Map.insert]
    split
    · exact sorted_cons.2 ⟨hfirst, hrest⟩
    · rename_i hne
      split
      · rename_i hlt
        refine sorted_cons.2 ⟨fun other hother ↦ ?_, h⟩
        rw [keys, List.map_cons, List.mem_cons] at hother
        rcases hother with rfl | hother
        · exact hlt
        · exact String.lt_trans hlt (hfirst other hother)
      · rename_i hge
        refine sorted_cons.2 ⟨fun other hother ↦ ?_, ih hrest⟩
        rcases mem_keys_insert hother with rfl | hother
        · rcases String.le_total name other with hle | hle
          · exact Decidable.byContradiction fun hnot ↦
              hne (String.le_antisymm hle (String.not_lt.1 hnot))
          · exact absurd (String.not_lt.1 hge) fun hle' ↦ hne (String.le_antisymm hle' hle)
        · exact hfirst other hother

theorem sorted_ofList (l : List (String × Value)) : Sorted (ofList l) := by
  induction l with
  | nil => exact sorted_nil
  | cons member rest ih => exact ih.insert member.1 member.2

/-- A name below all others is inserted first. -/
theorem insert_of_forall_lt {m : Map} {key : String} (v : Value)
    (h : ∀ other ∈ keys m, key < other) : insert m key v = (key, v) :: m := by
  cases m with
  | nil => rfl
  | cons member rest =>
    obtain ⟨name, w⟩ := member
    have hlt : key < name := h name (by simp [keys])
    have hne : name ≠ key := fun heq ↦ String.lt_irrefl _ (heq ▸ hlt)
    rw [insert, if_neg hne, if_pos hlt]

theorem mem_keys_of_get? {m : Map} {key : String} {v : Value} (h : get? m key = some v) :
    key ∈ keys m := by
  induction m with
  | nil => exact absurd h (by simp)
  | cons member rest ih =>
    obtain ⟨name, w⟩ := member
    rw [keys, List.map_cons, List.mem_cons]
    by_cases hname : name = key
    · exact Or.inl hname.symm
    · rw [get?_cons, if_neg hname] at h
      exact Or.inr (ih h)

/-- Inserting what is there changes nothing. -/
theorem insert_of_get? {m : Map} (hm : Sorted m) {key : String} {v : Value}
    (h : get? m key = some v) : insert m key v = m := by
  induction m with
  | nil => exact absurd h (by simp)
  | cons member rest ih =>
    obtain ⟨name, w⟩ := member
    obtain ⟨hfirst, hrest⟩ := sorted_cons.1 hm
    rw [get?_cons] at h
    rw [insert]
    by_cases hname : name = key
    · rw [if_pos hname] at h ⊢
      rw [← Option.some.inj h]
    · rw [if_neg hname] at h ⊢
      rw [if_neg (String.lt_asymm (hfirst key (mem_keys_of_get? h))), ih hrest h]

/-- Sorted members are the object that they make. -/
theorem ofList_of_sorted {m : Map} (h : Sorted m) : ofList m = m := by
  induction m with
  | nil => rfl
  | cons member rest ih =>
    obtain ⟨hfirst, hrest⟩ := sorted_cons.1 h
    rw [ofList, ih hrest]
    exact insert_of_forall_lt _ hfirst

/-- The values of an object come from the list that it was made of. -/
theorem mem_of_mem_insert {m : Map} {key : String} {v : Value} {member : String × Value}
    (h : member ∈ insert m key v) : member.2 = v ∨ member ∈ m := by
  induction m with
  | nil => exact Or.inl (by simp [insert] at h; simp [h])
  | cons first rest ih =>
    obtain ⟨name, w⟩ := first
    rw [insert] at h
    split at h
    · rcases List.mem_cons.1 h with rfl | h
      · exact Or.inl rfl
      · exact Or.inr (List.mem_cons_of_mem _ h)
    · split at h
      · rcases List.mem_cons.1 h with rfl | h
        · exact Or.inl rfl
        · exact Or.inr h
      · rcases List.mem_cons.1 h with rfl | h
        · exact Or.inr List.mem_cons_self
        · exact (ih h).imp_right (List.mem_cons_of_mem _)

theorem mem_of_mem_ofList {l : List (String × Value)} {member : String × Value}
    (h : member ∈ ofList l) : ∃ other ∈ l, member.2 = other.2 := by
  induction l with
  | nil => exact absurd h (by simp [ofList])
  | cons first rest ih =>
    rcases mem_of_mem_insert h with heq | hrest
    · exact ⟨first, List.mem_cons_self, heq⟩
    · obtain ⟨other, hmem, heq⟩ := ih hrest
      exact ⟨other, List.mem_cons_of_mem _ hmem, heq⟩

end Map

/-! ### Normal forms -/

namespace Value

mutual

/-- The document with the members of every object in order, one for each name. -/
def normalize : Value → Value
  | .arr items => .arr (normalizeItems items)
  | .obj members => .obj (Map.ofList (normalizeMembers members))
  | v => v

def normalizeItems : List Value → List Value
  | [] => []
  | v :: rest => normalize v :: normalizeItems rest

def normalizeMembers : List (String × Value) → List (String × Value)
  | [] => []
  | (name, v) :: rest => (name, normalize v) :: normalizeMembers rest

end

mutual

/-- The members of every object are in order, one for each name. -/
def Normal : Value → Prop
  | .arr items => NormalItems items
  | .obj members => Map.Sorted members ∧ NormalMembers members
  | _ => True

def NormalItems : List Value → Prop
  | [] => True
  | v :: rest => Normal v ∧ NormalItems rest

def NormalMembers : List (String × Value) → Prop
  | [] => True
  | (_, v) :: rest => Normal v ∧ NormalMembers rest

end

mutual

/-- The number of nested arrays and objects. -/
def depth : Value → ℕ
  | .arr items => depthItems items + 1
  | .obj members => depthMembers members + 1
  | _ => 0

def depthItems : List Value → ℕ
  | [] => 0
  | v :: rest => max (depth v) (depthItems rest)

def depthMembers : List (String × Value) → ℕ
  | [] => 0
  | (_, v) :: rest => max (depth v) (depthMembers rest)

end

mutual

/-- The document without its doubles. -/
def eraseFloats : Value → Value
  | .float _ => .float 0
  | .arr items => .arr (eraseFloatsItems items)
  | .obj members => .obj (eraseFloatsMembers members)
  | v => v

def eraseFloatsItems : List Value → List Value
  | [] => []
  | v :: rest => eraseFloats v :: eraseFloatsItems rest

def eraseFloatsMembers : List (String × Value) → List (String × Value)
  | [] => []
  | (name, v) :: rest => (name, eraseFloats v) :: eraseFloatsMembers rest

end

/-- What printing and reading keep of a document. -/
def canonical (v : Value) : Value := eraseFloats (normalize v)

theorem normalMembers_iff {members : Map} :
    NormalMembers members ↔ ∀ member ∈ members, Normal member.2 := by
  induction members with
  | nil => simp [NormalMembers]
  | cons member rest ih => simp [NormalMembers, ih]

mutual

theorem normal_normalize : (v : Value) → Normal (normalize v)
  | .null | .bool _ | .int _ | .float _ | .str _ => trivial
  | .arr items => normalItems_normalizeItems items
  | .obj members => by
    refine ⟨Map.sorted_ofList _, normalMembers_iff.2 fun member hmember ↦ ?_⟩
    obtain ⟨other, hother, heq⟩ := Map.mem_of_mem_ofList hmember
    rw [heq]
    exact normalMembers_iff.1 (normalMembers_normalizeMembers members) other hother

theorem normalItems_normalizeItems : (items : List Value) → NormalItems (normalizeItems items)
  | [] => trivial
  | v :: rest => ⟨normal_normalize v, normalItems_normalizeItems rest⟩

theorem normalMembers_normalizeMembers :
    (members : List (String × Value)) → NormalMembers (normalizeMembers members)
  | [] => trivial
  | (_, v) :: rest => ⟨normal_normalize v, normalMembers_normalizeMembers rest⟩

end

mutual

theorem normalize_of_normal : (v : Value) → Normal v → normalize v = v
  | .null, _ | .bool _, _ | .int _, _ | .float _, _ | .str _, _ => rfl
  | .arr items, h => congrArg Value.arr (normalizeItems_of_normal items h)
  | .obj members, h => by
    rw [normalize, normalizeMembers_of_normal members h.2, Map.ofList_of_sorted h.1]

theorem normalizeItems_of_normal :
    (items : List Value) → NormalItems items → normalizeItems items = items
  | [], _ => rfl
  | v :: rest, h => by
    rw [normalizeItems, normalize_of_normal v h.1, normalizeItems_of_normal rest h.2]

theorem normalizeMembers_of_normal :
    (members : List (String × Value)) → NormalMembers members → normalizeMembers members = members
  | [], _ => rfl
  | (name, v) :: rest, h => by
    rw [normalizeMembers, normalize_of_normal v h.1, normalizeMembers_of_normal rest h.2]

end

@[simp] theorem canonical_normalize (v : Value) : canonical (normalize v) = canonical v := by
  rw [canonical, normalize_of_normal _ (normal_normalize v), canonical]

/-! ### Reading a document that was printed -/

theorem get?_normalizeMembers (members : Map) (key : String) :
    Map.get? (normalizeMembers members) key = (Map.get? members key).map normalize := by
  induction members with
  | nil => rfl
  | cons member rest ih =>
    obtain ⟨name, v⟩ := member
    rw [normalizeMembers, Map.get?_cons, Map.get?_cons, ih]
    split <;> rfl

theorem get?_eraseFloatsMembers (members : Map) (key : String) :
    Map.get? (eraseFloatsMembers members) key = (Map.get? members key).map eraseFloats := by
  induction members with
  | nil => rfl
  | cons member rest ih =>
    obtain ⟨name, v⟩ := member
    rw [eraseFloatsMembers, Map.get?_cons, Map.get?_cons, ih]
    split <;> rfl

/-- A member of the canonical document is the member, canonical. -/
theorem get?_canonical (v : Value) (key : String) :
    (canonical v).get? key = (v.get? key).map canonical := by
  cases v with
  | obj members =>
    show Map.get? (eraseFloatsMembers (Map.ofList (normalizeMembers members))) key = _
    rw [get?_eraseFloatsMembers, Map.get?_ofList, get?_normalizeMembers, Option.map_map]
    rfl
  | _ => rfl

/-- The readers of strings and integers see no difference between a document and its canonical
form. -/
theorem asStr_canonical (v : Value) : (canonical v).asStr = v.asStr := by
  cases v <;> rfl

theorem asU64_canonical (v : Value) : (canonical v).asU64 = v.asU64 := by
  cases v <;> rfl

theorem asI64_canonical (v : Value) : (canonical v).asI64 = v.asI64 := by
  cases v <;> rfl

end Value

/-- What the gateway relies on in the printer and the parser. -/
class LawfulSerdeJson [SerdeJson] : Prop where
  ofText_toText (v : Value) (h : v.depth ≤ 127) :
    ∃ w, SerdeJson.ofText (SerdeJson.toText v) = .ok w ∧ w.canonical = v.canonical
  /-- Control characters are escaped, so a printed document is one line. -/
  toText_oneLine (v : Value) : ∀ c ∈ (SerdeJson.toText v).toList, ¬ c.toNat < 32
  /-- The text of an object is enclosed in braces. -/
  toText_object (members : Map) :
    ∃ inner : List Char, (SerdeJson.toText (.obj members)).toList = '\x7b' :: (inner ++ ['\x7d'])

end NextApi.Json
