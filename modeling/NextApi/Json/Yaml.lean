import NextApi.Json.Compact
import NextApi.Json.Members

/-!
# YAML values

`Value` is a parsed YAML document as `serde_yaml::Value` holds one. A value may carry a tag; readers
look through tags (`get`, `asStr`), while the JSON form of a tagged value is an object with the tag
as its only member. A double that is not finite has no JSON form but `null`.

The names of a JSON object are texts, so a mapping has a JSON form only when every key is a scalar
other than `null`. How a double is written as a key is a parameter, of which only the first
character matters: a key that reads as a word is that word (`keyText_eq_some_iff`). Hence the JSON
form of a mapping has under a word what the mapping has (`get?_toJson`).

The entries of a mapping are listed in the order in which they were put in: of two entries with one
key the later one stands.
-/

set_option autoImplicit false

namespace NextApi.Yaml

/-- A YAML document. -/
inductive Value where
  | null
  | bool (b : Bool)
  | int (i : ℤ)
  /-- A double, without a number when it is not finite. -/
  | float (x : Option Dyadic)
  | str (s : String)
  | seq (items : List Value)
  | mapping (entries : List (Value × Value))
  | tagged (tag : String) (value : Value)

namespace Value

/-! ### Readers -/

/-- `untag_ref`. -/
def untag : Value → Value
  | tagged _ value => untag value
  | v => v

def isKey (key : String) : Value → Bool
  | str s => decide (s = key)
  | _ => false

/-- The value of the last entry with this key. -/
def find (key : String) : List (Value × Value) → Option Value
  | [] => none
  | (k, v) :: rest => (find key rest).or (if isKey key k then some v else none)

/-- `get`. -/
def get (v : Value) (key : String) : Option Value :=
  match v.untag with
  | mapping entries => find key entries
  | _ => none

def asStr (v : Value) : Option String :=
  match v.untag with
  | str s => some s
  | _ => none

def isTagged : Value → Bool
  | tagged _ _ => true
  | _ => false

theorem isKey_iff {key : String} {k : Value} : isKey key k = true ↔ k = str key := by
  cases k <;> simp [isKey]

end Value

/-! ### Words as keys -/

/-- A name that no number and no flag is written as. -/
def IsWord (name : String) : Prop :=
  name ≠ "true" ∧ name ≠ "false" ∧ ∃ c ∈ name.toList.head?, c.isDigit = false ∧ c ≠ '-' ∧ c ≠ '!'

theorem IsWord.head_ne {name : String} (h : IsWord name) {s : String}
    (hs : ∀ c ∈ s.toList.head?, c.isDigit = true ∨ c = '-') : s ≠ name := by
  rintro rfl
  obtain ⟨c, hc, hdigit, hsign, -⟩ := h.2.2
  rcases hs c hc with hc | hc
  · exact absurd hc (by simp [hdigit])
  · exact hsign hc

theorem IsWord.tag_ne {name : String} (h : IsWord name) (tag : String) : "!" ++ tag ≠ name := by
  rintro rfl
  obtain ⟨c, hc, -, -, hbang⟩ := h.2.2
  rw [String.toList_append] at hc
  exact hbang (Option.some.inj hc).symm

/-! ### The JSON form -/

/-- How a finite double is written as a key: like every numeral, it begins with a digit or a
sign. -/
class FloatKeys where
  text : Dyadic → String
  numeral : ∀ x, ∀ c ∈ (text x).toList.head?, c.isDigit = true ∨ c = '-'

variable [FloatKeys]

/-- The name that a key becomes. -/
def keyText : Value → Option String
  | .bool b => some (if b then "true" else "false")
  | .int i => some (String.ofList (Json.Compact.printInt i))
  | .float (some x) => some (FloatKeys.text x)
  | .str s => some s
  | _ => none

mutual

/-- `serde_json::to_value`. -/
def toJson : Value → Option Json.Value
  | .null => some .null
  | .bool b => some (.bool b)
  | .int i => some (.int i)
  | .float x => some ((x.map Json.Value.float).getD .null)
  | .str s => some (.str s)
  | .seq items => (toJsonItems items).map .arr
  | .mapping entries => (toJsonEntries entries).map fun members ↦
      .obj (Json.Map.insertAll [] members)
  | .tagged tag value => (toJson value).map fun v ↦ .obj [("!" ++ tag, v)]

def toJsonItems : List Value → Option (List Json.Value)
  | [] => some []
  | v :: rest => do
    let w ← toJson v
    let ws ← toJsonItems rest
    some (w :: ws)

def toJsonEntries : List (Value × Value) → Option (List (String × Json.Value))
  | [] => some []
  | (k, v) :: rest => do
    let name ← keyText k
    let w ← toJson v
    let members ← toJsonEntries rest
    some ((name, w) :: members)

end

/-! ### Words in the JSON form -/

/-- Only the word itself becomes a word. -/
theorem keyText_eq_some_iff {name : String} (h : IsWord name) {k : Value} :
    keyText k = some name ↔ k = .str name := by
  constructor
  · intro hk
    cases k with
    | bool b =>
      cases b with
      | false => exact absurd (Option.some.inj hk).symm h.2.1
      | true => exact absurd (Option.some.inj hk).symm h.1
    | int i =>
      obtain ⟨c, rest, hprint, hc⟩ := Json.Compact.printInt_head i
      refine absurd (Option.some.inj hk) (h.head_ne fun d hd ↦ ?_)
      rw [String.toList_ofList, hprint] at hd
      rwa [← Option.some.inj hd]
    | float x =>
      cases x with
      | none => exact nomatch hk
      | some x => exact absurd (Option.some.inj hk) (h.head_ne (FloatKeys.numeral x))
    | str s => rw [Option.some.inj hk]
    | _ => exact nomatch hk
  · rintro rfl
    rfl

theorem toJsonEntries_cons {k v : Value} {rest : List (Value × Value)}
    {members : List (String × Json.Value)} :
    toJsonEntries ((k, v) :: rest) = some members ↔ ∃ name w members',
      keyText k = some name ∧ toJson v = some w ∧ toJsonEntries rest = some members' ∧
        members = (name, w) :: members' := by
  rw [toJsonEntries]
  simp only [Option.bind_eq_bind, Option.bind_eq_some_iff, Option.some.injEq]
  constructor
  · rintro ⟨name, hname, w, hw, members', hmembers, rfl⟩
    exact ⟨name, w, members', hname, hw, hmembers, rfl⟩
  · rintro ⟨name, w, members', hname, hw, hmembers, rfl⟩
    exact ⟨name, hname, w, hw, members', hmembers, rfl⟩

/-- The items of the JSON form of a sequence. -/
theorem exists_of_toJsonItems {items : List Value} {ws : List Json.Value}
    (h : toJsonItems items = some ws) : ∀ w ∈ ws, ∃ v ∈ items, toJson v = some w := by
  induction items generalizing ws with
  | nil =>
    obtain rfl := Option.some.inj h
    exact fun w hw ↦ absurd hw List.not_mem_nil
  | cons v rest ih =>
    rw [toJsonItems] at h
    simp only [Option.bind_eq_bind, Option.bind_eq_some_iff, Option.some.injEq] at h
    obtain ⟨u, hu, us, hus, rfl⟩ := h
    refine List.forall_mem_cons.2 ⟨⟨v, List.mem_cons_self, hu⟩, fun w hw ↦ ?_⟩
    obtain ⟨v', hv', hw'⟩ := ih hus w hw
    exact ⟨v', List.mem_cons_of_mem v hv', hw'⟩

/-- Every value of a mapping with a JSON form has one. -/
theorem exists_toJson_of_find {name : String} {entries : List (Value × Value)}
    {members : List (String × Json.Value)} (hmembers : toJsonEntries entries = some members)
    {v : Value} (h : Value.find name entries = some v) : ∃ w, toJson v = some w := by
  induction entries generalizing members with
  | nil => exact nomatch h
  | cons entry rest ih =>
    obtain ⟨k, v'⟩ := entry
    obtain ⟨-, w, members', -, hw, hrest, -⟩ := toJsonEntries_cons.1 hmembers
    rw [Value.find, Option.or_eq_some_iff] at h
    rcases h with h | ⟨-, h⟩
    · exact ih hrest h
    · obtain ⟨-, hv⟩ := Option.ite_none_right_eq_some.1 h
      exact ⟨w, Option.some.inj hv ▸ hw⟩

theorem get?_insertAll_entries {name : String} (h : IsWord name) {entries : List (Value × Value)}
    {members : List (String × Json.Value)} (hmembers : toJsonEntries entries = some members)
    (m : Json.Map) : Json.Map.get? (Json.Map.insertAll m members) name =
      ((Value.find name entries).bind toJson).or (Json.Map.get? m name) := by
  induction entries generalizing members m with
  | nil =>
    obtain rfl := Option.some.inj hmembers
    rfl
  | cons entry rest ih =>
    obtain ⟨k, v⟩ := entry
    obtain ⟨key, w, members', hkey, hw, hrest, rfl⟩ := toJsonEntries_cons.1 hmembers
    have hinsert : Json.Map.insertAll m ((key, w) :: members') =
        Json.Map.insertAll (Json.Map.insert m key w) members' := rfl
    rw [hinsert, ih hrest, Json.Map.get?_insert, Value.find]
    by_cases hk : k = .str name
    · subst hk
      obtain rfl := Option.some.inj hkey
      rw [if_pos rfl, if_pos (Value.isKey_iff.2 rfl)]
      cases hfind : Value.find name rest with
      | none =>
        show some w = (toJson v).or _
        rw [hw, Option.some_or]
      | some found =>
        obtain ⟨w', hw'⟩ := exists_toJson_of_find hrest hfind
        rw [Option.some_or, Option.bind_some, hw', Option.some_or, Option.some_or]
    · have hne : key ≠ name := fun heq ↦ hk ((keyText_eq_some_iff h).1 (heq ▸ hkey))
      have hnot : Value.isKey name k = false := by
        rw [Bool.eq_false_iff]
        exact fun hk' ↦ hk (Value.isKey_iff.1 hk')
      rw [if_neg hne, hnot, if_neg Bool.false_ne_true, Option.or_none]

/-- Under a word there is the JSON form of what the document has there, unless it is tagged. -/
theorem get?_toJson {name : String} (h : IsWord name) {v : Value} {w : Json.Value}
    (hw : toJson v = some w) :
    w.get? name = if v.isTagged then none else (v.get name).bind toJson := by
  cases v with
  | tagged tag value =>
    rw [toJson, Option.map_eq_some_iff] at hw
    obtain ⟨u, -, rfl⟩ := hw
    exact if_neg (h.tag_ne tag)
  | mapping entries =>
    rw [toJson, Option.map_eq_some_iff] at hw
    obtain ⟨members, hmembers, rfl⟩ := hw
    refine (get?_insertAll_entries h hmembers []).trans ?_
    rw [Json.Map.get?_nil, Option.or_none]
    rfl
  | seq items =>
    rw [toJson, Option.map_eq_some_iff] at hw
    obtain ⟨ws, -, rfl⟩ := hw
    rfl
  | float x =>
    obtain rfl := Option.some.inj hw
    cases x <;> rfl
  | _ =>
    obtain rfl := Option.some.inj hw
    rfl

/-- The JSON form of a document has its members in order. -/
theorem sorted_toJson {v : Value} {m : Json.Map} (h : toJson v = some (.obj m)) :
    Json.Map.Sorted m := by
  cases v with
  | tagged tag value =>
    rw [toJson, Option.map_eq_some_iff] at h
    obtain ⟨u, -, hu⟩ := h
    rw [← Json.Value.obj.inj hu]
    exact List.pairwise_singleton _ _
  | mapping entries =>
    rw [toJson, Option.map_eq_some_iff] at h
    obtain ⟨members, -, hm⟩ := h
    rw [← Json.Value.obj.inj hm]
    exact Json.Map.sorted_nil.insertAll members
  | seq items =>
    rw [toJson, Option.map_eq_some_iff] at h
    obtain ⟨ws, -, hw⟩ := h
    exact nomatch hw
  | float x => cases x <;> exact nomatch h
  | _ => exact nomatch h

/-- A document with a text for its JSON form is that text. -/
theorem toJson_eq_str_iff {v : Value} {s : String} : toJson v = some (.str s) ↔ v = .str s := by
  constructor
  · intro h
    cases v with
    | str t => rw [Json.Value.str.inj (Option.some.inj h)]
    | float x => cases x <;> exact nomatch h
    | seq items =>
      rw [toJson, Option.map_eq_some_iff] at h
      obtain ⟨ws, -, hw⟩ := h
      exact nomatch hw
    | mapping entries =>
      rw [toJson, Option.map_eq_some_iff] at h
      obtain ⟨members, -, hm⟩ := h
      exact nomatch hm
    | tagged tag value =>
      rw [toJson, Option.map_eq_some_iff] at h
      obtain ⟨u, -, hu⟩ := h
      exact nomatch hu
    | _ => exact nomatch h
  · rintro rfl
    rfl

end NextApi.Yaml
