import NextApi.Json.Members

/-!
# Documents and their texts

What every parser and printer of JSON keeps to: a string inside a document is shorter than the text
of the document, which has the quotes around it, and the text of a document ends with a bracket, a
quote, a digit, a letter or white space (`JsonSyntax`).
-/

set_option autoImplicit false

namespace NextApi.Json

/-- A part of a document. -/
inductive Value.Part : Value → Value → Prop
  | whole (v : Value) : Part v v
  | item {v w : Value} {items : List Value} : w ∈ items → Part v w → Part v (.arr items)
  | member {v w : Value} {key : String} {m : Map} : (key, w) ∈ m → Part v w → Part v (.obj m)

class JsonSyntax [SerdeJson] : Prop where
  /-- A string stands between quotes, and no character of it is shorter in the text. -/
  shorter {text s : String} {v : Value} : SerdeJson.ofText text = .ok v → (Value.str s).Part v →
    s.length < text.length
  /-- No document ends with the replacement character. -/
  ending {text : String} {v : Value} : SerdeJson.ofText text = .ok v →
    text.toList.getLast? ≠ some '\uFFFD'
  /-- Nor does a printed one. -/
  printed (v : Value) : (SerdeJson.toText v).toList.getLast? ≠ some '\uFFFD'

namespace Value

theorem mem_of_get? {m : Map} {key : String} {w : Value} (h : Map.get? m key = some w) :
    (key, w) ∈ m := by
  induction m with
  | nil => exact absurd h (by simp)
  | cons member rest ih =>
    obtain ⟨name, v⟩ := member
    rw [Map.get?_cons] at h
    split at h
    · rename_i hname
      rw [← hname, ← Option.some.inj h]
      exact List.mem_cons_self
    · exact List.mem_cons_of_mem _ (ih h)

/-- A part of a member is one of the object. -/
theorem part_of_get? {u v w : Value} {key : String} (h : v.get? key = some w) (hu : u.Part w) :
    u.Part v := by
  cases v with
  | obj m => exact .member (mem_of_get? h) hu
  | _ => exact nomatch h

/-- A text that is a member of a member is a part. -/
theorem part_of_asStr {v : Value} {key name s : String} (h : v[key][name].asStr = some s) :
    (Value.str s).Part v := by
  obtain ⟨w, hw, hs⟩ := Option.bind_eq_some_iff.1 (bind_get?_of_asStr h)
  exact part_of_get? hw (part_of_get? hs (.whole _))

/-- A member is found by its name. -/
theorem get?_eq_some_iff {m : Map} (h : (Map.keys m).Nodup) {key : String} {v : Value} :
    Map.get? m key = some v ↔ (key, v) ∈ m := by
  constructor
  · exact mem_of_get?
  · intro hmem
    induction m with
    | nil => exact absurd hmem List.not_mem_nil
    | cons member rest ih =>
      obtain ⟨name, w⟩ := member
      rw [Map.keys, List.map_cons, List.nodup_cons] at h
      rw [Map.get?_cons]
      rcases List.mem_cons.1 hmem with heq | hmem
      · rw [(Prod.mk.inj heq).1, (Prod.mk.inj heq).2, if_pos rfl]
      · have hne : name ≠ key := by
          rintro rfl
          exact h.1 (List.mem_map.2 ⟨(name, v), hmem, rfl⟩)
        rw [if_neg hne]
        exact ih h.2 hmem

/-- No object of the document has two members of one name. -/
def DistinctNames (v : Value) : Prop := ∀ m, (Value.obj m).Part v → (Map.keys m).Nodup

theorem DistinctNames.item {items : List Value} (h : DistinctNames (.arr items)) {v : Value}
    (hv : v ∈ items) : DistinctNames v := fun m hm ↦ h m (Part.item hv hm)

theorem DistinctNames.member {m : Map} (h : DistinctNames (.obj m)) {member : String × Value}
    (hmember : member ∈ m) : DistinctNames member.2 :=
  fun m' hm' ↦ h m' (Part.member hmember hm')

theorem DistinctNames.names {m : Map} (h : DistinctNames (.obj m)) : (Map.keys m).Nodup :=
  h m (Part.whole _)

/-- Induction on a document, by its items and members. -/
theorem induction {P : Value → Prop} (null : P .null) (bool : ∀ b, P (.bool b))
    (int : ∀ i, P (.int i)) (float : ∀ x, P (.float x)) (str : ∀ s, P (.str s))
    (arr : ∀ items, (∀ v ∈ items, P v) → P (.arr items))
    (obj : ∀ m, (∀ member ∈ m, P member.2) → P (.obj m)) (v : Value) : P v :=
  Value.rec (motive_1 := P) (motive_2 := fun items ↦ ∀ v ∈ items, P v)
    (motive_3 := fun m ↦ ∀ member ∈ m, P member.2) (motive_4 := fun member ↦ P member.2)
    null bool int float str arr obj
    (fun _ h ↦ absurd h List.not_mem_nil)
    (fun _ _ hv hrest ↦ List.forall_mem_cons.2 ⟨hv, hrest⟩)
    (fun _ h ↦ absurd h List.not_mem_nil)
    (fun _ _ hmember hrest ↦ List.forall_mem_cons.2 ⟨hmember, hrest⟩)
    (fun _ _ hv ↦ hv) v

end Value

end NextApi.Json
