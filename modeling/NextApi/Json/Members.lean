import NextApi.Json.Codec

/-!
# Members in bulk

The adapters copy the members of one object into another, all of them or those whose names have no
reader, and either let the copy win (`insertAll`) or the member that is already there
(`orInsertAll`). Looking up a name in the result is looking it up in the two objects, one after the
other.

A document that was read is `WellFormed`: the members of every object are in order, and integers
have 64 bits.

Code that walks into a document with `get_mut` changes the member that it finds under a name, and
nothing when there is none: `Value.modify`. A loop over the items of an array changes each of them:
`Value.mapItems`. What is found after an edit is told by `Value.get?_modify`. Edits that undo each
other, whatever else is edited between them, leave a document with ordered members as it was
(`Value.modifyAll_eq_self`).
-/

set_option autoImplicit false

namespace NextApi.Json

namespace Map

/-- The members that have none of these names. -/
def without (m : Map) (names : List String) : Map :=
  m.filter fun member ↦ decide (member.1 ∉ names)

/-- Adds all members, each replacing the value of a member that has its name. -/
def insertAll (m : Map) (members : List (String × Value)) : Map :=
  members.foldl (fun m member ↦ insert m member.1 member.2) m

/-- Adds all members whose names are not there yet. -/
def orInsertAll (m : Map) (members : List (String × Value)) : Map :=
  members.foldl (fun m member ↦ orInsert m member.1 member.2) m

@[simp] theorem get?_without (m : Map) (names : List String) (key : String) :
    get? (without m names) key = if key ∈ names then none else get? m key := by
  induction m with
  | nil => simp [without]
  | cons member rest ih =>
    obtain ⟨name, v⟩ := member
    rw [without] at ih ⊢
    by_cases hname : name ∈ names
    · rw [List.filter_cons_of_neg (by simpa using hname), ih]
      by_cases hkey : key ∈ names
      · rw [if_pos hkey, if_pos hkey]
      · have hne : name ≠ key := fun heq ↦ hkey (heq ▸ hname)
        rw [if_neg hkey, if_neg hkey, get?_cons, if_neg hne]
    · rw [List.filter_cons_of_pos (by simpa using hname), get?_cons, get?_cons, ih]
      by_cases heq : name = key
      · rw [if_pos heq, if_pos heq, if_neg (heq ▸ hname)]
      · rw [if_neg heq, if_neg heq]

@[simp] theorem get?_orInsertAll (m : Map) (members : List (String × Value)) (key : String) :
    get? (orInsertAll m members) key = (get? m key).or (get? members key) := by
  induction members generalizing m with
  | nil => simp [orInsertAll]
  | cons member rest ih =>
    obtain ⟨name, v⟩ := member
    have hstep : orInsertAll m ((name, v) :: rest) = orInsertAll (orInsert m name v) rest := rfl
    rw [hstep, ih, get?_orInsert, get?_cons]
    by_cases heq : name = key
    · subst heq
      cases get? m name <;> simp
    · rw [if_neg heq, if_neg heq]

theorem get?_eq_none_of_notMem {m : Map} {key : String} (h : key ∉ keys m) : get? m key = none := by
  cases hget : get? m key with
  | none => rfl
  | some v => exact absurd (mem_keys_of_get? hget) h

/-- When no name comes twice, the copy of a member is found. -/
theorem get?_insertAll {members : List (String × Value)} (h : Sorted members) (m : Map)
    (key : String) : get? (insertAll m members) key = (get? members key).or (get? m key) := by
  induction members generalizing m with
  | nil => simp [insertAll]
  | cons member rest ih =>
    obtain ⟨name, v⟩ := member
    obtain ⟨hfirst, hrest⟩ := sorted_cons.1 h
    have hstep : insertAll m ((name, v) :: rest) = insertAll (insert m name v) rest := rfl
    rw [hstep, ih hrest, get?_insert, get?_cons]
    by_cases heq : name = key
    · subst heq
      have hnone : get? rest name = none :=
        get?_eq_none_of_notMem fun hmem ↦ String.lt_irrefl name (hfirst name hmem)
      rw [hnone, if_pos rfl, if_pos rfl, Option.none_or, Option.some_or]
    · rw [if_neg heq, if_neg heq]

/-- Members of other names leave a member alone. -/
theorem get?_insertAll_of_notMem {members : List (String × Value)} {key : String}
    (h : key ∉ keys members) (m : Map) : get? (insertAll m members) key = get? m key := by
  induction members generalizing m with
  | nil => rfl
  | cons member rest ih =>
    obtain ⟨name, v⟩ := member
    rw [keys, List.map_cons, List.mem_cons, not_or] at h
    have hstep : insertAll m ((name, v) :: rest) = insertAll (insert m name v) rest := rfl
    rw [hstep, ih h.2, get?_insert, if_neg (Ne.symm h.1)]

/-- The members without these names have none of them. -/
theorem notMem_keys_without (m : Map) {names : List String} {key : String} (h : key ∈ names) :
    key ∉ keys (without m names) := by
  intro hmem
  obtain ⟨member, hmember, heq⟩ := List.mem_map.1 hmem
  rw [without, List.mem_filter, decide_eq_true_eq, heq] at hmember
  exact hmember.2 h

/-- The value that a list of optional members has for this name. -/
def written : List (String × Option Value) → String → Option Value
  | [], _ => none
  | (name, v) :: rest, key => if name = key then v else written rest key

@[simp] theorem written_nil (key : String) : written [] key = none := rfl

@[simp] theorem written_cons (name : String) (v : Option Value)
    (rest : List (String × Option Value)) (key : String) :
    written ((name, v) :: rest) key = if name = key then v else written rest key := rfl

theorem written_eq_none_of_notMem {members : List (String × Option Value)} {key : String}
    (h : key ∉ members.map Prod.fst) : written members key = none := by
  induction members with
  | nil => rfl
  | cons member rest ih =>
    rw [List.map_cons, List.mem_cons, not_or] at h
    rw [written, if_neg (Ne.symm h.1), ih h.2]

/-- When no name comes twice, a member is the one that is written, or the one that was there. -/
theorem get?_insertPresent {members : List (String × Option Value)}
    (h : (members.map Prod.fst).Nodup) (m : Map) (key : String) :
    get? (insertPresent m members) key = (written members key).or (get? m key) := by
  induction members generalizing m with
  | nil => rfl
  | cons member rest ih =>
    obtain ⟨name, v⟩ := member
    rw [List.map_cons, List.nodup_cons] at h
    rw [insertPresent_cons, ih h.2, get?_insertOpt, written_cons]
    by_cases heq : name = key
    · subst heq
      rw [if_pos rfl, if_pos rfl, written_eq_none_of_notMem h.1, Option.none_or]
    · rw [if_neg heq, if_neg heq]

theorem insert_ne_nil (m : Map) (key : String) (v : Value) : insert m key v ≠ [] := by
  intro h
  have hget := get?_insert m key v key
  rw [h, if_pos rfl] at hget
  exact nomatch hget

/-- Some member is written when one has a value. -/
theorem insertPresent_ne_nil {m : Map} {members : List (String × Option Value)} :
    insertPresent m members ≠ [] ↔ m ≠ [] ∨ ∃ member ∈ members, member.2.isSome = true := by
  induction members generalizing m with
  | nil => exact (or_iff_left fun ⟨member, hmember, _⟩ ↦ List.not_mem_nil hmember).symm
  | cons member rest ih =>
    obtain ⟨name, v⟩ := member
    rw [insertPresent_cons, ih, List.exists_mem_cons_iff, ← or_assoc]
    refine or_congr_left ?_
    cases v with
    | none => exact (or_iff_left fun h ↦ nomatch h).symm
    | some v => exact iff_of_true (insert_ne_nil m name v) (Or.inr rfl)

/-! ### Members stay in order -/

theorem Sorted.without {m : Map} (h : Sorted m) (names : List String) :
    Sorted (without m names) := by
  induction m with
  | nil => exact sorted_nil
  | cons member rest ih =>
    obtain ⟨name, v⟩ := member
    obtain ⟨hfirst, hrest⟩ := sorted_cons.1 h
    rw [Map.without]
    by_cases hname : name ∈ names
    · rw [List.filter_cons_of_neg (by simpa using hname)]
      exact ih hrest
    · rw [List.filter_cons_of_pos (by simpa using hname)]
      refine sorted_cons.2 ⟨fun key hkey ↦ hfirst key ?_, ih hrest⟩
      exact (List.filter_sublist.map Prod.fst).subset hkey

theorem Sorted.orInsert {m : Map} (h : Sorted m) (key : String) (v : Value) :
    Sorted (orInsert m key v) := by
  rw [Map.orInsert]
  split
  · exact h
  · exact h.insert key v

theorem Sorted.insertOpt {m : Map} (h : Sorted m) (key : String) (v : Option Value) :
    Sorted (insertOpt m key v) := by
  cases v with
  | none => exact h
  | some v => exact h.insert key v

theorem Sorted.insertAll {m : Map} (h : Sorted m) (members : List (String × Value)) :
    Sorted (insertAll m members) := by
  induction members generalizing m with
  | nil => exact h
  | cons member rest ih => exact ih (h.insert member.1 member.2)

/-- A member whose name comes last is put at the end. -/
theorem insert_of_forall_gt {m : Map} {key : String} (h : ∀ name ∈ keys m, name < key)
    (v : Value) : insert m key v = m ++ [(key, v)] := by
  induction m with
  | nil => rfl
  | cons member rest ih =>
    obtain ⟨name, w⟩ := member
    obtain ⟨hname, hrest⟩ := List.forall_mem_cons.1 h
    rw [insert, if_neg (String.ne_of_lt hname), if_neg (String.lt_asymm hname), ih hrest]
    rfl

/-- Members in order are inserted as they are. -/
theorem insertAll_of_sorted {m : Map} {members : List (String × Value)}
    (h : Sorted (m ++ members)) : insertAll m members = m ++ members := by
  induction members generalizing m with
  | nil => exact (List.append_nil m).symm
  | cons member rest ih =>
    obtain ⟨name, v⟩ := member
    have hkeys := h
    rw [Sorted, keys, List.map_append, List.map_cons, List.pairwise_append] at hkeys
    have hlast : ∀ key ∈ keys m, key < name :=
      fun key hkey ↦ hkeys.2.2 key hkey name List.mem_cons_self
    rw [List.append_cons] at h ⊢
    rw [← insert_of_forall_gt hlast v] at h ⊢
    exact ih h

theorem Sorted.orInsertAll {m : Map} (h : Sorted m) (members : List (String × Value)) :
    Sorted (orInsertAll m members) := by
  induction members generalizing m with
  | nil => exact h
  | cons member rest ih => exact ih (h.orInsert member.1 member.2)

end Map

/-! ### String members -/

namespace Value

theorem get?_of_asStr {v : Value} {key s : String} (h : v[key].asStr = some s) :
    v.get? key = some (.str s) := by
  rw [getElem_eq] at h
  cases hget : v.get? key with
  | none =>
    rw [hget] at h
    exact nomatch h
  | some w =>
    rw [hget, Option.getD_some] at h
    cases w with
    | str t => rw [← Option.some.inj h]
    | _ => exact nomatch h

/-- A value with a string member is an object. -/
theorem eq_obj_of_asStr {v : Value} {key s : String} (h : v[key].asStr = some s) :
    ∃ m, v = .obj m ∧ Map.get? m key = some (.str s) := by
  have hget := get?_of_asStr h
  cases v with
  | obj m => exact ⟨m, rfl, hget⟩
  | _ => exact nomatch hget

/-- A string member of a member. -/
theorem bind_get?_of_asStr {v : Value} {key key' s : String}
    (h : v[key][key'].asStr = some s) :
    ((v.get? key).bind fun w ↦ w.get? key') = some (.str s) := by
  have hget := get?_of_asStr h
  rw [getElem_eq] at hget
  cases hw : v.get? key with
  | none =>
    rw [hw] at hget
    exact nomatch hget
  | some w =>
    rw [hw, Option.getD_some] at hget
    rw [Option.bind_some, hget]

/-! ### Documents that were read -/

mutual

/-- Every integer is one of `i64` or `u64`. -/
def Fits64 : Value → Prop
  | .int i => -2 ^ 63 ≤ i ∧ i < 2 ^ 64
  | .arr items => Fits64Items items
  | .obj members => Fits64Members members
  | _ => True

def Fits64Items : List Value → Prop
  | [] => True
  | v :: rest => Fits64 v ∧ Fits64Items rest

def Fits64Members : List (String × Value) → Prop
  | [] => True
  | (_, v) :: rest => Fits64 v ∧ Fits64Members rest

end

mutual

def decidableFits64 : (v : Value) → Decidable v.Fits64
  | .null => .isTrue trivial
  | .bool _ => .isTrue trivial
  | .int i => inferInstanceAs (Decidable (-2 ^ 63 ≤ i ∧ i < 2 ^ 64))
  | .float _ => .isTrue trivial
  | .str _ => .isTrue trivial
  | .arr items => decidableFits64Items items
  | .obj members => decidableFits64Members members

def decidableFits64Items : (items : List Value) → Decidable (Fits64Items items)
  | [] => .isTrue trivial
  | v :: rest =>
    let _ := decidableFits64 v
    let _ := decidableFits64Items rest
    inferInstanceAs (Decidable (Fits64 v ∧ Fits64Items rest))

def decidableFits64Members : (members : List (String × Value)) → Decidable (Fits64Members members)
  | [] => .isTrue trivial
  | (_, v) :: rest =>
    let _ := decidableFits64 v
    let _ := decidableFits64Members rest
    inferInstanceAs (Decidable (Fits64 v ∧ Fits64Members rest))

end

instance (v : Value) : Decidable v.Fits64 := decidableFits64 v

instance (v : Value) : Decidable v.Normal :=
  decidable_of_iff (normalize v = v) ⟨fun h ↦ h ▸ normal_normalize v, normalize_of_normal v⟩

/-- What the package can hold: objects are maps, and integers have 64 bits. -/
structure WellFormed (v : Value) : Prop where
  normal : v.Normal
  fits64 : v.Fits64

instance (v : Value) : Decidable v.WellFormed :=
  decidable_of_iff (v.Normal ∧ v.Fits64) ⟨fun h ↦ ⟨h.1, h.2⟩, fun h ↦ ⟨h.normal, h.fits64⟩⟩

/-- `as_u64` with `u32::try_from`. -/
def asU32 (v : Value) : Option UInt32 :=
  (v.asU64.filter fun n ↦ decide (n < 2 ^ 32)).map UInt32.ofNat

theorem WellFormed.get? {v w : Value} (h : v.WellFormed) {key : String}
    (hget : v.get? key = some w) : w.WellFormed := by
  obtain ⟨hnormal, hfits⟩ := h
  cases v with
  | obj members =>
    rw [get?_obj] at hget
    have hmembers : NormalMembers members := hnormal.2
    clear hnormal
    rw [Fits64] at hfits
    induction members with
    | nil => exact absurd hget (by simp)
    | cons member rest ih =>
      obtain ⟨name, x⟩ := member
      rw [NormalMembers] at hmembers
      rw [Fits64Members] at hfits
      rw [Map.get?_cons] at hget
      split at hget
      · rw [← Option.some.inj hget]
        exact ⟨hmembers.1, hfits.1⟩
      · exact ih hget hfits.2 hmembers.2
  | _ => exact absurd hget (by simp [Value.get?])

theorem WellFormed.lt_of_asU64 {v : Value} (h : v.WellFormed) {n : ℕ} (hn : v.asU64 = some n) :
    n < 2 ^ 64 := by
  cases v with
  | int i =>
    have hfits := h.fits64
    rw [Fits64] at hfits
    rw [asU64] at hn
    split at hn
    · rw [← Option.some.inj hn]
      omega
    · exact absurd hn (by simp)
  | _ => exact absurd hn (by simp [asU64])

theorem WellFormed.lt_of_bind_asU64 {v : Option Value} (h : ∀ w, v = some w → w.WellFormed) {n : ℕ}
    (hn : v.bind Value.asU64 = some n) : n < 2 ^ 64 := by
  obtain ⟨w, hw, hn⟩ := Option.bind_eq_some_iff.1 hn
  exact (h w hw).lt_of_asU64 hn

end Value

end NextApi.Json

namespace NextApi.Json

namespace Map

/-- Ordered members are told apart by what is found in them. -/
theorem Sorted.ext {m m' : Map} (hm : Sorted m) (hm' : Sorted m')
    (h : ∀ key, get? m key = get? m' key) : m = m' := by
  induction m generalizing m' with
  | nil =>
    cases m' with
    | nil => rfl
    | cons member rest =>
      have hfirst := h member.1
      rw [get?_nil, get?_cons, if_pos rfl] at hfirst
      exact nomatch hfirst
  | cons member rest ih =>
    obtain ⟨name, v⟩ := member
    obtain ⟨hfirst, hrest⟩ := sorted_cons.1 hm
    cases m' with
    | nil =>
      have hname := h name
      rw [get?_nil, get?_cons, if_pos rfl] at hname
      exact nomatch hname
    | cons member' rest' =>
      obtain ⟨name', v'⟩ := member'
      obtain ⟨hfirst', hrest'⟩ := sorted_cons.1 hm'
      have hname := h name
      have hname' := h name'
      rw [get?_cons, if_pos rfl, get?_cons] at hname
      rw [get?_cons, get?_cons, if_pos rfl] at hname'
      -- the smaller of two different names is found on its own side only
      have heq : name = name' := by
        by_contra hne
        rw [if_neg (Ne.symm hne)] at hname
        rw [if_neg hne] at hname'
        exact String.lt_asymm (hfirst name' (mem_keys_of_get? hname'))
          (hfirst' name (mem_keys_of_get? hname.symm))
      subst heq
      rw [if_pos rfl] at hname
      have hsame : rest = rest' := by
        refine ih hrest hrest' fun key ↦ ?_
        by_cases hkey : name = key
        · subst hkey
          rw [get?_eq_none_of_notMem fun hmem ↦ String.lt_irrefl _ (hfirst name hmem),
            get?_eq_none_of_notMem fun hmem ↦ String.lt_irrefl _ (hfirst' name hmem)]
        · have hget := h key
          rwa [get?_cons, get?_cons, if_neg hkey, if_neg hkey] at hget
      rw [Option.some.inj hname, hsame]

/-- Changes the value of a member, if it is there. -/
def modify (m : Map) (key : String) (f : Value → Value) : Map :=
  match get? m key with
  | some v => insert m key (f v)
  | none => m

@[simp] theorem get?_modify (m : Map) (key : String) (f : Value → Value) (other : String) :
    get? (modify m key f) other = if key = other then (get? m key).map f else get? m other := by
  rw [modify]
  cases hget : get? m key with
  | none =>
    by_cases hkey : key = other
    · rw [if_pos hkey, ← hkey, hget, Option.map_none]
    · rw [if_neg hkey]
  | some v => rw [get?_insert, Option.map_some]

theorem Sorted.modify {m : Map} (h : Sorted m) (key : String) (f : Value → Value) :
    Sorted (modify m key f) := by
  rw [Map.modify]
  split
  · exact h.insert key _
  · exact h

/-- An edit that does not change the value of the member changes nothing. -/
theorem modify_eq_self {m : Map} (hm : Sorted m) {key : String} {f : Value → Value}
    (h : ∀ v, get? m key = some v → f v = v) : modify m key f = m := by
  rw [modify]
  split
  · next v hget =>
    rw [h v hget]
    exact insert_of_get? hm hget
  · rfl

end Map

namespace Value

/-- Changes the value of a member, if the document is an object that has it. -/
def modify (v : Value) (key : String) (f : Value → Value) : Value :=
  match v with
  | .obj m => .obj (Map.modify m key f)
  | other => other

/-- Changes every item, if the document is an array. -/
def mapItems (v : Value) (f : Value → Value) : Value :=
  match v with
  | .arr items => .arr (items.map f)
  | other => other

@[simp] theorem get?_modify (v : Value) (key : String) (f : Value → Value) (other : String) :
    (v.modify key f).get? other = if key = other then (v.get? key).map f else v.get? other := by
  cases v with
  | obj m => exact Map.get?_modify m key f other
  | _ => exact (ite_self none).symm

@[simp] theorem asArray_mapItems (v : Value) (f : Value → Value) :
    (v.mapItems f).asArray = v.asArray.map (List.map f) := by
  cases v <;> rfl

/-- One item of an array whose items are changed. -/
theorem bind_mapItems (v : Option Value) (f : Value → Value) (i : ℕ) :
    (((v.map (·.mapItems f)).bind Value.asArray).bind fun items ↦ items[i]?) =
      ((v.bind Value.asArray).bind fun items ↦ items[i]?).map f := by
  cases v with
  | none => rfl
  | some v =>
    rw [Option.map_some, Option.bind_some, Option.bind_some, asArray_mapItems]
    cases v.asArray with
    | none => rfl
    | some items => exact List.getElem?_map ..

theorem modify_eq_self {v : Value} (hv : ∀ m, v = .obj m → Map.Sorted m) {key : String}
    {f : Value → Value} (h : ∀ w, v.get? key = some w → f w = w) : v.modify key f = v := by
  cases v with
  | obj m => exact congrArg Value.obj (Map.modify_eq_self (hv m rfl) h)
  | _ => rfl

/-! ### Edits one after another -/

/-- Makes the edits in order. -/
def modifyAll (v : Value) (edits : List (String × (Value → Value))) : Value :=
  edits.foldl (fun v edit ↦ v.modify edit.1 edit.2) v

/-- What the edits make of the value of one member. -/
def edited (edits : List (String × (Value → Value))) (key : String) (w : Value) : Value :=
  edits.foldl (fun w edit ↦ if edit.1 = key then edit.2 w else w) w

theorem get?_modifyAll (v : Value) (edits : List (String × (Value → Value))) (key : String) :
    (v.modifyAll edits).get? key = (v.get? key).map (edited edits key) := by
  induction edits generalizing v with
  | nil => exact Option.map_id'.symm
  | cons edit rest ih =>
    rw [modifyAll, List.foldl_cons, ← modifyAll, ih, get?_modify]
    by_cases hkey : edit.1 = key
    · rw [if_pos hkey, hkey, Option.map_map]
      congr 1
      funext w
      rw [edited, List.foldl_cons, if_pos hkey]
      rfl
    · rw [if_neg hkey]
      congr 1
      funext w
      rw [edited, edited, List.foldl_cons, if_neg hkey]

/-- What was an object stays one, with its members in order. -/
theorem exists_modifyAll {m : Map} (hm : Map.Sorted m) (edits : List (String × (Value → Value))) :
    ∃ m', Map.Sorted m' ∧ (Value.obj m).modifyAll edits = .obj m' := by
  induction edits generalizing m with
  | nil => exact ⟨m, hm, rfl⟩
  | cons edit rest ih => exact ih (hm.modify edit.1 edit.2)

/-- Edits that leave the value of every member as it was leave the document as it was. -/
theorem modifyAll_eq_self {v : Value} (hv : ∀ m, v = .obj m → Map.Sorted m)
    {edits : List (String × (Value → Value))}
    (h : ∀ key w, v.get? key = some w → edited edits key w = w) : v.modifyAll edits = v := by
  cases v with
  | obj m =>
    obtain ⟨m', hm', heq⟩ := exists_modifyAll (hv m rfl) edits
    have hget := get?_modifyAll (.obj m) edits
    rw [heq] at hget ⊢
    refine congrArg Value.obj (hm'.ext (hv m rfl) fun key ↦ (hget key).trans ?_)
    cases hkey : (Value.obj m).get? key with
    | none => exact hkey.symm
    | some w =>
      rw [Option.map_some, h key w hkey]
      exact hkey.symm
  | _ =>
    induction edits with
    | nil => rfl
    | cons edit rest ih => exact ih fun key w hw ↦ nomatch hw

end Value

end NextApi.Json
