import NextApi.Json.Compact
import NextApi.Json.Syntax

/-!
# Printing and reading back

`LawfulSerdeJson` leaves open what becomes of a double. `RereadingSerdeJson` says that it is always
the same: a document is read back with every double `x` replaced by `reread x`, when it has at most
127 nested arrays and objects, and not at all when it has more. So a document comes back as it was
if and only if its doubles do (`mapFloats_eq_self_iff`).
-/

set_option autoImplicit false

namespace NextApi.Json

namespace Value

variable (f : Dyadic → Dyadic)

mutual

/-- The document with its doubles replaced. -/
def mapFloats : Value → Value
  | .float x => .float (f x)
  | .arr items => .arr (mapFloatsItems items)
  | .obj members => .obj (mapFloatsMembers members)
  | v => v

def mapFloatsItems : List Value → List Value
  | [] => []
  | v :: rest => mapFloats v :: mapFloatsItems rest

def mapFloatsMembers : List (String × Value) → List (String × Value)
  | [] => []
  | (name, v) :: rest => (name, mapFloats v) :: mapFloatsMembers rest

end

theorem mapFloatsItems_eq (items : List Value) :
    mapFloatsItems f items = items.map (mapFloats f) := by
  induction items with
  | nil => rfl
  | cons v rest ih => exact congrArg (mapFloats f v :: ·) ih

theorem mapFloats_arr (items : List Value) :
    mapFloats f (.arr items) = .arr (items.map (mapFloats f)) :=
  congrArg Value.arr (mapFloatsItems_eq f items)

theorem mapFloatsMembers_eq (members : Map) :
    mapFloatsMembers f members = members.map fun member ↦ (member.1, mapFloats f member.2) := by
  induction members with
  | nil => rfl
  | cons member rest ih => exact congrArg ((member.1, mapFloats f member.2) :: ·) ih

theorem mapFloats_obj (members : Map) : mapFloats f (.obj members) =
    .obj (members.map fun member ↦ (member.1, mapFloats f member.2)) :=
  congrArg Value.obj (mapFloatsMembers_eq f members)

theorem keys_mapFloatsMembers (members : Map) :
    Map.keys (mapFloatsMembers f members) = Map.keys members := by
  rw [mapFloatsMembers_eq, Map.keys, List.map_map]
  rfl

theorem get?_mapFloats (v : Value) (key : String) :
    (mapFloats f v).get? key = (v.get? key).map (mapFloats f) := by
  cases v with
  | obj members =>
    show Map.get? (mapFloatsMembers f members) key = (Map.get? members key).map (mapFloats f)
    induction members with
    | nil => rfl
    | cons member rest ih =>
      show Map.get? ((member.1, mapFloats f member.2) :: mapFloatsMembers f rest) key = _
      rw [Map.get?_cons, Map.get?_cons, ih]
      split <;> rfl
  | _ => rfl

/-- A document keeps its doubles if and only if they are kept one by one. -/
theorem mapFloats_eq_self_iff (v : Value) :
    mapFloats f v = v ↔ ∀ x, (Value.float x).Part v → f x = x := by
  induction v using Value.induction with
  | float x =>
    constructor
    · intro h y hy
      cases hy
      exact Value.float.inj h
    · exact fun h ↦ congrArg Value.float (h x (.whole _))
  | arr items ih =>
    rw [mapFloats_arr, Value.arr.injEq]
    constructor
    · rintro h x (_ | ⟨hv, hx⟩)
      rename_i v
      have hsame := List.map_inj_left.1 (h.trans (List.map_id items).symm)
      exact (ih v hv).1 (hsame v hv) x hx
    · intro h
      have hsame : ∀ v ∈ items, mapFloats f v = id v :=
        fun v hv ↦ (ih v hv).2 fun x hx ↦ h x (.item hv hx)
      rw [List.map_congr_left hsame, List.map_id]
  | obj members ih =>
    rw [mapFloats_obj, Value.obj.injEq]
    constructor
    · intro h x hx
      cases hx with
      | member hv hx =>
        have hsame := List.map_inj_left.1 (h.trans (List.map_id members).symm) _ hv
        exact (ih _ hv).1 (Prod.mk.inj hsame).2 x hx
    · intro h
      have hsame : ∀ member ∈ members, (member.1, mapFloats f member.2) = id member :=
        fun member hmember ↦
          Prod.ext rfl ((ih member hmember).2 fun x hx ↦ h x (.member hmember hx))
      rw [List.map_congr_left hsame, List.map_id]
  | _ => exact iff_of_true rfl fun x hx ↦ nomatch hx

theorem normalItems_iff {items : List Value} :
    NormalItems items ↔ ∀ v ∈ items, Normal v := by
  induction items with
  | nil => simp [NormalItems]
  | cons v rest ih => simp [NormalItems, ih]

theorem normal_mapFloats {v : Value} (h : v.Normal) : (mapFloats f v).Normal := by
  induction v using Value.induction with
  | arr items ih =>
    rw [mapFloats_arr]
    refine normalItems_iff.2 fun w hw ↦ ?_
    obtain ⟨v, hv, rfl⟩ := List.mem_map.1 hw
    exact ih v hv (normalItems_iff.1 h v hv)
  | obj members ih =>
    constructor
    · rw [Map.Sorted, keys_mapFloatsMembers]
      exact h.1
    · rw [mapFloatsMembers_eq]
      refine normalMembers_iff.2 fun other hother ↦ ?_
      obtain ⟨member, hmember, rfl⟩ := List.mem_map.1 hother
      exact ih member hmember (normalMembers_iff.1 h.2 member hmember)
  | _ => trivial

theorem depthItems_map {g : Value → Value} {items : List Value}
    (h : ∀ v ∈ items, depth (g v) = depth v) : depthItems (items.map g) = depthItems items := by
  induction items with
  | nil => rfl
  | cons v rest ih =>
    obtain ⟨hfirst, hrest⟩ := List.forall_mem_cons.1 h
    exact congrArg₂ max hfirst (ih hrest)

theorem depthMembers_map {g : String → Value → Value} {members : Map}
    (h : ∀ member ∈ members, depth (g member.1 member.2) = depth member.2) :
    depthMembers (members.map fun member ↦ (member.1, g member.1 member.2)) =
      depthMembers members := by
  induction members with
  | nil => rfl
  | cons member rest ih =>
    obtain ⟨hfirst, hrest⟩ := List.forall_mem_cons.1 h
    exact congrArg₂ max hfirst (ih hrest)

theorem depthItems_le_iff {items : List Value} {n : ℕ} :
    depthItems items ≤ n ↔ ∀ v ∈ items, depth v ≤ n := by
  induction items with
  | nil => simp [depthItems]
  | cons v rest ih =>
    rw [List.forall_mem_cons, ← ih]
    exact Nat.max_le

theorem depthMembers_le_iff {members : Map} {n : ℕ} :
    depthMembers members ≤ n ↔ ∀ member ∈ members, depth member.2 ≤ n := by
  induction members with
  | nil => simp [depthMembers]
  | cons member rest ih =>
    rw [List.forall_mem_cons, ← ih]
    exact Nat.max_le

/-- A member is nested one level less deeply than its object. -/
theorem depth_lt_of_get? {v w : Value} {key : String} (h : v.get? key = some w) :
    depth w < depth v := by
  cases v with
  | obj members => exact Nat.lt_succ_of_le (depthMembers_le_iff.1 (Nat.le_refl _) _ (mem_of_get? h))
  | _ => exact nomatch h

theorem depth_normalize_le (v : Value) : depth (normalize v) ≤ depth v := by
  induction v using Value.induction with
  | arr items ih =>
    have hitems : normalizeItems items = items.map normalize := by
      clear ih
      induction items with
      | nil => rfl
      | cons v rest ih => exact congrArg (normalize v :: ·) ih
    show depth (.arr (normalizeItems items)) ≤ _
    rw [hitems]
    refine Nat.succ_le_succ (depthItems_le_iff.2 fun w hw ↦ ?_)
    obtain ⟨v, hv, rfl⟩ := List.mem_map.1 hw
    exact Nat.le_trans (ih v hv) (depthItems_le_iff.1 (Nat.le_refl _) v hv)
  | obj members ih =>
    have hmembers : normalizeMembers members =
        members.map fun member ↦ (member.1, normalize member.2) := by
      clear ih
      induction members with
      | nil => rfl
      | cons member rest ih => exact congrArg ((member.1, normalize member.2) :: ·) ih
    show depth (.obj (Map.ofList (normalizeMembers members))) ≤ _
    rw [hmembers]
    refine Nat.succ_le_succ (depthMembers_le_iff.2 fun member hmember ↦ ?_)
    obtain ⟨other, hother, heq⟩ := Map.mem_of_mem_ofList hmember
    obtain ⟨first, hfirst, rfl⟩ := List.mem_map.1 hother
    rw [heq]
    exact Nat.le_trans (ih first hfirst) (depthMembers_le_iff.1 (Nat.le_refl _) first hfirst)
  | _ => exact Nat.le_refl _

theorem depth_mapFloats (v : Value) : depth (mapFloats f v) = depth v := by
  induction v using Value.induction with
  | arr items ih =>
    rw [mapFloats_arr]
    exact congrArg (· + 1) (depthItems_map ih)
  | obj members ih =>
    rw [mapFloats_obj]
    exact congrArg (· + 1) (@depthMembers_map (fun _ v ↦ mapFloats f v) members ih)
  | _ => rfl

theorem eraseFloatsItems_eq (items : List Value) :
    eraseFloatsItems items = items.map eraseFloats := by
  induction items with
  | nil => rfl
  | cons v rest ih => exact congrArg (eraseFloats v :: ·) ih

theorem eraseFloatsMembers_eq (members : Map) :
    eraseFloatsMembers members = members.map fun member ↦ (member.1, eraseFloats member.2) := by
  induction members with
  | nil => rfl
  | cons member rest ih => exact congrArg ((member.1, eraseFloats member.2) :: ·) ih

theorem eraseFloats_mapFloats (v : Value) : eraseFloats (mapFloats f v) = eraseFloats v := by
  induction v using Value.induction with
  | arr items ih =>
    rw [mapFloats_arr]
    show Value.arr (eraseFloatsItems _) = .arr (eraseFloatsItems _)
    rw [eraseFloatsItems_eq, eraseFloatsItems_eq, List.map_map]
    exact congrArg _ (List.map_congr_left ih)
  | obj members ih =>
    rw [mapFloats_obj]
    show Value.obj (eraseFloatsMembers _) = .obj (eraseFloatsMembers _)
    rw [eraseFloatsMembers_eq, eraseFloatsMembers_eq, List.map_map]
    exact congrArg _ (List.map_congr_left fun member hmember ↦
      Prod.ext rfl (ih member hmember))
  | _ => rfl

end Value

/-- What a printed document is read back as. -/
class RereadingSerdeJson [SerdeJson] where
  /-- What a printed double is read back as. -/
  reread : Dyadic → Dyadic
  ofText_toText {v : Value} (hv : v.Normal) (h : v.depth ≤ 127) :
    SerdeJson.ofText (SerdeJson.toText v) = .ok (v.mapFloats reread)
  ofText_deep {v : Value} (hv : v.Normal) (h : 127 < v.depth) :
    ∃ e, SerdeJson.ofText (SerdeJson.toText v) = .error e
  /-- What was read is a document that the package can hold. -/
  normal_ofText {text : String} {v : Value} (h : SerdeJson.ofText text = .ok v) : v.Normal
  depth_ofText {text : String} {v : Value} (h : SerdeJson.ofText text = .ok v) : v.depth ≤ 127
  /-- A document begins with a bracket, a quote, a number or a word. -/
  toText_head (v : Value) : ∃ c rest, (SerdeJson.toText v).toList = c :: rest ∧
    (c.isDigit = true ∨ c ∈ ['-', '"', '[', '\x7b', 't', 'f', 'n'])

/-! ### A printer and a parser -/

namespace Compact

/-- What is made of a document that was parsed. -/
def hold (reread : Dyadic → Dyadic) (v : Value) : Except String Value :=
  if v.depth ≤ 127 then .ok (v.mapFloats reread) else .error "recursion limit exceeded"

/-- The compact codec with the limit of the package, and with doubles that are read as others. -/
@[reducible] def rereadingCodec (reread : Dyadic → Dyadic) : SerdeJson where
  toText := codec.toText
  ofText text := (codec.ofText text).bind fun v ↦ hold reread v.normalize

variable {reread : Dyadic → Dyadic}

theorem ofText_rereadingCodec {v : Value} (hv : v.Normal) :
    (rereadingCodec reread).ofText ((rereadingCodec reread).toText v) = hold reread v := by
  show (codec.ofText (codec.toText v)).bind (fun v ↦ hold reread v.normalize) = _
  have hnormal := Value.normalize_of_normal v hv
  rw [ofText_toText, hnormal, Except.bind, hnormal]

/-- What it has read is normal and not too deep. -/
theorem exists_of_ofText_rereadingCodec {text : String} {v : Value}
    (h : (rereadingCodec reread).ofText text = .ok v) :
    ∃ w : Value, w.Normal ∧ w.depth ≤ 127 ∧ v = w.mapFloats reread := by
  change (codec.ofText text).bind (fun v ↦ hold reread v.normalize) = .ok v at h
  cases hread : codec.ofText text with
  | error e =>
    rw [hread] at h
    exact nomatch h
  | ok w =>
    rw [hread, Except.bind, hold] at h
    split at h
    · next hdepth =>
      exact ⟨w.normalize, Value.normal_normalize w, hdepth, (Except.ok.inj h).symm⟩
    · exact nomatch h

@[reducible] def rereading (reread : Dyadic → Dyadic) :
    @RereadingSerdeJson (rereadingCodec reread) :=
  @RereadingSerdeJson.mk (rereadingCodec reread) reread
    (fun hv h ↦ (ofText_rereadingCodec hv).trans (if_pos h))
    (fun hv h ↦ ⟨_, (ofText_rereadingCodec hv).trans (if_neg (Nat.not_le.2 h))⟩)
    (fun h ↦ by
      obtain ⟨w, hw, -, rfl⟩ := exists_of_ofText_rereadingCodec h
      exact Value.normal_mapFloats reread hw)
    (fun h ↦ by
      obtain ⟨w, -, hdepth, rfl⟩ := exists_of_ofText_rereadingCodec h
      rwa [Value.depth_mapFloats])
    (fun v ↦ by
      obtain ⟨c, rest, h, hc⟩ := print_begins v.normalize
      exact ⟨c, rest, String.toList_ofList.trans h, hc⟩)

theorem rereadingCodec_lawful (reread : Dyadic → Dyadic) :
    @LawfulSerdeJson (rereadingCodec reread) :=
  @LawfulSerdeJson.mk (rereadingCodec reread)
    (fun v h ↦ by
      have hread : (rereadingCodec reread).ofText ((rereadingCodec reread).toText v) =
          hold reread v.normalize := by
        show (codec.ofText (codec.toText v)).bind (fun v ↦ hold reread v.normalize) = _
        rw [ofText_toText, Except.bind,
          Value.normalize_of_normal _ (Value.normal_normalize v)]
      refine ⟨_, hread.trans (if_pos (Nat.le_trans (Value.depth_normalize_le v) h)), ?_⟩
      rw [Value.canonical, Value.normalize_of_normal _
        (Value.normal_mapFloats reread (Value.normal_normalize v)), Value.eraseFloats_mapFloats,
        Value.canonical])
    (@LawfulSerdeJson.toText_oneLine codec codec_lawful)
    (@LawfulSerdeJson.toText_object codec codec_lawful)

end Compact

end NextApi.Json
