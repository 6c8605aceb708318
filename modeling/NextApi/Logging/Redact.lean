import Mathlib.Data.List.Forall2
import Mathlib.Order.Basic
import Mathlib.Order.Nat
import NextApi.Json.Reread
import NextApi.Text.Lines

/-!
# What is logged of a body

A body that is logged is first redacted: a string that begins with `data:`, and a long string under
one of a few names, is replaced. When the text of what is left is too long, the beginning of the
text is logged in its place.

A document that is logged whole has nothing left to redact, differs from the body at the redacted
strings only, and fits (`redacted_and_bounded`). Redacting it once more changes nothing, up to the
doubles that are not read back as they were. Of a document that is cut, the text that is logged
fits; its own text has quotes and escapes on top and need not.
-/

set_option autoImplicit false

namespace NextApi.Logging

open Json Text

/-! ### Redacting -/

/-- The names under which long strings are redacted. -/
def isRedactKey (k : String) : Bool :=
  decide (k ∈ ["data", "b64_json", "image", "base64", "file", "file_data"])

/-- `starts_with("data:")`. -/
def isDataUri (s : String) : Bool := "data:".toList.isPrefixOf s.toList

def redacted : Value := .str "[redacted]"

def isLong : Value → Bool
  | .str s => decide (256 < s.length)
  | _ => false

mutual

def redactValue : Value → Value
  | .str s => if isDataUri s then redacted else .str s
  | .obj members => .obj (Map.insertAll [] (redactMembers members))
  | .arr items => .arr (redactItems items)
  | v => v

def redactItems : List Value → List Value
  | [] => []
  | v :: rest => redactValue v :: redactItems rest

def redactMembers : List (String × Value) → List (String × Value)
  | [] => []
  | (k, val) :: rest =>
    (k, if isRedactKey k && isLong val then redacted else redactValue val) :: redactMembers rest

end

/-! ### Truncating -/

/-- The text before a position, if a character begins or the text ends there. -/
def textBefore : ℕ → List Char → Option (List Char)
  | 0, _ => some []
  | _ + 1, [] => none
  | n + 1, c :: rest =>
    if c.utf8Size ≤ n + 1 then (textBefore (n + 1 - c.utf8Size) rest).map (c :: ·) else none

/-- The text before the last such position that is not behind this one. -/
def textUpTo (text : List Char) : ℕ → List Char
  | 0 => []
  | n + 1 => (textBefore (n + 1) text).getD (textUpTo text n)

/-- `str::len`. -/
def byteSize (s : String) : ℕ := (encodeUtf8 s.toList).length

def truncateBytes (s : String) (maxBytes : ℕ) : String :=
  if byteSize s ≤ maxBytes then s else String.ofList (textUpTo s.toList maxBytes)

section Json

variable [SerdeJson]

/-- `serde_json::from_slice`. -/
def fromSlice (body : List UInt8) : Except String Value :=
  match decodeUtf8 body with
  | none => .error "invalid unicode code point"
  | some text => SerdeJson.ofText (String.ofList text)

/-- The document, or its text cut, and whether it was. -/
def truncate (value : Value) (maxBytes : ℕ) : Value × Bool :=
  let serialized := SerdeJson.toText value
  if maxBytes < byteSize serialized then (.str (truncateBytes serialized maxBytes), true)
  else (value, false)

/-- The body redacted; one that is no JSON is a string. -/
def redactBody (body : List UInt8) : Value :=
  match fromSlice body with
  | .ok v => redactValue v
  | .error _ => .str (String.ofList (lossy body))

def redactAndTruncate (body : List UInt8) (maxBytes : ℕ) : Value × Bool :=
  truncate (redactBody body) maxBytes

end Json

/-! ### What is promised -/

/-- There is nothing to redact. -/
structure NoLeak (value : Value) : Prop where
  noData : ∀ s, (Value.str s).Part value → isDataUri s = false
  noLong : ∀ m, (Value.obj m).Part value → ∀ k s, (k, Value.str s) ∈ m → isRedactKey k = true →
    s.length ≤ 256

/-- A member in place of another: the value is redacted inside, or as a whole for being long. -/
inductive RedactsMember (redacts : Value → Value → Prop) :
    String × Value → String × Value → Prop
  | inside {k : String} {v w : Value} : redacts v w → RedactsMember redacts (k, v) (k, w)
  | whole {k : String} {v : Value} : isRedactKey k = true → isLong v = true →
    RedactsMember redacts (k, v) (k, redacted)

/-- A document in place of another: they differ at redacted strings only. -/
inductive Redacts : Value → Value → Prop
  | same (v : Value) : Redacts v v
  | data {s : String} : isDataUri s = true → Redacts (.str s) redacted
  | arr {items items' : List Value} : List.Forall₂ Redacts items items' →
    Redacts (.arr items) (.arr items')
  | obj {members members' : Map} : List.Forall₂ (RedactsMember Redacts) members members' →
    Redacts (.obj members) (.obj members')

/-! ### The cut text -/

theorem textBefore_eq_some {n : ℕ} {text before : List Char}
    (h : textBefore n text = some before) : before <+: text ∧ (encodeUtf8 before).length = n := by
  induction text generalizing n before with
  | nil =>
    cases n with
    | zero =>
      obtain rfl := Option.some.inj h
      exact ⟨List.prefix_rfl, rfl⟩
    | succ n => exact nomatch h
  | cons c rest ih =>
    cases n with
    | zero =>
      obtain rfl := Option.some.inj h
      exact ⟨List.nil_prefix, rfl⟩
    | succ n =>
      rw [textBefore] at h
      split at h
      · next hfits =>
        obtain ⟨more, hmore, rfl⟩ := Option.map_eq_some_iff.1 h
        obtain ⟨hfront, hsize⟩ := ih hmore
        refine ⟨List.cons_prefix_cons.2 ⟨rfl, hfront⟩, ?_⟩
        have hbytes : encodeUtf8 (c :: more) = String.utf8EncodeChar c ++ encodeUtf8 more :=
          List.flatMap_cons
        rw [hbytes, List.length_append, String.length_utf8EncodeChar, hsize]
        omega
      · exact nomatch h

theorem textUpTo_spec (text : List Char) (n : ℕ) :
    textUpTo text n <+: text ∧ (encodeUtf8 (textUpTo text n)).length ≤ n := by
  induction n with
  | zero => exact ⟨List.nil_prefix, Nat.le_refl 0⟩
  | succ n ih =>
    rw [textUpTo]
    cases hbefore : textBefore (n + 1) text with
    | none => exact ⟨ih.1, Nat.le_succ_of_le ih.2⟩
    | some before =>
      obtain ⟨hfront, hsize⟩ := textBefore_eq_some hbefore
      exact ⟨hfront, hsize.le⟩

/-- What is kept is the beginning of the text, and fits. -/
theorem truncateBytes_spec (s : String) (maxBytes : ℕ) :
    (truncateBytes s maxBytes).toList <+: s.toList ∧
      byteSize (truncateBytes s maxBytes) ≤ maxBytes := by
  rw [truncateBytes]
  split
  · next hfits => exact ⟨List.prefix_rfl, hfits⟩
  · rw [byteSize, String.toList_ofList]
    exact textUpTo_spec s.toList maxBytes

/-! ### The redacted document -/

/-- What becomes of a member. -/
def redactMember (k : String) (val : Value) : Value :=
  if isRedactKey k && isLong val then redacted else redactValue val

theorem redactItems_eq (items : List Value) : redactItems items = items.map redactValue := by
  induction items with
  | nil => rfl
  | cons v rest ih => exact congrArg (redactValue v :: ·) ih

theorem redactMembers_eq (members : List (String × Value)) :
    redactMembers members =
      members.map fun member ↦ (member.1, redactMember member.1 member.2) := by
  induction members with
  | nil => rfl
  | cons member rest ih =>
    exact congrArg ((member.1, redactMember member.1 member.2) :: ·) ih

/-- The members of a map keep their order. -/
theorem redactValue_obj {members : Map} (h : Map.Sorted members) :
    redactValue (.obj members) =
      .obj (members.map fun member ↦ (member.1, redactMember member.1 member.2)) := by
  have hsorted : Map.Sorted ([] ++ redactMembers members) := by
    rw [List.nil_append, redactMembers_eq, Map.Sorted, Map.keys, List.map_map]
    exact h
  show Value.obj (Map.insertAll [] (redactMembers members)) = _
  rw [Map.insertAll_of_sorted hsorted, List.nil_append, redactMembers_eq]

theorem redactValue_arr (items : List Value) :
    redactValue (.arr items) = .arr (items.map redactValue) :=
  congrArg Value.arr (redactItems_eq items)

theorem redactValue_str (s : String) :
    redactValue (.str s) = if isDataUri s then redacted else .str s := rfl

theorem redactMember_cases (k : String) (val : Value) :
    (isRedactKey k = true ∧ isLong val = true ∧ redactMember k val = redacted) ∨
      ((isRedactKey k && isLong val) = false ∧ redactMember k val = redactValue val) := by
  rw [redactMember]
  cases hwhole : isRedactKey k && isLong val with
  | true =>
    obtain ⟨hkey, hlong⟩ := Bool.and_eq_true_iff.1 hwhole
    exact .inl ⟨hkey, hlong, if_pos rfl⟩
  | false => exact .inr ⟨rfl, if_neg Bool.false_ne_true⟩

/-- A document that was read is replaced by one that differs at redacted strings only. -/
theorem redacts_redactValue {v : Value} (hv : v.Normal) : Redacts v (redactValue v) := by
  induction v using Value.induction with
  | str s =>
    rw [redactValue_str]
    split
    · next hdata => exact .data hdata
    · exact .same _
  | arr items ih =>
    rw [redactValue_arr]
    refine .arr (List.forall₂_map_right_iff.2 (List.forall₂_same.2 fun v hmem ↦ ?_))
    exact ih v hmem (Value.normalItems_iff.1 hv v hmem)
  | obj members ih =>
    rw [redactValue_obj hv.1]
    refine .obj (List.forall₂_map_right_iff.2 (List.forall₂_same.2 fun member hmem ↦ ?_))
    obtain ⟨k, w⟩ := member
    have hinside := ih (k, w) hmem (Value.normalMembers_iff.1 hv.2 (k, w) hmem)
    rcases redactMember_cases k w with ⟨hkey, hlong, heq⟩ | ⟨-, heq⟩
    · rw [heq]
      exact .whole hkey hlong
    · rw [heq]
      exact .inside hinside
  | _ => exact .same _

theorem normal_redactValue {v : Value} (hv : v.Normal) : (redactValue v).Normal := by
  induction v using Value.induction with
  | str s =>
    rw [redactValue_str]
    split <;> trivial
  | arr items ih =>
    rw [redactValue_arr]
    refine Value.normalItems_iff.2 fun w hw ↦ ?_
    obtain ⟨v, hmem, rfl⟩ := List.mem_map.1 hw
    exact ih v hmem (Value.normalItems_iff.1 hv v hmem)
  | obj members ih =>
    rw [redactValue_obj hv.1]
    refine ⟨?_, Value.normalMembers_iff.2 fun other hother ↦ ?_⟩
    · rw [Map.Sorted, Map.keys, List.map_map]
      exact hv.1
    · obtain ⟨⟨k, w⟩, hmem, rfl⟩ := List.mem_map.1 hother
      rcases redactMember_cases k w with ⟨-, -, heq⟩ | ⟨-, heq⟩
      · simp only [heq]
        trivial
      · simp only [heq]
        exact ih (k, w) hmem (Value.normalMembers_iff.1 hv.2 (k, w) hmem)
  | _ => trivial

/-! ### Nothing is left -/

theorem noLeak_str {s : String} (h : isDataUri s = false) : NoLeak (.str s) where
  noData t ht := by
    cases ht
    exact h
  noLong m hm := nomatch hm

theorem noLeak_redacted : NoLeak redacted := noLeak_str (by decide +kernel)

/-- A string that stays where a member is redacted. -/
theorem length_le_of_redactMember {k s : String} {val : Value}
    (h : redactMember k val = .str s) (hkey : isRedactKey k = true) : s.length ≤ 256 := by
  have hshort : ("[redacted]" : String).length ≤ 256 := by decide
  rcases redactMember_cases k val with ⟨-, -, heq⟩ | ⟨hnot, heq⟩
  · rw [← Value.str.inj (heq.symm.trans h)]
    exact hshort
  · rw [hkey, Bool.true_and] at hnot
    rw [heq] at h
    cases val with
    | str t =>
      rw [redactValue_str] at h
      split at h
      · rw [← Value.str.inj h]
        exact hshort
      · rw [← Value.str.inj h]
        exact Nat.le_of_not_lt (of_decide_eq_false hnot)
    | _ => exact nomatch h

theorem noLeak_redactValue {v : Value} (hv : v.Normal) : NoLeak (redactValue v) := by
  induction v using Value.induction with
  | str s =>
    rw [redactValue_str]
    split
    · exact noLeak_redacted
    · next hdata => exact noLeak_str (Bool.eq_false_iff.2 hdata)
  | arr items ih =>
    have hitem {w : Value} (hw : w ∈ items.map redactValue) : NoLeak w := by
      obtain ⟨v, hmem, rfl⟩ := List.mem_map.1 hw
      exact ih v hmem (Value.normalItems_iff.1 hv v hmem)
    rw [redactValue_arr]
    constructor
    · rintro s (_ | ⟨hw, hs⟩)
      exact (hitem hw).noData s hs
    · rintro m (_ | ⟨hw, hm⟩)
      exact (hitem hw).noLong m hm
  | obj members ih =>
    have hmember {k : String} {w : Value}
        (hw : (k, w) ∈ members.map fun member ↦ (member.1, redactMember member.1 member.2)) :
        NoLeak w ∧ ∃ val, w = redactMember k val := by
      obtain ⟨⟨k, val⟩, hmem, heq⟩ := List.mem_map.1 hw
      obtain ⟨rfl, rfl⟩ := Prod.mk.inj heq
      refine ⟨?_, val, rfl⟩
      rcases redactMember_cases k val with ⟨-, -, heq⟩ | ⟨-, heq⟩
      · rw [heq]
        exact noLeak_redacted
      · rw [heq]
        exact ih (k, val) hmem (Value.normalMembers_iff.1 hv.2 (k, val) hmem)
    rw [redactValue_obj hv.1]
    constructor
    · intro s hs
      cases hs with
      | member hw hs => exact (hmember hw).1.noData s hs
    · intro m hm
      cases hm with
      | whole =>
        intro k s hks hkey
        obtain ⟨-, val, heq⟩ := hmember hks
        exact length_le_of_redactMember heq.symm hkey
      | member hw hm => exact (hmember hw).1.noLong m hm
  | _ => exact ⟨fun s hs ↦ (nomatch hs), fun m hm ↦ (nomatch hm)⟩

/-! ### Redacting once more -/

/-- Where there is nothing to redact, nothing is redacted. -/
theorem redactValue_of_noLeak {v : Value} (hv : v.Normal) (h : NoLeak v) : redactValue v = v := by
  induction v using Value.induction with
  | str s => rw [redactValue_str, h.noData s (.whole _), if_neg Bool.false_ne_true]
  | arr items ih =>
    rw [redactValue_arr]
    have hsame : ∀ v ∈ items, redactValue v = id v := fun v hmem ↦
      ih v hmem (Value.normalItems_iff.1 hv v hmem)
        ⟨fun s hs ↦ h.noData s (.item hmem hs), fun m hm ↦ h.noLong m (.item hmem hm)⟩
    rw [List.map_congr_left hsame, List.map_id]
  | obj members ih =>
    rw [redactValue_obj hv.1]
    have hsame : ∀ member ∈ members, (member.1, redactMember member.1 member.2) = id member := by
      rintro ⟨k, val⟩ hmem
      refine Prod.ext rfl ?_
      have hinside := ih (k, val) hmem (Value.normalMembers_iff.1 hv.2 (k, val) hmem)
        ⟨fun s hs ↦ h.noData s (.member hmem hs), fun m hm ↦ h.noLong m (.member hmem hm)⟩
      rcases redactMember_cases k val with ⟨hkey, hlong, -⟩ | ⟨-, heq⟩
      · cases val with
        | str s =>
          have hle := h.noLong members (.whole _) k s hmem hkey
          exact absurd (of_decide_eq_true hlong) (Nat.not_lt.2 hle)
        | _ => exact nomatch hlong
      · exact heq.trans hinside
    rw [List.map_congr_left hsame, List.map_id]
  | _ => rfl

/-- The parts of a document whose doubles were read as others. -/
theorem exists_part_of_mapFloats {f : Dyadic → Dyadic} {u v : Value} (h : u.Part (v.mapFloats f)) :
    ∃ w : Value, w.Part v ∧ u = w.mapFloats f := by
  induction v using Value.induction with
  | arr items ih =>
    rw [Value.mapFloats, Value.mapFloatsItems_eq] at h
    cases h with
    | whole => exact ⟨.arr items, .whole _, by rw [Value.mapFloats, Value.mapFloatsItems_eq]⟩
    | item hw hu =>
      obtain ⟨v, hmem, rfl⟩ := List.mem_map.1 hw
      obtain ⟨w, hpart, heq⟩ := ih v hmem hu
      exact ⟨w, .item hmem hpart, heq⟩
  | obj members ih =>
    rw [Value.mapFloats, Value.mapFloatsMembers_eq] at h
    cases h with
    | whole => exact ⟨.obj members, .whole _, by rw [Value.mapFloats, Value.mapFloatsMembers_eq]⟩
    | member hw hu =>
      obtain ⟨⟨k, v⟩, hmem, heq⟩ := List.mem_map.1 hw
      obtain ⟨rfl, rfl⟩ := Prod.mk.inj heq
      obtain ⟨w, hpart, heq⟩ := ih (k, v) hmem hu
      exact ⟨w, .member hmem hpart, heq⟩
  | _ =>
    cases h
    exact ⟨_, .whole _, rfl⟩

theorem eq_str_of_mapFloats {f : Dyadic → Dyadic} {v : Value} {s : String}
    (h : Value.str s = v.mapFloats f) : v = .str s := by
  cases v with
  | str t => exact congrArg Value.str (Value.str.inj h).symm
  | _ => exact nomatch h

theorem NoLeak.mapFloats {v : Value} (h : NoLeak v) (f : Dyadic → Dyadic) :
    NoLeak (v.mapFloats f) where
  noData s hs := by
    obtain ⟨w, hw, heq⟩ := exists_part_of_mapFloats hs
    exact h.noData s (eq_str_of_mapFloats heq ▸ hw)
  noLong m hm k s hks := by
    obtain ⟨w, hw, heq⟩ := exists_part_of_mapFloats hm
    cases w with
    | obj members =>
      obtain rfl := Value.obj.inj heq
      rw [Value.mapFloatsMembers_eq] at hks
      obtain ⟨⟨k, val⟩, hmem, heq⟩ := List.mem_map.1 hks
      obtain ⟨rfl, hval⟩ := Prod.mk.inj heq
      obtain rfl : val = .str s := eq_str_of_mapFloats hval.symm
      exact h.noLong members hw k s hmem
    | _ => exact nomatch heq

theorem depth_redactValue {v : Value} (hv : v.Normal) : (redactValue v).depth = v.depth := by
  induction v using Value.induction with
  | str s =>
    rw [redactValue_str]
    split <;> rfl
  | arr items ih =>
    rw [redactValue_arr, Value.depth, Value.depthItems_map fun v hmem ↦
      ih v hmem (Value.normalItems_iff.1 hv v hmem), Value.depth]
  | obj members ih =>
    rw [redactValue_obj hv.1, Value.depth, Value.depthMembers_map, Value.depth]
    rintro ⟨k, val⟩ hmem
    rcases redactMember_cases k val with ⟨-, hlong, heq⟩ | ⟨-, heq⟩
    · cases val with
      | str s => exact (congrArg Value.depth heq).trans rfl
      | _ => exact nomatch hlong
    · exact (congrArg Value.depth heq).trans
        (ih (k, val) hmem (Value.normalMembers_iff.1 hv.2 (k, val) hmem))
  | _ => rfl

/-! ### The log -/

section Logged

variable [SerdeJson]

/-- The body is no JSON, and its text begins with `data:`. -/
def BareData (body : List UInt8) : Prop :=
  (∃ e, fromSlice body = .error e) ∧ isDataUri (String.ofList (lossy body)) = true

/-- The bytes that a value is printed as. -/
def serialize (value : Value) : List UInt8 := encodeUtf8 (SerdeJson.toText value).toList

/-- A value that a body is logged as, whole. -/
structure LoggedWhole [RereadingSerdeJson] (body : List UInt8) (maxBytes : ℕ) (value : Value) :
    Prop where
  /-- It fits. -/
  fits : (serialize value).length ≤ maxBytes
  /-- It is the body but for redacted strings, or the text of a body that is no JSON. -/
  source : (∃ v, fromSlice body = .ok v ∧ Redacts v value) ∨
    (∃ e, fromSlice body = .error e) ∧ value = .str (String.ofList (lossy body))
  noLeak : ¬ BareData body → NoLeak value
  /-- Redacting what it is read back as redacts nothing; its text may be longer or shorter by the
  digits of doubles. -/
  again : ¬ BareData body → redactAndTruncate (serialize value) maxBytes =
    truncate (value.mapFloats RereadingSerdeJson.reread) maxBytes
  /-- It is logged as the same once more, if its doubles are read back as they were. -/
  stable : ¬ BareData body →
    (∀ x, (Value.float x).Part value → RereadingSerdeJson.reread x = x) →
    redactAndTruncate (serialize value) maxBytes = (value, false)

/-- A text that a body is logged as, cut. -/
structure LoggedCut (body : List UInt8) (maxBytes : ℕ) (text : String) : Prop where
  front : text.toList <+: (SerdeJson.toText (redactBody body)).toList
  fits : byteSize text ≤ maxBytes
  noLeak : NoLeak (.str text)

variable [RereadingSerdeJson]

theorem fromSlice_ok {body : List UInt8} {v : Value} (h : fromSlice body = .ok v) :
    v.Normal ∧ v.depth ≤ 127 := by
  rw [fromSlice] at h
  split at h
  · exact nomatch h
  · exact ⟨RereadingSerdeJson.normal_ofText h, RereadingSerdeJson.depth_ofText h⟩

omit [RereadingSerdeJson] in
theorem redactBody_ok {body : List UInt8} {v : Value} (h : fromSlice body = .ok v) :
    redactBody body = redactValue v := by
  show (match fromSlice body with | .ok v => redactValue v | .error _ => _) = _
  rw [h]

omit [RereadingSerdeJson] in
theorem redactBody_error {body : List UInt8} {e : String} (h : fromSlice body = .error e) :
    redactBody body = .str (String.ofList (lossy body)) := by
  show (match fromSlice body with | .ok v => redactValue v | .error _ => _) = _
  rw [h]

theorem normal_redactBody (body : List UInt8) :
    (redactBody body).Normal ∧ (redactBody body).depth ≤ 127 := by
  cases hread : fromSlice body with
  | ok v =>
    obtain ⟨hnormal, hdepth⟩ := fromSlice_ok hread
    rw [redactBody_ok hread]
    exact ⟨normal_redactValue hnormal, (depth_redactValue hnormal).trans_le hdepth⟩
  | error e =>
    rw [redactBody_error hread]
    exact ⟨trivial, Nat.zero_le _⟩

theorem noLeak_redactBody {body : List UInt8} (h : ¬ BareData body) : NoLeak (redactBody body) := by
  cases hread : fromSlice body with
  | ok v =>
    rw [redactBody_ok hread]
    exact noLeak_redactValue (fromSlice_ok hread).1
  | error e =>
    rw [redactBody_error hread]
    exact noLeak_str (Bool.eq_false_iff.2 fun hdata ↦ h ⟨⟨e, hread⟩, hdata⟩)

/-- What is printed of a value is read back as the value, up to its doubles. -/
theorem redactBody_serialize {value : Value} (hnormal : value.Normal) (hdepth : value.depth ≤ 127)
    (h : NoLeak value) :
    redactBody (serialize value) = value.mapFloats RereadingSerdeJson.reread := by
  have hread : fromSlice (serialize value) = .ok (value.mapFloats RereadingSerdeJson.reread) := by
    rw [fromSlice, serialize, decodeUtf8_encodeUtf8]
    show SerdeJson.ofText (String.ofList (SerdeJson.toText value).toList) = _
    rw [String.ofList_toList, RereadingSerdeJson.ofText_toText hnormal hdepth]
  rw [redactBody_ok hread]
  exact redactValue_of_noLeak (Value.normal_mapFloats _ hnormal) (h.mapFloats _)

/-- A text that is printed does not begin with `data:`, nor does the beginning of one. -/
theorem isDataUri_of_front {text : String} {value : Value}
    (h : text.toList <+: (SerdeJson.toText value).toList) : isDataUri text = false := by
  obtain ⟨c, rest, htext, hc⟩ := RereadingSerdeJson.toText_head value
  refine Bool.eq_false_iff.2 fun hdata ↦ ?_
  rw [isDataUri, List.isPrefixOf_iff_prefix] at hdata
  have hfront := hdata.trans h
  rw [htext] at hfront
  have hletter : 'd' = c := (List.cons_prefix_cons.1 hfront).1
  rw [← hletter] at hc
  exact absurd hc (by decide)

theorem loggedWhole_of_le {body : List UInt8} {maxBytes : ℕ}
    (hfits : byteSize (SerdeJson.toText (redactBody body)) ≤ maxBytes) :
    LoggedWhole body maxBytes (redactBody body) := by
  obtain ⟨hnormal, hdepth⟩ := normal_redactBody body
  have hagain (h : ¬ BareData body) := redactBody_serialize hnormal hdepth (noLeak_redactBody h)
  refine ⟨hfits, ?_, noLeak_redactBody, fun h ↦ ?_, fun h hsame ↦ ?_⟩
  · cases hread : fromSlice body with
    | ok v =>
      refine .inl ⟨v, rfl, ?_⟩
      rw [redactBody_ok hread]
      exact redacts_redactValue (fromSlice_ok hread).1
    | error e =>
      exact .inr ⟨⟨e, rfl⟩, redactBody_error hread⟩
  · rw [redactAndTruncate, hagain h]
  · rw [redactAndTruncate, hagain h, (Value.mapFloats_eq_self_iff _ _).2 hsame]
    exact if_neg (Nat.not_lt.2 hfits)

/-- What is logged of a body. -/
theorem redacted_and_bounded (body : List UInt8) (maxBytes : ℕ) :
    (∃ value, redactAndTruncate body maxBytes = (value, false) ∧
      LoggedWhole body maxBytes value) ∨
    (∃ text, redactAndTruncate body maxBytes = (.str text, true) ∧
      LoggedCut body maxBytes text) := by
  by_cases hfits : byteSize (SerdeJson.toText (redactBody body)) ≤ maxBytes
  · exact .inl ⟨_, if_neg (Nat.not_lt.2 hfits), loggedWhole_of_le hfits⟩
  · obtain ⟨hfront, hsize⟩ := truncateBytes_spec (SerdeJson.toText (redactBody body)) maxBytes
    exact .inr ⟨_, if_pos (Nat.lt_of_not_le hfits), hfront, hsize,
      noLeak_str (isDataUri_of_front hfront)⟩

end Logged

/-! ### A text that is cut -/

section Example

local instance redactCodec : SerdeJson := Compact.rereadingCodec id

/-- The text of `[1,2]` cut to four bytes: it has six with its quotes, and it is cut again. -/
theorem not_bounded_cutArray :
    ¬ (serialize (redactAndTruncate (encodeUtf8 "[1,2]".toList) 4).1).length ≤ 4 ∧
      (redactAndTruncate (serialize (redactAndTruncate (encodeUtf8 "[1,2]".toList) 4).1) 4).1 ≠
        (redactAndTruncate (encodeUtf8 "[1,2]".toList) 4).1 := by
  decide +kernel

end Example

end NextApi.Logging
