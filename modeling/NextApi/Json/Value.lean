import Mathlib.Algebra.Group.Int.Defs
import Mathlib.Algebra.Group.Nat.Defs
import Mathlib.Data.Int.Basic
import Mathlib.Data.List.Basic

/-!
# JSON values

`Value` is a parsed JSON document as `serde_json::Value` holds one: a number is an integer (the
signed and unsigned 64-bit variants together) or a finite double, and an object is a map from
member names to values. A finite double is a dyadic rational, so it is represented exactly.

Without the `preserve_order` feature a `serde_json` object is a `BTreeMap`, kept in the order of
its keys; `Map.insert` keeps that order, so two objects with the same members are equal lists.
Lookup needs no order: the laws of `Map.get?` hold for every list of members
(`Map.get?_insert`, `Map.get?_remove`).

The readers `asStr`, `asU64`, … are the `as_*` accessors. `v[key]` is the indexing of a value by a
member name: a missing member, and every member of a value that is not an object, is `null`.
-/

set_option autoImplicit false

namespace NextApi.Json

/-- A JSON document. -/
inductive Value where
  | null
  | bool (b : Bool)
  | int (i : ℤ)
  | float (x : Dyadic)
  | str (s : String)
  | arr (items : List Value)
  | obj (members : List (String × Value))
  deriving Inhabited

/-- The members of an object. -/
abbrev Map := List (String × Value)

/-! ### Equality of documents -/

mutual

private def decEqValue : (v w : Value) → Decidable (v = w)
  | .null, .null => isTrue rfl
  | .bool a, .bool b => decidable_of_iff (a = b) (by simp)
  | .int a, .int b => decidable_of_iff (a = b) (by simp)
  | .float a, .float b => decidable_of_iff (a = b) (by simp)
  | .str a, .str b => decidable_of_iff (a = b) (by simp)
  | .arr a, .arr b => @decidable_of_iff _ (a = b) (by simp) (decEqItems a b)
  | .obj a, .obj b => @decidable_of_iff _ (a = b) (by simp) (decEqMembers a b)
  | .null, .bool _ | .null, .int _ | .null, .float _ | .null, .str _ | .null, .arr _
  | .null, .obj _ | .bool _, .null | .bool _, .int _ | .bool _, .float _ | .bool _, .str _
  | .bool _, .arr _ | .bool _, .obj _ | .int _, .null | .int _, .bool _ | .int _, .float _
  | .int _, .str _ | .int _, .arr _ | .int _, .obj _ | .float _, .null | .float _, .bool _
  | .float _, .int _ | .float _, .str _ | .float _, .arr _ | .float _, .obj _ | .str _, .null
  | .str _, .bool _ | .str _, .int _ | .str _, .float _ | .str _, .arr _ | .str _, .obj _
  | .arr _, .null | .arr _, .bool _ | .arr _, .int _ | .arr _, .float _ | .arr _, .str _
  | .arr _, .obj _ | .obj _, .null | .obj _, .bool _ | .obj _, .int _ | .obj _, .float _
  | .obj _, .str _ | .obj _, .arr _ => isFalse (by simp)

private def decEqItems : (xs ys : List Value) → Decidable (xs = ys)
  | [], [] => isTrue rfl
  | [], _ :: _ | _ :: _, [] => isFalse (by simp)
  | x :: xs, y :: ys =>
    @decidable_of_iff _ (x = y ∧ xs = ys) (by simp)
      (@instDecidableAnd _ _ (decEqValue x y) (decEqItems xs ys))

private def decEqMembers : (xs ys : List (String × Value)) → Decidable (xs = ys)
  | [], [] => isTrue rfl
  | [], _ :: _ | _ :: _, [] => isFalse (by simp)
  | (k, x) :: xs, (l, y) :: ys =>
    @decidable_of_iff _ (k = l ∧ x = y ∧ xs = ys) (by simp [and_assoc])
      (@instDecidableAnd _ _ inferInstance
        (@instDecidableAnd _ _ (decEqValue x y) (decEqMembers xs ys)))

end

instance : DecidableEq Value := decEqValue

/-! ### Objects -/

namespace Map

/-- The value of the first member with this name. -/
def get? : Map → String → Option Value
  | [], _ => none
  | (name, v) :: rest, key => if name = key then some v else get? rest key

/-- Adds a member in key order, replacing the value of a member that has its name. -/
def insert : Map → String → Value → Map
  | [], key, v => [(key, v)]
  | (name, w) :: rest, key, v =>
    if name = key then (name, v) :: rest
    else if key < name then (key, v) :: (name, w) :: rest
    else (name, w) :: insert rest key v

/-- Drops every member with this name. -/
def remove (m : Map) (key : String) : Map := m.filter fun member ↦ decide (member.1 ≠ key)

/-- `entry(key).or_insert(v)`: a member that is already there keeps its value. -/
def orInsert (m : Map) (key : String) (v : Value) : Map :=
  if (get? m key).isSome then m else insert m key v

/-- Adds a member, if there is a value for it. -/
def insertOpt (m : Map) (key : String) : Option Value → Map
  | some v => insert m key v
  | none => m

/-- Adds the members that have a value, in order. -/
def insertPresent (m : Map) (members : List (String × Option Value)) : Map :=
  members.foldl (fun m member ↦ insertOpt m member.1 member.2) m

/-- The member names, in order. -/
def keys (m : Map) : List String := m.map Prod.fst

/-- The object with these members. -/
def ofList : List (String × Value) → Map
  | [] => []
  | (key, v) :: rest => insert (ofList rest) key v

@[simp] theorem get?_nil (key : String) : get? [] key = none := rfl

@[simp] theorem get?_cons (name : String) (v : Value) (rest : Map) (key : String) :
    get? ((name, v) :: rest) key = if name = key then some v else get? rest key := rfl

@[simp] theorem get?_insert (m : Map) (key : String) (v : Value) (other : String) :
    get? (insert m key v) other = if key = other then some v else get? m other := by
  induction m with
  | nil => rfl
  | cons member rest ih =>
    obtain ⟨name, w⟩ := member
    by_cases hname : name = key
    · subst hname
      by_cases hother : name = other <;> simp [insert, hother]
    · by_cases hlt : key < name
      · simp [insert, hname, hlt]
      · by_cases hother : key = other
        · subst hother
          simp [insert, hname, hlt, ih]
        · simp [insert, hname, hlt, ih, hother]

@[simp] theorem get?_remove (m : Map) (key other : String) :
    get? (remove m key) other = if key = other then none else get? m other := by
  induction m with
  | nil => simp [remove]
  | cons member rest ih =>
    obtain ⟨name, w⟩ := member
    by_cases hname : name = key
    · subst hname
      by_cases hother : name = other
      · subst hother
        simpa [remove] using ih
      · simpa [remove, hother] using ih
    · by_cases hother : key = other
      · subst hother
        simpa [remove, hname] using ih
      · simp only [hother, if_false] at ih
        simp only [remove] at ih
        simp [remove, hname, hother, ← ih]

@[simp] theorem get?_orInsert (m : Map) (key : String) (v : Value) (other : String) :
    get? (orInsert m key v) other =
      if key = other then some ((get? m key).getD v) else get? m other := by
  unfold orInsert
  cases h : get? m key with
  | none => simp
  | some w =>
    by_cases hother : key = other
    · subst hother
      simp [h]
    · simp [hother]

@[simp] theorem get?_insertOpt (m : Map) (key : String) (v : Option Value) (other : String) :
    get? (insertOpt m key v) other = if key = other then v.or (get? m key) else get? m other := by
  cases v with
  | none =>
    by_cases hother : key = other
    · subst hother
      simp [insertOpt]
    · simp [insertOpt, hother]
  | some w => simp [insertOpt]

@[simp] theorem insertPresent_nil (m : Map) : insertPresent m [] = m := rfl

@[simp] theorem insertPresent_cons (m : Map) (member : String × Option Value)
    (rest : List (String × Option Value)) :
    insertPresent m (member :: rest) = insertPresent (insertOpt m member.1 member.2) rest := rfl

/-- An object built from a list of members is looked up as that list is. -/
@[simp] theorem get?_ofList (l : List (String × Value)) (key : String) :
    get? (ofList l) key = get? l key := by
  induction l with
  | nil => rfl
  | cons member rest ih =>
    obtain ⟨name, w⟩ := member
    simp [ofList, ih]

end Map

/-! ### Readers -/

/-- The double nearest to an integer, ties to the even significand: what reading an integer as a
double gives. Integers of at most 53 bits are exact. -/
def nearestDouble (i : ℤ) : Dyadic :=
  let excess := i.natAbs.log2 - 52
  let unit : ℕ := 2 ^ excess
  let low := i.natAbs / unit
  let rest := i.natAbs % unit
  let up := decide (unit < 2 * rest) || (decide (2 * rest = unit) && decide (low % 2 = 1))
  let magnitude : ℤ := ((low + up.toNat) * unit : ℕ)
  Dyadic.ofInt (if i < 0 then -magnitude else magnitude)

namespace Value

/-- The object with these members. -/
def object (l : List (String × Value)) : Value := .obj (Map.ofList l)

/-- The member with this name, when the value is an object that has one. -/
def get? : Value → String → Option Value
  | .obj m, key => Map.get? m key
  | _, _ => none

instance : GetElem Value String Value fun _ _ ↦ True where
  getElem v key _ := (v.get? key).getD .null

def asStr : Value → Option String
  | .str s => some s
  | _ => none

def asBool : Value → Option Bool
  | .bool b => some b
  | _ => none

/-- `as_u64`: the integers a value can hold are those of `i64` and `u64`, so every nonnegative
one is a `u64`. -/
def asU64 : Value → Option ℕ
  | .int i => if 0 ≤ i then some i.toNat else none
  | _ => none

/-- `as_i64`: unsigned integers from `2 ^ 63` on have no `i64` reading. -/
def asI64 : Value → Option ℤ
  | .int i => if i < 2 ^ 63 then some i else none
  | _ => none

def asF64 : Value → Option Dyadic
  | .int i => some (nearestDouble i)
  | .float x => some x
  | _ => none

def asArray : Value → Option (List Value)
  | .arr items => some items
  | _ => none

def asObject : Value → Option Map
  | .obj m => some m
  | _ => none

def isNull (v : Value) : Bool := v matches .null

def isString (v : Value) : Bool := v matches .str _

def isArray (v : Value) : Bool := v matches .arr _

def isObject (v : Value) : Bool := v matches .obj _

/-- `as_str().unwrap_or_default()`. -/
def strOrEmpty (v : Value) : String := v.asStr.getD ""

/-- A count as a value. -/
def ofNat (n : ℕ) : Value := .int n

/-- Assigns a member of an object. -/
def set (v : Value) (key : String) (w : Value) : Value :=
  match v with
  | .obj m => .obj (Map.insert m key w)
  | other => other

@[simp] theorem getElem_eq (v : Value) (key : String) (h : True) :
    getElem v key h = (v.get? key).getD .null := rfl

@[simp] theorem get?_obj (m : Map) (key : String) : (Value.obj m).get? key = Map.get? m key := rfl

@[simp] theorem get?_object (l : List (String × Value)) (key : String) :
    (object l).get? key = Map.get? l key := Map.get?_ofList l key

@[simp] theorem get?_str (s key : String) : (Value.str s).get? key = none := rfl

@[simp] theorem get?_null (key : String) : Value.null.get? key = none := rfl

@[simp] theorem get?_arr (items : List Value) (key : String) :
    (Value.arr items).get? key = none := rfl

@[simp] theorem get?_ofNat (n : ℕ) (key : String) : (Value.ofNat n).get? key = none := rfl

@[simp] theorem get?_set_obj (m : Map) (key : String) (w : Value) (other : String) :
    ((Value.obj m).set key w).get? other = if key = other then some w else Map.get? m other :=
  Map.get?_insert m key w other

@[simp] theorem asStr_str (s : String) : (Value.str s).asStr = some s := rfl

@[simp] theorem asStr_null : Value.null.asStr = none := rfl

@[simp] theorem asStr_object (l : List (String × Value)) : (object l).asStr = none := rfl

@[simp] theorem asU64_ofNat (n : ℕ) : (ofNat n).asU64 = some n := by
  simp [ofNat, asU64]

@[simp] theorem asU64_null : Value.null.asU64 = none := rfl

@[simp] theorem asArray_arr (items : List Value) : (Value.arr items).asArray = some items := rfl

@[simp] theorem asArray_str (s : String) : (Value.str s).asArray = none := rfl

@[simp] theorem isObject_object (l : List (String × Value)) : (object l).isObject = true := rfl

@[simp] theorem isObject_obj (m : Map) : (Value.obj m).isObject = true := rfl

@[simp] theorem strOrEmpty_str (s : String) : (Value.str s).strOrEmpty = s := rfl

@[simp] theorem strOrEmpty_null : Value.null.strOrEmpty = "" := rfl

end Value

end NextApi.Json
