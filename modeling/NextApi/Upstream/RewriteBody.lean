import NextApi.Error
import NextApi.Json.Members

/-!
# Rewriting the body of a request

A body that is passed through gets the model of the upstream, and every body the overrides of its
upstream: members that are set, and members that are added where they are missing (`rewriteBody`).
An override names its place by a path of segments; a segment that is a number is an index, and an
array that is too short for it is made longer.

The body is untyped, and two of the writes can panic: the model cannot be written into a value that
is neither an object nor `null`, and an array cannot be made longer than an allocation may be. All
other writes ignore a place that they do not fit to (`rewriteBody_iff`).
-/

set_option autoImplicit false

namespace NextApi.Upstream

open Json

/-- Why a computation panics. -/
inductive Panic where
  /-- A member is assigned to a value that has none. -/
  | cannotAccessKey (key : String)
  /-- An array gets longer than an allocation may be. -/
  | capacityOverflow
  deriving DecidableEq, Inhabited

/-! ### Overrides -/

/-- The members to be set and to be added, with their paths. -/
structure OverrideMap where
  add : Map := []
  set : Map := []
  deriving DecidableEq, Inhabited

/-- The overrides of an upstream, for the headers and for the body. -/
structure Overrides where
  headers : OverrideMap := {}
  body : OverrideMap := {}
  deriving DecidableEq, Inhabited

/-- A field that is a map and may be missing, as `serde` reads it. -/
def mapField (v : Option Value) : Option Map :=
  match v with
  | none => some []
  | some v => v.asObject

/-- A struct of two maps, from an object by their names or from an array by their places. -/
def overrideMap (v : Value) : Option OverrideMap :=
  let read (add set : Option Value) : Option OverrideMap := do
    let add ← mapField add
    let set ← mapField set
    return { add := add, set := set }
  match v with
  | .obj m => read (Map.get? m "add") (Map.get? m "set")
  | .arr [] => read none none
  | .arr [add] => read (some add) none
  | .arr [add, set] => read (some add) (some set)
  | _ => none

/-- The overrides in the `extra` column; what cannot be read overrides nothing. -/
def overrides (extra : Value) : Option Overrides :=
  let field (v : Option Value) : Option OverrideMap :=
    match v with
    | none => some {}
    | some v => overrideMap v
  let read (headers body : Option Value) : Option Overrides := do
    let headers ← field headers
    let body ← field body
    return { headers := headers, body := body }
  (extra.get? "overrides").bind fun v ↦
    match v with
    | .obj m => read (Map.get? m "headers") (Map.get? m "body")
    | .arr [] => read none none
    | .arr [headers] => read (some headers) none
    | .arr [headers, body] => read (some headers) (some body)
    | _ => none

/-! ### Paths -/

/-- `parse::<usize>`: decimal digits, after a plus sign or not, of a number of 64 bits. -/
def parseUsize (s : String) : Option ℕ :=
  let digits :=
    match s.toList with
    | '+' :: rest => rest
    | chars => chars
  if digits ≠ [] ∧ digits.all Char.isDigit then
    let n := Nat.ofDigitChars 10 digits 0
    if n < 2 ^ 64 then some n else none
  else none

def isIndex (seg : String) : Bool := (parseUsize seg).isSome

/-- The segments of a path that are not empty. -/
def segments (path : String) : List String :=
  ((path.toList.splitOn '.').filter fun seg ↦ decide (seg ≠ [])).map String.ofList

/-- The container that a segment is written into. -/
def emptyContainer (seg : String) : Value := if isIndex seg then .arr [] else .obj []

/-- A child that a segment can be written into, in the place of one that it cannot. -/
def aligned (child : Value) (seg : String) : Value :=
  if isIndex seg && !child.isArray then .arr []
  else if !isIndex seg && !child.isObject && !child.isArray then .obj []
  else child

/-! ### Writing -/

section Writes

-- the items that an array has at most: what an allocation of them may take
variable (limit : ℕ)

/-- Writes a value at a path. A number is an index of an array, and also the name of a member of an
object; an array stays as it is for any other segment. An index past the end adds containers, but
as the last segment it is ignored. -/
def setNestedSegs (value : Value) : List String → Value → Except Panic Value
  | [], cur => .ok cur
  | [seg], .obj m => .ok (.obj (Map.insert m seg value))
  | [seg], .arr items =>
    match parseUsize seg with
    | some i => .ok (.arr (if i < items.length then items.set i value else items))
    | none => .ok (.arr items)
  | seg :: next :: rest, .obj m =>
    let child := (Map.get? m seg).getD (emptyContainer next)
    if child.isArray && !isIndex next then .ok (.obj m)
    else
      (setNestedSegs value (next :: rest) (aligned child next)).map fun child ↦
        .obj (Map.insert m seg child)
  | seg :: next :: rest, .arr items =>
    match parseUsize seg with
    | some i =>
      if items.length ≤ i ∧ limit ≤ i then .error .capacityOverflow
      else
        let items := items ++ List.replicate (i + 1 - items.length) (emptyContainer next)
        (setNestedSegs value (next :: rest) (items[i]?.getD .null)).map fun item ↦
          .arr (items.set i item)
    | none => .ok (.arr items)
  | _ :: _, cur => .ok cur

def setNested (root : Value) (override : String × Value) : Except Panic Value :=
  setNestedSegs limit override.2 (segments override.1) root

/-- Whether there is a member at a path; an item of an array is none. -/
def pathExists : Value → List String → Bool
  | _, [] => true
  | cur, seg :: rest =>
    match cur.get? seg with
    | none => false
    | some next => pathExists next rest

def addNested (root : Value) (override : String × Value) : Except Panic Value :=
  if (segments override.1).isEmpty || pathExists root (segments override.1) then .ok root
  else setNestedSegs limit override.2 (segments override.1) root

/-- `body["model"] = model`: `null` becomes an object, and other values have no members. -/
def setModel (body : Value) (model : String) : Except Panic Value :=
  match body with
  | .obj m => .ok (.obj (Map.insert m "model" (.str model)))
  | .null => .ok (.object [("model", .str model)])
  | _ => .error (.cannotAccessKey "model")

/-- Rewrites a body for its upstream. -/
def rewriteBody (body : Value) (upstreamModel : Option String) (overrides : Option Overrides) :
    Except Panic Value := do
  let body ←
    match upstreamModel with
    | some model => setModel body model
    | none => .ok body
  match overrides with
  | none => return body
  | some o =>
    let body ← o.body.set.foldlM (setNested limit) body
    o.body.add.foldlM (addNested limit) body

/-! ### When nothing panics -/

/-- Before its last segment, a path meets no array at an index that is past its end and too long. -/
def PathFits : List String → Value → Prop
  | seg :: next :: rest, .obj m =>
    let child := (Map.get? m seg).getD (emptyContainer next)
    child.isArray = true ∧ isIndex next = false ∨ PathFits (next :: rest) (aligned child next)
  | seg :: next :: rest, .arr items =>
    ∀ i, parseUsize seg = some i →
      (i < items.length ∨ i < limit) ∧
        PathFits (next :: rest) (items[i]?.getD (emptyContainer next))
  | _, _ => True

/-- One write to a body. -/
inductive BodyWrite where
  | model (model : String)
  | set (override : String × Value)
  | add (override : String × Value)

def overrideWrites : Option Overrides → List BodyWrite
  | none => []
  | some o => o.body.set.map .set ++ o.body.add.map .add

/-- The writes of a rewriting, in order. -/
def bodyWrites (upstreamModel : Option String) (overrides : Option Overrides) : List BodyWrite :=
  (upstreamModel.map BodyWrite.model).toList ++ overrideWrites overrides

def BodyWrite.apply (body : Value) : BodyWrite → Except Panic Value
  | .model name => setModel body name
  | .set override => setNested limit body override
  | .add override => addNested limit body override

/-- A model fits an object and `null`, an override where it needs no array that is too long, and an
addition also where nothing is added. -/
def BodyWrite.Fits (body : Value) : BodyWrite → Prop
  | .model _ => body.isObject = true ∨ body = .null
  | .set override => PathFits limit (segments override.1) body
  | .add override => pathExists body (segments override.1) = true ∨
      PathFits limit (segments override.1) body

/-- The writes fit, each to the body as it is then. -/
def AllFit : List BodyWrite → Value → Prop
  | [], _ => True
  | w :: rest, body => w.Fits limit body ∧ ∀ body', w.apply limit body = .ok body' → AllFit rest body'

theorem rewriteBody_eq (body : Value) (upstreamModel : Option String)
    (overrides : Option Overrides) :
    rewriteBody limit body upstreamModel overrides =
      (bodyWrites upstreamModel overrides).foldlM (BodyWrite.apply limit) body := by
  have hoverrides (b : Value) : rewriteBody limit b none overrides =
      (overrideWrites overrides).foldlM (BodyWrite.apply limit) b := by
    cases overrides with
    | none => rfl
    | some o =>
      simp only [overrideWrites, List.foldlM_append, List.foldlM_map]
      rfl
  rw [bodyWrites]
  cases upstreamModel with
  | none => exact hoverrides body
  | some model =>
    show (setModel body model).bind (fun b ↦ rewriteBody limit b none overrides) = _
    rw [funext hoverrides]
    rfl

theorem exists_map_ok_iff {ε α β : Type} (x : Except ε α) (f : α → β) :
    (∃ b, x.map f = .ok b) ↔ ∃ a, x = .ok a := by
  cases x with
  | error e => exact iff_of_false (fun ⟨_, h⟩ ↦ nomatch h) fun ⟨_, h⟩ ↦ nomatch h
  | ok a => exact iff_of_true ⟨f a, rfl⟩ ⟨a, rfl⟩

/-- The item at an index of a list that was made long enough. -/
theorem getD_append_replicate {α : Type} (items : List α) (i : ℕ) (a b : α) :
    (items ++ List.replicate (i + 1 - items.length) a)[i]?.getD b = items[i]?.getD a := by
  by_cases h : i < items.length
  · rw [List.getElem?_append_left h, List.getElem?_eq_getElem h]
    rfl
  · rw [List.getElem?_append_right (by omega), List.getElem?_replicate, if_pos (by omega),
      List.getElem?_eq_none (by omega)]
    rfl

theorem setNestedSegs_ok_iff (value : Value) (segs : List String) (cur : Value) :
    (∃ v, setNestedSegs limit value segs cur = .ok v) ↔ PathFits limit segs cur := by
  induction segs generalizing cur with
  | nil => exact iff_of_true ⟨cur, rfl⟩ trivial
  | cons seg rest ih =>
    cases rest with
    | nil =>
      cases cur with
      | arr items =>
        refine iff_of_true ?_ trivial
        rw [setNestedSegs]
        cases parseUsize seg <;> exact ⟨_, rfl⟩
      | _ => exact iff_of_true ⟨_, rfl⟩ trivial
    | cons next rest =>
      cases cur with
      | obj m =>
        rw [setNestedSegs, PathFits]
        split
        · rename_i hignored
          rw [Bool.and_eq_true, Bool.not_eq_true'] at hignored
          exact iff_of_true ⟨_, rfl⟩ (.inl hignored)
        · rename_i hwritten
          rw [Bool.and_eq_true, Bool.not_eq_true'] at hwritten
          rw [or_iff_right hwritten, ← ih, exists_map_ok_iff]
      | arr items =>
        rw [setNestedSegs, PathFits]
        cases hseg : parseUsize seg with
        | none => exact iff_of_true ⟨_, rfl⟩ fun i hi ↦ by cases hi
        | some i =>
          dsimp only
          have hforall {P : ℕ → Prop} : (∀ j, some i = some j → P j) ↔ P i :=
            ⟨fun h ↦ h i rfl, fun h j hj ↦ Option.some.inj hj ▸ h⟩
          rw [hforall]
          by_cases hlong : items.length ≤ i ∧ limit ≤ i
          · rw [if_pos hlong]
            refine iff_of_false ?_ fun h ↦ by omega
            rintro ⟨_, h⟩
            cases h
          · rw [if_neg hlong, exists_map_ok_iff, ih, getD_append_replicate, and_iff_right (by omega)]
      | _ => exact iff_of_true ⟨_, rfl⟩ trivial

theorem BodyWrite.apply_ok_iff (w : BodyWrite) (body : Value) :
    (∃ b, w.apply limit body = .ok b) ↔ w.Fits limit body := by
  cases w with
  | model name =>
    cases body with
    | obj m => exact iff_of_true ⟨_, rfl⟩ (.inl rfl)
    | null => exact iff_of_true ⟨_, rfl⟩ (.inr rfl)
    | _ =>
      refine iff_of_false (fun ⟨_, hb⟩ ↦ absurd hb (by simp [BodyWrite.apply, setModel])) ?_
      rintro (h | h) <;> exact nomatch h
  | set override => exact setNestedSegs_ok_iff limit _ _ _
  | add override =>
    show (∃ b, addNested limit body override = .ok b) ↔ _ ∨ _
    rw [addNested]
    split
    · rename_i hnothing
      refine iff_of_true ⟨_, rfl⟩ ?_
      rw [Bool.or_eq_true] at hnothing
      rcases hnothing with hempty | hexists
      · left
        rw [List.isEmpty_iff.1 hempty]
        rw [pathExists]
      · exact .inl hexists
    · rename_i hmissing
      rw [Bool.or_eq_true, not_or] at hmissing
      rw [setNestedSegs_ok_iff]
      exact (or_iff_right hmissing.2).symm

/-- A rewriting panics exactly when one of its writes does not fit. -/
theorem rewriteBody_iff (body : Value) (upstreamModel : Option String)
    (overrides : Option Overrides) :
    (∃ b, rewriteBody limit body upstreamModel overrides = .ok b) ↔
      AllFit limit (bodyWrites upstreamModel overrides) body := by
  rw [rewriteBody_eq]
  induction bodyWrites upstreamModel overrides generalizing body with
  | nil => exact iff_of_true ⟨body, rfl⟩ trivial
  | cons w rest ih =>
    rw [AllFit, List.foldlM_cons, ← w.apply_ok_iff]
    constructor
    · intro ⟨b, hb⟩
      obtain ⟨next, hnext, hrest⟩ := bind_eq_ok.1 hb
      refine ⟨⟨next, hnext⟩, fun body' hbody' ↦ ?_⟩
      obtain rfl := Except.ok.inj (hnext.symm.trans hbody')
      exact (ih next).1 ⟨b, hrest⟩
    · intro ⟨⟨next, hnext⟩, hrest⟩
      obtain ⟨b, hb⟩ := (ih next).2 (hrest next hnext)
      exact ⟨b, bind_eq_ok.2 ⟨next, hnext, hb⟩⟩

end Writes

end NextApi.Upstream
