import NextApi.Json.Syntax
import NextApi.Upstream.RewriteBody

/-!
# What a write at a path changes

A path is read segment by segment, a member by its name and an item by its index (`readPath`). A
write makes the containers that are missing on its way, and puts one in the place of a scalar. It
may also make an array longer, and then fills it up with empty containers.

Unless the path leaves what is there and ends in an index, it reads the value afterwards, or nothing
is changed: there is a key on an array, an index past the end of one, or a scalar in one. A path
that parts from it reads as before, except for an item that an array is filled up with, and unless
an object stands where the path goes on with an index, which is replaced by an array. What is added
only where it is missing leaves all values as they are but for those on the way, unless the path
reads an item of an array already (`nestedWrites`).
-/

set_option autoImplicit false

namespace NextApi.Upstream

open Json

/-! ### Reading -/

/-- The child that a segment names. -/
def child? : Value → String → Option Value
  | .obj m, seg => Map.get? m seg
  | .arr items, seg => (parseUsize seg).bind fun i ↦ items[i]?
  | _, _ => none

def readPath : Value → List String → Option Value
  | cur, [] => some cur
  | cur, seg :: rest => (child? cur seg).bind fun next ↦ readPath next rest

/-- Two segments name the same child: the same name, or the same index. -/
def SameChild : Value → String → String → Prop
  | .obj _, seg, other => seg = other
  | .arr _, seg, other => ∃ i, parseUsize seg = some i ∧ parseUsize other = some i
  | _, _, _ => False

/-- What a write goes on with: the child, or the container that is made for the next segment. -/
def target (cur : Value) (seg next : String) : Value :=
  if cur.isObject then aligned ((child? cur seg).getD (emptyContainer next)) next
  else (child? cur seg).getD (emptyContainer next)

/-! ### Paths of a write -/

/-- The paths part: they name different children of something on the way. -/
def Parts : Value → List String → List String → Prop
  | cur, [seg], other :: _ => ¬ SameChild cur seg other
  | cur, seg :: next :: rest, other :: others =>
    ¬ SameChild cur seg other ∨ Parts (target cur seg next) (next :: rest) others
  | _, _, _ => False

/-- Between the end of an array and the index that it is made long enough for. -/
def FilledUp : Value → String → String → Prop
  | .arr items, seg, other =>
    ∃ i j, parseUsize seg = some i ∧ parseUsize other = some j ∧ items.length ≤ j ∧ j < i
  | _, _, _ => False

/-- The second path is that of an item that an array on the first one is filled up with. -/
def Fills : Value → List String → List String → Prop
  | cur, seg :: next :: rest, other :: others =>
    FilledUp cur seg other ∧ others = [] ∨
      SameChild cur seg other ∧ Fills (target cur seg next) (next :: rest) others
  | _, _, _ => False

/-- A member that is an object, and the next segment is an index. -/
def TearsAt (cur : Value) (seg next : String) : Prop :=
  cur.isObject = true ∧ isIndex next = true ∧
    ∃ child, child? cur seg = some child ∧ child.isObject = true

/-- On the way an object stands where the path goes on with an index. -/
def Tears : Value → List String → Prop
  | cur, seg :: next :: rest =>
    TearsAt cur seg next ∨ Tears (target cur seg next) (next :: rest)
  | _, _ => False

/-- A write is ignored: there is an array and no index, or a scalar. -/
def StopsAt : Value → String → String → Prop
  | .obj m, seg, next =>
    ∃ child, Map.get? m seg = some child ∧ child.isArray = true ∧ isIndex next = false
  | .arr _, seg, _ => isIndex seg = false
  | _, _, _ => True

/-- Before its last segment the path leaves what is there: a write goes on with a new container. -/
def Leaves : Value → List String → Prop
  | cur, seg :: next :: rest =>
    ¬ StopsAt cur seg next ∧
      (child? cur seg ≠ some (target cur seg next) ∨ Leaves (target cur seg next) (next :: rest))
  | _, _ => False

def endsInIndex (segs : List String) : Bool := segs.getLast?.any isIndex

/-! ### Containers -/

theorem aligned_emptyContainer (next : String) :
    aligned (emptyContainer next) next = emptyContainer next := by
  rw [aligned, emptyContainer]
  cases isIndex next with
  | true => rfl
  | false => rfl

theorem child?_emptyContainer (next seg : String) : child? (emptyContainer next) seg = none := by
  rw [emptyContainer]
  cases isIndex next with
  | true =>
    show (parseUsize seg).bind (fun i ↦ ([] : List Value)[i]?) = none
    cases parseUsize seg with
    | none => rfl
    | some i => rfl
  | false => rfl

theorem readPath_emptyContainer (next : String) {path : List String} (h : path ≠ []) :
    readPath (emptyContainer next) path = none := by
  cases path with
  | nil => exact absurd rfl h
  | cons seg rest => rw [readPath, child?_emptyContainer, Option.bind_none]

/-- A value that is replaced by a container is a scalar, or an object that is torn. -/
theorem aligned_cases (child : Value) (next : String) :
    aligned child next = child ∨ aligned child next = emptyContainer next ∧
      (child.isObject = true ∧ isIndex next = true ∨ ∀ seg, child? child seg = none) := by
  rw [aligned, emptyContainer]
  cases isIndex next with
  | true =>
    cases child with
    | arr items => exact Or.inl rfl
    | obj m => exact Or.inr ⟨rfl, Or.inl ⟨rfl, rfl⟩⟩
    | _ => exact Or.inr ⟨rfl, Or.inr fun _ ↦ rfl⟩
  | false =>
    cases child with
    | arr items => exact Or.inl rfl
    | obj m => exact Or.inl rfl
    | _ => exact Or.inr ⟨rfl, Or.inr fun _ ↦ rfl⟩

/-- A write goes on with the child that is there, or with a new container. -/
theorem target_cases (cur : Value) (seg next : String) :
    child? cur seg = some (target cur seg next) ∨ target cur seg next = emptyContainer next := by
  rw [target]
  cases child? cur seg with
  | none =>
    rw [Option.getD_none, aligned_emptyContainer, ite_self]
    exact Or.inr rfl
  | some child =>
    rw [Option.getD_some]
    split
    · rcases aligned_cases child next with heq | ⟨heq, -⟩
      · exact Or.inl (by rw [heq])
      · exact Or.inr heq
    · exact Or.inl rfl

/-- What a path reads behind a segment is there before the write already. -/
theorem readPath_target {cur : Value} {seg next : String} (htears : ¬ TearsAt cur seg next)
    {path : List String} (hpath : path ≠ []) :
    readPath (target cur seg next) path =
      (child? cur seg).bind fun child ↦ readPath child path := by
  rw [target]
  cases hchild : child? cur seg with
  | none =>
    rw [Option.getD_none, aligned_emptyContainer, ite_self, readPath_emptyContainer next hpath,
      Option.bind_none]
  | some child =>
    rw [Option.getD_some, Option.bind_some]
    split
    · next hobject =>
      rcases aligned_cases child next with heq | ⟨heq, htorn | hscalar⟩
      · rw [heq]
      · exact absurd ⟨hobject, htorn.2, child, hchild, htorn.1⟩ htears
      · rw [heq, readPath_emptyContainer next hpath]
        cases path with
        | nil => exact absurd rfl hpath
        | cons seg' rest => rw [readPath, hscalar, Option.bind_none]
    · rfl

theorem child?_of_same {cur : Value} {seg other : String} (h : SameChild cur seg other) :
    child? cur seg = child? cur other := by
  cases cur with
  | obj m =>
    rw [SameChild] at h
    rw [h]
  | arr items =>
    obtain ⟨i, hseg, hother⟩ := h
    rw [child?, child?, hseg, hother]
  | _ => rfl

theorem child?_of_filledUp {cur : Value} {seg other : String} (h : FilledUp cur seg other) :
    child? cur other = none := by
  cases cur with
  | arr items =>
    obtain ⟨i, j, -, hother, hlength, -⟩ := h
    rw [child?, hother, Option.bind_some, List.getElem?_eq_none hlength]
  | _ => exact absurd h id

theorem ne_nil_of_fills {cur : Value} {segs path : List String} (h : Fills cur segs path) :
    path ≠ [] := by
  cases path with
  | nil =>
    rcases segs with _ | ⟨seg, _ | ⟨next, rest⟩⟩
    · exact absurd h id
    · exact absurd h id
    · exact absurd h id
  | cons other others => exact List.cons_ne_nil other others

/-! ### Writing -/

section Writes

variable {limit : ℕ} {value : Value}

/-- A container with another child in the place of the one that a segment names. -/
def put : Value → String → String → Value → Value
  | .obj m, seg, _, child => .obj (Map.insert m seg child)
  | .arr items, seg, next, child =>
    match parseUsize seg with
    | none => .arr items
    | some i =>
      .arr ((items ++ List.replicate (i + 1 - items.length) (emptyContainer next)).set i child)
  | cur, _, _, _ => cur

theorem put_obj (m : Map) (seg next : String) (child : Value) :
    put (.obj m) seg next child = .obj (Map.insert m seg child) := rfl

theorem put_arr {seg : String} {i : ℕ} (h : parseUsize seg = some i) (items : List Value)
    (next : String) (child : Value) :
    put (.arr items) seg next child =
      .arr ((items ++ List.replicate (i + 1 - items.length)
        (emptyContainer next)).set i child) := by
  show (match parseUsize seg with | none => _ | some i => _) = _
  rw [h]

theorem put_arr_none {seg : String} (h : parseUsize seg = none) (items : List Value)
    (next : String) (child : Value) : put (.arr items) seg next child = .arr items := by
  show (match parseUsize seg with | none => _ | some i => _) = _
  rw [h]

/-- Before its last segment a write goes on, or it is ignored. -/
theorem setNestedSegs_cases {seg next : String} {rest : List String} {cur cur' : Value}
    (h : setNestedSegs limit value (seg :: next :: rest) cur = .ok cur') :
    StopsAt cur seg next ∧ cur' = cur ∨ ¬ StopsAt cur seg next ∧
      ∃ child, setNestedSegs limit value (next :: rest) (target cur seg next) = .ok child ∧
        cur' = put cur seg next child := by
  cases cur with
  | obj m =>
    rw [setNestedSegs] at h
    split at h
    · next hstop =>
      refine Or.inl ⟨?_, (Except.ok.inj h).symm⟩
      rw [Bool.and_eq_true, Bool.not_eq_true'] at hstop
      cases hchild : Map.get? m seg with
      | none =>
        rw [hchild, Option.getD_none, emptyContainer, hstop.2] at hstop
        exact absurd hstop.1 Bool.false_ne_true
      | some child =>
        rw [hchild] at hstop
        exact ⟨child, hchild, hstop⟩
    · next hgoes =>
      obtain ⟨child, hchild, rfl⟩ := map_eq_ok.1 h
      refine Or.inr ⟨?_, child, hchild, rfl⟩
      rintro ⟨old, hold, hstop⟩
      refine hgoes ?_
      rw [hold, Option.getD_some, hstop.1, hstop.2]
      rfl
  | arr items =>
    rw [setNestedSegs] at h
    cases hseg : parseUsize seg with
    | none =>
      rw [hseg] at h
      exact Or.inl ⟨by rw [StopsAt, isIndex, hseg]; rfl, (Except.ok.inj h).symm⟩
    | some i =>
      rw [hseg] at h
      dsimp only at h
      split at h
      · exact absurd h (by simp)
      · obtain ⟨child, hchild, rfl⟩ := map_eq_ok.1 h
        refine Or.inr ⟨by rw [StopsAt, isIndex, hseg]; simp, child, ?_, (put_arr hseg _ _ _).symm⟩
        rw [getD_append_replicate] at hchild
        rw [target, child?, hseg]
        exact hchild
  | _ => exact Or.inl ⟨trivial, (Except.ok.inj h).symm⟩

/-- The last segment writes the value, or it is ignored. -/
theorem setNestedSegs_last {seg : String} {cur cur' : Value}
    (h : setNestedSegs limit value [seg] cur = .ok cur') :
    cur' = cur ∨ child? cur' seg = some value ∧
      ∀ other, ¬ SameChild cur seg other → child? cur' other = child? cur other := by
  cases cur with
  | obj m =>
    rw [setNestedSegs] at h
    rw [← Except.ok.inj h]
    refine Or.inr ⟨by rw [child?, Map.get?_insert, if_pos rfl], fun other hother ↦ ?_⟩
    rw [SameChild] at hother
    rw [child?, child?, Map.get?_insert, if_neg hother]
  | arr items =>
    rw [setNestedSegs] at h
    cases hseg : parseUsize seg with
    | none =>
      rw [hseg] at h
      exact Or.inl (Except.ok.inj h).symm
    | some i =>
      rw [hseg] at h
      rw [← Except.ok.inj h]
      by_cases hi : i < items.length
      · rw [if_pos hi]
        refine Or.inr ⟨?_, fun other hother ↦ ?_⟩
        · rw [child?, hseg, Option.bind_some, List.getElem?_set_self hi]
        · rw [child?, child?]
          cases hparse : parseUsize other with
          | none => rfl
          | some j =>
            have hne : i ≠ j := fun heq ↦ hother ⟨i, hseg, by rw [heq, hparse]⟩
            rw [Option.bind_some, Option.bind_some, List.getElem?_set_ne hne]
      · rw [if_neg hi]
        exact Or.inl rfl
  | _ => exact Or.inl (Except.ok.inj h).symm

/-- The child that is put is there. -/
theorem child?_put_self {cur child : Value} {seg next : String} (hgoes : ¬ StopsAt cur seg next) :
    child? (put cur seg next child) seg = some child := by
  cases cur with
  | obj m => rw [put_obj, child?, Map.get?_insert, if_pos rfl]
  | arr items =>
    rw [StopsAt, Bool.not_eq_false, isIndex] at hgoes
    obtain ⟨i, hi⟩ := Option.isSome_iff_exists.1 hgoes
    rw [put_arr hi]
    show (parseUsize seg).bind (fun i ↦ _) = _
    rw [hi, Option.bind_some, List.getElem?_set_self]
    rw [List.length_append, List.length_replicate]
    omega
  | _ => exact absurd trivial hgoes

theorem child?_put_of_same {cur child : Value} {seg next other : String}
    (h : SameChild cur seg other) : child? (put cur seg next child) other = some child := by
  cases cur with
  | obj m =>
    rw [SameChild] at h
    rw [put_obj, child?, Map.get?_insert, if_pos h]
  | arr items =>
    obtain ⟨i, hseg, hother⟩ := h
    rw [put_arr hseg]
    show (parseUsize other).bind (fun i ↦ _) = _
    rw [hother, Option.bind_some, List.getElem?_set_self]
    rw [List.length_append, List.length_replicate]
    omega
  | _ => exact absurd h id

/-- Any other child is as it was, or an array is filled up with it. -/
theorem child?_put_of_not_same {cur : Value} (child : Value) {seg other : String} (next : String)
    (h : ¬ SameChild cur seg other) :
    child? (put cur seg next child) other = child? cur other ∨
      child? (put cur seg next child) other = some (emptyContainer next) ∧
        FilledUp cur seg other ∧ child? cur other = none := by
  cases cur with
  | obj m =>
    rw [SameChild] at h
    rw [put_obj, child?, Map.get?_insert, if_neg h]
    exact Or.inl rfl
  | arr items =>
    cases hseg : parseUsize seg with
    | none => exact Or.inl (by rw [put_arr_none hseg])
    | some i =>
      rw [put_arr hseg]
      cases hother : parseUsize other with
      | none =>
        refine Or.inl ?_
        rw [child?, child?, hother]
        rfl
      | some j =>
        have hne : i ≠ j := fun heq ↦ h ⟨i, hseg, by rw [heq, hother]⟩
        simp only [child?, hother, Option.bind_some, List.getElem?_set_ne hne]
        by_cases hj : j < items.length
        · exact Or.inl (List.getElem?_append_left hj)
        · rw [List.getElem?_append_right (Nat.le_of_not_lt hj), List.getElem?_replicate,
            List.getElem?_eq_none (Nat.le_of_not_lt hj)]
          by_cases hi : j < i
          · refine Or.inr ⟨if_pos (by omega), ⟨i, j, hseg, hother, Nat.le_of_not_lt hj, hi⟩, rfl⟩
          · exact Or.inl (if_neg (by omega))
  | _ => exact Or.inl rfl

/-- A child that is there is put in its own place. -/
theorem put_child? {cur child : Value} (hcur : cur.Normal) {seg next : String}
    (h : child? cur seg = some child) : put cur seg next child = cur := by
  cases cur with
  | obj m => rw [put_obj, Map.insert_of_get? hcur.1 h]
  | arr items =>
    rw [child?] at h
    obtain ⟨i, hi, hitem⟩ := Option.bind_eq_some_iff.1 h
    obtain ⟨hlt, hitem⟩ := List.getElem?_eq_some_iff.1 hitem
    rw [put_arr hi, Nat.sub_eq_zero_of_le hlt, List.replicate_zero, List.append_nil, ← hitem,
      List.set_getElem_self]
  | _ => exact absurd h (by simp [child?])

theorem normal_child? {cur child : Value} (hcur : cur.Normal) {seg : String}
    (h : child? cur seg = some child) : child.Normal := by
  cases cur with
  | obj m => exact Value.normalMembers_iff.1 hcur.2 _ (Value.mem_of_get? h)
  | arr items =>
    obtain ⟨i, -, hitem⟩ := Option.bind_eq_some_iff.1 h
    have hmem := List.mem_of_getElem? hitem
    rw [Value.Normal] at hcur
    clear h hitem
    induction items with
    | nil => exact absurd hmem List.not_mem_nil
    | cons item rest ih =>
      rcases List.mem_cons.1 hmem with rfl | hmem
      · exact hcur.1
      · exact ih hcur.2 hmem
  | _ => exact absurd h (by simp [child?])

/-! ### The value -/

/-- In a new container a write goes on to the end, where an index is past the end of an array. -/
theorem readPath_setNestedSegs_new {seg : String} {rest : List String} {cur' : Value}
    (h : setNestedSegs limit value (seg :: rest) (emptyContainer seg) = .ok cur')
    (hend : endsInIndex (seg :: rest) = false) : readPath cur' (seg :: rest) = some value := by
  induction rest generalizing seg cur' with
  | nil =>
    rw [emptyContainer, show isIndex seg = false from hend, if_neg Bool.false_ne_true,
      setNestedSegs] at h
    rw [← Except.ok.inj h, readPath, child?, Map.get?_insert, if_pos rfl]
    rfl
  | cons next rest ih =>
    have htarget : target (emptyContainer seg) seg next = emptyContainer next := by
      rw [target, child?_emptyContainer, Option.getD_none, aligned_emptyContainer, ite_self]
    rcases setNestedSegs_cases h with ⟨hstop, -⟩ | ⟨hgoes, child, hchild, rfl⟩
    · rw [emptyContainer] at hstop
      cases hindex : isIndex seg with
      | true =>
        rw [hindex, if_pos rfl, StopsAt, hindex] at hstop
        exact absurd hstop.symm Bool.false_ne_true
      | false =>
        rw [hindex, if_neg Bool.false_ne_true] at hstop
        obtain ⟨child, hchild, -⟩ := hstop
        exact absurd hchild (by simp)
    · rw [htarget] at hchild
      rw [readPath, child?_put_self hgoes, Option.bind_some]
      exact ih hchild (by rwa [endsInIndex, List.getLast?_cons_cons] at hend)

/-- Unless the path leaves what is there and ends in an index, it reads the value after a write, or
nothing is changed. -/
theorem readPath_setNestedSegs {segs : List String} {cur cur' : Value} (hcur : cur.Normal)
    (h : setNestedSegs limit value segs cur = .ok cur')
    (hleaves : Leaves cur segs → endsInIndex segs = false) :
    readPath cur' segs = some value ∨ cur' = cur := by
  induction segs generalizing cur cur' with
  | nil =>
    rw [setNestedSegs] at h
    exact Or.inr (Except.ok.inj h).symm
  | cons seg rest ih =>
    cases rest with
    | nil =>
      rcases setNestedSegs_last h with heq | ⟨hvalue, -⟩
      · exact Or.inr heq
      · refine Or.inl ?_
        rw [readPath, hvalue]
        rfl
    | cons next rest =>
      rcases setNestedSegs_cases h with ⟨-, heq⟩ | ⟨hgoes, child, hchild, rfl⟩
      · exact Or.inr heq
      rw [readPath, child?_put_self hgoes, Option.bind_some]
      have hlast : endsInIndex (seg :: next :: rest) = endsInIndex (next :: rest) := by
        rw [endsInIndex, endsInIndex, List.getLast?_cons_cons]
      rw [hlast] at hleaves
      by_cases hthere : child? cur seg = some (target cur seg next)
      · -- The write goes on with what is there.
        rcases ih (normal_child? hcur hthere) hchild fun hnext ↦
          hleaves ⟨hgoes, Or.inr hnext⟩ with hread | heq
        · exact Or.inl hread
        · refine Or.inr ?_
          rw [heq]
          exact put_child? hcur hthere
      · rw [(target_cases cur seg next).resolve_left hthere] at hchild
        exact Or.inl (readPath_setNestedSegs_new hchild (hleaves ⟨hgoes, Or.inl hthere⟩))

/-! ### Other paths -/

theorem ne_nil_of_parts {cur : Value} {segs path : List String} (h : Parts cur segs path) :
    path ≠ [] := by
  cases path with
  | nil =>
    rcases segs with _ | ⟨seg, _ | ⟨next, rest⟩⟩
    · exact absurd h id
    · exact absurd h id
    · exact absurd h id
  | cons other others => exact List.cons_ne_nil other others

/-- A path that parts from the one of a write reads as before. -/
theorem readPath_of_parts {segs path : List String} {cur cur' : Value}
    (h : setNestedSegs limit value segs cur = .ok cur') (htears : ¬ Tears cur segs)
    (hparts : Parts cur segs path) (hfills : ¬ Fills cur segs path) :
    readPath cur' path = readPath cur path := by
  induction segs generalizing cur cur' path with
  | nil => exact absurd hparts (by simp [Parts])
  | cons seg rest ih =>
    obtain ⟨other, others, rfl⟩ := List.exists_cons_of_ne_nil (ne_nil_of_parts hparts)
    rw [readPath, readPath]
    cases rest with
    | nil =>
      rcases setNestedSegs_last h with rfl | ⟨-, hother⟩
      · rfl
      · rw [hother other hparts]
    | cons next rest =>
      rcases setNestedSegs_cases h with ⟨-, rfl⟩ | ⟨-, child, hchild, rfl⟩
      · rfl
      rw [Tears, not_or] at htears
      rw [Fills, not_or] at hfills
      by_cases hsame : SameChild cur seg other
      · have hparts := hparts.resolve_left (not_not_intro hsame)
        rw [child?_put_of_same hsame, Option.bind_some,
          ih hchild htears.2 hparts fun hfill ↦ hfills.2 ⟨hsame, hfill⟩,
          readPath_target htears.1 (ne_nil_of_parts hparts), child?_of_same hsame]
      · rcases child?_put_of_not_same child next hsame with heq | ⟨hnew, hfill, hnone⟩
        · rw [heq]
        · rw [hnew, hnone, Option.bind_some, Option.bind_none]
          exact readPath_emptyContainer next fun hnil ↦ hfills.1 ⟨hfill, hnil⟩

/-- An item that an array is filled up with is not there before. -/
theorem readPath_of_fills {segs path : List String} {cur : Value} (htears : ¬ Tears cur segs)
    (hfills : Fills cur segs path) : readPath cur path = none := by
  induction segs generalizing cur path with
  | nil => exact absurd hfills (by simp [Fills])
  | cons seg rest ih =>
    cases rest with
    | nil => exact absurd hfills (by simp [Fills])
    | cons next rest =>
      cases path with
      | nil => exact absurd hfills (by simp [Fills])
      | cons other others =>
        rw [Tears, not_or] at htears
        rw [readPath]
        rcases hfills with ⟨hfill, -⟩ | ⟨hsame, hfills⟩
        · rw [child?_of_filledUp hfill, Option.bind_none]
        · have hnone := ih htears.2 hfills
          rw [readPath_target htears.1 (ne_nil_of_fills hfills), child?_of_same hsame] at hnone
          exact hnone

/-- Where a write is ignored, no array is filled up. -/
theorem not_fills_of_stopsAt {cur : Value} {seg next : String} {rest path : List String}
    (hstop : StopsAt cur seg next) : ¬ Fills cur (seg :: next :: rest) path := by
  have hindex {items : List Value} {seg' : String} {rest' path' : List String}
      (h : Fills (.arr items) (seg' :: rest') path') : isIndex seg' = true := by
    cases rest' with
    | nil => exact absurd h (by simp [Fills])
    | cons next' rest' =>
      cases path' with
      | nil => exact absurd h (by simp [Fills])
      | cons other others =>
        rcases h with ⟨⟨i, j, hseg, -⟩, -⟩ | ⟨⟨i, hseg, -⟩, -⟩
        · rw [isIndex, hseg]
          rfl
        · rw [isIndex, hseg]
          rfl
  intro h
  cases cur with
  | obj m =>
    obtain ⟨child, hchild, harray, hnext⟩ := hstop
    cases path with
    | nil => exact absurd h (by simp [Fills])
    | cons other others =>
      obtain ⟨hfill, -⟩ | ⟨-, h⟩ := h
      · exact hfill
      · cases child with
        | arr items =>
          have htarget : target (.obj m) seg next = .arr items := by
            rw [target, child?, hchild, Option.getD_some, aligned, hnext]
            rfl
          rw [htarget] at h
          exact absurd (hindex h) (by rw [hnext]; exact Bool.false_ne_true)
        | _ => exact absurd harray Bool.false_ne_true
  | arr items => exact absurd (hindex h) (by rw [show isIndex seg = false from hstop]; simp)
  | _ =>
    cases path with
    | nil => exact absurd h (by simp [Fills])
    | cons other others =>
      rcases h with ⟨hfill, -⟩ | ⟨hsame, -⟩
      · exact hfill
      · exact hsame

theorem child?_put_of_filledUp {cur child : Value} {seg next other : String}
    (h : FilledUp cur seg other) :
    child? (put cur seg next child) other = some (emptyContainer next) := by
  cases cur with
  | arr items =>
    obtain ⟨i, j, hseg, hother, hlength, hlt⟩ := h
    rw [put_arr hseg]
    simp only [child?, hother, Option.bind_some, List.getElem?_set_ne (Nat.ne_of_gt hlt)]
    rw [List.getElem?_append_right hlength, List.getElem?_replicate, if_pos (by omega)]
  | _ => exact absurd h id

/-- After a write it is an empty container. -/
theorem readPath_filled {segs path : List String} {cur cur' : Value}
    (h : setNestedSegs limit value segs cur = .ok cur') (hfills : Fills cur segs path) :
    ∃ next, readPath cur' path = some (emptyContainer next) := by
  induction segs generalizing cur cur' path with
  | nil => exact absurd hfills (by simp [Fills])
  | cons seg rest ih =>
    cases rest with
    | nil => exact absurd hfills (by simp [Fills])
    | cons next rest =>
      rcases setNestedSegs_cases h with ⟨hstop, -⟩ | ⟨-, child, hchild, rfl⟩
      · exact absurd hfills (not_fills_of_stopsAt hstop)
      obtain ⟨other, others, rfl⟩ := List.exists_cons_of_ne_nil (ne_nil_of_fills hfills)
      rw [readPath]
      rcases hfills with ⟨hfill, rfl⟩ | ⟨hsame, hfills⟩
      · exact ⟨next, by rw [child?_put_of_filledUp hfill, Option.bind_some, readPath]⟩
      · rw [child?_put_of_same hsame, Option.bind_some]
        exact ih hchild hfills

end Writes

/-- A path that reads a value and goes along another one to its end, reads that one too. -/
theorem exists_readPath {segs path : List String} {cur v : Value} (htears : ¬ Tears cur segs)
    (hread : readPath cur path = some v) (hparts : ¬ Parts cur segs path)
    (hlength : segs.length ≤ path.length) : ∃ w, readPath cur segs = some w := by
  induction segs generalizing cur path with
  | nil => exact ⟨cur, rfl⟩
  | cons seg rest ih =>
    cases path with
    | nil => exact absurd hlength (by simp)
    | cons other others =>
      rw [readPath] at hread ⊢
      cases rest with
      | nil =>
        have hsame : SameChild cur seg other := not_not.1 hparts
        obtain ⟨child, hchild, -⟩ := Option.bind_eq_some_iff.1 hread
        exact ⟨child, by rw [child?_of_same hsame, hchild, Option.bind_some, readPath]⟩
      | cons next rest =>
        rw [Tears, not_or] at htears
        rw [Parts, not_or, not_not] at hparts
        rw [← child?_of_same hparts.1] at hread
        rw [List.length_cons, List.length_cons, List.length_cons] at hlength
        have hothers : others ≠ [] := List.ne_nil_of_length_pos (by omega)
        rw [← readPath_target htears.1 hothers] at hread
        rw [← readPath_target htears.1 (List.cons_ne_nil next rest)]
        exact ih htears.2 hread hparts.2 (by rw [List.length_cons]; omega)

/-! ### The two writes -/

/-- What a write at a path does to a body, when it does not panic. -/
structure NestedWrites (limit : ℕ) (body : Value) (path : String) (value : Value) : Prop where
  /-- The path reads the value, or nothing is changed. -/
  written (body' : Value) : setNested limit body (path, value) = .ok body' →
    (Leaves body (segments path) → endsInIndex (segments path) = false) →
    readPath body' (segments path) = some value ∨ body' = body
  /-- A path that parts from it reads as before, but for the items of an array that is filled. -/
  others (body' : Value) : setNested limit body (path, value) = .ok body' →
    ¬ Tears body (segments path) → ∀ other, Parts body (segments path) other →
      readPath body' other = readPath body other ∨
        Fills body (segments path) other ∧ readPath body other = none ∧
          ∃ next, readPath body' other = some (emptyContainer next)
  /-- What is added leaves a path as it is that has a value and does not end on the way. -/
  added (body' : Value) : addNested limit body (path, value) = .ok body' →
    ¬ Tears body (segments path) →
    ((readPath body (segments path)).isSome → pathExists body (segments path) = true) →
    ∀ other v, readPath body other = some v →
      Parts body (segments path) other ∨ (segments path).length ≤ other.length →
      readPath body' other = some v

end NextApi.Upstream
