import Mathlib.Data.List.Sort
import Mathlib.Data.String.Basic
import NextApi.Billing.PriceXml
import NextApi.Stream.Grouping

/-!
# The partitions of the log

The log is kept in partitions of some days each, numbered from the epoch on. The partition of an
instant is found by division, and its bounds by multiplication with saturating arithmetic; the two
fit together as long as the bounds are instants of the package (`mem_partitionRange`).

Old partitions are dropped whole. A partition is listed with the bounds that the database tells, or,
when these cannot be read, with those that its name stands for. What is dropped is not the partition
but the table of the name that its number has. So the wrong table is dropped when the bounds of the
name are not those of the partition, or when the name is written otherwise (`dropsCovered_iff`).

Instants are in nanoseconds from the epoch. The database refuses a statement for its syntax only.
-/

set_option autoImplicit false

namespace NextApi.Logging

open Transfer (I64 parseI64)

/-! ### Numbers and bounds -/

def effectiveDays (days : UInt32) : ℤ := if days = 0 then 30 else days.toNat

/-- The saturating arithmetic of `i64`. -/
def saturate (i : ℤ) : ℤ := max (-2 ^ 63) (min i (2 ^ 63 - 1))

/-- `from_timestamp`: the instants of the package. -/
def fromTimestamp (secs : ℤ) : Option ℤ :=
  if -8334601228800 ≤ secs ∧ secs ≤ 8210266876799 then some (secs * 10 ^ 9) else none

def partitionIndex (ts : ℤ) (days : UInt32) : ℤ := ts / 10 ^ 9 / 86400 / effectiveDays days

/-- The seconds at which a partition begins. -/
def startSecs (index : ℤ) (days : UInt32) : ℤ :=
  saturate (saturate (index * effectiveDays days) * 86400)

/-- The bounds of a partition; the epoch stands for one that is no instant. -/
def partitionRange (index : ℤ) (days : UInt32) : ℤ × ℤ :=
  ((fromTimestamp (startSecs index days)).getD 0,
    (fromTimestamp (startSecs (saturate (index + 1)) days)).getD 0)

def partitionName (index : ℤ) : String := "usage_logs_p" ++ toString index

/-! ### Names and bounds as texts -/

/-- What follows this beginning. -/
def stripFront (front text : List Char) : Option (List Char) :=
  if front.isPrefixOf text then some (text.drop front.length) else none

def nameToIndex (name : String) : Option I64 :=
  (stripFront "usage_logs_p".toList name.toList).bind parseI64

/-- `str::find`. -/
def findText (marker : List Char) : List Char → Option ℕ
  | [] => if marker.isEmpty then some 0 else none
  | c :: rest =>
    if marker.isPrefixOf (c :: rest) then some 0 else (findText marker rest).map (· + 1)

/-- The reader of times of the package. -/
class TimeText where
  parseFromStr : String → Option ℤ

section Bounds

variable [TimeText]

/-- Where the first bound is looked for in a text. -/
def boundMarkers (expr : List Char) : Option (ℕ × ℕ) := do
  let i ← findText "FROM ('".toList expr
  let j ← findText "') TO ('".toList expr
  return (i + 7, j)

/-- The slice between the markers fails when they are the other way round. -/
def boundPanics (expr : String) : Bool :=
  (boundMarkers expr.toList).any fun (i, j) ↦ decide (j < i)

def parsePartitionBound (expr : String) : Option (ℤ × ℤ) := do
  let text := expr.toList
  let (i, j) ← boundMarkers text
  let start := (text.drop i).take (j - i)
  let rest := text.drop (j + 8)
  let k ← findText "')".toList rest
  let t ← TimeText.parseFromStr (String.ofList start)
  let t' ← TimeText.parseFromStr (String.ofList (rest.take k))
  return (t, t')

/-! ### The database -/

/-- A partition of the log: the text of its bound, and the instant from which on it has no rows;
none when there is no such instant. -/
structure Attachment where
  bound : Option String
  upper : Option ℤ
  deriving DecidableEq

/-- The tables, with what is known of those that are partitions of the log. -/
abbrev Database := Table String (Option Attachment)

structure PartitionInfo where
  name : String
  fromTs : ℤ
  toTs : ℤ

/-- The bounds that a partition is listed with. -/
def listedBounds (days : UInt32) (name : String) (attachment : Attachment) : Option (ℤ × ℤ) :=
  match attachment.bound.bind parsePartitionBound with
  | some range => some range
  | none => (nameToIndex name).map fun idx ↦ partitionRange idx.1 days

def listPartition (days : UInt32) : String × Option Attachment → Option PartitionInfo
  | (name, some attachment) =>
    (listedBounds days name attachment).map fun range ↦ ⟨name, range.1, range.2⟩
  | (_, none) => none

def listPartitions (db : Database) (days : UInt32) : List PartitionInfo :=
  db.toList.filterMap (listPartition days)

/-- Drops the tables one after the other, and whether all statements went through: a name with a
minus sign is no name in a statement. -/
def dropAll : List PartitionInfo → Database → Bool × Database
  | [], db => (true, db)
  | info :: rest, db =>
    match nameToIndex info.name with
    | none => dropAll rest db
    | some idx => if idx.1 < 0 then (false, db) else dropAll rest (db.erase (partitionName idx.1))

/-- The partitions that end before an instant, by their names. -/
def candidates (db : Database) (before : ℤ) (days : UInt32) : List PartitionInfo :=
  ((listPartitions db days).filter fun info ↦ decide (info.toTs ≤ before)).insertionSort
    fun a b ↦ a.name ≤ b.name

/-- Some bound makes the listing panic. -/
def listingPanics (db : Database) : Bool :=
  db.values.any fun attachment ↦ ((attachment.bind Attachment.bound).any boundPanics)

/-- The partitions that are reported as dropped, none when the request fails, and the database. -/
def dropCovered (db : Database) (before : ℤ) (days : UInt32) (dryRun : Bool) :
    Option (List PartitionInfo) × Database :=
  if listingPanics db then (none, db)
  else if dryRun then (some (candidates db before days), db)
  else
    match dropAll (candidates db before days) db with
    | (true, db) => (some (candidates db before days), db)
    | (false, db) => (none, db)

end Bounds

/-! ### Ranges -/

/-- The bounds of the partition are instants of the package. -/
def Representable (index : ℤ) (days : UInt32) : Prop :=
  (fromTimestamp (index * effectiveDays days * 86400)).isSome = true ∧
    (fromTimestamp ((index + 1) * effectiveDays days * 86400)).isSome = true

section Ranges

variable {days : UInt32}

theorem effectiveDays_pos (days : UInt32) : 0 < effectiveDays days := by
  rw [effectiveDays]
  split
  · decide
  · next hne =>
    have hpos : days.toNat ≠ 0 := fun h ↦ hne (UInt32.toNat_inj.1 h)
    omega

theorem saturate_of_le {i : ℤ} (hlow : -2 ^ 63 ≤ i) (hhigh : i < 2 ^ 63) : saturate i = i := by
  rw [saturate]
  omega

theorem saturate_mono {i j : ℤ} (h : i ≤ j) : saturate i ≤ saturate j := by
  rw [saturate, saturate]
  omega

theorem fromTimestamp_eq_some_iff {secs t : ℤ} : fromTimestamp secs = some t ↔
    (-8334601228800 ≤ secs ∧ secs ≤ 8210266876799) ∧ secs * 10 ^ 9 = t := by
  rw [fromTimestamp]
  split
  · next h => simp [h]
  · next h => simp [h]

/-- Where the exact bound is an instant nothing is saturated. -/
theorem startSecs_of_isSome {index : ℤ}
    (h : (fromTimestamp (index * effectiveDays days * 86400)).isSome = true) :
    startSecs index days = index * effectiveDays days * 86400 := by
  obtain ⟨t, ht⟩ := Option.isSome_iff_exists.1 h
  obtain ⟨⟨hlow, hhigh⟩, -⟩ := fromTimestamp_eq_some_iff.1 ht
  rw [startSecs]
  generalize index * effectiveDays days = product at hlow hhigh ⊢
  rw [saturate_of_le (i := product) (by omega) (by omega)]
  exact saturate_of_le (by omega) (by omega)

/-- A number whose bound is an instant is far from being saturated. -/
theorem bounded_of_isSome {index : ℤ}
    (h : (fromTimestamp (index * effectiveDays days * 86400)).isSome = true) :
    -2 ^ 63 ≤ index ∧ index < 2 ^ 63 := by
  obtain ⟨t, ht⟩ := Option.isSome_iff_exists.1 h
  obtain ⟨⟨hlow, hhigh⟩, -⟩ := fromTimestamp_eq_some_iff.1 ht
  have hpos := effectiveDays_pos days
  constructor
  · by_contra hlt
    have hproduct : index * effectiveDays days ≤ index * 1 :=
      Int.mul_le_mul_of_nonpos_left (by omega) (by omega)
    omega
  · by_contra hlt
    have hproduct : index * 1 ≤ index * effectiveDays days :=
      Int.mul_le_mul_of_nonneg_left (by omega) (by omega)
    omega

/-- An instant is in the range of its partition. -/
theorem mem_partitionRange {ts : ℤ} (h : Representable (partitionIndex ts days) days) :
    (partitionRange (partitionIndex ts days) days).1 ≤ ts ∧
      ts < (partitionRange (partitionIndex ts days) days).2 := by
  obtain ⟨hfirst, hsecond⟩ := h
  have hnext := bounded_of_isSome hsecond
  rw [partitionRange, saturate_of_le hnext.1 hnext.2, startSecs_of_isSome hfirst,
    startSecs_of_isSome hsecond]
  obtain ⟨t, ht⟩ := Option.isSome_iff_exists.1 hfirst
  obtain ⟨t', ht'⟩ := Option.isSome_iff_exists.1 hsecond
  rw [ht, ht', Option.getD_some, Option.getD_some]
  rw [← (fromTimestamp_eq_some_iff.1 ht).2, ← (fromTimestamp_eq_some_iff.1 ht').2]
  have hpos := effectiveDays_pos days
  have hday : partitionIndex ts days * effectiveDays days ≤ ts / 10 ^ 9 / 86400 :=
    Int.ediv_mul_le _ (by omega)
  have hday' : ts / 10 ^ 9 / 86400 < (partitionIndex ts days + 1) * effectiveDays days :=
    Int.lt_ediv_add_one_mul_self _ hpos
  generalize partitionIndex ts days * effectiveDays days = first at hday ⊢
  generalize (partitionIndex ts days + 1) * effectiveDays days = second at hday' ⊢
  omega

/-- A partition ends where the next one begins. -/
theorem partitionRange_adjacent {index : ℤ} (hlow : -2 ^ 63 ≤ index) (hhigh : index + 1 < 2 ^ 63) :
    (partitionRange index days).2 = (partitionRange (index + 1) days).1 := by
  rw [partitionRange, partitionRange, saturate_of_le (by omega) hhigh]

theorem startSecs_mono {i j : ℤ} (h : i ≤ j) : startSecs i days ≤ startSecs j days := by
  have hproduct : i * effectiveDays days ≤ j * effectiveDays days :=
    Int.mul_le_mul_of_nonneg_right h (effectiveDays_pos days).le
  have hsecs : saturate (i * effectiveDays days) * 86400 ≤
      saturate (j * effectiveDays days) * 86400 :=
    Int.mul_le_mul_of_nonneg_right (saturate_mono hproduct) (by decide)
  exact saturate_mono hsecs

theorem startSecs_zero : startSecs 0 days = 0 := by
  rw [startSecs, Int.zero_mul]
  decide

theorem getD_fromTimestamp (secs : ℤ) :
    ((-8334601228800 ≤ secs ∧ secs ≤ 8210266876799) ∧
      (fromTimestamp secs).getD 0 = secs * 10 ^ 9) ∨
    ((secs < -8334601228800 ∨ 8210266876799 < secs) ∧ (fromTimestamp secs).getD 0 = 0) := by
  rw [fromTimestamp]
  split
  · next h => exact .inl ⟨h, rfl⟩
  · next h => exact .inr ⟨by omega, rfl⟩

/-- A range in which there is an instant has its exact bounds. -/
theorem exact_of_mem {index ts : ℤ} (hhigh : index < 2 ^ 63)
    (hfirst : (partitionRange index days).1 ≤ ts) (hsecond : ts < (partitionRange index days).2) :
    startSecs index days * 10 ^ 9 ≤ ts ∧ ts < startSecs (saturate (index + 1)) days * 10 ^ 9 := by
  rw [partitionRange] at hfirst hsecond
  have hstep : index ≤ saturate (index + 1) := by
    rw [saturate]
    omega
  have hmono : startSecs index days ≤ startSecs (saturate (index + 1)) days := startSecs_mono hstep
  -- the bounds of a partition are on one side of the epoch
  have hside : (0 ≤ startSecs index days ∧ 0 ≤ startSecs (saturate (index + 1)) days) ∨
      (startSecs index days ≤ 0 ∧ startSecs (saturate (index + 1)) days ≤ 0) := by
    have hzero : startSecs 0 days = 0 := startSecs_zero
    rw [← hzero]
    rcases Int.lt_or_le index 0 with hneg | hnonneg
    · have hnext : saturate (index + 1) ≤ 0 := by
        rw [saturate]
        omega
      exact .inr ⟨startSecs_mono hneg.le, startSecs_mono hnext⟩
    · exact .inl ⟨startSecs_mono hnonneg, startSecs_mono (hnonneg.trans hstep)⟩
  rcases getD_fromTimestamp (startSecs index days) with ⟨hin, hsome⟩ | ⟨hout, hnone⟩ <;>
    rcases getD_fromTimestamp (startSecs (saturate (index + 1)) days) with
      ⟨hin', hsome'⟩ | ⟨hout', hnone'⟩
  · exact ⟨by omega, by omega⟩
  · omega
  · omega
  · omega

/-- No instant is in two ranges. -/
theorem partitionRange_disjoint {i j ts : ℤ} (hlow : -2 ^ 63 ≤ i) (hij : i < j) (hhigh : j < 2 ^ 63)
    (hi : (partitionRange i days).1 ≤ ts ∧ ts < (partitionRange i days).2) :
    ¬ ((partitionRange j days).1 ≤ ts ∧ ts < (partitionRange j days).2) := by
  intro hj
  have hbefore := (exact_of_mem (hij.trans hhigh) hi.1 hi.2).2
  have hafter := (exact_of_mem hhigh hj.1 hj.2).1
  have hstep : saturate (i + 1) ≤ j := by
    rw [saturate]
    omega
  have hmono : startSecs (saturate (i + 1)) days ≤ startSecs j days := startSecs_mono hstep
  omega

end Ranges

/-! ### The order of the statements -/

/-- In order, what is reached is what has nothing bad up to it. -/
theorem mem_takeWhile_iff {α β : Type} [LinearOrder β] {key : α → β} {good : β → Bool}
    {items : List α} (hsorted : items.Pairwise fun a b ↦ key a ≤ key b) {a : α} :
    a ∈ items.takeWhile (fun b ↦ good (key b)) ↔
      a ∈ items ∧ ∀ b ∈ items, key b ≤ key a → good (key b) = true := by
  induction items with
  | nil => simp
  | cons first rest ih =>
    obtain ⟨hfirst, hrest⟩ := List.pairwise_cons.1 hsorted
    rw [List.takeWhile_cons]
    cases hgood : good (key first) with
    | false =>
      refine iff_of_false (by simp) fun ⟨hmem, hall⟩ ↦ ?_
      have hle : key first ≤ key a := by
        rcases List.mem_cons.1 hmem with rfl | hmem
        · exact le_rfl
        · exact hfirst a hmem
      rw [hall first List.mem_cons_self hle] at hgood
      exact nomatch hgood
    | true =>
      rw [if_pos rfl, List.mem_cons, List.mem_cons, ih hrest]
      constructor
      · rintro (rfl | ⟨hmem, hall⟩)
        · refine ⟨.inl rfl, fun b hb hle ↦ ?_⟩
          rcases List.mem_cons.1 hb with rfl | hb
          · exact hgood
          · rwa [le_antisymm hle (hfirst b hb)]
        · refine ⟨.inr hmem, fun b hb hle ↦ ?_⟩
          rcases List.mem_cons.1 hb with rfl | hb
          · exact hgood
          · exact hall b hb hle
      · rintro ⟨rfl | hmem, hall⟩
        · exact .inl rfl
        · exact .inr ⟨hmem, fun b hb ↦ hall b (List.mem_cons_of_mem _ hb)⟩

/-- The name has no number, or one that is not negative. -/
def droppable (name : String) : Bool := (nameToIndex name).all fun idx ↦ decide (0 ≤ idx.1)

theorem droppable_iff {name : String} :
    droppable name = true ↔ ∀ idx, nameToIndex name = some idx → 0 ≤ idx.1 := by
  rw [droppable]
  cases nameToIndex name with
  | none => simp
  | some idx => simp

/-- The tables that are dropped are those of the numbers that are reached. -/
theorem lookup_dropAll (items : List PartitionInfo) (db : Database) (name : String) :
    (dropAll items db).2.lookup name = none ↔ db.lookup name = none ∨
      ∃ info ∈ items.takeWhile (fun info ↦ droppable info.name),
        ∃ idx, nameToIndex info.name = some idx ∧ partitionName idx.1 = name := by
  induction items generalizing db with
  | nil => simp [dropAll]
  | cons info rest ih =>
    rw [dropAll, List.takeWhile_cons, droppable]
    cases hindex : nameToIndex info.name with
    | none => simp [ih, hindex]
    | some idx =>
      by_cases hneg : idx.1 < 0
      · simp [hneg, Int.not_le.2 hneg]
      · dsimp only
        rw [if_neg hneg, ih, Table.lookup_erase, Option.all_some,
          decide_eq_true (Int.not_lt.1 hneg), if_pos rfl, List.exists_mem_cons_iff, hindex]
        simp only [Option.some.injEq, exists_eq_left']
        by_cases hname : partitionName idx.1 = name
        · simp [hname]
        · simp [hname]

/-! ### What is dropped -/

section Dropping

variable [TimeText]

/-- The table has no rows from the instant on. -/
def Covered (attachment : Option Attachment) (before : ℤ) : Prop :=
  ∃ a t, attachment = some a ∧ a.upper = some t ∧ t ≤ before

/-- Only tables are dropped that have no rows from the instant on. -/
def DropsCovered (db : Database) (before : ℤ) (days : UInt32) (dryRun : Bool) : Prop :=
  ∀ name attachment, db.lookup name = some attachment →
    (dropCovered db before days dryRun).2.lookup name = none → Covered attachment before

/-- A bound that can be read is the bound. -/
def Truthful (db : Database) : Prop :=
  ∀ name a text range, db.lookup name = some (some a) → a.bound = some text →
    parsePartitionBound text = some range → a.upper = some range.2

/-- A partition is listed with a bound that is not after the instant. -/
def Listed (db : Database) (before : ℤ) (days : UInt32) (name : String) : Prop :=
  ∃ a range, db.lookup name = some (some a) ∧ listedBounds days name a = some range ∧
    range.2 ≤ before

/-- It is listed, and neither it nor one before it stands for a negative number. -/
def Reached (db : Database) (before : ℤ) (days : UInt32) (name : String) : Prop :=
  Listed db before days name ∧ ∀ other, Listed db before days other → other ≤ name →
    ∀ idx, nameToIndex other = some idx → 0 ≤ idx.1

/-- A partition that is reached leads to a table that has rows from the instant on. -/
inductive Misleads (db : Database) (before : ℤ) (days : UInt32) (name : String) : Prop
  /-- Its bound cannot be read, and that of its name is too early. -/
  | bound (idx : I64) (a : Attachment) : Reached db before days name →
    nameToIndex name = some idx → partitionName idx.1 = name → db.lookup name = some (some a) →
    a.bound.bind parsePartitionBound = none → ¬ Covered (some a) before →
    Misleads db before days name
  /-- Its number is written with a plus sign or zeros in front, and there is another table of the
  number. -/
  | name (idx : I64) (attachment : Option Attachment) : Reached db before days name →
    nameToIndex name = some idx → partitionName idx.1 ≠ name →
    db.lookup (partitionName idx.1) = some attachment → ¬ Covered attachment before →
    Misleads db before days name

theorem mem_candidates {db : Database} {before : ℤ} {days : UInt32} {info : PartitionInfo} :
    info ∈ candidates db before days ↔ ∃ a range, db.lookup info.name = some (some a) ∧
      listedBounds days info.name a = some range ∧ range.2 ≤ before ∧
      info = ⟨info.name, range.1, range.2⟩ := by
  rw [candidates, List.mem_insertionSort, List.mem_filter, listPartitions, List.mem_filterMap]
  constructor
  · rintro ⟨⟨⟨name, _ | a⟩, hmem, hinfo⟩, hbefore⟩
    · exact nomatch hinfo
    · obtain ⟨range, hrange, rfl⟩ := Option.map_eq_some_iff.1 hinfo
      exact ⟨a, range, Table.mem_toList.1 hmem, hrange, of_decide_eq_true hbefore, rfl⟩
  · rintro ⟨a, range, hlookup, hrange, hbefore, hinfo⟩
    refine ⟨⟨(info.name, some a), Table.mem_toList.2 hlookup, ?_⟩, ?_⟩
    · rw [listPartition, hrange, hinfo]
      rfl
    · rw [hinfo]
      exact decide_eq_true hbefore

theorem listed_iff {db : Database} {before : ℤ} {days : UInt32} {name : String} :
    Listed db before days name ↔ ∃ info ∈ candidates db before days, info.name = name := by
  constructor
  · rintro ⟨a, range, hlookup, hrange, hbefore⟩
    exact ⟨⟨name, range.1, range.2⟩,
      mem_candidates.2 ⟨a, range, hlookup, hrange, hbefore, rfl⟩, rfl⟩
  · rintro ⟨info, hmem, rfl⟩
    obtain ⟨a, range, hlookup, hrange, hbefore, -⟩ := mem_candidates.1 hmem
    exact ⟨a, range, hlookup, hrange, hbefore⟩

/-- The statements that are made are those of the partitions that are reached. -/
theorem reached_iff {db : Database} {before : ℤ} {days : UInt32} {name : String} :
    Reached db before days name ↔ ∃ info ∈ (candidates db before days).takeWhile
      (fun info ↦ droppable info.name), info.name = name := by
  have hsorted : (candidates db before days).Pairwise fun a b ↦ a.name ≤ b.name :=
    List.pairwise_insertionSort _ _
  constructor
  · rintro ⟨hlisted, hgood⟩
    obtain ⟨info, hmem, rfl⟩ := listed_iff.1 hlisted
    refine ⟨info, (mem_takeWhile_iff hsorted).2 ⟨hmem, fun other hother hle ↦ ?_⟩, rfl⟩
    exact droppable_iff.2 (hgood other.name (listed_iff.2 ⟨other, hother, rfl⟩) hle)
  · rintro ⟨info, hmem, rfl⟩
    obtain ⟨hmem, hgood⟩ := (mem_takeWhile_iff hsorted).1 hmem
    refine ⟨listed_iff.2 ⟨info, hmem, rfl⟩, fun other hother hle ↦ ?_⟩
    obtain ⟨info', hmem', rfl⟩ := listed_iff.1 hother
    exact droppable_iff.1 (hgood info' hmem' hle)

/-- A table is dropped when its number is reached. -/
theorem lookup_dropCovered {db : Database} (before : ℤ) (days : UInt32)
    (hpanics : listingPanics db = false) (name : String) :
    (dropCovered db before days false).2.lookup name = none ↔ db.lookup name = none ∨
      ∃ other, Reached db before days other ∧
        ∃ idx, nameToIndex other = some idx ∧ partitionName idx.1 = name := by
  have hstate : (dropCovered db before days false).2 =
      (dropAll (candidates db before days) db).2 := by
    rw [dropCovered, hpanics, if_neg Bool.false_ne_true, if_neg Bool.false_ne_true]
    rcases dropAll (candidates db before days) db with ⟨_ | _, db⟩ <;> rfl
  rw [hstate, lookup_dropAll]
  refine or_congr_right ⟨?_, ?_⟩
  · rintro ⟨info, hmem, hidx⟩
    exact ⟨info.name, reached_iff.2 ⟨info, hmem, rfl⟩, hidx⟩
  · rintro ⟨other, hreached, hidx⟩
    obtain ⟨info, hmem, rfl⟩ := reached_iff.1 hreached
    exact ⟨info, hmem, hidx⟩

/-- Only covered tables are dropped exactly when no partition misleads. -/
theorem dropsCovered_of_truthful {db : Database} (htruth : Truthful db) (before : ℤ)
    (days : UInt32) (dryRun : Bool) : DropsCovered db before days dryRun ↔
      (listingPanics db = false → dryRun = false → ∀ name, ¬ Misleads db before days name) := by
  have hkept (h : (dropCovered db before days dryRun).2 = db) :
      DropsCovered db before days dryRun := by
    intro name attachment hlookup hdropped
    rw [h, hlookup] at hdropped
    exact nomatch hdropped
  cases hpanics : listingPanics db with
  | true =>
    refine iff_of_true (hkept ?_) fun h ↦ nomatch h
    rw [dropCovered, hpanics]
    rfl
  | false =>
    cases dryRun with
    | true =>
      refine iff_of_true (hkept ?_) fun _ h ↦ nomatch h
      rw [dropCovered, hpanics]
      rfl
    | false =>
      rw [DropsCovered]
      simp only [lookup_dropCovered before days hpanics, true_imp_iff]
      constructor
      · rintro hdrops name (⟨idx, a, hreached, hidx, hname, hlookup, -, hnot⟩ |
          ⟨idx, attachment, hreached, hidx, -, hlookup, hnot⟩)
        · exact hnot (hdrops name _ hlookup (.inr ⟨name, hreached, idx, hidx, hname⟩))
        · exact hnot (hdrops _ _ hlookup (.inr ⟨name, hreached, idx, hidx, rfl⟩))
      · intro hnot name attachment hlookup hdropped
        rcases hdropped with hnone | ⟨other, hreached, idx, hidx, hname⟩
        · rw [hlookup] at hnone
          exact nomatch hnone
        by_contra huncovered
        by_cases hsame : partitionName idx.1 = other
        · -- the partition itself is dropped
          obtain rfl : other = name := hsame.symm.trans hname
          obtain ⟨a, range, hattached, hrange, hbefore⟩ := hreached.1
          obtain rfl : some a = attachment := Option.some.inj (hattached.symm.trans hlookup)
          cases hread : a.bound.bind parsePartitionBound with
          | none =>
            exact hnot _ (.bound idx a hreached hidx hsame hlookup hread huncovered)
          | some range' =>
            rw [listedBounds, hread] at hrange
            obtain rfl := Option.some.inj hrange
            obtain ⟨text, htext, hparse⟩ := Option.bind_eq_some_iff.1 hread
            exact huncovered ⟨a, _, rfl, htruth _ a text _ hlookup htext hparse, hbefore⟩
        · rw [← hname] at hlookup
          exact hnot _ (.name idx attachment hreached hidx hsame hlookup huncovered)

/-- An instant is in the range of its partition, ranges follow each other without a gap and have no
instant in common, and only covered tables are dropped exactly when no partition misleads. -/
theorem dropsCovered_iff {db : Database} (htruth : Truthful db) (before : ℤ) (days : UInt32)
    (dryRun : Bool) :
    (∀ ts, Representable (partitionIndex ts days) days →
      (partitionRange (partitionIndex ts days) days).1 ≤ ts ∧
        ts < (partitionRange (partitionIndex ts days) days).2) ∧
    (∀ index, -2 ^ 63 ≤ index → index + 1 < 2 ^ 63 →
      (partitionRange index days).2 = (partitionRange (index + 1) days).1) ∧
    (∀ i j ts, -2 ^ 63 ≤ i → i < j → j < 2 ^ 63 →
      (partitionRange i days).1 ≤ ts ∧ ts < (partitionRange i days).2 →
      ¬ ((partitionRange j days).1 ≤ ts ∧ ts < (partitionRange j days).2)) ∧
    (DropsCovered db before days dryRun ↔
      (listingPanics db = false → dryRun = false → ∀ name, ¬ Misleads db before days name)) :=
  ⟨fun _ ↦ mem_partitionRange, fun _ ↦ partitionRange_adjacent,
    fun _ _ _ ↦ partitionRange_disjoint, dropsCovered_of_truthful htruth before days dryRun⟩

end Dropping

/-! ### A number written with zeros -/

section Example

/-- Four days of the year 1970. -/
local instance fourDays : TimeText where
  parseFromStr text :=
    if text = "1970-01-01 00:00:00+00" then some 0
    else if text = "1970-01-31 00:00:00+00" then some (2592000 * 10 ^ 9)
    else if text = "1970-07-30 00:00:00+00" then some (18144000 * 10 ^ 9)
    else if text = "1970-08-29 00:00:00+00" then some (20736000 * 10 ^ 9)
    else none

def januaryBound : Attachment where
  bound := some "FOR VALUES FROM ('1970-01-01 00:00:00+00') TO ('1970-01-31 00:00:00+00')"
  upper := some (2592000 * 10 ^ 9)

def augustBound : Attachment where
  bound := some "FOR VALUES FROM ('1970-07-30 00:00:00+00') TO ('1970-08-29 00:00:00+00')"
  upper := some (20736000 * 10 ^ 9)

/-- A partition of January under a name of the number seven, and the one of that number. -/
def padded : Database :=
  ((∅ : Database).insert "usage_logs_p007" (some januaryBound)).insert "usage_logs_p7"
    (some augustBound)

theorem truthful_padded : Truthful padded := by
  intro name a text range hlookup htext hparse
  rw [padded, Table.lookup_insert, Table.lookup_insert, Table.lookup_empty] at hlookup
  split at hlookup
  · obtain rfl := Option.some.inj (Option.some.inj hlookup)
    obtain rfl := Option.some.inj htext
    have hbound : (parsePartitionBound
        "FOR VALUES FROM ('1970-07-30 00:00:00+00') TO ('1970-08-29 00:00:00+00')").map Prod.snd =
        augustBound.upper := by decide +kernel
    rw [← hbound, hparse, Option.map_some]
  · split at hlookup
    · obtain rfl := Option.some.inj (Option.some.inj hlookup)
      obtain rfl := Option.some.inj htext
      have hbound : (parsePartitionBound
          "FOR VALUES FROM ('1970-01-01 00:00:00+00') TO ('1970-01-31 00:00:00+00')").map Prod.snd =
          januaryBound.upper := by decide +kernel
      rw [← hbound, hparse, Option.map_some]
    · exact nomatch hlookup

/-- What is dropped of the two is told by the condition. -/
theorem dropsCovered_padded : DropsCovered padded (2592000 * 10 ^ 9) 30 false ↔
    (listingPanics padded = false → false = false →
      ∀ name, ¬ Misleads padded (2592000 * 10 ^ 9) 30 name) :=
  (dropsCovered_iff truthful_padded (2592000 * 10 ^ 9) 30 false).2.2.2

/-- When January is over the partition of August is dropped. -/
theorem not_dropsCovered_padded : ¬ DropsCovered padded (2592000 * 10 ^ 9) 30 false := by
  intro h
  have hthere : padded.lookup "usage_logs_p7" = some (some augustBound) := by decide +kernel
  have hdropped : (dropCovered padded (2592000 * 10 ^ 9) 30 false).2.lookup "usage_logs_p7" =
      none := by decide +kernel
  obtain ⟨a, t, ha, ht, hle⟩ := h _ _ hthere hdropped
  obtain rfl := Option.some.inj ha
  obtain rfl := Option.some.inj ht
  exact absurd hle (by decide)

end Example

end NextApi.Logging
