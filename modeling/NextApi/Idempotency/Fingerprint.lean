import Mathlib.Data.List.Nodup
import NextApi.Json.Compact
import NextApi.Json.Syntax
import NextApi.Text.Joined

/-!
# Fingerprints of requests

A request is known again by a hash of its parameters, which are written without white space and
with the members of every object in the order of their names (`canon`). Two documents have the same
text exactly when they differ in the order of members only, with numbers taken by their printed form
(`canon_eq_iff`): a text can be told from what follows it, since a string ends at its quote and a
number before the first character that is none of a number (`canon_cancel`).

How a double is printed is a parameter, of which only its characters are known, and so is the hash.
-/

set_option autoImplicit false

namespace NextApi.Idempotency

open Json Text
open NextApi.Json.Compact (printInt printString parseString parseString_escape)

/-! ### Where a text ends -/

/-- The characters of a printed number. -/
def IsNumberChar (c : Char) : Prop := c.isDigit = true ∨ c ∈ ['-', '+', '.', 'e', 'E']

instance : DecidablePred IsNumberChar := fun c ↦
  inferInstanceAs (Decidable (c.isDigit = true ∨ c ∈ ['-', '+', '.', 'e', 'E']))

/-- What ends an item or a member. -/
def IsEnd (c : Char) : Prop := c = ',' ∨ c = ']' ∨ c = '\x7d'

theorem isEnd_comma : IsEnd ',' := Or.inl rfl

theorem isEnd_bracket : IsEnd ']' := Or.inr (Or.inl rfl)

theorem isEnd_brace : IsEnd '\x7d' := Or.inr (Or.inr rfl)

theorem not_isNumberChar_of_isEnd {c : Char} (h : IsEnd c) : ¬ IsNumberChar c := by
  rcases h with rfl | rfl | rfl <;> decide

theorem isNumberChar_toDigits (n : ℕ) : ∀ c ∈ Nat.toDigits 10 n, IsNumberChar c :=
  fun _ hc ↦ Or.inl (Nat.isDigit_of_mem_toDigits (by decide) (by decide) hc)

/-- A number ends before the first character that is none of a number. -/
theorem number_cancel {text text' r r' : List Char} (htext : ∀ c ∈ text, IsNumberChar c)
    (htext' : ∀ c ∈ text', IsNumberChar c) (hr : Stops IsEnd r) (hr' : Stops IsEnd r')
    (h : text ++ r = text' ++ r') : text = text' ∧ r = r' := by
  have htake {text r : List Char} (htext : ∀ c ∈ text, IsNumberChar c) (hr : Stops IsEnd r) :
      (text ++ r).takeWhile (fun c ↦ decide (IsNumberChar c)) = text := by
    rw [List.takeWhile_append_of_pos fun c hc ↦ decide_eq_true (htext c hc)]
    cases r with
    | nil => rw [List.takeWhile_nil, List.append_nil]
    | cons c r =>
      have hc := decide_eq_false (not_isNumberChar_of_isEnd (hr c rfl))
      rw [List.takeWhile_cons, if_neg (by rw [hc]; exact Bool.false_ne_true), List.append_nil]
  have heq := htake htext hr
  rw [h, htake htext' hr'] at heq
  subst heq
  exact ⟨rfl, List.append_cancel_left h⟩

/-- A string ends at its quote. -/
theorem printString_cancel {s t : String} {r r' : List Char}
    (h : printString s ++ r = printString t ++ r') : s = t ∧ r = r' := by
  have hparse (s : String) (r : List Char) :
      parseString (printString s ++ r).tail = some (s.toList, r) := by
    rw [printString, List.cons_append, List.tail_cons, List.append_assoc]
    exact parseString_escape s.toList r
  have heq := hparse s r
  rw [h, hparse t r'] at heq
  obtain ⟨hst, hr⟩ := Prod.mk.inj (Option.some.inj heq)
  exact ⟨(String.toList_injective hst).symm, hr.symm⟩

/-- How a double is printed. -/
class FloatText where
  print : Dyadic → List Char
  print_ne_nil (x : Dyadic) : print x ≠ []
  isNumberChar (x : Dyadic) : ∀ c ∈ print x, IsNumberChar c

/-- SHA-256 of a text, in hexadecimal digits. -/
class Sha256 where
  hexDigest : List Char → String

section Texts

variable [FloatText]

/-! ### The text of a document -/

/-- The members in the order of their names. -/
def byName {α : Type} (members : List (String × α)) : List (String × α) :=
  members.mergeSort fun a b ↦ decide (a.1 ≤ b.1)

def memberText (member : String × List Char) : List Char :=
  printString member.1 ++ ':' :: member.2

mutual

/-- The text of a document, with the members of every object in the order of their names. -/
def canon : Value → List Char
  | .null => ['n', 'u', 'l', 'l']
  | .bool true => ['t', 'r', 'u', 'e']
  | .bool false => ['f', 'a', 'l', 's', 'e']
  | .int i => printInt i
  | .float x => FloatText.print x
  | .str s => printString s
  | .arr items => '[' :: (joinTexts ',' (canonItems items) ++ [']'])
  | .obj members =>
    '\x7b' :: (joinTexts ',' ((byName (canonMembers members)).map memberText) ++ ['\x7d'])

def canonItems : List Value → List (List Char)
  | [] => []
  | v :: rest => canon v :: canonItems rest

def canonMembers : List (String × Value) → List (String × List Char)
  | [] => []
  | (name, v) :: rest => (name, canon v) :: canonMembers rest

end

def fingerprint [Sha256] (body : Value) : String := Sha256.hexDigest (canon body)

theorem canonItems_eq (items : List Value) : canonItems items = items.map canon := by
  induction items with
  | nil => rfl
  | cons v rest ih => rw [canonItems, ih, List.map_cons]

theorem canonMembers_eq (members : Map) :
    canonMembers members = members.map fun member ↦ (member.1, canon member.2) := by
  induction members with
  | nil => rfl
  | cons member rest ih => rw [canonMembers, ih, List.map_cons]

theorem canon_arr (items : List Value) :
    canon (.arr items) = '[' :: (joinTexts ',' (items.map canon) ++ [']']) := by
  rw [canon, canonItems_eq]

theorem canon_obj (members : Map) : canon (.obj members) =
    '\x7b' :: (joinTexts ',' ((byName members).map fun member ↦
      memberText (member.1, canon member.2)) ++ ['\x7d']) := by
  have hsort : byName (members.map fun member ↦ (member.1, canon member.2)) =
      (byName members).map fun member ↦ (member.1, canon member.2) := by
    rw [byName, byName, List.map_mergeSort]
    exact fun _ _ _ _ ↦ rfl
  rw [canon, canonMembers_eq, hsort, List.map_map]
  rfl

/-! ### Documents with the same parameters -/

/-- The printed form of a number. -/
def numberText : Value → Option (List Char)
  | .int i => some (printInt i)
  | .float x => some (FloatText.print x)
  | _ => none

/-- The documents differ in the order of members only, numbers being the same when they are printed
the same. -/
inductive SameParams : Value → Value → Prop
  | null : SameParams .null .null
  | bool (b : Bool) : SameParams (.bool b) (.bool b)
  | number {v w : Value} {text : List Char} (left : numberText v = some text)
      (right : numberText w = some text) : SameParams v w
  | str (s : String) : SameParams (.str s) (.str s)
  | arr {xs ys : List Value} (length : xs.length = ys.length)
      (items : ∀ (i : ℕ) (x y : Value), xs[i]? = some x → ys[i]? = some y → SameParams x y) :
      SameParams (.arr xs) (.arr ys)
  | obj {m m' : Map} (names : ∀ key, (Map.get? m key).isSome = (Map.get? m' key).isSome)
      (members : ∀ key v w, Map.get? m key = some v → Map.get? m' key = some w →
        SameParams v w) :
      SameParams (.obj m) (.obj m')

/-! ### Numbers -/

/-- A printed number has only characters of numbers, and at least one. -/
theorem numberText_chars {v : Value} {text : List Char} (h : numberText v = some text) :
    text ≠ [] ∧ ∀ c ∈ text, IsNumberChar c := by
  cases v with
  | int i =>
    rw [← Option.some.inj h, printInt]
    split
    · refine ⟨List.cons_ne_nil _ _, List.forall_mem_cons.2 ⟨Or.inr (by simp), ?_⟩⟩
      exact isNumberChar_toDigits _
    · exact ⟨Nat.toDigits_ne_nil, isNumberChar_toDigits _⟩
  | float x =>
    rw [← Option.some.inj h]
    exact ⟨FloatText.print_ne_nil x, FloatText.isNumberChar x⟩
  | _ => exact absurd h (by simp [numberText])

theorem canon_of_numberText {v : Value} {text : List Char} (h : numberText v = some text) :
    canon v = text := by
  cases v with
  | int i => exact Option.some.inj h
  | float x => exact Option.some.inj h
  | _ => exact absurd h (by simp [numberText])

/-! ### Kinds of documents -/

/-- The first character of a text, where that of a number is any digit. -/
def front : Value → Char
  | .null => 'n'
  | .bool true => 't'
  | .bool false => 'f'
  | .int _ | .float _ => '0'
  | .str _ => '"'
  | .arr _ => '['
  | .obj _ => '\x7b'

def lead (c : Char) : Char := if IsNumberChar c then '0' else c

theorem canon_front (v : Value) : ∃ c rest, canon v = c :: rest ∧ lead c = front v := by
  have hnumber {text : List Char} (h : numberText v = some text) :
      ∃ c rest, canon v = c :: rest ∧ lead c = '0' := by
    obtain ⟨hne, hchars⟩ := numberText_chars h
    obtain ⟨c, rest, rfl⟩ := List.exists_cons_of_ne_nil hne
    exact ⟨c, rest, canon_of_numberText h, if_pos (hchars c List.mem_cons_self)⟩
  cases v with
  | null => exact ⟨_, _, by rw [canon], by decide⟩
  | bool b =>
    cases b with
    | true => exact ⟨_, _, by rw [canon], by decide⟩
    | false => exact ⟨_, _, by rw [canon], by decide⟩
  | int i => exact hnumber rfl
  | float x => exact hnumber rfl
  | str s => exact ⟨_, _, by rw [canon, printString], show lead '"' = '"' by decide⟩
  | arr items => exact ⟨_, _, canon_arr items, show lead '[' = '[' by decide⟩
  | obj m => exact ⟨_, _, canon_obj m, show lead '\x7b' = '\x7b' by decide⟩

theorem opens_canon (v : Value) : Opens IsEnd (canon v) := by
  obtain ⟨c, rest, hcanon, hlead⟩ := canon_front v
  refine ⟨c, rest, hcanon, fun hend ↦ ?_⟩
  rw [lead, if_neg (not_isNumberChar_of_isEnd hend)] at hlead
  rw [hlead] at hend
  cases v with
  | bool b => cases b <;> exact absurd hend (by simp [front, IsEnd])
  | _ => exact absurd hend (by simp [front, IsEnd])

/-- Documents with a common text are of one kind. -/
theorem front_eq {a b : Value} {r r' : List Char} (h : canon a ++ r = canon b ++ r') :
    front a = front b := by
  obtain ⟨c, rest, ha, hc⟩ := canon_front a
  obtain ⟨c', rest', hb, hc'⟩ := canon_front b
  rw [ha, hb, List.cons_append, List.cons_append] at h
  rw [← hc, ← hc', (List.cons.inj h).1]

/-! ### The same text -/

theorem numberText_of_front {v : Value} (h : front v = '0') : ∃ text, numberText v = some text := by
  cases v with
  | int i => exact ⟨_, rfl⟩
  | float x => exact ⟨_, rfl⟩
  | bool b => cases b <;> exact absurd h (by simp [front])
  | _ => exact absurd h (by simp [front])

omit [FloatText] in
theorem get?_byName {m : Map} (h : (Map.keys m).Nodup) {key : String} {v : Value} :
    Map.get? m key = some v ↔ (key, v) ∈ byName m := by
  rw [Value.get?_eq_some_iff h, byName, List.mem_mergeSort]

/-- Objects whose members agree in the order of their names have the same parameters. -/
theorem sameParams_of_byName {m m' : Map} (hm : (Map.keys m).Nodup) (hm' : (Map.keys m').Nodup)
    (h : List.Forall₂ (fun a b : String × Value ↦ a.1 = b.1 ∧ SameParams a.2 b.2) (byName m)
      (byName m')) : SameParams (.obj m) (.obj m') := by
  have hleft {key : String} {v : Value} (hv : Map.get? m key = some v) :
      ∃ w, Map.get? m' key = some w ∧ SameParams v w := by
    obtain ⟨⟨key', w⟩, hmem, hkey, hvw⟩ := exists_of_forall₂ h ((get?_byName hm).1 hv)
    refine ⟨w, (get?_byName hm').2 ?_, hvw⟩
    rw [show key = key' from hkey]
    exact hmem
  have hright {key : String} {w : Value} (hw : Map.get? m' key = some w) :
      ∃ v, Map.get? m key = some v := by
    obtain ⟨⟨key', v⟩, hmem, hkey, -⟩ :=
      exists_of_forall₂ (List.Forall₂.flip h) ((get?_byName hm').1 hw)
    refine ⟨v, (get?_byName hm).2 ?_⟩
    rw [← show key' = key from hkey]
    exact hmem
  refine SameParams.obj (fun key ↦ ?_) fun key v w hv hw ↦ ?_
  · rw [Bool.eq_iff_iff, Option.isSome_iff_exists, Option.isSome_iff_exists]
    constructor
    · intro ⟨v, hv⟩
      obtain ⟨w, hw, -⟩ := hleft hv
      exact ⟨w, hw⟩
    · intro ⟨w, hw⟩
      exact hright hw
  · obtain ⟨w', hw', hvw⟩ := hleft hv
    rw [← Option.some.inj (hw'.symm.trans hw)]
    exact hvw

theorem sameParams_of_items {xs ys : List Value} (h : List.Forall₂ SameParams xs ys) :
    SameParams (.arr xs) (.arr ys) := by
  refine SameParams.arr h.length_eq fun i x y hx hy ↦ ?_
  obtain ⟨hi, rfl⟩ := List.getElem?_eq_some_iff.1 hx
  obtain ⟨hi', rfl⟩ := List.getElem?_eq_some_iff.1 hy
  exact h.get hi hi'

/-- A text can be told from what follows it. -/
theorem canon_cancel (a : Value) : ∀ (b : Value) (r r' : List Char), a.DistinctNames →
    b.DistinctNames → Stops IsEnd r → Stops IsEnd r' → canon a ++ r = canon b ++ r' →
    SameParams a b ∧ r = r' := by
  have hnumber {a b : Value} {r r' : List Char} (ha : front a = '0') (hr : Stops IsEnd r)
      (hr' : Stops IsEnd r') (h : canon a ++ r = canon b ++ r') : SameParams a b ∧ r = r' := by
    obtain ⟨text, htext⟩ := numberText_of_front ha
    obtain ⟨text', htext'⟩ := numberText_of_front ((front_eq h).symm.trans ha)
    rw [canon_of_numberText htext, canon_of_numberText htext'] at h
    obtain ⟨rfl, hrest⟩ := number_cancel (numberText_chars htext).2 (numberText_chars htext').2
      hr hr' h
    exact ⟨SameParams.number htext htext', hrest⟩
  induction a using Value.induction with
  | null =>
    intro b r r' _ _ _ _ h
    have hfront := front_eq h
    cases b with
    | null => exact ⟨SameParams.null, List.append_cancel_left h⟩
    | bool b => cases b <;> exact absurd hfront (by simp [front])
    | _ => exact absurd hfront (by simp [front])
  | bool b =>
    intro b' r r' _ _ _ _ h
    have hfront := front_eq h
    cases b' with
    | bool b' =>
      have hb : b = b' := by
        cases b <;> cases b' <;> first | rfl | exact absurd hfront (by simp [front])
      subst hb
      exact ⟨SameParams.bool b, List.append_cancel_left h⟩
    | _ => cases b <;> exact absurd hfront (by simp [front])
  | int i => exact fun _ _ _ _ _ hr hr' h ↦ hnumber rfl hr hr' h
  | float x => exact fun _ _ _ _ _ hr hr' h ↦ hnumber rfl hr hr' h
  | str s =>
    intro b r r' _ _ _ _ h
    have hfront := front_eq h
    cases b with
    | str t =>
      rw [canon, canon] at h
      obtain ⟨rfl, hr⟩ := printString_cancel h
      exact ⟨SameParams.str s, hr⟩
    | bool b => cases b <;> exact absurd hfront (by simp [front])
    | _ => exact absurd hfront (by simp [front])
  | arr xs ih =>
    intro b r r' ha hb _ _ h
    have hfront := front_eq h
    cases b with
    | arr ys =>
      rw [canon_arr, canon_arr, List.cons_append, List.cons_append, List.append_assoc,
        List.append_assoc] at h
      obtain ⟨hitems, hr⟩ := joined_cancel (R := SameParams) isEnd_comma isEnd_bracket
        (by decide) opens_canon (fun x hx y hy r r' hstop hstop' ↦
          ih x hx y r r' (ha.item hx) (hb.item hy) hstop hstop') (List.cons.inj h).2
      exact ⟨sameParams_of_items hitems, hr⟩
    | bool b => cases b <;> exact absurd hfront (by simp [front])
    | _ => exact absurd hfront (by simp [front])
  | obj m ih =>
    intro b r r' ha hb _ _ h
    have hfront := front_eq h
    cases b with
    | obj m' =>
      rw [canon_obj, canon_obj, List.cons_append, List.cons_append, List.append_assoc,
        List.append_assoc] at h
      have hopens (member : String × Value) :
          Opens IsEnd (memberText (member.1, canon member.2)) :=
        ⟨'"', _, rfl, by simp [IsEnd]⟩
      obtain ⟨hmembers, hr⟩ := joined_cancel
        (R := fun a b : String × Value ↦ a.1 = b.1 ∧ SameParams a.2 b.2)
        isEnd_comma isEnd_brace (by decide) hopens
        (fun x hx y hy r r' hstop hstop' hxy ↦ by
          rw [byName, List.mem_mergeSort] at hx hy
          rw [memberText, memberText, List.append_assoc, List.append_assoc] at hxy
          obtain ⟨hname, hvalue⟩ := printString_cancel hxy
          obtain ⟨hsame, hrest⟩ := ih x hx y.2 r r' (ha.member hx) (hb.member hy) hstop hstop'
            (List.cons.inj hvalue).2
          exact ⟨⟨hname, hsame⟩, hrest⟩) (List.cons.inj h).2
      exact ⟨sameParams_of_byName ha.names hb.names hmembers, hr⟩
    | bool b => cases b <;> exact absurd hfront (by simp [front])
    | _ => exact absurd hfront (by simp [front])

omit [FloatText] in
/-- The order of the members does not matter when they have different names. -/
theorem byName_eq {α : Type} {xs ys : List (String × α)} (hperm : xs.Perm ys)
    (hnodup : (xs.map Prod.fst).Nodup) : byName xs = byName ys := by
  have hsorted (zs : List (String × α)) :
      (byName zs).Pairwise fun a b ↦ decide (a.1 ≤ b.1) = true := by
    refine List.pairwise_mergeSort (fun a b c hab hbc ↦ ?_) (fun a b ↦ ?_) zs
    · exact decide_eq_true (String.le_trans (of_decide_eq_true hab) (of_decide_eq_true hbc))
    · rw [Bool.or_eq_true, decide_eq_true_eq, decide_eq_true_eq]
      exact String.le_total a.1 b.1
  have hbyName (zs : List (String × α)) : (byName zs).Perm zs := List.mergeSort_perm zs _
  refine ((hbyName xs).trans (hperm.trans (hbyName ys).symm)).eq_of_pairwise ?_ (hsorted xs)
    (hsorted ys)
  intro a b ha hb hab hba
  refine List.inj_on_of_nodup_map hnodup ((hbyName xs).mem_iff.1 ha)
    (hperm.mem_iff.2 ((hbyName ys).mem_iff.1 hb)) ?_
  exact String.le_antisymm (of_decide_eq_true hab) (of_decide_eq_true hba)

theorem mem_canonMembers {m : Map} (hm : (Map.keys m).Nodup) {name : String} {text : List Char} :
    (name, text) ∈ canonMembers m ↔ ∃ v, Map.get? m name = some v ∧ canon v = text := by
  rw [canonMembers_eq, List.mem_map]
  constructor
  · rintro ⟨⟨key, v⟩, hmem, heq⟩
    obtain ⟨rfl, rfl⟩ := Prod.mk.inj heq
    exact ⟨v, (Value.get?_eq_some_iff hm).2 hmem, rfl⟩
  · rintro ⟨v, hv, rfl⟩
    exact ⟨(name, v), (Value.get?_eq_some_iff hm).1 hv, rfl⟩

theorem nodup_canonMembers {m : Map} (hm : (Map.keys m).Nodup) :
    ((canonMembers m).map Prod.fst).Nodup := by
  rw [canonMembers_eq, List.map_map]
  exact hm

theorem canon_eq_of_sameParams {a b : Value} (h : SameParams a b) :
    a.DistinctNames → b.DistinctNames → canon a = canon b := by
  induction h with
  | null => exact fun _ _ ↦ rfl
  | bool b => exact fun _ _ ↦ rfl
  | number left right =>
    intro _ _
    rw [canon_of_numberText left, canon_of_numberText right]
  | str s => exact fun _ _ ↦ rfl
  | @arr xs ys length items ih =>
    intro ha hb
    have hitems : xs.map canon = ys.map canon := by
      refine List.ext_getElem (by rw [List.length_map, List.length_map, length]) fun i hi hi' ↦ ?_
      rw [List.length_map] at hi hi'
      rw [List.getElem_map, List.getElem_map]
      exact ih i _ _ (List.getElem?_eq_getElem hi) (List.getElem?_eq_getElem hi')
        (ha.item (List.getElem_mem hi)) (hb.item (List.getElem_mem hi'))
    rw [canon_arr, canon_arr, hitems]
  | @obj m m' names members ih =>
    intro ha hb
    have hget {key : String} {v w : Value} (hv : Map.get? m key = some v)
        (hw : Map.get? m' key = some w) : canon v = canon w :=
      ih key v w hv hw (ha.member (Value.mem_of_get? hv)) (hb.member (Value.mem_of_get? hw))
    have hperm : (canonMembers m).Perm (canonMembers m') := by
      refine (List.perm_ext_iff_of_nodup (List.Nodup.of_map _ (nodup_canonMembers ha.names))
        (List.Nodup.of_map _ (nodup_canonMembers hb.names))).2 fun ⟨name, text⟩ ↦ ?_
      rw [mem_canonMembers ha.names, mem_canonMembers hb.names]
      have hname := names name
      constructor
      · rintro ⟨v, hv, rfl⟩
        rw [hv, Option.isSome_some, eq_comm, Option.isSome_iff_exists] at hname
        obtain ⟨w, hw⟩ := hname
        exact ⟨w, hw, (hget hv hw).symm⟩
      · rintro ⟨w, hw, rfl⟩
        rw [hw, Option.isSome_some, Option.isSome_iff_exists] at hname
        obtain ⟨v, hv⟩ := hname
        exact ⟨v, hv, hget hv hw⟩
    rw [canon, canon, byName_eq hperm (nodup_canonMembers ha.names)]

/-- Two documents have the same text exactly when they have the same parameters. -/
theorem canon_eq_iff {a b : Value} (ha : a.DistinctNames) (hb : b.DistinctNames) :
    canon a = canon b ↔ SameParams a b := by
  constructor
  · intro h
    have hnil : Stops IsEnd [] := fun _ h ↦ absurd h (by simp)
    exact (canon_cancel a b [] [] ha hb hnil hnil (by rw [h])).1
  · exact fun h ↦ canon_eq_of_sameParams h ha hb

/-- Requests have the same text exactly when their parameters agree, and the same fingerprint too,
unless the hash has a collision there. -/
theorem fingerprint_eq_iff [Sha256] {a b : Value} (ha : a.DistinctNames) (hb : b.DistinctNames)
    (hcollision : Sha256.hexDigest (canon a) = Sha256.hexDigest (canon b) → canon a = canon b) :
    (canon a = canon b ↔ SameParams a b) ∧
      (fingerprint a = fingerprint b ↔ SameParams a b) := by
  refine ⟨canon_eq_iff ha hb, ?_⟩
  rw [← canon_eq_iff ha hb, fingerprint, fingerprint]
  exact ⟨hcollision, fun h ↦ by rw [h]⟩

end Texts

section Fixed

/-- Nought, and no other double. -/
local instance noughtText : FloatText where
  print _ := ['0', '.', '0']
  print_ne_nil _ := List.cons_ne_nil _ _
  isNumberChar _ := by
    simp only [List.forall_mem_cons]
    exact ⟨by decide, by decide, by decide, fun _ hc ↦ absurd hc List.not_mem_nil⟩

/-- The hash of one text. -/
local instance oneDigest : Sha256 where
  hexDigest text :=
    if text = "\x7b\"a\":1,\"b\":2\x7d".toList then
      "43258cff783fe7036d8a43033f830adfc60ec037382473548ac742b888292777"
    else ""

/-- Two orders of two members. -/
def forwards : Map := [("a", .int 1), ("b", .int 2)]

def backwards : Map := [("b", .int 2), ("a", .int 1)]

theorem distinctNames_of_ints {m : Map} (hm : (Map.keys m).Nodup)
    (hints : ∀ member ∈ m, ∃ i, member.2 = .int i) : (Value.obj m).DistinctNames := by
  intro m' hpart
  cases hpart with
  | whole => exact hm
  | member hmem hpart =>
    obtain ⟨i, hi⟩ := hints _ hmem
    dsimp only at hi
    subst hi
    cases hpart

theorem fingerprint_eq_iff_reordered :
    (canon (.obj forwards) = canon (.obj backwards) ↔
      SameParams (.obj forwards) (.obj backwards)) ∧
      (fingerprint (.obj forwards) = fingerprint (.obj backwards) ↔
        SameParams (.obj forwards) (.obj backwards)) :=
  fingerprint_eq_iff
    (distinctNames_of_ints (by decide) (by simp [forwards]))
    (distinctNames_of_ints (by decide) (by simp [backwards]))
    fun _ ↦ by
      rw [canon_obj, canon_obj, byName_eq (show forwards.Perm backwards by decide) (by decide)]

end Fixed

end NextApi.Idempotency
