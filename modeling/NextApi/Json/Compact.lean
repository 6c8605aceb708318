import Mathlib.Data.List.Basic
import NextApi.Json.Codec

/-!
# A compact codec

A printer and a parser of JSON without white space, over lists of characters. Strings are escaped
as `serde_json` escapes them, members come in the order of their names, and a name that is given
twice keeps its last value. A double is printed as the decimal number that it is, in the form
`digits e- digits`.

The parser reads what the printer prints (`parseValue_print`), so the pair is a lawful codec: the
laws that the gateway relies on can be met.
-/

set_option autoImplicit false

namespace NextApi.Json.Compact

/-! ### Printing -/

/-- One character of a string: the quote, the backslash and the control characters are escaped. -/
def escapeChar (c : Char) : List Char :=
  if c = '"' then ['\\', '"']
  else if c = '\\' then ['\\', '\\']
  else if c = '\n' then ['\\', 'n']
  else if c = '\r' then ['\\', 'r']
  else if c = '\t' then ['\\', 't']
  else if c.toNat = 8 then ['\\', 'b']
  else if c.toNat = 12 then ['\\', 'f']
  else if c.toNat < 32 then
    ['\\', 'u', '0', '0', Nat.digitChar (c.toNat / 16), Nat.digitChar (c.toNat % 16)]
  else [c]

def printString (s : String) : List Char := '"' :: (s.toList.flatMap escapeChar ++ ['"'])

def printInt (i : ℤ) : List Char :=
  if i < 0 then '-' :: Nat.toDigits 10 i.natAbs else Nat.toDigits 10 i.natAbs

/-- A double as a decimal: `n * 2 ^ (-k)` is `(n * 5 ^ k) * 10 ^ (-k)`. -/
def printFloat : Dyadic → List Char
  | .zero => printInt 0 ++ 'e' :: '-' :: Nat.toDigits 10 0
  | .ofOdd n k _ =>
    if k < 0 then printInt (n <<< k.natAbs) ++ 'e' :: '-' :: Nat.toDigits 10 0
    else printInt (n * 5 ^ k.natAbs) ++ 'e' :: '-' :: Nat.toDigits 10 k.natAbs

mutual

def print : Value → List Char
  | .null => ['n', 'u', 'l', 'l']
  | .bool true => ['t', 'r', 'u', 'e']
  | .bool false => ['f', 'a', 'l', 's', 'e']
  | .int i => printInt i
  | .float x => printFloat x
  | .str s => printString s
  | .arr items => '[' :: printItems items
  | .obj members => '\x7b' :: printMembers members

def printItems : List Value → List Char
  | [] => [']']
  | [v] => print v ++ [']']
  | v :: w :: rest => print v ++ ',' :: printItems (w :: rest)

def printMembers : List (String × Value) → List Char
  | [] => ['\x7d']
  | [(name, v)] => printString name ++ ':' :: (print v ++ ['\x7d'])
  | (name, v) :: w :: rest =>
    printString name ++ ':' :: (print v ++ ',' :: printMembers (w :: rest))

end

/-! ### Parsing -/

/-- The value of a digit, decimal or hexadecimal in lower case. -/
def digitVal (c : Char) : ℕ := if c.toNat < 58 then c.toNat - 48 else c.toNat - 87

/-- Reads the rest of a string, up to its closing quote. -/
def parseString : List Char → Option (List Char × List Char)
  | '"' :: rest => some ([], rest)
  | '\\' :: 'u' :: '0' :: '0' :: h :: l :: rest => do
    let (s, rest) ← parseString rest
    return (Char.ofNat (16 * digitVal h + digitVal l) :: s, rest)
  | '\\' :: c :: rest => do
    let c ←
      match c with
      | '"' => some '"'
      | '\\' => some '\\'
      | 'n' => some '\n'
      | 'r' => some '\r'
      | 't' => some '\t'
      | 'b' => some (Char.ofNat 8)
      | 'f' => some (Char.ofNat 12)
      | _ => none
    let (s, rest) ← parseString rest
    return (c :: s, rest)
  | c :: rest => do
    let (s, rest) ← parseString rest
    return (c :: s, rest)
  | [] => none

def parseNat (text : List Char) : Option (ℕ × List Char) :=
  let digits := text.takeWhile Char.isDigit
  if digits.isEmpty then none
  else some (Nat.ofDigitChars 10 digits 0, text.dropWhile Char.isDigit)

def parseInt : List Char → Option (ℤ × List Char)
  | '-' :: rest => (parseNat rest).map fun p ↦ (-(p.1 : ℤ), p.2)
  | rest => (parseNat rest).map fun p ↦ ((p.1 : ℤ), p.2)

def parseNumber (text : List Char) : Option (Value × List Char) := do
  let (m, rest) ← parseInt text
  match rest with
  | 'e' :: '-' :: rest =>
    let (e, rest) ← parseNat rest
    return (.float (Dyadic.ofIntWithPrec (m / 5 ^ e) e), rest)
  | rest => return (.int m, rest)

mutual

/-- Reads a value from the front of a text; `fuel` bounds the nesting and the number of items. -/
def parseValue : ℕ → List Char → Option (Value × List Char)
  | 0, _ => none
  | fuel + 1, text =>
    match text with
    | 'n' :: 'u' :: 'l' :: 'l' :: rest => some (.null, rest)
    | 't' :: 'r' :: 'u' :: 'e' :: rest => some (.bool true, rest)
    | 'f' :: 'a' :: 'l' :: 's' :: 'e' :: rest => some (.bool false, rest)
    | '"' :: rest => (parseString rest).map fun p ↦ (.str (String.ofList p.1), p.2)
    | '[' :: ']' :: rest => some (.arr [], rest)
    | '[' :: rest => (parseItems fuel rest).map fun p ↦ (.arr p.1, p.2)
    | '\x7b' :: '\x7d' :: rest => some (.obj [], rest)
    | '\x7b' :: rest => (parseMembers fuel rest).map fun p ↦ (.obj p.1, p.2)
    | text => parseNumber text

/-- Reads the items of an array up to its end. -/
def parseItems : ℕ → List Char → Option (List Value × List Char)
  | 0, _ => none
  | fuel + 1, text =>
    match parseValue fuel text with
    | some (v, ']' :: rest) => some ([v], rest)
    | some (v, ',' :: rest) => (parseItems fuel rest).map fun p ↦ (v :: p.1, p.2)
    | _ => none

/-- Reads the members of an object up to its end; of two members with one name the later counts. -/
def parseMembers : ℕ → List Char → Option (Map × List Char)
  | 0, _ => none
  | fuel + 1, text =>
    match text with
    | '"' :: text =>
      match parseString text with
      | some (name, ':' :: text) =>
        let name := String.ofList name
        match parseValue fuel text with
        | some (v, '\x7d' :: rest) => some ([(name, v)], rest)
        | some (v, ',' :: rest) =>
          (parseMembers fuel rest).map fun p ↦ (Map.orInsert p.1 name v, p.2)
        | _ => none
      | _ => none
    | _ => none

end

/-! ### Reading what was printed: strings and numbers -/

theorem digitVal_digitChar {n : ℕ} (h : n < 16) : digitVal (Nat.digitChar n) = n := by
  revert n
  decide

theorem parseString_escapeChar (c : Char) (rest : List Char) :
    parseString (escapeChar c ++ rest) = (parseString rest).map fun p ↦ (c :: p.1, p.2) := by
  have hbind (d : Char) : ((parseString rest).bind fun p ↦ some (d :: p.1, p.2)) =
      (parseString rest).map fun p ↦ (d :: p.1, p.2) := by
    cases parseString rest <;> rfl
  unfold escapeChar
  split_ifs with h1 h2 h3 h4 h5 h6 h7 h8
  · subst h1
    exact hbind _
  · subst h2
    exact hbind _
  · subst h3
    exact hbind _
  · subst h4
    exact hbind _
  · subst h5
    exact hbind _
  · have hc : Char.ofNat 8 = c := by rw [← h6, Char.ofNat_toNat]
    rw [← hc]
    exact hbind _
  · have hc : Char.ofNat 12 = c := by rw [← h7, Char.ofNat_toNat]
    rw [← hc]
    exact hbind _
  · have hhigh := digitVal_digitChar (n := c.toNat / 16) (by omega)
    have hlow := digitVal_digitChar (n := c.toNat % 16) (by omega)
    have hc : Char.ofNat (16 * (c.toNat / 16) + c.toNat % 16) = c := by
      rw [Nat.div_add_mod, Char.ofNat_toNat]
    show ((parseString rest).bind fun p ↦
      some (Char.ofNat (16 * digitVal (Nat.digitChar (c.toNat / 16)) +
        digitVal (Nat.digitChar (c.toNat % 16))) :: p.1, p.2)) = _
    rw [hhigh, hlow, hc]
    exact hbind c
  · rw [List.singleton_append, parseString.eq_def]
    split <;> simp_all

theorem parseString_escape (s rest : List Char) :
    parseString (s.flatMap escapeChar ++ '"' :: rest) = some (s, rest) := by
  induction s with
  | nil => rfl
  | cons c s ih =>
    rw [List.flatMap_cons, List.append_assoc, parseString_escapeChar, ih]
    rfl

/-- What may follow a value: the end, or the punctuation of an array or an object. -/
def Closes (rest : List Char) : Prop := ∀ c ∈ rest.head?, c = ',' ∨ c = ']' ∨ c = '\x7d'

theorem closes_nil : Closes [] := fun _ h ↦ absurd h (by simp)

theorem closes_cons {c : Char} {rest : List Char} (h : c = ',' ∨ c = ']' ∨ c = '\x7d') :
    Closes (c :: rest) := fun d hd ↦ by
  rw [List.head?_cons, Option.mem_some_iff] at hd
  exact hd ▸ h

theorem parseNat_toDigits (n : ℕ) {rest : List Char} (h : ∀ c ∈ rest.head?, ¬ c.isDigit) :
    parseNat (Nat.toDigits 10 n ++ rest) = some (n, rest) := by
  have hdigits : ∀ c ∈ Nat.toDigits 10 n, c.isDigit = true := fun c hc ↦
    Nat.isDigit_of_mem_toDigits (by decide) (by decide) hc
  have htake : (Nat.toDigits 10 n ++ rest).takeWhile Char.isDigit = Nat.toDigits 10 n := by
    rw [List.takeWhile_append_of_pos hdigits]
    cases rest with
    | nil => simp
    | cons c rest => simp [h c (by simp)]
  have hdrop : (Nat.toDigits 10 n ++ rest).dropWhile Char.isDigit = rest := by
    rw [List.dropWhile_append_of_pos hdigits]
    cases rest with
    | nil => rfl
    | cons c rest => simp [h c (by simp)]
  simp only [parseNat, htake, hdrop, Nat.ofDigitChars_ten_toDigits]
  rw [if_neg (by simp [Nat.toDigits_ne_nil])]

/-- The first character of a printed number. -/
theorem toDigits_head (n : ℕ) :
    ∃ c rest, Nat.toDigits 10 n = c :: rest ∧ c.isDigit = true := by
  cases h : Nat.toDigits 10 n with
  | nil => exact absurd h Nat.toDigits_ne_nil
  | cons c rest =>
    exact ⟨c, rest, rfl, Nat.isDigit_of_mem_toDigits (by decide : 0 < 10) (by decide)
      (h ▸ List.mem_cons_self)⟩

theorem parseInt_printInt (i : ℤ) {rest : List Char} (h : ∀ c ∈ rest.head?, ¬ c.isDigit) :
    parseInt (printInt i ++ rest) = some (i, rest) := by
  unfold printInt
  split
  · rename_i hneg
    rw [List.cons_append, parseInt, parseNat_toDigits _ h, Option.map_some]
    congr 2
    omega
  · rename_i hpos
    obtain ⟨c, digits, hdigits, hc⟩ := toDigits_head i.natAbs
    have hcast : ((i.natAbs : ℕ) : ℤ) = i := by omega
    rw [parseInt, parseNat_toDigits _ h, Option.map_some, hcast]
    rw [hdigits]
    rintro rest' heq
    rw [List.cons_append, List.cons.injEq] at heq
    exact absurd (heq.1 ▸ hc) (by decide)

theorem Closes.not_digit {rest : List Char} (h : Closes rest) : ∀ c ∈ rest.head?, ¬ c.isDigit := by
  intro c hc
  rcases h c hc with rfl | rfl | rfl <;> decide

theorem parseNumber_printInt (i : ℤ) {rest : List Char} (h : Closes rest) :
    parseNumber (printInt i ++ rest) = some (.int i, rest) := by
  rw [parseNumber, parseInt_printInt i h.not_digit]
  show (match rest with | 'e' :: '-' :: rest => _ | rest => _) = _
  split
  · rename_i rest'
    exact absurd (h 'e' rfl) (by decide)
  · rfl

theorem parseNumber_decimal (m : ℤ) (e : ℕ) {rest : List Char} (h : Closes rest) :
    parseNumber (printInt m ++ ('e' :: '-' :: Nat.toDigits 10 e ++ rest)) =
      some (.float (Dyadic.ofIntWithPrec (m / 5 ^ e) e), rest) := by
  rw [parseNumber, parseInt_printInt m (by simp)]
  simp [parseNat_toDigits e h.not_digit]

/-- The decimal form of a double is exact. -/
theorem parseNumber_printFloat (x : Dyadic) {rest : List Char} (h : Closes rest) :
    parseNumber (printFloat x ++ rest) = some (.float x, rest) := by
  cases x with
  | zero =>
    rw [printFloat, List.append_assoc, parseNumber_decimal 0 0 h]
    rfl
  | ofOdd n k hn =>
    rw [printFloat]
    split
    · rename_i hneg
      rw [List.append_assoc, parseNumber_decimal _ 0 h]
      have hk : k = -(k.natAbs : ℤ) := by omega
      have hodd : Dyadic.ofOdd n k hn = Dyadic.ofIntWithPrec n k := Dyadic.ofOdd_eq_ofIntWithPrec
      have hshift := @Dyadic.ofIntWithPrec_shiftLeft_add n k k.natAbs
      rw [show k + (k.natAbs : ℤ) = (0 : ℕ) by omega] at hshift
      rw [Int.pow_zero, Int.ediv_one, hshift, hodd]
    · rename_i hpos
      have hodd : Dyadic.ofOdd n k hn = Dyadic.ofIntWithPrec n k := Dyadic.ofOdd_eq_ofIntWithPrec
      have hk : (k.natAbs : ℤ) = k := by omega
      rw [List.append_assoc, parseNumber_decimal _ k.natAbs h,
        Int.mul_ediv_cancel _ (Int.ne_of_gt (Int.pow_pos (by decide))), hk, hodd]

/-! ### Reading what was printed: documents -/

/-- A printed number starts with a digit or a sign. -/
theorem printInt_head (i : ℤ) :
    ∃ c rest, printInt i = c :: rest ∧ (c.isDigit = true ∨ c = '-') := by
  rw [printInt]
  split
  · exact ⟨_, _, rfl, Or.inr rfl⟩
  · obtain ⟨c, rest, h, hc⟩ := toDigits_head i.natAbs
    exact ⟨c, rest, h, Or.inl hc⟩

theorem printFloat_head (x : Dyadic) :
    ∃ c rest, printFloat x = c :: rest ∧ (c.isDigit = true ∨ c = '-') := by
  have key (i : ℤ) (tail : List Char) :
      ∃ c rest, printInt i ++ tail = c :: rest ∧ (c.isDigit = true ∨ c = '-') := by
    obtain ⟨c, rest, h, hc⟩ := printInt_head i
    exact ⟨c, rest ++ tail, by rw [h, List.cons_append], hc⟩
  cases x with
  | zero => exact key _ _
  | ofOdd n k hn =>
    rw [printFloat]
    split <;> exact key _ _

/-- How a printed value starts. -/
theorem print_begins (v : Value) : ∃ c rest, print v = c :: rest ∧
    (c.isDigit = true ∨ c ∈ ['-', '"', '[', '\x7b', 't', 'f', 'n']) := by
  have number {c : Char} (hc : c.isDigit = true ∨ c = '-') :
      c.isDigit = true ∨ c ∈ ['-', '"', '[', '\x7b', 't', 'f', 'n'] :=
    hc.imp_right fun heq ↦ List.mem_cons.2 (.inl heq)
  cases v with
  | int i =>
    obtain ⟨c, rest, h, hc⟩ := printInt_head i
    exact ⟨c, rest, h, number hc⟩
  | float x =>
    obtain ⟨c, rest, h, hc⟩ := printFloat_head x
    exact ⟨c, rest, h, number hc⟩
  | bool b => cases b <;> exact ⟨_, _, rfl, by decide⟩
  | _ => exact ⟨_, _, rfl, by decide⟩

/-- No printed value starts with a closing bracket. -/
theorem print_head (v : Value) : ∃ c rest, print v = c :: rest ∧ c ≠ ']' := by
  obtain ⟨c, rest, h, hc⟩ := print_begins v
  refine ⟨c, rest, h, ?_⟩
  rintro rfl
  exact absurd hc (by decide)

/-- A text that starts as a number does is read as a number. -/
theorem parseValue_number (fuel : ℕ) {c : Char} {rest : List Char}
    (hc : c.isDigit = true ∨ c = '-') :
    parseValue (fuel + 1) (c :: rest) = parseNumber (c :: rest) := by
  rw [parseValue.eq_def]
  dsimp only
  split <;> first | rfl | (rename_i heq; simp only [List.cons.injEq] at heq; simp [heq.1] at hc)

/-- Adding the first of some sorted members puts it in front. -/
theorem orInsert_of_sorted {name : String} {v : Value} {members : Map}
    (h : Map.Sorted ((name, v) :: members)) :
    Map.orInsert members name v = (name, v) :: members := by
  obtain ⟨hfirst, -⟩ := Map.sorted_cons.1 h
  have hnone : Map.get? members name = none := by
    cases hget : Map.get? members name with
    | none => rfl
    | some w =>
      have hmem := Map.mem_keys_of_get? hget
      exact absurd (hfirst name hmem) (String.lt_irrefl name)
  rw [Map.orInsert, hnone]
  exact Map.insert_of_forall_lt v hfirst

theorem print_length_pos (v : Value) : 0 < (print v).length := by
  obtain ⟨c, rest, h, -⟩ := print_head v
  rw [h]
  exact Nat.succ_pos _

theorem parseString_printString (s : String) (rest : List Char) :
    parseString ((printString s).tail ++ rest) = some (s.toList, rest) := by
  rw [printString, List.tail_cons, List.append_assoc]
  exact parseString_escape _ _

mutual

theorem parseValue_print : (v : Value) → v.Normal → (fuel : ℕ) → (print v).length ≤ fuel →
    (rest : List Char) → Closes rest → parseValue fuel (print v ++ rest) = some (v, rest)
  | v, _, 0, hfuel, _, _ => absurd hfuel (Nat.not_le.2 (print_length_pos v))
  | .null, _, fuel + 1, _, rest, _ => rfl
  | .bool true, _, fuel + 1, _, rest, _ => rfl
  | .bool false, _, fuel + 1, _, rest, _ => rfl
  | .int i, _, fuel + 1, _, rest, h => by
    obtain ⟨c, digits, heq, hc⟩ := printInt_head i
    rw [print, heq, List.cons_append, parseValue_number fuel hc, ← List.cons_append, ← heq]
    exact parseNumber_printInt i h
  | .float x, _, fuel + 1, _, rest, h => by
    obtain ⟨c, digits, heq, hc⟩ := printFloat_head x
    rw [print, heq, List.cons_append, parseValue_number fuel hc, ← List.cons_append, ← heq]
    exact parseNumber_printFloat x h
  | .str s, _, fuel + 1, _, rest, _ => by
    show (parseString ((printString s).tail ++ rest)).map _ = _
    rw [parseString_printString, Option.map_some, String.ofList_toList]
  | .arr [], _, fuel + 1, _, rest, _ => rfl
  | .arr (v :: items), hv, fuel + 1, hfuel, rest, _ => by
    have hitems := parseItems_print (v :: items) hv (List.cons_ne_nil _ _) fuel
      (by simpa [print] using hfuel) rest
    obtain ⟨c, tail, heq, hc⟩ : ∃ c tail, printItems (v :: items) = c :: tail ∧ c ≠ ']' := by
      obtain ⟨c, tail, heq, hc⟩ := print_head v
      cases items with
      | nil => exact ⟨c, tail ++ [']'], by rw [printItems, heq, List.cons_append], hc⟩
      | cons w items => exact ⟨c, _, by rw [printItems, heq, List.cons_append], hc⟩
    rw [heq, List.cons_append] at hitems
    rw [print, heq, List.cons_append, List.cons_append, parseValue, hitems, Option.map_some]
    · rintro rest' heq'
      exact hc (List.cons.inj heq').1
  | .obj [], _, fuel + 1, _, rest, _ => rfl
  | .obj ((name, v) :: members), hv, fuel + 1, hfuel, rest, _ => by
    have hmembers := parseMembers_print ((name, v) :: members) hv.1 hv.2 (List.cons_ne_nil _ _)
      fuel (by simpa [print] using hfuel) rest
    obtain ⟨tail, heq⟩ : ∃ tail, printMembers ((name, v) :: members) = '"' :: tail := by
      cases members <;> exact ⟨_, rfl⟩
    rw [heq, List.cons_append] at hmembers
    rw [print, heq, List.cons_append, List.cons_append, parseValue, hmembers, Option.map_some]
    · rintro rest' heq'
      exact absurd (List.cons.inj heq').1 (by decide)

theorem parseItems_print : (items : List Value) → Value.NormalItems items → items ≠ [] →
    (fuel : ℕ) → (printItems items).length ≤ fuel → (rest : List Char) →
    parseItems fuel (printItems items ++ rest) = some (items, rest)
  | [], _, hne, _, _, _ => absurd rfl hne
  | [v], hv, _, 0, hfuel, _ => absurd hfuel (by simp [printItems])
  | [v], hv, _, fuel + 1, hfuel, rest => by
    have hval := parseValue_print v hv.1 fuel (by simpa [printItems] using hfuel) (']' :: rest)
      (closes_cons (by decide))
    rw [printItems, List.append_assoc, List.singleton_append, parseItems]
    simp only [hval]
  | v :: w :: items, hv, _, 0, hfuel, _ => absurd hfuel (by simp [printItems])
  | v :: w :: items, hv, _, fuel + 1, hfuel, rest => by
    have hpos := print_length_pos v
    simp only [printItems, List.length_append, List.length_cons] at hfuel
    have hval := parseValue_print v hv.1 fuel (by omega)
      (',' :: (printItems (w :: items) ++ rest)) (closes_cons (by decide))
    have hitems := parseItems_print (w :: items) hv.2 (List.cons_ne_nil _ _) fuel (by omega) rest
    rw [printItems, List.append_assoc, List.cons_append, parseItems]
    simp only [hval, hitems, Option.map_some]

theorem parseMembers_print : (members : Map) → Map.Sorted members →
    Value.NormalMembers members → members ≠ [] → (fuel : ℕ) →
    (printMembers members).length ≤ fuel → (rest : List Char) →
    parseMembers fuel (printMembers members ++ rest) = some (members, rest)
  | [], _, _, hne, _, _, _ => absurd rfl hne
  | [(name, v)], _, hv, _, 0, hfuel, _ => absurd hfuel (by simp [printMembers])
  | [(name, v)], _, hv, _, fuel + 1, hfuel, rest => by
    simp only [printMembers, List.length_append, List.length_cons, List.length_nil] at hfuel
    have hval := parseValue_print v hv.1 fuel (by omega) ('\x7d' :: rest) (closes_cons (by decide))
    have hname := parseString_printString name (':' :: (print v ++ '\x7d' :: rest))
    rw [printString, List.tail_cons] at hname
    rw [printMembers, printString, List.append_assoc, List.cons_append, parseMembers]
    simp only [List.cons_append, List.append_assoc, List.nil_append] at hname ⊢
    simp only [hname, hval, String.ofList_toList]
  | (name, v) :: w :: members, _, hv, _, 0, hfuel, _ => absurd hfuel (by simp [printMembers])
  | (name, v) :: w :: members, hsorted, hv, _, fuel + 1, hfuel, rest => by
    have hpos := print_length_pos v
    simp only [printMembers, List.length_append, List.length_cons] at hfuel
    have hval := parseValue_print v hv.1 fuel (by omega)
      (',' :: (printMembers (w :: members) ++ rest)) (closes_cons (by decide))
    have hmembers := parseMembers_print (w :: members) (Map.sorted_cons.1 hsorted).2 hv.2
      (List.cons_ne_nil _ _) fuel (by omega) rest
    have hname := parseString_printString name
      (':' :: (print v ++ ',' :: (printMembers (w :: members) ++ rest)))
    rw [printString, List.tail_cons] at hname
    rw [printMembers, printString, List.append_assoc, List.cons_append, parseMembers]
    simp only [List.cons_append, List.append_assoc, List.nil_append] at hname ⊢
    simp only [hname, hval, hmembers, Option.map_some, String.ofList_toList,
      orInsert_of_sorted hsorted]

end

/-! ### The codec -/

/-- Reads a whole text. -/
def read (text : List Char) : Except String Value :=
  match parseValue (text.length + 1) text with
  | some (v, []) => .ok v
  | some (_, _ :: _) => .error "trailing characters"
  | none => .error "expected value"

/-- The codec: what is printed is the normal form of a document. -/
@[reducible] def codec : SerdeJson where
  toText v := String.ofList (print v.normalize)
  ofText text := read text.toList

theorem ofText_toText (v : Value) : codec.ofText (codec.toText v) = .ok v.normalize := by
  have hparse := parseValue_print v.normalize (Value.normal_normalize v)
    ((print v.normalize).length + 1) (Nat.le_succ _) [] closes_nil
  rw [List.append_nil] at hparse
  show read (String.ofList (print v.normalize)).toList = _
  rw [String.toList_ofList, read, hparse]

/-! ### One line -/

/-- No control character stands in the text. -/
def Clean (text : List Char) : Prop := ∀ c ∈ text, ¬ c.toNat < 32

theorem clean_nil : Clean [] := fun _ h ↦ absurd h List.not_mem_nil

theorem clean_of_all {text : List Char} (h : (text.all fun c ↦ !decide (c.toNat < 32)) = true) :
    Clean text := by
  intro c hc
  have hclean := List.all_eq_true.1 h c hc
  rw [Bool.not_eq_true', decide_eq_false_iff_not] at hclean
  exact hclean

theorem Clean.append {s t : List Char} (hs : Clean s) (ht : Clean t) : Clean (s ++ t) :=
  fun c hc ↦ (List.mem_append.1 hc).elim (hs c) (ht c)

theorem Clean.cons {c : Char} {s : List Char} (hs : Clean s) (hc : ¬ c.toNat < 32) :
    Clean (c :: s) :=
  fun d hd ↦ (List.mem_cons.1 hd).elim (fun h ↦ h ▸ hc) (hs d)

theorem clean_digitChar {n : ℕ} (h : n < 16) : ¬ (Nat.digitChar n).toNat < 32 := by
  revert n
  decide

theorem clean_escapeChar (c : Char) : Clean (escapeChar c) := by
  unfold escapeChar
  split_ifs with h1 h2 h3 h4 h5 h6 h7 h8
  · exact clean_nil.cons (by decide) |>.cons (by decide)
  · exact clean_nil.cons (by decide) |>.cons (by decide)
  · exact clean_nil.cons (by decide) |>.cons (by decide)
  · exact clean_nil.cons (by decide) |>.cons (by decide)
  · exact clean_nil.cons (by decide) |>.cons (by decide)
  · exact clean_nil.cons (by decide) |>.cons (by decide)
  · exact clean_nil.cons (by decide) |>.cons (by decide)
  · have hlow := clean_digitChar (n := c.toNat % 16) (by omega)
    have hhigh := clean_digitChar (n := c.toNat / 16) (by omega)
    exact clean_nil.cons hlow |>.cons hhigh |>.cons (by decide) |>.cons (by decide)
      |>.cons (by decide) |>.cons (by decide)
  · exact clean_nil.cons h8

theorem clean_printString (s : String) : Clean (printString s) := by
  refine .cons (.append (fun c hc ↦ ?_) (clean_of_all rfl)) (by decide)
  obtain ⟨d, -, hd⟩ := List.mem_flatMap.1 hc
  exact clean_escapeChar d c hd

theorem clean_toDigits (n : ℕ) : Clean (Nat.toDigits 10 n) := by
  intro c hc
  have h := Nat.isDigit_of_mem_toDigits (by decide : 0 < 10) (by decide) hc
  simp only [Char.isDigit, Bool.and_eq_true, decide_eq_true_eq] at h
  have : 48 ≤ c.toNat := h.1
  omega

theorem clean_printInt (i : ℤ) : Clean (printInt i) := by
  rw [printInt]
  split
  · exact (clean_toDigits _).cons (by decide)
  · exact clean_toDigits _

theorem clean_printFloat (x : Dyadic) : Clean (printFloat x) := by
  have key (i : ℤ) (n : ℕ) : Clean (printInt i ++ 'e' :: '-' :: Nat.toDigits 10 n) :=
    (clean_printInt i).append (clean_toDigits n |>.cons (by decide) |>.cons (by decide))
  cases x with
  | zero => exact key _ _
  | ofOdd n k hn =>
    rw [printFloat]
    split <;> exact key _ _

mutual

theorem clean_print : (v : Value) → Clean (print v)
  | .null => clean_of_all rfl
  | .bool true => clean_of_all rfl
  | .bool false => clean_of_all rfl
  | .int i => clean_printInt i
  | .float x => clean_printFloat x
  | .str s => clean_printString s
  | .arr items => (clean_printItems items).cons (by decide)
  | .obj members => (clean_printMembers members).cons (by decide)

theorem clean_printItems : (items : List Value) → Clean (printItems items)
  | [] => clean_of_all rfl
  | [v] => (clean_print v).append (clean_of_all rfl)
  | v :: w :: rest => (clean_print v).append ((clean_printItems (w :: rest)).cons (by decide))

theorem clean_printMembers : (members : List (String × Value)) → Clean (printMembers members)
  | [] => clean_of_all rfl
  | [(name, v)] => (clean_printString name).append
      (((clean_print v).append (clean_of_all rfl)).cons (by decide))
  | (name, v) :: w :: rest => (clean_printString name).append
      (((clean_print v).append
        ((clean_printMembers (w :: rest)).cons (by decide))).cons (by decide))

end

/-- The members of an object end with a brace. -/
theorem printMembers_getLast : (members : List (String × Value)) →
    ∃ inner, printMembers members = inner ++ ['\x7d']
  | [] => ⟨[], rfl⟩
  | [(name, v)] => ⟨printString name ++ ':' :: print v, by
      rw [printMembers, List.append_assoc, List.cons_append]⟩
  | (name, v) :: w :: rest => by
    obtain ⟨inner, h⟩ := printMembers_getLast (w :: rest)
    exact ⟨printString name ++ ':' :: (print v ++ ',' :: inner), by
      rw [printMembers, h]
      simp only [List.append_assoc, List.cons_append]⟩

/-- The compact codec is lawful. -/
theorem codec_lawful : @LawfulSerdeJson codec :=
  @LawfulSerdeJson.mk codec
    (fun v _ ↦ ⟨v.normalize, ofText_toText v, Value.canonical_normalize v⟩)
    (fun v c hc ↦ clean_print v.normalize c ((congrArg (c ∈ ·) String.toList_ofList).mp hc))
    (fun members ↦ by
      obtain ⟨inner, h⟩ := printMembers_getLast (Map.ofList (Value.normalizeMembers members))
      refine ⟨inner, String.toList_ofList.trans ?_⟩
      rw [Value.normalize, print, h])

end NextApi.Json.Compact
