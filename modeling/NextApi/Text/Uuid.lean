import Mathlib.Tactic.Ring

/-!
# UUIDs as texts

A UUID is written with 32 small hexadecimal digits in five groups. It is read from this form, in
either case, with or without the hyphens, in braces, or as a URN.
-/

set_option autoImplicit false

namespace NextApi.Text

/-! ### Hexadecimal digits -/

/-- The lowest digits of a number. -/
def hexDigits : ℕ → ℕ → List Char
  | 0, _ => []
  | width + 1, n => hexDigits width (n / 16) ++ [Nat.digitChar (n % 16)]

def hexValue (c : Char) : Option ℕ :=
  if '0' ≤ c ∧ c ≤ '9' then some (c.toNat - 48)
  else if 'a' ≤ c ∧ c ≤ 'f' then some (c.toNat - 87)
  else if 'A' ≤ c ∧ c ≤ 'F' then some (c.toNat - 55)
  else none

/-- Reads digits on from a number. -/
def readHexFrom (n : ℕ) (digits : List Char) : Option ℕ :=
  digits.foldlM (fun n c ↦ (hexValue c).map fun d ↦ n * 16 + d) n

theorem hexValue_digitChar : ∀ d < 16, hexValue (Nat.digitChar d) = some d := by decide

theorem digitChar_ne_hyphen : ∀ d < 16, Nat.digitChar d ≠ '-' := by decide

theorem length_hexDigits (width n : ℕ) : (hexDigits width n).length = width := by
  induction width generalizing n with
  | zero => rfl
  | succ width ih => rw [hexDigits, List.length_append, ih, List.length_singleton]

theorem hyphen_notMem_hexDigits (width n : ℕ) : '-' ∉ hexDigits width n := by
  induction width generalizing n with
  | zero => exact List.not_mem_nil
  | succ width ih =>
    rw [hexDigits, List.mem_append, List.mem_singleton]
    rintro (h | h)
    · exact ih _ h
    · exact digitChar_ne_hyphen _ (Nat.mod_lt n (by decide)) h.symm

theorem readHexFrom_append (n : ℕ) (xs ys : List Char) :
    readHexFrom n (xs ++ ys) = (readHexFrom n xs).bind fun m ↦ readHexFrom m ys :=
  List.foldlM_append

/-- The digits of a number are read as it. -/
theorem readHexFrom_hexDigits (start width n : ℕ) :
    readHexFrom start (hexDigits width n) = some (start * 16 ^ width + n % 16 ^ width) := by
  induction width generalizing n with
  | zero =>
    rw [pow_zero, Nat.mod_one, Nat.mul_one]
    rfl
  | succ width ih =>
    have hdigit : readHexFrom (start * 16 ^ width + n / 16 % 16 ^ width)
        [Nat.digitChar (n % 16)] =
          some ((start * 16 ^ width + n / 16 % 16 ^ width) * 16 + n % 16) := by
      rw [readHexFrom, List.foldlM_cons, hexValue_digitChar _ (Nat.mod_lt n (by decide))]
      rfl
    rw [hexDigits, readHexFrom_append, ih, Option.bind_some, hdigit, pow_succ,
      Nat.mul_comm (16 ^ width) 16, Nat.mod_mul]
    congr 1
    ring

/-! ### UUIDs -/

/-- The five groups of digits. -/
def uuidGroups (id : BitVec 128) : List (List Char) :=
  [hexDigits 8 (id.toNat / 16 ^ 24), hexDigits 4 (id.toNat / 16 ^ 20),
    hexDigits 4 (id.toNat / 16 ^ 16), hexDigits 4 (id.toNat / 16 ^ 12), hexDigits 12 id.toNat]

/-- `to_string`. -/
def formatUuid (id : BitVec 128) : String :=
  String.ofList (['-'].intercalate (uuidGroups id))

def ofHex (digits : List Char) : Option (BitVec 128) :=
  (readHexFrom 0 digits).map (BitVec.ofNat 128)

/-- Five groups with hyphens between them. -/
def parseHyphenated (text : List Char) : Option (BitVec 128) :=
  let groups := text.splitOn '-'
  if groups.map List.length = [8, 4, 4, 4, 12] then ofHex groups.flatten else none

/-- `parse_str`. -/
def parseUuid (text : String) : Option (BitVec 128) :=
  let text := text.toList
  if text.length = 32 then ofHex text
  else if text.length = 36 then parseHyphenated text
  else if text.length = 38 ∧ text.head? = some '{' ∧ text.getLast? = some '}' then
    parseHyphenated text.tail.dropLast
  else if text.length = 45 ∧ text.take 9 = "urn:uuid:".toList then parseHyphenated (text.drop 9)
  else none

theorem parseHyphenated_groups (id : BitVec 128) :
    parseHyphenated (['-'].intercalate (uuidGroups id)) = some id := by
  have hsplit : (['-'].intercalate (uuidGroups id)).splitOn '-' = uuidGroups id := by
    refine List.splitOn_intercalate '-' ?_ (List.cons_ne_nil _ _)
    simp [uuidGroups, hyphen_notMem_hexDigits]
  have hlengths : (uuidGroups id).map List.length = [8, 4, 4, 4, 12] := by
    simp [uuidGroups, length_hexDigits]
  have hlt := id.isLt
  have hvalue : readHexFrom 0 (uuidGroups id).flatten = some id.toNat := by
    simp only [uuidGroups, List.flatten_cons, List.flatten_nil, List.append_nil,
      readHexFrom_append, readHexFrom_hexDigits, Option.bind_some]
    congr 1
    omega
  rw [parseHyphenated, hsplit, if_pos hlengths, ofHex, hvalue, Option.map_some]
  simp

theorem length_formatUuid (id : BitVec 128) : (formatUuid id).toList.length = 36 := by
  simp [formatUuid, uuidGroups, length_hexDigits, List.intercalate]

/-- A UUID is read back from its text. -/
theorem parseUuid_formatUuid (id : BitVec 128) : parseUuid (formatUuid id) = some id := by
  have hlength := length_formatUuid id
  rw [parseUuid, if_neg (by rw [hlength]; decide), if_pos hlength, formatUuid, String.toList_ofList]
  exact parseHyphenated_groups id

end NextApi.Text
