import Mathlib.Data.BitVec
import NextApi.Text.Uuid

/-!
# Addresses as texts

An IPv4 address is four decimal numbers with points between them, and an IPv6 address eight
hexadecimal numbers with colons, of which a run of zeros may be left out and the last two may be an
IPv4 address. Texts are read as the standard library of Rust reads them.
-/

set_option autoImplicit false

namespace NextApi.Text

inductive IpAddr where
  | v4 (a : BitVec 32)
  | v6 (a : BitVec 128)
  deriving DecidableEq, Inhabited

/-! ### Reading -/

def toDigit (radix : ℕ) (c : Char) : Option ℕ := (hexValue c).filter fun d ↦ decide (d < radix)

def isDigitOf (radix : ℕ) (c : Char) : Bool := (toDigit radix c).isSome

def ofDigits (radix : ℕ) (digits : List Char) : ℕ :=
  digits.foldl (fun n c ↦ n * radix + (toDigit radix c).getD 0) 0

/-- Reads a number of so many digits at most, and below a bound. -/
def readNumber (radix maxDigits : ℕ) (allowZeroPrefix : Bool) (bound : ℕ) (text : List Char) :
    Option (ℕ × List Char) :=
  let digits := text.takeWhile (isDigitOf radix)
  if digits = [] ∨ maxDigits < digits.length then none
  else if !allowZeroPrefix && decide (digits.head? = some '0') && decide (1 < digits.length) then
    none
  else if ofDigits radix digits < bound then
    some (ofDigits radix digits, text.dropWhile (isDigitOf radix))
  else none

def readChar (c : Char) : List Char → Option (List Char)
  | [] => none
  | c' :: rest => if c' = c then some rest else none

def readOctet (text : List Char) : Option (ℕ × List Char) := readNumber 10 3 false 256 text

def readIpv4 (text : List Char) : Option (List ℕ × List Char) := do
  let (a, text) ← readOctet text
  let (b, text) ← (readChar '.' text).bind readOctet
  let (c, text) ← (readChar '.' text).bind readOctet
  let (d, text) ← (readChar '.' text).bind readOctet
  return ([a, b, c, d], text)

/-- Reads up to so many groups, the first one without a colon before it. The last two may be an
IPv4 address, and then no group follows. -/
def readGroups : ℕ → Bool → List Char → List ℕ × Bool × List Char
  | 0, _, text => ([], false, text)
  | left + 1, first, text =>
    let start := if first then some text else readChar ':' text
    match if left = 0 then none else start.bind readIpv4 with
    | some ([a, b, c, d], rest) => ([a * 256 + b, c * 256 + d], true, rest)
    | _ =>
      match start.bind (readNumber 16 4 true 65536) with
      | some (group, rest) =>
        let (groups, ipv4, rest) := readGroups left false rest
        (group :: groups, ipv4, rest)
      | none => ([], false, text)

def readIpv6 (text : List Char) : Option (List ℕ × List Char) :=
  let (head, ipv4, rest) := readGroups 8 true text
  if head.length = 8 then some (head, rest)
  else if ipv4 then none
  else ((readChar ':' rest).bind (readChar ':')).map fun rest ↦
    let (tail, _, rest) := readGroups (7 - head.length) true rest
    (head ++ List.replicate (8 - head.length - tail.length) 0 ++ tail, rest)

def readIpAddr (text : List Char) : Option (IpAddr × List Char) :=
  ((readIpv4 text).map fun (octets, rest) ↦
    (.v4 (BitVec.ofNat 32 (octets.foldl (fun n octet ↦ n * 256 + octet) 0)), rest)).or
  ((readIpv6 text).map fun (groups, rest) ↦
    (.v6 (BitVec.ofNat 128 (groups.foldl (fun n group ↦ n * 65536 + group) 0)), rest))

/-- `parse::<IpAddr>`: the whole text is an address. -/
def parseIpAddr (text : List Char) : Option IpAddr :=
  match readIpAddr text with
  | some (ip, []) => some ip
  | _ => none

example : parseIpAddr "2001:db8::1".toList = some (.v6 0x20010db8000000000000000000000001) := by
  decide +kernel

example : parseIpAddr "::ffff:1.2.3.4".toList = some (.v6 0xffff01020304) := by decide +kernel

example : parseIpAddr "01.2.3.4".toList = none := by decide +kernel

/-! ### Writing -/

/-- The octets of an IPv4 address. -/
def octetsV4 (a : BitVec 32) : List ℕ :=
  [a.toNat / 256 ^ 3 % 256, a.toNat / 256 ^ 2 % 256, a.toNat / 256 % 256, a.toNat % 256]

/-- An IPv4 address with points. -/
def formatV4 (a : BitVec 32) : List Char :=
  ['.'].intercalate ((octetsV4 a).map (Nat.toDigits 10))

/-- The text of an octet has what is asked of it. -/
theorem digits_octet : ∀ n : Fin 256, (Nat.toDigits 10 n).all (isDigitOf 10) = true ∧
    Nat.toDigits 10 n ≠ [] ∧ (Nat.toDigits 10 n).length ≤ 3 ∧
    ((Nat.toDigits 10 n).head? = some '0' → (Nat.toDigits 10 n).length = 1) ∧
    ofDigits 10 (Nat.toDigits 10 n) = n := by
  decide +kernel

theorem readOctet_toDigits {n : ℕ} (hn : n < 256) {rest : List Char}
    (hrest : ∀ c ∈ rest.head?, isDigitOf 10 c = false) :
    readOctet (Nat.toDigits 10 n ++ rest) = some (n, rest) := by
  obtain ⟨hall, hne, hlength, hzero, hvalue⟩ := digits_octet ⟨n, hn⟩
  dsimp only at hall hne hlength hzero hvalue
  have hdigits := List.all_eq_true.1 hall
  have htake : (Nat.toDigits 10 n ++ rest).takeWhile (isDigitOf 10) = Nat.toDigits 10 n := by
    rw [List.takeWhile_append_of_pos hdigits]
    cases rest with
    | nil => rw [List.takeWhile_nil, List.append_nil]
    | cons c rest =>
      rw [List.takeWhile_cons_of_neg (Bool.eq_false_iff.1 (hrest c rfl)), List.append_nil]
  have hdrop : (Nat.toDigits 10 n ++ rest).dropWhile (isDigitOf 10) = rest := by
    rw [List.dropWhile_append_of_pos hdigits]
    cases rest with
    | nil => rfl
    | cons c rest => rw [List.dropWhile_cons_of_neg (Bool.eq_false_iff.1 (hrest c rfl))]
  rw [readOctet, readNumber, htake, hdrop, hvalue]
  rw [if_neg (not_or.2 ⟨hne, by omega⟩), if_neg, if_pos hn]
  rw [Bool.and_eq_true, Bool.and_eq_true, decide_eq_true_eq, decide_eq_true_eq]
  rintro ⟨⟨-, hhead⟩, hlong⟩
  exact absurd (hzero hhead) (Nat.ne_of_gt hlong)

/-- An IPv4 address is read from its text. -/
theorem parseIpAddr_formatV4 (a : BitVec 32) : parseIpAddr (formatV4 a) = some (.v4 a) := by
  have hlt (n : ℕ) : n % 256 < 256 := Nat.mod_lt n (by decide)
  have hpoint {rest : List Char} : ∀ c ∈ ('.' :: rest).head?, isDigitOf 10 c = false := by
    intro c hc
    rw [← Option.some.inj hc]
    decide
  have hpoints : formatV4 a = Nat.toDigits 10 (a.toNat / 256 ^ 3 % 256) ++ '.' ::
      (Nat.toDigits 10 (a.toNat / 256 ^ 2 % 256) ++ '.' ::
        (Nat.toDigits 10 (a.toNat / 256 % 256) ++ '.' ::
          (Nat.toDigits 10 (a.toNat % 256) ++ []))) := by
    simp [formatV4, octetsV4, List.intercalate, List.intersperse]
  have hread : readIpv4 (formatV4 a) = some (octetsV4 a, []) := by
    rw [readIpv4, hpoints, readOctet_toDigits (hlt _) hpoint]
    show ((readChar '.' ('.' :: _)).bind readOctet).bind _ = _
    rw [readChar, if_pos rfl, Option.bind_some, readOctet_toDigits (hlt _) hpoint]
    show ((readChar '.' ('.' :: _)).bind readOctet).bind _ = _
    rw [readChar, if_pos rfl, Option.bind_some, readOctet_toDigits (hlt _) hpoint]
    show ((readChar '.' ('.' :: _)).bind readOctet).bind _ = _
    rw [readChar, if_pos rfl, Option.bind_some, readOctet_toDigits (hlt _) (by simp)]
    rfl
  have hvalue : BitVec.ofNat 32 ((octetsV4 a).foldl (fun n octet ↦ n * 256 + octet) 0) = a := by
    refine BitVec.eq_of_toNat_eq ?_
    have ha := a.isLt
    rw [BitVec.toNat_ofNat]
    simp only [octetsV4, List.foldl_cons, List.foldl_nil]
    omega
  rw [parseIpAddr, readIpAddr, hread, Option.map_some, Option.some_or]
  dsimp only
  rw [hvalue]

/-- A text with a bracket is not an address. -/
theorem parseIpAddr_bracket (rest : List Char) : parseIpAddr ('[' :: rest) = none := rfl

end NextApi.Text
