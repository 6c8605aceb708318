import Mathlib.Data.List.Basic

/-!
# Text as bytes and as lines

The bytes of a text are its UTF-8 encoding, and a list of bytes is a text when it is the encoding
of one. `lines` is the line iterator of the standard library: a line ends with a line feed, a
carriage return in front of it belongs to the ending, and the last line may have no ending.

Lines are stable under appending only at the start of a line: `lines_append` needs the first part
to be empty or to end with a line feed. Seen from the bytes, that is a last byte `10`
(`endsLine_of_bytes`), which no longer character ends with.

`lossy` is the decoder of the standard library that accepts any bytes: each longest stretch that
begins a character and cannot be continued to one becomes one replacement character. Decoding
piece by piece is decoding at once as long as no piece ends inside a character
(`lossy_encodeUtf8_append`).
-/

set_option autoImplicit false

namespace NextApi.Text

/-! ### Bytes -/

/-- The UTF-8 encoding of a text. -/
def encodeUtf8 (text : List Char) : List UInt8 := text.flatMap String.utf8EncodeChar

/-- The text whose UTF-8 encoding these bytes are, if there is one. -/
def decodeUtf8 (bytes : List UInt8) : Option (List Char) :=
  (String.fromUTF8? bytes.toByteArray).map String.toList

@[simp] theorem encodeUtf8_nil : encodeUtf8 [] = [] := rfl

@[simp] theorem encodeUtf8_append (s t : List Char) :
    encodeUtf8 (s ++ t) = encodeUtf8 s ++ encodeUtf8 t :=
  List.flatMap_append

theorem decodeUtf8_encodeUtf8 (text : List Char) : decodeUtf8 (encodeUtf8 text) = some text := by
  have hvalid : (encodeUtf8 text).toByteArray.IsValidUTF8 := .intro text rfl
  rw [decodeUtf8, String.fromUTF8?, dif_pos hvalid, Option.map_some]
  have hstring : String.fromUTF8 (encodeUtf8 text).toByteArray hvalid = String.ofList text := by
    rw [← String.toByteArray_inj, String.toByteArray_ofList]
    rfl
  rw [hstring, String.toList_ofList]

theorem encodeUtf8_of_decodeUtf8 {bytes : List UInt8} {text : List Char}
    (h : decodeUtf8 bytes = some text) : encodeUtf8 text = bytes := by
  rw [decodeUtf8, Option.map_eq_some_iff] at h
  obtain ⟨s, hs, rfl⟩ := h
  rw [String.fromUTF8?] at hs
  split at hs
  · rename_i hvalid
    have hbytes : s.toByteArray = bytes.toByteArray := by
      rw [← Option.some.inj hs]
      rfl
    have hencode : s.toList.utf8Encode = bytes.toByteArray := by
      rw [← hbytes, ← String.toByteArray_ofList, String.ofList_toList]
    have hlist := congrArg (fun b : ByteArray ↦ b.data.toList) hencode
    simpa [List.utf8Encode, encodeUtf8] using hlist
  · exact absurd hs (by simp)

/-! ### Lines -/

/-- The pieces of a text, each up to and with its line feed. -/
def splitInclusive : List Char → List (List Char)
  | [] => []
  | c :: rest =>
    if c = '\n' then [c] :: splitInclusive rest
    else
      match splitInclusive rest with
      | [] => [[c]]
      | piece :: pieces => (c :: piece) :: pieces

/-- A piece without its ending. -/
def stripEnding (piece : List Char) : List Char :=
  if piece.getLast? = some '\n' then
    if piece.dropLast.getLast? = some '\r' then piece.dropLast.dropLast else piece.dropLast
  else piece

/-- The lines of a text. -/
def lines (text : List Char) : List (List Char) := (splitInclusive text).map stripEnding

example : lines ['a', '\r', '\n', '\n', 'b'] = [['a'], [], ['b']] := by decide

/-! ### Trimming -/

/-- The characters with the Unicode property `White_Space`. -/
def isWhitespace (c : Char) : Bool :=
  decide (9 ≤ c.toNat ∧ c.toNat ≤ 13) || decide (0x2000 ≤ c.toNat ∧ c.toNat ≤ 0x200a) ||
    decide (c.toNat ∈
      [0x20, 0x85, 0xa0, 0x1680, 0x2028, 0x2029, 0x202f, 0x205f, 0x3000])

/-- The text without whitespace at both ends. -/
def trim (text : List Char) : List Char :=
  ((text.dropWhile isWhitespace).reverse.dropWhile isWhitespace).reverse

theorem dropWhile_of_head {text : List Char} (h : ∀ c ∈ text.head?, isWhitespace c = false) :
    text.dropWhile isWhitespace = text := by
  cases text with
  | nil => rfl
  | cons c rest => exact List.dropWhile_cons_of_neg (Bool.eq_false_iff.1 (h c rfl))

/-- A text that neither begins nor ends with whitespace. -/
theorem trim_of_ends {text : List Char} (hhead : ∀ c ∈ text.head?, isWhitespace c = false)
    (hlast : ∀ c ∈ text.getLast?, isWhitespace c = false) : trim text = text := by
  rw [trim, dropWhile_of_head hhead, dropWhile_of_head, List.reverse_reverse]
  intro c hc
  rw [List.head?_reverse] at hc
  exact hlast c hc

/-! ### Lines under appending -/

/-- The text is empty or ends with a line feed: what is appended starts a line. -/
def EndsLine (text : List Char) : Prop := text = [] ∨ text.getLast? = some '\n'

theorem splitInclusive_ne_nil {text : List Char} (h : text ≠ []) : splitInclusive text ≠ [] := by
  cases text with
  | nil => exact absurd rfl h
  | cons c rest =>
    rw [splitInclusive]
    split
    · exact List.cons_ne_nil _ _
    · split <;> exact List.cons_ne_nil _ _

theorem splitInclusive_append {s : List Char} (t : List Char) (h : EndsLine s) :
    splitInclusive (s ++ t) = splitInclusive s ++ splitInclusive t := by
  induction s with
  | nil => rfl
  | cons c rest ih =>
    have hlast : (c :: rest).getLast? = some '\n' := h.resolve_left (List.cons_ne_nil _ _)
    have hrest : EndsLine rest := by
      cases rest with
      | nil => exact Or.inl rfl
      | cons d rest => exact Or.inr (by rwa [List.getLast?_cons_cons] at hlast)
    rw [List.cons_append, splitInclusive, splitInclusive, ih hrest]
    split
    · rfl
    · rename_i hc
      have hne : rest ≠ [] := by
        rintro rfl
        exact hc (Option.some.inj hlast)
      cases hsplit : splitInclusive rest with
      | nil => exact absurd hsplit (splitInclusive_ne_nil hne)
      | cons piece pieces => rfl

/-- Appending at the start of a line appends lines. -/
theorem lines_append {s : List Char} (t : List Char) (h : EndsLine s) :
    lines (s ++ t) = lines s ++ lines t := by
  rw [lines, splitInclusive_append t h, List.map_append, lines, lines]

theorem splitInclusive_line {line : List Char} (h : '\n' ∉ line) :
    splitInclusive (line ++ ['\n']) = [line ++ ['\n']] := by
  induction line with
  | nil => rfl
  | cons c rest ih =>
    have hc : c ≠ '\n' := fun heq ↦ h (heq ▸ List.mem_cons_self)
    rw [List.cons_append, splitInclusive, if_neg hc,
      ih fun hmem ↦ h (List.mem_cons_of_mem _ hmem)]

/-- A text without line breaks, and a line feed, is one line. -/
theorem lines_line {line : List Char} (h : '\n' ∉ line) (hr : line.getLast? ≠ some '\r') :
    lines (line ++ ['\n']) = [line] := by
  rw [lines, splitInclusive_line h, List.map_singleton, stripEnding,
    if_pos List.getLast?_concat, List.dropLast_concat, if_neg hr]

theorem endsLine_line (line : List Char) : EndsLine (line ++ ['\n']) :=
  Or.inr List.getLast?_concat

/-! ### The first line -/

/-- The text up to and with its first line feed. -/
def firstLine : List Char → List Char
  | [] => []
  | c :: rest => if c = '\n' then [c] else c :: firstLine rest

/-- The text after its first line feed. -/
def afterLine : List Char → List Char
  | [] => []
  | c :: rest => if c = '\n' then rest else afterLine rest

theorem firstLine_append_afterLine (text : List Char) : firstLine text ++ afterLine text = text := by
  induction text with
  | nil => rfl
  | cons c rest ih =>
    rw [firstLine, afterLine]
    split
    · rfl
    · rw [List.cons_append, ih]

/-- The first line ends with a line feed, unless it is also the last. -/
theorem getLast?_firstLine {text : List Char} (h : afterLine text ≠ []) :
    (firstLine text).getLast? = some '\n' := by
  induction text with
  | nil => exact absurd rfl h
  | cons c rest ih =>
    rw [afterLine] at h
    rw [firstLine]
    split
    · rename_i hc
      rw [hc]
      rfl
    · rename_i hc
      rw [if_neg hc] at h
      rw [List.getLast?_cons, ih h]
      rfl

/-- The lines of a text in front of another are those of it and the first line, and the rest. -/
theorem lines_append_firstLine (s t : List Char) :
    lines (s ++ t) = lines (s ++ firstLine t) ++ lines (afterLine t) := by
  by_cases h : afterLine t = []
  · have ht := firstLine_append_afterLine t
    rw [h, List.append_nil] at ht
    rw [ht, h]
    exact (List.append_nil _).symm
  · have hends : EndsLine (s ++ firstLine t) :=
      Or.inr (by rw [List.getLast?_append, getLast?_firstLine h]; rfl)
    rw [← lines_append _ hends, List.append_assoc, firstLine_append_afterLine]

/-! ### The start of a line, seen from the bytes -/

/-- Only the line feed is encoded with a last byte `10`. -/
theorem eq_newline_of_getLast?_utf8EncodeChar {c : Char}
    (h : (String.utf8EncodeChar c).getLast? = some 10) : c = '\n' := by
  have hlength := String.length_utf8EncodeChar c
  rw [List.getLast?_eq_getElem?] at h
  obtain ⟨hlt, hbyte⟩ := List.getElem?_eq_some_iff.1 h
  have hfirst : ((String.utf8EncodeChar c)[(String.utf8EncodeChar c).length - 1]).IsUTF8FirstByte := by
    rw [hbyte]
    decide
  have hzero := UInt8.isUTF8FirstByte_getElem_utf8EncodeChar.1 hfirst
  have hone : c.utf8Size = 1 := by omega
  have hsingle := String.utf8EncodeChar_eq_singleton hone
  have hval : c.val.toUInt8 = 10 := by
    simpa [hsingle] using hbyte
  have hsmall : c.val ≤ 127 := Char.utf8Size_eq_one_iff.1 hone
  have hnat : c.val.toNat % 256 = 10 := by
    have := congrArg UInt8.toNat hval
    rwa [UInt32.toNat_toUInt8] at this
  have hle : c.val.toNat ≤ 127 := hsmall
  refine Char.ext (UInt32.toNat_inj.1 ?_)
  show c.val.toNat = 10
  omega

/-- A text whose bytes are none or end with `10` ends a line. -/
theorem endsLine_of_bytes {text : List Char}
    (h : encodeUtf8 text = [] ∨ (encodeUtf8 text).getLast? = some 10) : EndsLine text := by
  rcases List.eq_nil_or_concat' text with rfl | ⟨front, c, rfl⟩
  · exact Or.inl rfl
  · have hlast : (encodeUtf8 (front ++ [c])).getLast? = (String.utf8EncodeChar c).getLast? := by
      rw [encodeUtf8_append, List.getLast?_append, encodeUtf8, List.flatMap_singleton]
      cases hget : (String.utf8EncodeChar c).getLast? with
      | none => exact absurd (List.getLast?_eq_none_iff.1 hget) String.utf8EncodeChar_ne_nil
      | some b => rfl
    refine Or.inr ?_
    rcases h with h | h
    · rw [h] at hlast
      exact absurd (List.getLast?_eq_none_iff.1 hlast.symm) String.utf8EncodeChar_ne_nil
    · rw [List.getLast?_concat, eq_newline_of_getLast?_utf8EncodeChar (hlast.symm.trans h)]

end NextApi.Text

namespace NextApi.Text

/-- `U+FFFD`. -/
def replacement : Char := '\uFFFD'

/-- The character that these bytes begin with, if they do. -/
def decodeChar (bytes : List UInt8) : Option Char := bytes.toByteArray.utf8DecodeChar? 0

/-- A byte that continues a character. -/
def isContinuation (b : UInt8) : Bool := decide (0x80 ≤ b ∧ b ≤ 0xbf)

/-- The bytes that may be second in a character of three or four bytes. -/
def mayFollow (first second : UInt8) : Bool :=
  if first = 0xe0 then decide (0xa0 ≤ second ∧ second ≤ 0xbf)
  else if first = 0xed then decide (0x80 ≤ second ∧ second ≤ 0x9f)
  else if 0xe1 ≤ first ∧ first ≤ 0xef then isContinuation second
  else if first = 0xf0 then decide (0x90 ≤ second ∧ second ≤ 0xbf)
  else if first = 0xf4 then decide (0x80 ≤ second ∧ second ≤ 0x8f)
  else if 0xf1 ≤ first ∧ first ≤ 0xf3 then isContinuation second
  else false

/-- How many bytes in front, of bytes that do not begin with a character, begin one. -/
def brokenLength : List UInt8 → ℕ
  | first :: second :: rest =>
    if mayFollow first second then
      if decide (0xf0 ≤ first) && rest.head?.any isContinuation then 3 else 2
    else 1
  | _ => 1

/-- `String::from_utf8_lossy`. -/
def lossy : List UInt8 → List Char
  | [] => []
  | first :: rest =>
    match decodeChar (first :: rest) with
    | some c => c :: lossy (rest.drop (c.utf8Size - 1))
    | none => replacement :: lossy (rest.drop (brokenLength (first :: rest) - 1))
  termination_by bytes => bytes.length
  decreasing_by all_goals simp only [List.length_drop, List.length_cons]; omega

@[simp] theorem lossy_nil : lossy [] = [] := by rw [lossy]

example : lossy [0x61, 0xe2, 0x80, 0x62, 0xff, 0xf0, 0x9f, 0x98] =
    ['a', replacement, 'b', replacement, replacement] := by decide +kernel

theorem decodeChar_encode (c : Char) (rest : List UInt8) :
    decodeChar (String.utf8EncodeChar c ++ rest) = some c := by
  have h := @ByteArray.utf8DecodeChar?_utf8EncodeChar_append rest.toByteArray c
  rwa [← List.toByteArray_append] at h

/-- A character is read off the front of the bytes. -/
theorem lossy_utf8EncodeChar_append (c : Char) (rest : List UInt8) :
    lossy (String.utf8EncodeChar c ++ rest) = c :: lossy rest := by
  have hlength := String.length_utf8EncodeChar c
  cases hbytes : String.utf8EncodeChar c with
  | nil => exact absurd hbytes String.utf8EncodeChar_ne_nil
  | cons first more =>
    have hdecode : decodeChar (first :: (more ++ rest)) = some c := by
      rw [← List.cons_append, ← hbytes]
      exact decodeChar_encode c rest
    have hmore : c.utf8Size - 1 = more.length := by
      rw [← hlength, hbytes]
      rfl
    rw [List.cons_append, lossy, hdecode]
    show c :: lossy ((more ++ rest).drop (c.utf8Size - 1)) = c :: lossy rest
    rw [hmore, List.drop_left]

/-- A text in front of other bytes is read as the text. -/
theorem lossy_encodeUtf8_append (text : List Char) (rest : List UInt8) :
    lossy (encodeUtf8 text ++ rest) = text ++ lossy rest := by
  induction text with
  | nil => rfl
  | cons c text ih =>
    have hbytes : encodeUtf8 (c :: text) = String.utf8EncodeChar c ++ encodeUtf8 text :=
      List.flatMap_cons
    rw [hbytes, List.append_assoc, lossy_utf8EncodeChar_append, ih, List.cons_append]

/-- Bytes that are a text are read as it. -/
theorem lossy_encodeUtf8 (text : List Char) : lossy (encodeUtf8 text) = text := by
  have h := lossy_encodeUtf8_append text []
  rwa [List.append_nil, lossy_nil, List.append_nil] at h

end NextApi.Text
