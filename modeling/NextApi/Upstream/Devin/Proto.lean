import Mathlib.Algebra.Group.Nat.Defs
import NextApi.Error
import NextApi.Stream.Framing
import NextApi.Text.Lines

/-!
# Bytes from a Devin upstream

A Devin upstream sends messages in frames: a byte of flags, the length in four bytes, and the
message. The parser gets the frames out of the chunks of the network (`FrameParser.feed`); it gives
up when a frame or the bytes that wait for one are too long. A message is a list of numbered
fields (`decode`), in the encoding of protocol buffers.
-/

set_option autoImplicit false

namespace NextApi.Devin

/-! ### Messages -/

/-- The value of a field, by its wire type. -/
inductive Val where
  | varint (n : BitVec 64)
  | fixed64 (bytes : List UInt8)
  | bytes (bytes : List UInt8)
  | fixed32 (bytes : List UInt8)
  deriving DecidableEq, Inhabited

namespace Val

def asBytes : Val → Option (List UInt8)
  | .bytes b => some b
  | _ => none

/-- The text, when the bytes are one. -/
def asStr : Val → Option String
  | .bytes b => (Text.decodeUtf8 b).map String.ofList
  | _ => none

def asUint : Val → Option (BitVec 64)
  | .varint n => some n
  | _ => none

end Val

/-- A number and a value. -/
abbrev Field := ℕ × Val

def readVarintFrom (val : BitVec 64) (shift : ℕ) :
    List UInt8 → Except String (BitVec 64 × List UInt8)
  | [] => .error "varint 越界"
  | b :: rest =>
    let val := val ||| (BitVec.ofNat 64 (b.toNat % 128) <<< shift)
    if b.toNat < 128 then .ok (val, rest)
    else if 63 < shift + 7 then .error "varint 过长"
    else readVarintFrom val (shift + 7) rest

/-- Seven bits a byte, the lowest ones first. -/
def readVarint (buf : List UInt8) : Except String (BitVec 64 × List UInt8) := readVarintFrom 0 0 buf

/-- Some bytes off the front. -/
def readBytes (n : ℕ) (message : String) (buf : List UInt8) :
    Except String (List UInt8 × List UInt8) :=
  if buf.length < n then .error message else .ok (buf.take n, buf.drop n)

/-- A value of a wire type, and the bytes after it. -/
def readValue (wireType : ℕ) (buf : List UInt8) : Except String (Val × List UInt8) :=
  match wireType with
  | 0 => (readVarint buf).map fun (n, rest) ↦ (.varint n, rest)
  | 1 => (readBytes 8 "f64 越界" buf).map fun (b, rest) ↦ (.fixed64 b, rest)
  | 2 =>
    (readVarint buf).bind fun (len, rest) ↦
      (readBytes len.toNat "len 越界" rest).map fun (b, rest) ↦ (.bytes b, rest)
  | 5 => (readBytes 4 "f32 越界" buf).map fun (b, rest) ↦ (.fixed32 b, rest)
  | other => .error ("未知 wire type " ++ toString other)

/-- The first field, and the bytes after it. -/
def nextField (buf : List UInt8) : Except String (Field × List UInt8) :=
  (readVarint buf).bind fun (key, rest) ↦
    (readValue (key.toNat % 8) rest).map fun (v, rest) ↦ ((key.toNat / 8 % 2 ^ 32, v), rest)

/-- A number takes at least a byte. -/
theorem readVarintFrom_tail {buf rest : List UInt8} {val n : BitVec 64} {shift : ℕ}
    (h : readVarintFrom val shift buf = .ok (n, rest)) :
    ∃ b tail, buf = b :: tail ∧ rest <:+ tail := by
  induction buf generalizing val shift with
  | nil => cases h
  | cons b tail ih =>
    refine ⟨b, tail, rfl, ?_⟩
    rw [readVarintFrom] at h
    split at h
    · exact (Prod.mk.inj (Except.ok.inj h)).2 ▸ List.suffix_rfl
    · split at h
      · cases h
      · obtain ⟨b', tail', rfl, hrest⟩ := ih h
        exact hrest.trans (List.suffix_cons b' tail')

theorem readVarintFrom_suffix {buf rest : List UInt8} {val n : BitVec 64} {shift : ℕ}
    (h : readVarintFrom val shift buf = .ok (n, rest)) : rest <:+ buf := by
  obtain ⟨b, tail, rfl, hrest⟩ := readVarintFrom_tail h
  exact hrest.trans (List.suffix_cons b tail)

theorem readBytes_suffix {n : ℕ} {message : String} {buf b rest : List UInt8}
    (h : readBytes n message buf = .ok (b, rest)) : rest <:+ buf := by
  rw [readBytes] at h
  split at h
  · cases h
  · rw [← (Prod.mk.inj (Except.ok.inj h)).2]
    exact List.drop_suffix n buf

theorem readValue_suffix {wireType : ℕ} {buf rest : List UInt8} {v : Val}
    (h : readValue wireType buf = .ok (v, rest)) : rest <:+ buf := by
  unfold readValue at h
  split at h
  · obtain ⟨⟨n, rest'⟩, hread, heq⟩ := map_eq_ok.1 h
    rw [← (Prod.mk.inj heq).2]
    exact readVarintFrom_suffix hread
  · obtain ⟨⟨b, rest'⟩, hread, heq⟩ := map_eq_ok.1 h
    rw [← (Prod.mk.inj heq).2]
    exact readBytes_suffix hread
  · obtain ⟨⟨len, after⟩, hlen, h⟩ := bind_eq_ok.1 h
    obtain ⟨⟨b, rest'⟩, hread, heq⟩ := map_eq_ok.1 h
    rw [← (Prod.mk.inj heq).2]
    exact (readBytes_suffix hread).trans (readVarintFrom_suffix hlen)
  · obtain ⟨⟨b, rest'⟩, hread, heq⟩ := map_eq_ok.1 h
    rw [← (Prod.mk.inj heq).2]
    exact readBytes_suffix hread
  · exact nomatch h

/-- A field takes at least a byte. -/
theorem nextField_tail {buf rest : List UInt8} {f : Field} (h : nextField buf = .ok (f, rest)) :
    ∃ b tail, buf = b :: tail ∧ rest <:+ tail := by
  obtain ⟨⟨key, after⟩, hkey, h⟩ := bind_eq_ok.1 h
  obtain ⟨⟨v, rest'⟩, hvalue, heq⟩ := map_eq_ok.1 h
  obtain ⟨b, tail, rfl, hafter⟩ := readVarintFrom_tail hkey
  refine ⟨b, tail, rfl, ?_⟩
  rw [← (Prod.mk.inj heq).2]
  exact (readValue_suffix hvalue).trans hafter

theorem nextField_shrinks {buf rest : List UInt8} {f : Field}
    (h : nextField buf = .ok (f, rest)) : rest.length < buf.length := by
  obtain ⟨b, tail, rfl, hrest⟩ := nextField_tail h
  exact Nat.lt_succ_of_le hrest.length_le

/-- All fields of a message, in order. -/
def decode (buf : List UInt8) : Except String (List Field) :=
  match buf with
  | [] => .ok []
  | b :: tail =>
    match _h : nextField (b :: tail) with
    | .error e => .error e
    | .ok (f, rest) => (decode rest).map fun fields ↦ f :: fields
termination_by buf.length
decreasing_by exact nextField_shrinks _h

/-- The first value of a field. -/
def get (fields : List Field) (field : ℕ) : Option Val :=
  (fields.find? fun f ↦ decide (f.1 = field)).map Prod.snd

/-! ### Frames -/

/-- The flags and the message. -/
abbrev Frame := UInt8 × List UInt8

def maxFrameBytes : ℕ := 16 * 1024 * 1024

def maxBufferBytes : ℕ := maxFrameBytes + 64 * 1024

/-- A length of four bytes, the highest one first. -/
def frameLength (a b c d : UInt8) : ℕ := ((a.toNat * 256 + b.toNat) * 256 + c.toNat) * 256 + d.toNat

/-- Takes a frame off the front. -/
def nextFrame : List UInt8 → Except String (Option (Frame × List UInt8))
  | flags :: a :: b :: c :: d :: rest =>
    let len := frameLength a b c d
    if maxFrameBytes < len then
      .error ("信封帧超限（" ++ toString len ++ "B > " ++ toString maxFrameBytes ++ "B）")
    else if rest.length < len then .ok none
    else .ok (some ((flags, rest.take len), rest.drop len))
  | _ => .ok none

/-- A header is there when something is taken or refused. -/
theorem nextFrame_cases (buf : List UInt8) :
    nextFrame buf = .ok none ∨ ∃ flags a b c d rest, buf = flags :: a :: b :: c :: d :: rest := by
  match buf with
  | [] | [_] | [_, _] | [_, _, _] | [_, _, _, _] => exact .inl rfl
  | flags :: a :: b :: c :: d :: rest => exact .inr ⟨flags, a, b, c, d, rest, rfl⟩

/-- The reader of frames. -/
def frameReader : Framing.Reader UInt8 Frame String where
  next := nextFrame
  shrinks {buf x rest'} h := by
    rcases nextFrame_cases buf with hnone | ⟨flags, a, b, c, d, rest, rfl⟩
    · rw [hnone] at h
      exact nomatch h
    · rw [nextFrame] at h
      split at h
      · exact nomatch h
      · split at h
        · exact nomatch h
        · rw [← (Prod.mk.inj (Option.some.inj (Except.ok.inj h))).2, List.length_drop]
          simp only [List.length_cons]
          omega
  item_append {buf x rest'} more h := by
    rcases nextFrame_cases buf with hnone | ⟨flags, a, b, c, d, rest, rfl⟩
    · rw [hnone] at h
      exact nomatch h
    · simp only [nextFrame, List.cons_append] at h ⊢
      split at h
      · exact nomatch h
      · split at h
        · exact nomatch h
        · rename_i hlen henough
          obtain ⟨rfl, rfl⟩ := Prod.mk.inj (Option.some.inj (Except.ok.inj h))
          have hle : frameLength a b c d ≤ rest.length := Nat.le_of_not_lt henough
          rw [if_neg hlen, if_neg (by rw [List.length_append]; omega),
            List.take_append_of_le_length hle, List.drop_append_of_le_length hle]
  error_append {buf e} more h := by
    rcases nextFrame_cases buf with hnone | ⟨flags, a, b, c, d, rest, rfl⟩
    · rw [hnone] at h
      exact nomatch h
    · simp only [nextFrame, List.cons_append] at h ⊢
      split at h
      · rename_i hlen
        rw [if_pos hlen]
        exact h
      · split at h
        · exact nomatch h
        · exact nomatch h

/-- Adds a chunk to the bytes that wait for the rest of a frame, and takes the frames off. -/
def feedFrames (buf chunk : List UInt8) : Except String (List Frame × List UInt8) :=
  if maxBufferBytes < buf.length + chunk.length then
    .error ("信封缓冲超限（>" ++ toString maxBufferBytes ++ "B）")
  else
    match frameReader.split (buf ++ chunk) with
    | (_, .error e) => .error e
    | (frames, .ok rest) => .ok (frames, rest)

theorem feedFrames_eq_ok {buf chunk rest : List UInt8} {frames : List Frame} :
    feedFrames buf chunk = .ok (frames, rest) ↔
      buf.length + chunk.length ≤ maxBufferBytes ∧
        frameReader.split (buf ++ chunk) = (frames, .ok rest) := by
  rw [feedFrames]
  by_cases hlong : maxBufferBytes < buf.length + chunk.length
  · rw [if_pos hlong]
    exact iff_of_false nofun fun h ↦ Nat.not_le_of_lt hlong h.1
  · rw [if_neg hlong, and_iff_right (Nat.le_of_not_lt hlong)]
    cases hsplit : frameReader.split (buf ++ chunk) with
    | mk first ending =>
      cases ending with
      | error e => exact iff_of_false nofun fun h ↦ nomatch (Prod.mk.inj h).2
      | ok left =>
        show Except.ok (first, left) = _ ↔ _
        rw [Except.ok.injEq, Prod.mk.injEq, Prod.mk.injEq, Except.ok.injEq]

end NextApi.Devin
