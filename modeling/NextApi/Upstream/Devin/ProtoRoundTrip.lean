import NextApi.Upstream.Devin.Proto

/-!
# Messages are read back

The writers of fields, and the reader as it walks over the buffer by an index: it must not look at a
place outside the buffer, where the program would stop, and its sums of indices are those of machine
words. The reader by an index does what `decode` does with the bytes that are left (`decodeAt_eq`).
So it never looks outside the buffer, every field takes at least a byte, and what the writers wrote
is read back (`decodeAt_written`).
-/

set_option autoImplicit false

namespace NextApi.Devin

/-! ### Writing -/

/-- Writes seven bits a byte, the lowest ones first. -/
def putVarint (n : BitVec 64) : List UInt8 :=
  if _h : n >>> 7 = 0 then [UInt8.ofNat (n.toNat % 128)]
  else UInt8.ofNat (n.toNat % 128 + 128) :: putVarint (n >>> 7)
termination_by n.toNat
decreasing_by
  rw [BitVec.toNat_ushiftRight, Nat.shiftRight_eq_div_pow]
  refine Nat.div_lt_self (Nat.pos_of_ne_zero fun hzero ↦ _h ?_) (by decide)
  rw [BitVec.eq_of_toNat_eq (y := 0) hzero]
  rfl

/-- The key of a field. -/
def key (field : BitVec 32) (wireType : BitVec 32) : BitVec 64 :=
  ((field <<< 3) ||| wireType).setWidth 64

def putBytes (field : BitVec 32) (val : List UInt8) : List UInt8 :=
  putVarint (key field 2) ++ putVarint (BitVec.ofNat 64 val.length) ++ val

def putUint (field : BitVec 32) (n : BitVec 64) : List UInt8 :=
  putVarint (key field 0) ++ putVarint n

/-- A double is its eight bytes. -/
def putDouble (field : BitVec 32) (x : Vector UInt8 8) : List UInt8 :=
  putVarint (key field 1) ++ x.toList

/-- A field that the writers write. -/
inductive Written where
  | bytes (field : BitVec 32) (val : List UInt8)
  | uint (field : BitVec 32) (n : BitVec 64)
  | double (field : BitVec 32) (x : Vector UInt8 8)

namespace Written

def number : Written → BitVec 32
  | .bytes field _ | .uint field _ | .double field _ => field

def put : Written → List UInt8
  | .bytes field val => putBytes field val
  | .uint field n => putUint field n
  | .double field x => putDouble field x

def val : Written → Val
  | .bytes _ val => .bytes val
  | .uint _ n => .varint n
  | .double _ x => .fixed64 x.toList

/-- What is to be read back. -/
def field (w : Written) : Field := (w.number.toNat, w.val)

end Written

/-! ### Numbers are read back -/

theorem ushiftRight_lt {n : BitVec 64} {k : ℕ} (h : n.toNat < 2 ^ (k + 7)) :
    (n >>> 7).toNat < 2 ^ k := by
  rw [BitVec.toNat_ushiftRight, Nat.shiftRight_eq_div_pow, Nat.div_lt_iff_lt_mul (by decide),
    ← Nat.pow_add]
  exact h

theorem lt_of_ushiftRight_eq_zero {n : BitVec 64} (h : n >>> 7 = 0) : n.toNat < 128 := by
  have hzero := congrArg BitVec.toNat h
  rw [BitVec.toNat_ushiftRight, Nat.shiftRight_eq_div_pow] at hzero
  exact (Nat.div_eq_zero_iff_lt (by decide)).1 hzero

/-- The seven lowest bits and the others make the number. -/
theorem low_or_high (n : BitVec 64) (shift : ℕ) :
    (BitVec.ofNat 64 (n.toNat % 128) <<< shift) ||| ((n >>> 7) <<< (shift + 7)) = n <<< shift := by
  have hlow : BitVec.ofNat 64 (n.toNat % 128) = (n.setWidth 7).setWidth 64 := by
    refine BitVec.eq_of_toNat_eq ?_
    simp
  rw [hlow]
  refine BitVec.eq_of_getLsbD_eq fun i hi ↦ ?_
  simp only [BitVec.getLsbD_or, BitVec.getLsbD_shiftLeft, BitVec.getLsbD_setWidth,
    BitVec.getLsbD_ushiftRight, hi, decide_true, Bool.true_and]
  by_cases hlt : i < shift
  · simp [hlt, Nat.lt_add_right 7 hlt]
  · by_cases hseven : i < shift + 7
    · have hless : i - shift < 7 := by omega
      have h64 : i - shift < 64 := by omega
      simp [hlt, hseven, hless, h64]
    · have hmore : ¬ i - shift < 7 := by omega
      have hindex : 7 + (i - (shift + 7)) = i - shift := by omega
      simp [hlt, hseven, hmore, hindex]

theorem readVarintFrom_putVarint {n : BitVec 64} {shift : ℕ} (hshift : shift ≤ 63)
    (hn : n.toNat < 2 ^ (64 - shift)) (val : BitVec 64) (rest : List UInt8) :
    readVarintFrom val shift (putVarint n ++ rest) = .ok (val ||| (n <<< shift), rest) := by
  induction n using putVarint.induct generalizing val shift with
  | case1 n hlast =>
    have hsmall := lt_of_ushiftRight_eq_zero hlast
    have hbyte : (UInt8.ofNat (n.toNat % 128)).toNat = n.toNat := by
      rw [UInt8.toNat_ofNat']
      omega
    rw [putVarint, dif_pos hlast, List.singleton_append, readVarintFrom, hbyte, if_pos hsmall,
      Nat.mod_eq_of_lt hsmall, BitVec.ofNat_toNat, BitVec.setWidth_eq]
  | case2 n hmore ih =>
    have hbig : 128 ≤ n.toNat := by
      refine Nat.le_of_not_lt fun hsmall ↦ hmore (BitVec.eq_of_toNat_eq ?_)
      rw [BitVec.toNat_ushiftRight, Nat.shiftRight_eq_div_pow]
      exact Nat.div_eq_of_lt hsmall
    have hroom : shift + 7 ≤ 63 := by
      refine Nat.le_of_not_lt fun hlt ↦ absurd (Nat.lt_of_le_of_lt hbig hn) (Nat.not_lt.2 ?_)
      exact Nat.pow_le_pow_right (n := 2) (j := 7) (by decide) (by omega)
    have hbyte : (UInt8.ofNat (n.toNat % 128 + 128)).toNat = n.toNat % 128 + 128 := by
      rw [UInt8.toNat_ofNat']
      omega
    have hhigh : (n >>> 7).toNat < 2 ^ (64 - (shift + 7)) := by
      refine ushiftRight_lt ?_
      rwa [show 64 - (shift + 7) + 7 = 64 - shift by omega]
    rw [putVarint, dif_neg hmore, List.cons_append, readVarintFrom, hbyte, if_neg (by omega),
      if_neg (by omega), Nat.add_mod_right, Nat.mod_mod, ih hroom hhigh, BitVec.or_assoc,
      low_or_high]

theorem readVarint_putVarint (n : BitVec 64) (rest : List UInt8) :
    readVarint (putVarint n ++ rest) = .ok (n, rest) := by
  rw [readVarint, readVarintFrom_putVarint (by decide) n.isLt, BitVec.shiftLeft_zero,
    show (0 : BitVec 64) ||| n = n from BitVec.zero_or]

/-! ### Fields are read back -/

theorem toNat_key {field wireType : BitVec 32} (hfield : field.toNat < 2 ^ 29)
    (hwire : wireType.toNat < 8) :
    (key field wireType).toNat = 8 * field.toNat + wireType.toNat := by
  have hor := Nat.two_pow_add_eq_or_of_lt (i := 3) hwire field.toNat
  rw [key, BitVec.toNat_setWidth, BitVec.toNat_or, BitVec.toNat_shiftLeft, Nat.shiftLeft_eq,
    Nat.mod_eq_of_lt (a := field.toNat * 2 ^ 3) (by omega), Nat.mul_comm, ← hor]
  omega

theorem readBytes_append (message : String) (b rest : List UInt8) :
    readBytes b.length message (b ++ rest) = .ok (b, rest) := by
  rw [readBytes, if_neg (by rw [List.length_append]; omega), List.take_left, List.drop_left]

/-- The first field is read back, and what follows it stays. -/
theorem nextField_put {w : Written} (hnumber : w.number.toNat < 2 ^ 29)
    (hshort : w.put.length < 2 ^ 63) (rest : List UInt8) :
    nextField (w.put ++ rest) = .ok (w.field, rest) := by
  have hfield {field wireType : BitVec 32} (hfield : field.toNat < 2 ^ 29)
      (hwire : wireType.toNat < 8) : (key field wireType).toNat % 8 = wireType.toNat ∧
        (key field wireType).toNat / 8 % 2 ^ 32 = field.toNat := by
    rw [toNat_key hfield hwire]
    omega
  cases w with
  | bytes field val =>
    have hlength : (BitVec.ofNat 64 val.length).toNat = val.length := by
      rw [Written.put, putBytes, List.length_append] at hshort
      rw [BitVec.toNat_ofNat]
      omega
    obtain ⟨hwire, hnum⟩ := @hfield field 2 hnumber (by decide)
    rw [Written.put, putBytes, List.append_assoc, List.append_assoc, nextField,
      readVarint_putVarint]
    show ((readValue ((key field 2).toNat % 8) _).map _) = _
    rw [hwire, hnum]
    show (((readVarint _).bind _).map _) = _
    rw [readVarint_putVarint]
    show (((readBytes (BitVec.ofNat 64 val.length).toNat _ _).map _).map _) = _
    rw [hlength, readBytes_append]
    rfl
  | uint field n =>
    obtain ⟨hwire, hnum⟩ := @hfield field 0 hnumber (by decide)
    rw [Written.put, putUint, List.append_assoc, nextField, readVarint_putVarint]
    show ((readValue ((key field 0).toNat % 8) _).map _) = _
    rw [hwire, hnum]
    show (((readVarint _).map _).map _) = _
    rw [readVarint_putVarint]
    rfl
  | double field x =>
    obtain ⟨hwire, hnum⟩ := @hfield field 1 hnumber (by decide)
    have hbytes := readBytes_append "f64 越界" x.toList rest
    rw [Vector.length_toList] at hbytes
    rw [Written.put, putDouble, List.append_assoc, nextField, readVarint_putVarint]
    show ((readValue ((key field 1).toNat % 8) _).map _) = _
    rw [hwire, hnum]
    show (((readBytes 8 _ _).map _).map _) = _
    rw [hbytes]
    rfl

theorem decode_nil : decode [] = .ok [] := by rw [decode]

theorem decode_eq {buf : List UInt8} (hbuf : buf ≠ []) :
    decode buf =
      (nextField buf).bind fun (f, rest) ↦ (decode rest).map fun fields ↦ f :: fields := by
  cases buf with
  | nil => exact absurd rfl hbuf
  | cons b tail =>
    rw [decode]
    split
    · rename_i e h
      rw [h]
      rfl
    · rename_i f rest h
      rw [h]
      rfl

theorem put_ne_nil (w : Written) : w.put ≠ [] := by
  have hne (n : BitVec 64) : putVarint n ≠ [] := by
    rw [putVarint]
    split <;> simp
  cases w <;> simp [Written.put, putBytes, putUint, putDouble, hne]

theorem decode_written {ws : List Written} (hnumber : ∀ w ∈ ws, w.number.toNat < 2 ^ 29)
    (hshort : (ws.flatMap Written.put).length < 2 ^ 63) :
    decode (ws.flatMap Written.put) = .ok (ws.map Written.field) := by
  induction ws with
  | nil => exact decode_nil
  | cons w ws ih =>
    rw [List.flatMap_cons] at hshort ⊢
    rw [List.length_append] at hshort
    have hfirst := nextField_put (hnumber w List.mem_cons_self) (by omega)
      (ws.flatMap Written.put)
    have hrest := ih (fun w' hw' ↦ hnumber w' (List.mem_cons_of_mem w hw')) (by omega)
    rw [decode_eq (by simp [put_ne_nil]), hfirst]
    show (decode _).map _ = _
    rw [hrest]
    rfl

/-! ### Reading by an index -/

/-- How reading fails: with a message, or with a look outside the buffer. -/
inductive Fault where
  | refused (message : String)
  | outside
  deriving DecidableEq

/-- A sum of two indices, as a machine word has it. -/
def indexAdd (i n : ℕ) : ℕ := (i + n) % 2 ^ 64

/-- `buf[i]`. -/
def byteAt (buf : List UInt8) (i : ℕ) : Except Fault UInt8 :=
  match buf[i]? with
  | some b => .ok b
  | none => .error .outside

/-- `buf[i..j]`. -/
def slice (buf : List UInt8) (i j : ℕ) : Except Fault (List UInt8) :=
  if i ≤ j ∧ j ≤ buf.length then .ok ((buf.take j).drop i) else .error .outside

def readVarintAt (buf : List UInt8) (val : BitVec 64) (shift i : ℕ) :
    Except Fault (BitVec 64 × ℕ) :=
  if buf.length ≤ i then .error (.refused "varint 越界")
  else
    (byteAt buf i).bind fun b ↦
      let i := indexAdd i 1
      let val := val ||| (BitVec.ofNat 64 (b.toNat % 128) <<< shift)
      if b.toNat < 128 then .ok (val, i)
      else if _h : 63 < shift + 7 then .error (.refused "varint 过长")
      else readVarintAt buf val (shift + 7) i
termination_by 64 - shift

/-- Some bytes from an index on, and the index after them. -/
def readBytesAt (n : ℕ) (message : String) (buf : List UInt8) (i : ℕ) :
    Except Fault (List UInt8 × ℕ) :=
  if buf.length - i < n then .error (.refused message)
  else (slice buf i (indexAdd i n)).map fun b ↦ (b, indexAdd i n)

def readValueAt (wireType : ℕ) (buf : List UInt8) (i : ℕ) : Except Fault (Val × ℕ) :=
  match wireType with
  | 0 => (readVarintAt buf 0 0 i).map fun (n, i) ↦ (.varint n, i)
  | 1 => (readBytesAt 8 "f64 越界" buf i).map fun (b, i) ↦ (.fixed64 b, i)
  | 2 =>
    (readVarintAt buf 0 0 i).bind fun (len, i) ↦
      (readBytesAt len.toNat "len 越界" buf i).map fun (b, i) ↦ (.bytes b, i)
  | 5 => (readBytesAt 4 "f32 越界" buf i).map fun (b, i) ↦ (.fixed32 b, i)
  | other => .error (.refused ("未知 wire type " ++ toString other))

/-- One iteration: the field at an index, and the index after it. -/
def fieldAt (buf : List UInt8) (i : ℕ) : Except Fault (Field × ℕ) :=
  (readVarintAt buf 0 0 i).bind fun (key, i) ↦
    (readValueAt (key.toNat % 8) buf i).map fun (v, i) ↦ ((key.toNat / 8 % 2 ^ 32, v), i)

/-! ### Indices and the bytes that are left -/

section Located

variable {α β : Type} (buf : List UInt8)

/-- The result of a reader of the bytes that are left, by an index. -/
def located (r : Except String (α × List UInt8)) : Except Fault (α × ℕ) :=
  match r with
  | .error e => .error (.refused e)
  | .ok (a, rest) => .ok (a, buf.length - rest.length)

/-- A reader leaves an end of the buffer. -/
def LeavesEnd (r : Except String (α × List UInt8)) : Prop :=
  ∀ a rest, r = .ok (a, rest) → rest <:+ buf

variable {buf}

theorem located_map (r : Except String (α × List UInt8)) (f : α → β) :
    (located buf r).map (fun (a, i) ↦ (f a, i)) =
      located buf (r.map fun (a, rest) ↦ (f a, rest)) := by
  cases r <;> rfl

theorem located_bind {r : Except String (α × List UInt8)} (hr : LeavesEnd buf r)
    {f : α × List UInt8 → Except String (β × List UInt8)} {g : α × ℕ → Except Fault (β × ℕ)}
    (h : ∀ a i, i ≤ buf.length → g (a, i) = located buf (f (a, buf.drop i))) :
    (located buf r).bind g = located buf (r.bind f) := by
  cases r with
  | error e => rfl
  | ok p =>
    obtain ⟨a, rest⟩ := p
    have hrest := List.suffix_iff_eq_drop.1 (hr a rest rfl)
    show g (a, buf.length - rest.length) = located buf (f (a, rest))
    rw [h a _ (Nat.sub_le _ _), ← hrest]

end Located

/-- A buffer; no memory holds a longer one. -/
structure Buffer where
  bytes : List UInt8
  short : bytes.length < 2 ^ 63

namespace Buffer

variable (buf : Buffer) {i : ℕ}

theorem indexAdd_eq {n : ℕ} (h : i + n ≤ buf.bytes.length) : indexAdd i n = i + n :=
  Nat.mod_eq_of_lt (by have := buf.short; omega)

theorem readVarintAt_eq (hi : i ≤ buf.bytes.length) (val : BitVec 64) (shift : ℕ) :
    readVarintAt buf.bytes val shift i =
      located buf.bytes (readVarintFrom val shift (buf.bytes.drop i)) := by
  generalize htail : buf.bytes.drop i = tail
  induction tail generalizing val shift i with
  | nil =>
    rw [readVarintAt, if_pos (List.drop_eq_nil_iff.1 htail)]
    rfl
  | cons b rest ih =>
    have hlt : i < buf.bytes.length := by
      refine Nat.lt_of_not_le fun hle ↦ ?_
      rw [List.drop_eq_nil_iff.2 hle] at htail
      exact nomatch htail
    have hbyte : byteAt buf.bytes i = .ok b := by
      rw [byteAt, ← List.head?_drop, htail]
      rfl
    have hrest : buf.bytes.drop (i + 1) = rest := by
      rw [← List.drop_drop, htail]
      rfl
    have hlength : buf.bytes.length - rest.length = i + 1 := by
      rw [← hrest, List.length_drop]
      omega
    rw [readVarintAt, if_neg (Nat.not_le.2 hlt), hbyte, readVarintFrom]
    have hnext : indexAdd i 1 = i + 1 := buf.indexAdd_eq hlt
    simp only [Except.bind, hnext]
    by_cases hlast : b.toNat < 128
    · rw [if_pos hlast, if_pos hlast, ← hlength]
      rfl
    · rw [if_neg hlast, if_neg hlast]
      by_cases hlong : 63 < shift + 7
      · rw [dif_pos hlong, if_pos hlong]
        rfl
      · rw [dif_neg hlong, if_neg hlong]
        exact ih hlt _ _ hrest

theorem readBytesAt_eq (hi : i ≤ buf.bytes.length) (n : ℕ) (message : String) :
    readBytesAt n message buf.bytes i =
      located buf.bytes (readBytes n message (buf.bytes.drop i)) := by
  rw [readBytesAt, readBytes, List.length_drop]
  split
  · rfl
  · rename_i hroom
    have hsum : i + n ≤ buf.bytes.length := by omega
    have hslice : slice buf.bytes i (i + n) = .ok ((buf.bytes.drop i).take n) := by
      rw [slice, if_pos ⟨Nat.le_add_right i n, hsum⟩, List.take_drop]
    rw [buf.indexAdd_eq hsum, hslice, located, List.drop_drop, List.length_drop]
    show Except.ok (_, i + n) = _
    rw [Nat.sub_sub_self hsum]

theorem readValueAt_eq (hi : i ≤ buf.bytes.length) (wireType : ℕ) :
    readValueAt wireType buf.bytes i =
      located buf.bytes (readValue wireType (buf.bytes.drop i)) := by
  unfold readValueAt
  split
  · rw [buf.readVarintAt_eq hi, located_map]
    rfl
  · rw [buf.readBytesAt_eq hi, located_map]
    rfl
  · rw [buf.readVarintAt_eq hi]
    refine located_bind (fun n rest h ↦ (readVarintFrom_suffix h).trans (List.drop_suffix _ _))
      fun len j hj ↦ ?_
    dsimp only
    rw [buf.readBytesAt_eq hj, located_map]
  · rw [buf.readBytesAt_eq hi, located_map]
    rfl
  · rename_i other h0 h1 h2 h5
    have hother : readValue wireType (buf.bytes.drop i) =
        .error ("未知 wire type " ++ toString wireType) := by
      unfold readValue
      split <;> first | contradiction | rfl
    rw [hother]
    rfl

/-- An iteration reads the first field of the bytes that are left. -/
theorem fieldAt_eq (hi : i ≤ buf.bytes.length) :
    fieldAt buf.bytes i = located buf.bytes (nextField (buf.bytes.drop i)) := by
  rw [fieldAt, buf.readVarintAt_eq hi, nextField]
  refine located_bind (fun n rest h ↦ (readVarintFrom_suffix h).trans (List.drop_suffix _ _))
    fun key j hj ↦ ?_
  dsimp only
  rw [buf.readValueAt_eq hj, located_map]

/-- An iteration takes a byte at least, and stays in the buffer. -/
theorem fieldAt_progress {f : Field} {j : ℕ} (hi : i ≤ buf.bytes.length)
    (h : fieldAt buf.bytes i = .ok (f, j)) : i < j ∧ j ≤ buf.bytes.length := by
  rw [buf.fieldAt_eq hi] at h
  cases hnext : nextField (buf.bytes.drop i) with
  | error e =>
    rw [hnext] at h
    exact nomatch h
  | ok p =>
    obtain ⟨f', rest⟩ := p
    rw [hnext] at h
    obtain ⟨-, rfl⟩ := Prod.mk.inj (Except.ok.inj h)
    have hshrinks := nextField_shrinks hnext
    rw [List.length_drop] at hshrinks
    omega

/-- All fields from an index on. -/
def decodeAt (i : ℕ) : Except Fault (List Field) :=
  if _hi : i < buf.bytes.length then
    match _h : fieldAt buf.bytes i with
    | .error e => .error e
    | .ok (f, j) => (decodeAt j).map fun fields ↦ f :: fields
  else .ok []
termination_by buf.bytes.length - i
decreasing_by
  have := buf.fieldAt_progress (Nat.le_of_lt _hi) _h
  omega

/-- The reader by an index does what the reader of the bytes that are left does. -/
theorem decodeAt_eq {i : ℕ} (hi : i ≤ buf.bytes.length) :
    buf.decodeAt i = (decode (buf.bytes.drop i)).mapError .refused := by
  induction hleft : buf.bytes.length - i using Nat.strongRecOn generalizing i with
  | ind left ih =>
    rw [decodeAt]
    by_cases hlt : i < buf.bytes.length
    · have hne : buf.bytes.drop i ≠ [] := fun hnil ↦ by
        have := List.drop_eq_nil_iff.1 hnil
        omega
      have hfield := buf.fieldAt_eq hi
      rw [dif_pos hlt, decode_eq hne]
      cases hnext : nextField (buf.bytes.drop i) with
      | error e =>
        rw [hnext] at hfield
        split
        · rename_i e' h
          rw [hfield] at h
          rw [← Except.error.inj h]
          rfl
        · rename_i f j h
          rw [hfield] at h
          exact nomatch h
      | ok p =>
        obtain ⟨f, rest⟩ := p
        rw [hnext] at hfield
        obtain ⟨b, tail, hbytes, hsuffix⟩ := nextField_tail hnext
        have htail : tail <:+ buf.bytes.drop i := by
          rw [hbytes]
          exact List.suffix_cons b tail
        have hrest : rest = buf.bytes.drop (buf.bytes.length - rest.length) :=
          List.suffix_iff_eq_drop.1 ((hsuffix.trans htail).trans (List.drop_suffix _ _))
        have hprogress := buf.fieldAt_progress hi hfield
        split
        · rename_i e h
          rw [hfield] at h
          exact nomatch h
        · rename_i f' j h
          rw [hfield] at h
          obtain ⟨rfl, rfl⟩ := Prod.mk.inj (Except.ok.inj h)
          rw [ih _ (by omega) hprogress.2 rfl, ← hrest]
          show _ = ((decode rest).map _).mapError _
          cases decode rest <;> rfl
    · rw [dif_neg hlt, List.drop_eq_nil_iff.2 (Nat.le_of_not_lt hlt), decode_nil]
      rfl

/-- No buffer makes the reader look outside of it. -/
theorem decodeAt_ne_outside : buf.decodeAt 0 ≠ .error .outside := by
  rw [buf.decodeAt_eq (Nat.zero_le _)]
  cases decode _ with
  | error e => exact fun h ↦ Fault.noConfusion (Except.error.inj h)
  | ok fields => exact nofun

end Buffer

/-- What the writers wrote is read back, and every buffer is read to a list or an error: never
outside of it, and with every iteration at least a byte further. -/
theorem decodeAt_written :
    (∀ (ws : List Written) (buf : Buffer), (∀ w ∈ ws, w.number.toNat < 2 ^ 29) →
      buf.bytes = ws.flatMap Written.put → buf.decodeAt 0 = .ok (ws.map Written.field)) ∧
    ∀ buf : Buffer, buf.decodeAt 0 ≠ .error .outside ∧
      ∀ i f j, i < buf.bytes.length → fieldAt buf.bytes i = .ok (f, j) →
        i < j ∧ j ≤ buf.bytes.length := by
  refine ⟨fun ws buf hnumber hbytes ↦ ?_, fun buf ↦ ⟨buf.decodeAt_ne_outside, fun i f j hi h ↦ ?_⟩⟩
  · rw [buf.decodeAt_eq (Nat.zero_le _), List.drop_zero, hbytes,
      decode_written hnumber (hbytes ▸ buf.short)]
    rfl
  · exact buf.fieldAt_progress (Nat.le_of_lt hi) h

end NextApi.Devin
