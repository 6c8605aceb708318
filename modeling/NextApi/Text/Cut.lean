import Mathlib.Order.Basic
import Mathlib.Order.Nat
import NextApi.Text.Lines

/-!
# Cutting bytes that need not be a text

The decoder reads bytes piece by piece: a character, or what begins one and does not continue to
one. Cut to a number of bytes, a text keeps the pieces that fit (`cut`). A position where a piece
ends is a boundary, and cutting there is cutting the text (`lossy_take_append_lossy_drop`).

Looking at single bytes, one sees where a piece may begin: at any byte that does not continue a
character (`Boundary.of_byte`). Stepping back over the bytes that do is therefore not yet stepping
back to a boundary: the byte at which it stops may begin a piece that is cut. When this goes well,
and what else comes of it, is `StepsBack.cut_cases`.
-/

set_option autoImplicit false

namespace NextApi.Text

/-! ### Pieces -/

/-- How many bytes in front are read as one character. -/
def pieceLength (bytes : List UInt8) : ℕ :=
  match decodeChar bytes with
  | some c => c.utf8Size
  | none => brokenLength bytes

/-- The character that they are read as. -/
def pieceChar (bytes : List UInt8) : Char := (decodeChar bytes).getD replacement

/-- The text that fits into a number of bytes. -/
def cut (limit : ℕ) : List UInt8 → List Char
  | [] => []
  | first :: rest =>
    if pieceLength (first :: rest) ≤ limit then
      pieceChar (first :: rest) ::
        cut (limit - pieceLength (first :: rest)) (rest.drop (pieceLength (first :: rest) - 1))
    else []
  termination_by bytes => bytes.length
  decreasing_by simp only [List.length_drop, List.length_cons]; omega

theorem brokenLength_pos (bytes : List UInt8) : 0 < brokenLength bytes := by
  unfold brokenLength
  split
  · split
    · split <;> decide
    · decide
  · decide

theorem brokenLength_le {bytes : List UInt8} (h : bytes ≠ []) :
    brokenLength bytes ≤ bytes.length := by
  unfold brokenLength
  split
  · rename_i first second rest
    split
    · split
      · rename_i hthird
        cases rest with
        | nil => simp at hthird
        | cons third more => simp
      · simp
    · simp
  · exact List.length_pos_iff.2 h

/-- Bytes that begin with a character are its encoding and others. -/
theorem exists_of_decodeChar {bytes : List UInt8} {c : Char} (h : decodeChar bytes = some c) :
    ∃ rest, bytes = String.utf8EncodeChar c ++ rest := by
  obtain ⟨rest, hrest⟩ := ByteArray.exists_of_utf8DecodeChar?_eq_some h
  refine ⟨rest.data.toList, ?_⟩
  have hdata := congrArg (fun b : ByteArray ↦ b.data.toList) hrest
  simpa using hdata

theorem pieceLength_pos (bytes : List UInt8) : 0 < pieceLength bytes := by
  unfold pieceLength
  split
  · exact Char.utf8Size_pos _
  · exact brokenLength_pos bytes

theorem pieceLength_le {bytes : List UInt8} (h : bytes ≠ []) :
    pieceLength bytes ≤ bytes.length := by
  unfold pieceLength
  split
  · rename_i c hc
    obtain ⟨rest, rfl⟩ := exists_of_decodeChar hc
    rw [List.length_append, String.length_utf8EncodeChar]
    exact Nat.le_add_right _ _
  · exact brokenLength_le h

theorem drop_cons_pieceLength (first : UInt8) (rest : List UInt8) :
    rest.drop (pieceLength (first :: rest) - 1) =
      (first :: rest).drop (pieceLength (first :: rest)) := by
  have hpos := pieceLength_pos (first :: rest)
  obtain ⟨n, hn⟩ := Nat.exists_eq_succ_of_ne_zero hpos.ne'
  rw [hn]
  rfl

/-- The first piece is read, and then the others. -/
theorem lossy_eq_cons {bytes : List UInt8} (h : bytes ≠ []) :
    lossy bytes = pieceChar bytes :: lossy (bytes.drop (pieceLength bytes)) := by
  cases bytes with
  | nil => exact absurd rfl h
  | cons first rest =>
    rw [← drop_cons_pieceLength, lossy, pieceLength, pieceChar]
    cases hdecode : decodeChar (first :: rest) with
    | some c => rfl
    | none => rfl

theorem cut_of_le {bytes : List UInt8} {limit : ℕ} (h : bytes ≠ [])
    (hle : pieceLength bytes ≤ limit) : cut limit bytes =
      pieceChar bytes :: cut (limit - pieceLength bytes) (bytes.drop (pieceLength bytes)) := by
  cases bytes with
  | nil => exact absurd rfl h
  | cons first rest => rw [cut, if_pos hle, drop_cons_pieceLength]

theorem cut_of_lt {bytes : List UInt8} {limit : ℕ} (hlt : limit < pieceLength bytes) :
    cut limit bytes = [] := by
  cases bytes with
  | nil => rw [cut]
  | cons first rest => rw [cut, if_neg (Nat.not_le.2 hlt)]

theorem lossy_ne_nil {bytes : List UInt8} (h : bytes ≠ []) : lossy bytes ≠ [] := by
  rw [lossy_eq_cons h]
  exact List.cons_ne_nil _ _

/-- A text that fits is kept. -/
theorem cut_of_length_le {limit : ℕ} {bytes : List UInt8} (h : bytes.length ≤ limit) :
    cut limit bytes = lossy bytes := by
  induction limit, bytes using cut.induct with
  | case1 limit => rw [cut, lossy_nil]
  | case2 limit first rest hle ih =>
    have hlength := pieceLength_le (List.cons_ne_nil first rest)
    rw [drop_cons_pieceLength] at ih
    rw [cut_of_le (List.cons_ne_nil _ _) hle, lossy_eq_cons (List.cons_ne_nil _ _), ih]
    rw [List.length_drop]
    exact Nat.sub_le_sub_right h _
  | case3 limit first rest hlt =>
    exact absurd ((pieceLength_le (List.cons_ne_nil first rest)).trans h) hlt

theorem pieceLength_le_four (bytes : List UInt8) : pieceLength bytes ≤ 4 := by
  unfold pieceLength
  split
  · exact Char.utf8Size_le_four _
  · unfold brokenLength
    split
    · split
      · split <;> decide
      · decide
    · decide

/-- The first character fits. -/
theorem cut_ne_nil {limit : ℕ} {bytes : List UInt8} (h : bytes ≠ []) (hlimit : 4 ≤ limit) :
    cut limit bytes ≠ [] := by
  rw [cut_of_le h ((pieceLength_le_four bytes).trans hlimit)]
  exact List.cons_ne_nil _ _

theorem brokenLength_take {bytes : List UInt8} {n : ℕ} (h : brokenLength bytes ≤ n) :
    brokenLength (bytes.take n) = brokenLength bytes := by
  match bytes, n with
  | _, 0 => exact absurd h (Nat.not_le.2 (brokenLength_pos _))
  | [], n + 1 => rfl
  | [first], n + 1 => rw [List.take_succ_cons, List.take_nil]
  | first :: second :: rest, 1 =>
    have hone : brokenLength (first :: second :: rest) = 1 :=
      Nat.le_antisymm h (brokenLength_pos _)
    rw [hone]
    rfl
  | first :: second :: rest, 2 =>
    have htake : (first :: second :: rest).take 2 = [first, second] := rfl
    rw [htake]
    rw [brokenLength] at h ⊢
    split
    · rename_i hfollow
      rw [if_pos hfollow] at h
      split at h
      · exact absurd h (by decide)
      · rename_i hthird
        rw [brokenLength, if_pos hfollow, if_neg hthird]
        simp
    · rename_i hfollow
      rw [brokenLength, if_neg hfollow]
  | first :: second :: [], n + 3 => rfl
  | first :: second :: third :: rest, n + 3 => rfl

/-- A piece is still one when what follows it is cut. -/
theorem decodeChar_take {bytes : List UInt8} {n : ℕ} (h : pieceLength bytes ≤ n) :
    decodeChar (bytes.take n) = decodeChar bytes := by
  cases hdecode : decodeChar bytes with
  | some c =>
    obtain ⟨rest, rfl⟩ := exists_of_decodeChar hdecode
    have hle : (String.utf8EncodeChar c).length ≤ n := by
      rw [pieceLength, hdecode] at h
      rwa [String.length_utf8EncodeChar]
    rw [List.take_append, List.take_of_length_le hle, decodeChar_encode]
  | none =>
    cases htake : decodeChar (bytes.take n) with
    | none => rfl
    | some c =>
      obtain ⟨rest, hrest⟩ := exists_of_decodeChar htake
      have hbytes : bytes = String.utf8EncodeChar c ++ (rest ++ bytes.drop n) := by
        rw [← List.append_assoc, ← hrest, List.take_append_drop]
      rw [hbytes, decodeChar_encode] at hdecode
      exact absurd hdecode (by simp)

theorem pieceChar_take {bytes : List UInt8} {n : ℕ} (h : pieceLength bytes ≤ n) :
    pieceChar (bytes.take n) = pieceChar bytes := by
  rw [pieceChar, decodeChar_take h, pieceChar]

theorem pieceLength_take {bytes : List UInt8} {n : ℕ} (h : pieceLength bytes ≤ n) :
    pieceLength (bytes.take n) = pieceLength bytes := by
  rw [pieceLength, decodeChar_take h, pieceLength]
  cases hdecode : decodeChar bytes with
  | some c => rfl
  | none =>
    rw [pieceLength, hdecode] at h
    exact brokenLength_take h

/-! ### Boundaries -/

/-- The position is one where a piece ends, or the start. -/
inductive Boundary : List UInt8 → ℕ → Prop
  | start (bytes : List UInt8) : Boundary bytes 0
  | piece {bytes : List UInt8} {n : ℕ} : bytes ≠ [] →
      Boundary (bytes.drop (pieceLength bytes)) n → Boundary bytes (pieceLength bytes + n)

namespace Boundary

variable {bytes : List UInt8} {k n : ℕ}

/-- After a boundary the end of the next piece is one. -/
theorem next (h : Boundary bytes k) (hlt : k < bytes.length) :
    Boundary bytes (k + pieceLength (bytes.drop k)) := by
  induction h with
  | start bytes =>
    have hne : bytes ≠ [] := List.length_pos_iff.1 hlt
    rw [List.drop_zero, Nat.zero_add, ← Nat.add_zero (pieceLength bytes)]
    exact .piece hne (.start _)
  | @piece bytes n hne _ ih =>
    rw [Nat.add_assoc, ← List.drop_drop]
    refine .piece hne (ih ?_)
    rw [List.length_drop]
    omega

/-- Every position is a boundary or inside the piece after one. -/
theorem exists_le (bytes : List UInt8) (n : ℕ) (hle : n ≤ bytes.length) :
    ∃ k, Boundary bytes k ∧ k ≤ n ∧ (k = n ∨ n < k + pieceLength (bytes.drop k)) := by
  induction n with
  | zero => exact ⟨0, .start _, le_rfl, Or.inl rfl⟩
  | succ n ih =>
    obtain ⟨k, hk, hkn, hor⟩ := ih (Nat.le_of_succ_le hle)
    have hpos := pieceLength_pos (bytes.drop k)
    rcases Nat.lt_or_ge (n + 1) (k + pieceLength (bytes.drop k)) with hlt | hge
    · exact ⟨k, hk, by omega, Or.inr hlt⟩
    · refine ⟨_, hk.next (by omega), hge, Or.inl ?_⟩
      omega

/-- The text up to a boundary is what fits. -/
theorem cut_eq (h : Boundary bytes k) (hkn : k ≤ n)
    (hlast : k = n ∨ n < k + pieceLength (bytes.drop k)) :
    cut n bytes = lossy (bytes.take k) := by
  induction h generalizing n with
  | start bytes =>
    rw [List.take_zero, lossy_nil]
    refine cut_of_lt ?_
    have hpos := pieceLength_pos bytes
    rw [List.drop_zero] at hlast
    omega
  | @piece bytes k hne _ ih =>
    have hle : pieceLength bytes ≤ pieceLength bytes + k := Nat.le_add_right _ _
    have htake : bytes.take (pieceLength bytes + k) ≠ [] := by
      rw [Ne, List.take_eq_nil_iff, not_or]
      have hpos := pieceLength_pos bytes
      exact ⟨by omega, hne⟩
    rw [cut_of_le hne (by omega), lossy_eq_cons htake, pieceChar_take hle, pieceLength_take hle,
      List.drop_take, Nat.add_sub_cancel_left, ih (by omega) ?_]
    rw [List.drop_drop]
    omega

/-- A boundary stays one when the bytes are cut after it. -/
theorem take (h : Boundary bytes k) (hkn : k ≤ n) : Boundary (bytes.take n) k := by
  induction h generalizing n with
  | start bytes => exact .start _
  | @piece bytes k hne _ ih =>
    have hle : pieceLength bytes ≤ n := by omega
    have htake : bytes.take n ≠ [] := by
      rw [Ne, List.take_eq_nil_iff, not_or]
      have hpos := pieceLength_pos bytes
      exact ⟨by omega, hne⟩
    rw [← pieceLength_take hle]
    refine .piece htake ?_
    rw [pieceLength_take hle, List.drop_take]
    exact ih (by omega)

/-- Reading up to a boundary and after it is reading at once. -/
theorem lossy_append (h : Boundary bytes k) :
    lossy bytes = lossy (bytes.take k) ++ lossy (bytes.drop k) := by
  induction h with
  | start bytes => rw [List.take_zero, lossy_nil, List.drop_zero, List.nil_append]
  | @piece bytes k hne _ ih =>
    have hle : pieceLength bytes ≤ pieceLength bytes + k := Nat.le_add_right _ _
    have htake : bytes.take (pieceLength bytes + k) ≠ [] := by
      rw [Ne, List.take_eq_nil_iff, not_or]
      have hpos := pieceLength_pos bytes
      exact ⟨by omega, hne⟩
    rw [lossy_eq_cons htake, pieceChar_take hle, pieceLength_take hle, List.drop_take,
      Nat.add_sub_cancel_left, ← List.drop_drop, List.cons_append, ← ih, ← lossy_eq_cons hne]

/-- What is read up to a later position continues what is read up to a boundary. -/
theorem lossy_take (h : Boundary bytes k) (hkn : k ≤ n) :
    lossy (bytes.take n) = lossy (bytes.take k) ++ lossy ((bytes.drop k).take (n - k)) := by
  rw [(h.take hkn).lossy_append, List.take_take, Nat.min_eq_left hkn, List.drop_take]

/-- Reading up to the end of a piece gives its character last. -/
theorem lossy_take_next (h : Boundary bytes k) (hlt : k < bytes.length) :
    lossy (bytes.take (k + pieceLength (bytes.drop k))) =
      lossy (bytes.take k) ++ [pieceChar (bytes.drop k)] := by
  have hne : bytes.drop k ≠ [] := by
    rw [Ne, List.drop_eq_nil_iff]
    omega
  have htake : (bytes.drop k).take (pieceLength (bytes.drop k)) ≠ [] := by
    rw [Ne, List.take_eq_nil_iff, not_or]
    exact ⟨Nat.pos_iff_ne_zero.1 (pieceLength_pos _), hne⟩
  rw [h.lossy_take (Nat.le_add_right _ _), Nat.add_sub_cancel_left, lossy_eq_cons htake,
    pieceChar_take le_rfl, pieceLength_take le_rfl, List.drop_take, Nat.sub_self, List.take_zero,
    lossy_nil]

/-- Before a boundary that is not the start there is a last piece. -/
theorem exists_last (h : Boundary bytes n) (hpos : 0 < n) :
    ∃ k, Boundary bytes k ∧ k < bytes.length ∧ n = k + pieceLength (bytes.drop k) := by
  induction h with
  | start bytes => exact absurd hpos (Nat.lt_irrefl 0)
  | @piece bytes n hne _ ih =>
    rcases Nat.eq_zero_or_pos n with rfl | hn
    · exact ⟨0, .start _, List.length_pos_iff.2 hne, by rw [List.drop_zero, Nat.zero_add]; rfl⟩
    · obtain ⟨k, hk, hlt, hlast⟩ := ih hn
      rw [List.length_drop] at hlt
      refine ⟨pieceLength bytes + k, .piece hne hk, by omega, ?_⟩
      rw [← List.drop_drop, Nat.add_assoc, ← hlast]

end Boundary

/-! ### Bytes that continue a character -/

theorem isContinuation_iff {b : UInt8} :
    isContinuation b = true ↔ 0x80 ≤ b.toNat ∧ b.toNat ≤ 0xbf := by
  rw [isContinuation, decide_eq_true_iff, UInt8.le_iff_toNat_le, UInt8.le_iff_toNat_le]
  rfl

theorem not_isContinuation_iff {b : UInt8} :
    isContinuation b = false ↔ b.toNat < 0x80 ∨ 0xbf < b.toNat := by
  rw [← Bool.not_eq_true, isContinuation_iff]
  omega

theorem isContinuation_ofNat (v : ℕ) : isContinuation (UInt8.ofNat (v % 0x40 + 0x80)) = true := by
  have hv : v % 0x40 < 0x40 := Nat.mod_lt _ (by decide)
  rw [isContinuation_iff, UInt8.toNat_ofNat', Nat.mod_eq_of_lt (by omega)]
  omega

theorem not_isContinuation_ofNat {v : ℕ} (h : v < 0x80 ∨ 0xc0 ≤ v) (hlt : v < 0x100) :
    isContinuation (UInt8.ofNat v) = false := by
  rw [not_isContinuation_iff, UInt8.toNat_ofNat', Nat.mod_eq_of_lt hlt]
  omega

/-- A character begins with a byte that continues none, and all others continue it. -/
theorem utf8EncodeChar_eq_cons (c : Char) : ∃ first more,
    String.utf8EncodeChar c = first :: more ∧ isContinuation first = false ∧
      ∀ b ∈ more, isContinuation b = true := by
  have hmem (v : ℕ) : ∀ b ∈ [UInt8.ofNat (v % 0x40 + 0x80)], isContinuation b = true := by
    intro b hb
    rw [List.mem_singleton.1 hb]
    exact isContinuation_ofNat v
  unfold String.utf8EncodeChar
  dsimp only
  split
  · exact ⟨_, _, rfl, not_isContinuation_ofNat (by omega) (by omega), by simp⟩
  · split
    · exact ⟨_, _, rfl, not_isContinuation_ofNat (by omega) (by omega), hmem _⟩
    · split
      · exact ⟨_, _, rfl, not_isContinuation_ofNat (by omega) (by omega),
          List.forall_mem_cons.2 ⟨isContinuation_ofNat _, hmem _⟩⟩
      · exact ⟨_, _, rfl, not_isContinuation_ofNat (by omega) (by omega),
          List.forall_mem_cons.2 ⟨isContinuation_ofNat _,
            List.forall_mem_cons.2 ⟨isContinuation_ofNat _, hmem _⟩⟩⟩

theorem isContinuation_of_between {lo hi b : UInt8} (hlo : 0x80 ≤ lo.toNat)
    (hhi : hi.toNat ≤ 0xbf) (h : decide (lo ≤ b ∧ b ≤ hi) = true) : isContinuation b = true := by
  rw [decide_eq_true_iff, UInt8.le_iff_toNat_le, UInt8.le_iff_toNat_le] at h
  exact isContinuation_iff.2 ⟨le_trans hlo h.1, le_trans h.2 hhi⟩

theorem not_isContinuation_of_above {lo b : UInt8} (hlo : 0xbf < lo.toNat) (h : lo ≤ b) :
    isContinuation b = false :=
  not_isContinuation_iff.2 (Or.inr (lt_of_lt_of_le hlo (UInt8.le_iff_toNat_le.1 h)))

/-- What may be followed continues no character, and what may follow does. -/
theorem isContinuation_of_mayFollow {first second : UInt8} (h : mayFollow first second = true) :
    isContinuation first = false ∧ isContinuation second = true := by
  unfold mayFollow at h
  split at h
  · rename_i hfirst
    rw [hfirst]
    exact ⟨by decide, isContinuation_of_between (by decide) (by decide) h⟩
  split at h
  · rename_i hfirst
    rw [hfirst]
    exact ⟨by decide, isContinuation_of_between (by decide) (by decide) h⟩
  split at h
  · rename_i hfirst
    exact ⟨not_isContinuation_of_above (by decide) hfirst.1, h⟩
  split at h
  · rename_i hfirst
    rw [hfirst]
    exact ⟨by decide, isContinuation_of_between (by decide) (by decide) h⟩
  split at h
  · rename_i hfirst
    rw [hfirst]
    exact ⟨by decide, isContinuation_of_between (by decide) (by decide) h⟩
  split at h
  · rename_i hfirst
    exact ⟨not_isContinuation_of_above (by decide) hfirst.1, h⟩
  · exact absurd h (by decide)

/-- A piece of several bytes begins with one that continues no character. -/
theorem not_isContinuation_head {first : UInt8} {rest : List UInt8}
    (h : 1 < pieceLength (first :: rest)) : isContinuation first = false := by
  unfold pieceLength at h
  split at h
  · rename_i c hc
    obtain ⟨more, hmore⟩ := exists_of_decodeChar hc
    obtain ⟨b, tail, hchar, hfirst, -⟩ := utf8EncodeChar_eq_cons c
    rw [hchar, List.cons_append] at hmore
    rw [(List.cons.inj hmore).1]
    exact hfirst
  · unfold brokenLength at h
    split at h
    · rename_i a b c heq
      split at h
      · rename_i hfollow
        rw [(List.cons.inj heq).1]
        exact (isContinuation_of_mayFollow hfollow).1
      · exact absurd h (by decide)
    · exact absurd h (by decide)

/-- Inside a piece the bytes continue a character. -/
theorem isContinuation_inside {first : UInt8} {rest : List UInt8} :
    ∀ b ∈ rest.take (pieceLength (first :: rest) - 1), isContinuation b = true := by
  unfold pieceLength
  split
  · rename_i c hc
    obtain ⟨more, hmore⟩ := exists_of_decodeChar hc
    obtain ⟨b, tail, hchar, -, htail⟩ := utf8EncodeChar_eq_cons c
    have hlength : c.utf8Size - 1 = tail.length := by
      rw [← String.length_utf8EncodeChar, hchar, List.length_cons, Nat.add_sub_cancel]
    rw [hchar, List.cons_append] at hmore
    rw [(List.cons.inj hmore).2, hlength, List.take_left]
    exact htail
  · unfold brokenLength
    split
    · rename_i a b c heq
      obtain ⟨rfl, rfl⟩ := List.cons.inj heq
      split
      · rename_i hfollow
        have hsecond := (isContinuation_of_mayFollow hfollow).2
        split
        · rename_i hthird
          cases c with
          | nil => exact absurd hthird (by simp)
          | cons third more =>
            have h3 : isContinuation third = true := (Bool.and_eq_true_iff.1 hthird).2
            simp [hsecond, h3]
        · simp [hsecond]
      · simp
    · simp

/-! ### Stepping back over bytes -/

/-- From position `n` one steps back to `e` over the bytes that continue a character. -/
structure StepsBack (bytes : List UInt8) (n e : ℕ) : Prop where
  le : e ≤ n
  continues : ∀ i b, e ≤ i → i < n → bytes[i]? = some b → isContinuation b = true
  stops : ∀ i b, e = i + 1 → bytes[i]? = some b → isContinuation b = false

/-- Stepping back from a position keeps the text that fits: the position is a boundary, and the byte
before it continues no character or is the last of several that are read as the replacement. -/
def CutsCleanly (bytes : List UInt8) (n : ℕ) : Prop :=
  (Boundary bytes n ∧ ∀ i b, n = i + 1 → bytes[i]? = some b → isContinuation b = false) ∨
    ∃ k, Boundary bytes k ∧ k + 2 ≤ n ∧ k + pieceLength (bytes.drop k) = n ∧
      pieceChar (bytes.drop k) = replacement

section StepsBack

variable {bytes : List UInt8} {k n e i : ℕ} {b : UInt8}

/-- The byte after a boundary, and those after it. -/
theorem exists_drop_eq_cons (h : k < bytes.length) :
    ∃ first rest, bytes.drop k = first :: rest ∧ bytes[k]? = some first ∧
      ∀ i, rest[i]? = bytes[k + (i + 1)]? := by
  refine ⟨bytes[k], bytes.drop (k + 1), List.drop_eq_getElem_cons h,
    List.getElem?_eq_getElem h, fun i ↦ ?_⟩
  rw [List.getElem?_drop]
  congr 1
  omega

/-- Inside the piece after a boundary the bytes continue a character. -/
theorem isContinuation_of_inside (hlt : k < i) (hi : i < k + pieceLength (bytes.drop k))
    (hb : bytes[i]? = some b) : isContinuation b = true := by
  have hlength := (List.getElem?_eq_some_iff.1 hb).1
  have hk : k < bytes.length := hlt.trans hlength
  obtain ⟨first, rest, hdrop, -, hrest⟩ := exists_drop_eq_cons hk
  rw [hdrop] at hi
  have hget : (rest.take (pieceLength (first :: rest) - 1))[i - k - 1]? = some b := by
    rw [List.getElem?_take_of_lt (by omega), hrest, ← hb]
    congr 1
    omega
  exact isContinuation_inside b (List.mem_of_getElem? hget)

/-- A byte that continues no character begins a piece. -/
theorem Boundary.of_byte (hb : bytes[i]? = some b) (h : isContinuation b = false) :
    Boundary bytes i := by
  have hlt := (List.getElem?_eq_some_iff.1 hb).1
  obtain ⟨k, hk, hki, heq | hinside⟩ := Boundary.exists_le bytes i hlt.le
  · rwa [← heq]
  · rcases Nat.lt_or_ge k i with hlt | hge
    · rw [isContinuation_of_inside hlt hinside hb] at h
      exact absurd h (by decide)
    · rwa [← Nat.le_antisymm hki hge]

/-- Between two boundaries there is room for the piece after the first. -/
theorem Boundary.next_le (hk : Boundary bytes k) (hn : Boundary bytes n) (hlt : k < n) :
    k + pieceLength (bytes.drop k) ≤ n := by
  induction hk generalizing n with
  | start bytes =>
    cases hn with
    | start => exact absurd hlt (Nat.lt_irrefl 0)
    | piece hne hrest =>
      rw [List.drop_zero, Nat.zero_add]
      exact Nat.le_add_right _ _
  | @piece bytes k hne _ ih =>
    cases hn with
    | start => exact absurd hlt (Nat.not_lt_zero _)
    | piece hne hrest =>
      rw [← List.drop_drop, Nat.add_assoc]
      exact Nat.add_le_add_left (ih hrest (by omega)) _

/-- The first byte of a piece of several is not read alone. -/
theorem lossy_head {first : UInt8} {rest : List UInt8} (h : 1 < pieceLength (first :: rest)) :
    lossy [first] = [replacement] := by
  have hnone : decodeChar [first] = none := by
    cases hdecode : decodeChar [first] with
    | none => rfl
    | some c =>
      obtain ⟨more, hmore⟩ := exists_of_decodeChar hdecode
      have hone : c.utf8Size = 1 := by
        have hlength := congrArg List.length hmore
        rw [List.length_append, String.length_utf8EncodeChar, List.length_singleton] at hlength
        have hpos := Char.utf8Size_pos c
        omega
      have hrest : decodeChar (first :: rest) = some c := by
        have hcons : first :: rest = String.utf8EncodeChar c ++ (more ++ rest) := by
          rw [← List.append_assoc, ← hmore, List.singleton_append]
        rw [hcons, decodeChar_encode]
      rw [pieceLength, hrest] at h
      have hsize : 1 < c.utf8Size := h
      exact absurd hone hsize.ne'
  rw [lossy_eq_cons (List.cons_ne_nil _ _), pieceChar, hnone, List.drop_eq_nil_of_le, lossy_nil]
  · rfl
  · exact pieceLength_pos _

/-- A byte that continues a character is not read at the start of one. -/
theorem pieceChar_of_isContinuation {first : UInt8} {rest : List UInt8}
    (h : isContinuation first = true) : pieceChar (first :: rest) = replacement := by
  cases hdecode : decodeChar (first :: rest) with
  | none => rw [pieceChar, hdecode]; rfl
  | some c =>
    obtain ⟨more, hmore⟩ := exists_of_decodeChar hdecode
    obtain ⟨b, tail, hchar, hfirst, -⟩ := utf8EncodeChar_eq_cons c
    rw [hchar, List.cons_append] at hmore
    rw [(List.cons.inj hmore).1, hfirst] at h
    exact absurd h (by decide)

/-- A single byte is read as one character. -/
theorem length_lossy_singleton (b : UInt8) : (lossy [b]).length = 1 := by
  rw [lossy_eq_cons (List.cons_ne_nil _ _), List.drop_eq_nil_of_le, lossy_nil]
  · rfl
  · exact pieceLength_pos _

/-- Up to a later position, at least one more character is read than up to a boundary. -/
theorem Boundary.length_lossy_lt (hk : Boundary bytes k) (hlt : k < n) (hn : n ≤ bytes.length) :
    (lossy (bytes.take k)).length < (lossy (bytes.take n)).length := by
  have hne : (bytes.drop k).take (n - k) ≠ [] := by
    rw [← List.length_pos_iff, List.length_take, List.length_drop]
    omega
  rw [hk.lossy_take hlt.le, List.length_append]
  exact Nat.lt_add_of_pos_right (List.length_pos_iff.2 (lossy_ne_nil hne))

/-- Inside a piece one steps back to its first byte, and it is kept. -/
theorem StepsBack.eq_succ (h : StepsBack bytes n e) (hkn : k < n) (hn : n ≤ bytes.length)
    (hinside : n ≤ k + pieceLength (bytes.drop k)) (hlong : 1 < pieceLength (bytes.drop k)) :
    e = k + 1 ∧ lossy ((bytes.drop k).take 1) = [replacement] := by
  obtain ⟨first, rest, hdrop, hfirst, -⟩ := exists_drop_eq_cons (lt_of_lt_of_le hkn hn)
  have hhead : isContinuation first = false := not_isContinuation_head (by rwa [← hdrop])
  refine ⟨Nat.le_antisymm ?_ ?_, ?_⟩
  · by_contra hgt
    obtain ⟨i, rfl⟩ := Nat.exists_eq_succ_of_ne_zero (by omega : e ≠ 0)
    have hle := h.le
    have hi : i < bytes.length := by omega
    have hki : k < i := by omega
    have hstop := h.stops i bytes[i] rfl (List.getElem?_eq_getElem hi)
    rw [isContinuation_of_inside hki (by omega) (List.getElem?_eq_getElem hi)] at hstop
    exact absurd hstop (by decide)
  · by_contra hlt
    have hcontinues := h.continues k first (by omega) hkn hfirst
    rw [hhead] at hcontinues
    exact absurd hcontinues (by decide)
  · rw [hdrop] at hlong ⊢
    exact lossy_head hlong

/-- From inside a piece one steps back to a part of it, which is read as the replacement. -/
theorem StepsBack.cut_inside (h : StepsBack bytes n e) (hk : Boundary bytes k) (hkn : k < n)
    (hn : n ≤ bytes.length) (hinside : n < k + pieceLength (bytes.drop k)) :
    ¬ CutsCleanly bytes n ∧ lossy (bytes.take e) = lossy (bytes.take k) ++ [replacement] := by
  have hnot : ¬ Boundary bytes n := fun hb ↦ Nat.not_lt.2 (hk.next_le hb hkn) hinside
  obtain ⟨rfl, hhead⟩ := h.eq_succ hkn hn hinside.le (by omega)
  refine ⟨?_, ?_⟩
  · rintro (⟨hb, -⟩ | ⟨j, hj, hjn, rfl, -⟩)
    · exact hnot hb
    · exact hnot (hj.next (by omega))
  · rw [hk.lossy_take (Nat.le_add_right k 1), Nat.add_sub_cancel_left, hhead]

/-- From the end of a piece of several bytes one steps back to its first. -/
theorem StepsBack.cut_after (h : StepsBack bytes n e) (hk : Boundary bytes k)
    (hn : n ≤ bytes.length) (heq : n = k + pieceLength (bytes.drop k))
    (hlong : 1 < pieceLength (bytes.drop k)) :
    (CutsCleanly bytes n ↔ pieceChar (bytes.drop k) = replacement) ∧
      lossy (bytes.take e) = lossy (bytes.take k) ++ [replacement] := by
  have hkn : k < n := by omega
  obtain ⟨rfl, hhead⟩ := h.eq_succ hkn hn heq.le hlong
  refine ⟨⟨?_, fun hchar ↦ Or.inr ⟨k, hk, by omega, heq.symm, hchar⟩⟩, ?_⟩
  · rintro (⟨-, hlast⟩ | ⟨j, hj, hjn, hjeq, hchar⟩)
    · obtain ⟨i, rfl⟩ := Nat.exists_eq_succ_of_ne_zero (Nat.ne_zero_of_lt hkn)
      have hi : i < bytes.length := hn
      have hstop := hlast i bytes[i] rfl (List.getElem?_eq_getElem hi)
      have hki : k < i := by omega
      rw [isContinuation_of_inside hki (by omega) (List.getElem?_eq_getElem hi)] at hstop
      exact absurd hstop (by decide)
    · -- the piece that ends there is the same
      have hjk : j = k := by
        rcases Nat.lt_trichotomy j k with hlt | heqk | hgt
        · exact absurd (hj.next_le hk hlt) (by omega)
        · exact heqk
        · exact absurd (hk.next_le hj hgt) (by omega)
      rwa [hjk] at hchar
  · rw [hk.lossy_take (Nat.le_add_right k 1), Nat.add_sub_cancel_left, hhead]

/-- From behind a byte that continues no character of its own, it is lost. -/
theorem StepsBack.cut_stray (h : StepsBack bytes (k + 1) e) (hk : Boundary bytes k)
    (hn : k < bytes.length) (hbyte : isContinuation bytes[k] = true) :
    ¬ CutsCleanly bytes (k + 1) ∧
      (lossy (bytes.take e)).length < (lossy (bytes.take (k + 1))).length := by
  refine ⟨?_, ?_⟩
  · rintro (⟨-, hlast⟩ | ⟨j, hj, hjn, hjeq, -⟩)
    · have hstop := hlast k bytes[k] rfl (List.getElem?_eq_getElem hn)
      rw [hbyte] at hstop
      exact absurd hstop (by decide)
    · exact absurd (hj.next_le hk (by omega)) (by omega)
  · have hlast : (lossy (bytes.take k)).length < (lossy (bytes.take (k + 1))).length :=
      hk.length_lossy_lt (Nat.lt_succ_self k) hn
    have hek : e ≤ k := by
      by_contra hgt
      have he : e = k + 1 := Nat.le_antisymm h.le (Nat.not_le.1 hgt)
      have hstop := h.stops k bytes[k] he (List.getElem?_eq_getElem hn)
      rw [hbyte] at hstop
      exact absurd hstop (by decide)
    cases e with
    | zero =>
      rw [List.take_zero, lossy_nil]
      exact Nat.zero_lt_of_lt hlast
    | succ i =>
      have hi : i < bytes.length := by omega
      have hb : Boundary bytes i := .of_byte (List.getElem?_eq_getElem hi)
        (h.stops i bytes[i] rfl (List.getElem?_eq_getElem hi))
      have hread : (lossy (bytes.take (i + 1))).length = (lossy (bytes.take i)).length + 1 := by
        rw [hb.lossy_take (Nat.le_add_right i 1), Nat.add_sub_cancel_left,
          List.drop_eq_getElem_cons hi, List.take_succ_cons, List.take_zero, List.length_append,
          length_lossy_singleton]
      have hfirst := hb.length_lossy_lt (Nat.lt_of_succ_le hek) hn.le
      omega

/-- Stepping back keeps the text that fits when it cuts cleanly. Otherwise what is kept ends with a
replacement, or characters of the text that fits are lost and the last of them is a replacement. -/
theorem StepsBack.cut_cases (h : StepsBack bytes n e) (hn : n ≤ bytes.length) :
    (CutsCleanly bytes n ∧ lossy (bytes.take e) = cut n bytes) ∨
    (¬ CutsCleanly bytes n ∧ lossy (bytes.take e) ≠ cut n bytes ∧
      ((lossy (bytes.take e)).getLast? = some replacement ∨
        (lossy (bytes.take e)).length < (cut n bytes).length ∧
          (cut n bytes).getLast? = some replacement)) := by
  obtain ⟨k, hk, hkn, hlast⟩ := Boundary.exists_le bytes n hn
  rcases Nat.eq_or_lt_of_le hkn with rfl | hlt
  · rw [hk.cut_eq le_rfl (Or.inl rfl)]
    rcases Nat.eq_zero_or_pos k with rfl | hpos
    · have he : e = 0 := Nat.le_zero.1 h.le
      exact Or.inl ⟨Or.inl ⟨hk, fun i b hi ↦ absurd hi (Nat.succ_ne_zero i).symm⟩, by rw [he]⟩
    · obtain ⟨j, hj, hjlt, heq⟩ := hk.exists_last hpos
      have hread : lossy (bytes.take k) = lossy (bytes.take j) ++ [pieceChar (bytes.drop j)] := by
        rw [heq, hj.lossy_take_next hjlt]
      rcases Nat.eq_or_lt_of_le (pieceLength_pos (bytes.drop j)) with hone | hlong
      · rw [← hone] at heq
        subst heq
        cases hbyte : isContinuation bytes[j] with
        | true =>
          obtain ⟨hnot, hless⟩ := h.cut_stray hj hjlt hbyte
          refine Or.inr ⟨hnot, fun htext ↦ ?_, Or.inr ⟨hless, ?_⟩⟩
          · rw [htext] at hless
            exact Nat.lt_irrefl _ hless
          · rw [hread, List.getLast?_concat, List.drop_eq_getElem_cons hjlt,
              pieceChar_of_isContinuation hbyte]
        | false =>
          have hclean : ∀ i b, j + 1 = i + 1 → bytes[i]? = some b → isContinuation b = false := by
            intro i b hi hb
            rw [← Nat.succ.inj hi, List.getElem?_eq_getElem hjlt] at hb
            rw [← Option.some.inj hb]
            exact hbyte
          refine Or.inl ⟨Or.inl ⟨hk, hclean⟩, ?_⟩
          have he : e = j + 1 := by
            refine Nat.le_antisymm h.le (Nat.not_lt.1 fun hlt ↦ ?_)
            have hcontinues := h.continues j bytes[j] (Nat.le_of_lt_succ hlt) (Nat.lt_succ_self j)
              (List.getElem?_eq_getElem hjlt)
            rw [hbyte] at hcontinues
            exact absurd hcontinues (by decide)
          rw [he]
      · obtain ⟨hiff, htext⟩ := h.cut_after hj hn heq hlong
        rw [htext, hread]
        by_cases hchar : pieceChar (bytes.drop j) = replacement
        · exact Or.inl ⟨hiff.2 hchar, by rw [hchar]⟩
        · refine Or.inr ⟨fun hclean ↦ hchar (hiff.1 hclean), fun hsame ↦ hchar ?_,
            Or.inl List.getLast?_concat⟩
          exact (List.singleton_inj.1 (List.append_cancel_left hsame)).symm
  · have hinside := hlast.resolve_left hlt.ne
    obtain ⟨hnot, htext⟩ := h.cut_inside hk hlt hn hinside
    rw [hk.cut_eq hkn hlast, htext]
    exact Or.inr ⟨hnot, fun hsame ↦ absurd (congrArg List.length hsame) (by simp),
      Or.inl List.getLast?_concat⟩

end StepsBack

end NextApi.Text
