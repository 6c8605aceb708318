import NextApi.Text.Joined
import NextApi.Upstream.NoProxy

/-!
# The address of a client

Behind trusted proxies the address of a client is taken from the `X-Forwarded-For` chain: from right
to left over the addresses of trusted proxies, up to the first entry that is not one
(`resolveClientIp`). A client can write anything into the chain to the left of what its proxies add,
so the answer must be the same as for the chain cut off in front of that entry (`Shielded`).

The chain may come in several field lines, and a line may hold bytes that are no text. Only the
first line is read, and only when it is text; what is recorded is shielded just when that line
decides as the whole chain does (`shielded_iff`).
-/

set_option autoImplicit false

namespace NextApi.Auth

open Chat (splitOnce)
open Text
open Upstream (parseDecimal)

/-! ### Trusted proxies -/

inductive TrustedNet where
  | v4 (base : BitVec 32) (len : ℕ)
  | v6 (base : BitVec 128) (len : ℕ)
  deriving DecidableEq, Inhabited

/-- `parse::<u8>`. -/
def parseU8 (text : List Char) : Option ℕ := (parseDecimal text).filter fun n ↦ decide (n < 2 ^ 8)

/-- An address, with the number of bits of its network or without. -/
def parseTrustedNet (s : List Char) : Option TrustedNet :=
  let (ipStr, lenStr) :=
    match splitOnce '/' s with
    | some (ip, p) => (trim ip, some (trim p))
    | none => (s, none)
  match parseIpAddr ipStr with
  | none => none
  | some (.v4 a) =>
    (lenStr.elim (some 32) fun p ↦ (parseU8 p).filter fun p ↦ decide (p ≤ 32)).map (.v4 a)
  | some (.v6 a) =>
    (lenStr.elim (some 128) fun p ↦ (parseU8 p).filter fun p ↦ decide (p ≤ 128)).map (.v6 a)

/-- Entries that are blank or no network are left out. -/
def parseTrustedNets (entries : List String) : List TrustedNet :=
  ((entries.map fun raw ↦ trim raw.toList).filter fun s ↦ !s.isEmpty).filterMap parseTrustedNet

def ipInTrusted (ip : IpAddr) (nets : List TrustedNet) : Bool :=
  nets.any fun net ↦
    match net, ip with
    | .v4 base len, .v4 a => decide (len = 0) || decide ((a ^^^ base) >>> (32 - len) = 0)
    | .v6 base len, .v6 a => decide (len = 0) || decide ((a ^^^ base) >>> (128 - len) = 0)
    | _, _ => false

/-! ### Headers -/

abbrev HeaderValue := List UInt8

/-- The field lines, with their names in lower case. -/
abbrev HeaderMap := List (String × HeaderValue)

namespace HeaderMap

/-- All values of a field, in order. -/
def getAll (headers : HeaderMap) (name : String) : List HeaderValue :=
  (headers.filter fun line ↦ decide (line.1 = name)).map Prod.snd

/-- The first value of a field. -/
def get (headers : HeaderMap) (name : String) : Option HeaderValue := (headers.getAll name).head?

end HeaderMap

def isVisibleAscii (b : UInt8) : Bool :=
  decide (32 ≤ b.toNat) && decide (b.toNat < 127) || decide (b.toNat = 9)

def asChar (b : UInt8) : Char := Char.ofNat b.toNat

/-- A value as a text, when it is one. -/
def toStr (v : HeaderValue) : Option (List Char) :=
  if v.all isVisibleAscii then some (v.map asChar) else none

/-! ### The address -/

/-- Goes on over trusted addresses and blanks; tells whether there was an address, or ends with the
answer. -/
def walk (nets : List TrustedNet) : Bool → List (List Char) → Except (Option IpAddr) Bool
  | saw, [] => .ok saw
  | saw, part :: rest =>
    if trim part = [] then walk nets saw rest
    else
      match parseIpAddr (trim part) with
      | some ip => if ipInTrusted ip nets then walk nets true rest else .error (some ip)
      | none => .error none

/-- The first entry of a chain, when it is an address. -/
def leftmost (xff : List Char) : Option IpAddr :=
  (((xff.splitOn ',').head?.map trim).filter fun s ↦ !s.isEmpty).bind parseIpAddr

/-- The address that the nearest proxy has set, or that of the proxy. -/
def realIp (headers : HeaderMap) (peer : IpAddr) : IpAddr :=
  (((((headers.get "x-real-ip").bind toStr).map trim).filter fun s ↦ !s.isEmpty).bind
    parseIpAddr).getD peer

def resolveClientIp (headers : HeaderMap) (peer : Option IpAddr) (trustedProxies : List String) :
    Option IpAddr :=
  match peer with
  | none => none
  | some peer =>
    let nets := parseTrustedNets trustedProxies
    if nets.isEmpty || !ipInTrusted peer nets then some peer
    else
      match (headers.get "x-forwarded-for").bind toStr with
      | none => some (realIp headers peer)
      | some xff =>
        match walk nets false (xff.splitOn ',').reverse with
        | .error answer => answer
        | .ok saw =>
          match if saw then leftmost xff else none with
          | some ip => some ip
          | none => some (realIp headers peer)

/-! ### The chain -/

/-- The pieces between the commas of all field lines. -/
def pieces (lines : List HeaderValue) : List HeaderValue := lines.flatMap fun v ↦ v.splitOn 0x2c

/-- The address that a piece is, if it is one. -/
def address (p : HeaderValue) : Option IpAddr := (toStr p).bind fun text ↦ parseIpAddr (trim text)

/-- A piece is blank, or the address of a trusted proxy. -/
def passedOver (nets : List TrustedNet) (p : HeaderValue) : Bool :=
  (toStr p).any fun text ↦
    decide (trim text = []) || (parseIpAddr (trim text)).any fun ip ↦ ipInTrusted ip nets

/-- The rightmost entry of a chain that is not a trusted address. -/
def deciding (nets : List TrustedNet) (lines : List HeaderValue) : Option HeaderValue :=
  (pieces lines).reverse.find? fun p ↦ !passedOver nets p

/-- The headers with another chain. -/
def withForwarded (headers : HeaderMap) (lines : List HeaderValue) : HeaderMap :=
  headers.filter (fun line ↦ decide (line.1 ≠ "x-forwarded-for")) ++
    lines.map fun v ↦ ("x-forwarded-for", v)

/-- A peer that is not trusted is the answer. Otherwise the answer is the same as for the chain
that begins with the rightmost entry that is not a trusted address, and that entry if it is an
address. -/
def Shielded (trustedProxies : List String) (peer : IpAddr) (headers : HeaderMap) : Prop :=
  let nets := parseTrustedNets trustedProxies
  if ipInTrusted peer nets then
    ∀ left e right, pieces (headers.getAll "x-forwarded-for") = left ++ e :: right →
      passedOver nets e = false → (∀ p ∈ right, passedOver nets p = true) →
      resolveClientIp headers (some peer) trustedProxies =
          resolveClientIp (withForwarded headers [[0x2c].intercalate (e :: right)]) (some peer)
            trustedProxies ∧
        ∀ ip, address e = some ip →
          resolveClientIp headers (some peer) trustedProxies = some ip
  else resolveClientIp headers (some peer) trustedProxies = some peer

/-- The first field line decides as all of them do: it is text and has the same address, or a text
that is none; where the entry of all of them is no text, it decides nothing. -/
def FirstLineDecides (nets : List TrustedNet) (lines : List HeaderValue) : Prop :=
  ∀ e, deciding nets lines = some e → ∀ first ∈ lines.head?,
    if e.all isVisibleAscii then
      first.all isVisibleAscii = true ∧
        ∃ e', deciding nets [first] = some e' ∧ address e' = address e
    else first.all isVisibleAscii = true →
      deciding nets [first] = none ∧ address ((first.splitOn 0x2c).headD []) = none

/-! ### Pieces of text -/

theorem asChar_eq_comma (b : UInt8) : asChar b = ',' ↔ b = 0x2c := by
  have hall : ∀ n : Fin 256, Char.ofNat n = ',' → n = 44 := by decide +kernel
  constructor
  · intro h
    exact UInt8.toNat_inj.1 (congrArg Fin.val (hall ⟨b.toNat, b.toNat_lt⟩ h))
  · rintro rfl
    decide

theorem splitOn_text (v : HeaderValue) :
    (v.map asChar).splitOn ',' = (v.splitOn 0x2c).map (List.map asChar) :=
  splitOn_map asChar_eq_comma v

theorem parseIpAddr_nil : parseIpAddr [] = none := by decide +kernel

section Pieces

variable {nets : List TrustedNet} {p : HeaderValue}

theorem toStr_of_visible (h : p.all isVisibleAscii = true) : toStr p = some (p.map asChar) :=
  if_pos h

theorem toStr_of_not_visible (h : ¬ p.all isVisibleAscii = true) : toStr p = none := if_neg h

theorem address_of_visible (h : p.all isVisibleAscii = true) :
    address p = parseIpAddr (trim (p.map asChar)) := by
  rw [address, toStr_of_visible h, Option.bind_some]

theorem address_of_not_visible (h : ¬ p.all isVisibleAscii = true) : address p = none := by
  rw [address, toStr_of_not_visible h, Option.bind_none]

theorem visible_of_passedOver (h : passedOver nets p = true) : p.all isVisibleAscii = true := by
  by_contra hnot
  rw [passedOver, toStr_of_not_visible hnot] at h
  exact Bool.false_ne_true h

/-- A trusted address is passed over. -/
theorem passedOver_of_address {ip : IpAddr} (h : address p = some ip)
    (htrusted : ipInTrusted ip nets = true) : passedOver nets p = true := by
  have hvisible : p.all isVisibleAscii = true := by
    by_contra hnot
    rw [address_of_not_visible hnot] at h
    exact nomatch h
  rw [address_of_visible hvisible] at h
  rw [passedOver, toStr_of_visible hvisible, Option.any_some, h, Option.any_some, htrusted,
    Bool.or_true]

/-- An address that is passed over is a trusted one. -/
theorem trusted_of_passedOver {ip : IpAddr} (h : passedOver nets p = true)
    (hip : address p = some ip) : ipInTrusted ip nets = true := by
  have hvisible := visible_of_passedOver h
  rw [address_of_visible hvisible] at hip
  rw [passedOver, toStr_of_visible hvisible, Option.any_some, hip, Option.any_some,
    Bool.or_eq_true, decide_eq_true_eq] at h
  refine h.resolve_left fun hblank ↦ ?_
  rw [hblank, parseIpAddr_nil] at hip
  exact nomatch hip

theorem visible_of_mem_splitOn {v : HeaderValue} (hv : v.all isVisibleAscii = true)
    (hp : p ∈ v.splitOn 0x2c) : p.all isVisibleAscii = true := by
  rw [List.all_eq_true] at hv ⊢
  rw [List.splitOn_eq_splitOnP] at hp
  exact fun b hb ↦ hv b (mem_of_mem_splitOnP hp hb)

end Pieces

/-- The walk ends at the first piece that is not passed over. -/
theorem walk_eq (nets : List TrustedNet) (saw : Bool) (ps : List HeaderValue)
    (hvisible : ∀ p ∈ ps, p.all isVisibleAscii = true) :
    walk nets saw (ps.map (List.map asChar)) =
      match ps.find? fun p ↦ !passedOver nets p with
      | some e => .error (address e)
      | none => .ok (saw || ps.any fun p ↦ !decide (trim (p.map asChar) = [])) := by
  induction ps generalizing saw with
  | nil => simp [walk]
  | cons p ps ih =>
    have hp := hvisible p List.mem_cons_self
    have hrest := fun saw ↦ ih saw fun q hq ↦ hvisible q (List.mem_cons_of_mem p hq)
    rw [List.map_cons, walk, List.find?_cons, List.any_cons]
    by_cases hblank : trim (p.map asChar) = []
    · have hpassed : passedOver nets p = true := by
        rw [passedOver, toStr_of_visible hp, Option.any_some, hblank]
        rfl
      rw [if_pos hblank, hrest, hpassed, hblank]
      simp
    · rw [if_neg hblank]
      cases hip : parseIpAddr (trim (p.map asChar)) with
      | none =>
        have hnot : passedOver nets p = false := by
          rw [passedOver, toStr_of_visible hp, Option.any_some, hip, decide_eq_false hblank]
          rfl
        rw [hnot]
        simp [address_of_visible hp, hip]
      | some ip =>
        have hpassed : passedOver nets p = ipInTrusted ip nets := by
          rw [passedOver, toStr_of_visible hp, Option.any_some, hip, decide_eq_false hblank]
          rfl
        rw [hpassed]
        cases htrusted : ipInTrusted ip nets with
        | true =>
          simp [htrusted, hrest, hblank]
        | false => simp [htrusted, address_of_visible hp, hip]

/-! ### The answer of a trusted peer -/

section Trusted

variable {trustedProxies : List String} {peer : IpAddr} {headers : HeaderMap}
  {first e : HeaderValue}
  (htrusted : ipInTrusted peer (parseTrustedNets trustedProxies) = true)

include htrusted

theorem resolveClientIp_trusted : resolveClientIp headers (some peer) trustedProxies =
    match (headers.get "x-forwarded-for").bind toStr with
    | none => some (realIp headers peer)
    | some xff =>
      match walk (parseTrustedNets trustedProxies) false (xff.splitOn ',').reverse with
      | .error answer => answer
      | .ok saw =>
        match if saw then leftmost xff else none with
        | some ip => some ip
        | none => some (realIp headers peer) := by
  have hnets : (parseTrustedNets trustedProxies).isEmpty = false := by
    cases hlist : parseTrustedNets trustedProxies with
    | nil =>
      rw [hlist] at htrusted
      exact absurd htrusted (by simp [ipInTrusted])
    | cons net rest => rfl
  rw [resolveClientIp, hnets, htrusted, if_neg (by simp)]

/-- Without a field line that is text the chain is not read. -/
theorem resolveClientIp_unread (h : (headers.get "x-forwarded-for").bind toStr = none) :
    resolveClientIp headers (some peer) trustedProxies = some (realIp headers peer) := by
  rw [resolveClientIp_trusted htrusted, h]

variable (hget : headers.get "x-forwarded-for" = some first)
  (hvisible : first.all isVisibleAscii = true)

include hget hvisible

theorem resolveClientIp_line : resolveClientIp headers (some peer) trustedProxies =
    match deciding (parseTrustedNets trustedProxies) [first] with
    | some e => address e
    | none => some ((address ((first.splitOn 0x2c).headD [])).getD (realIp headers peer)) := by
  have hpieces : pieces [first] = first.splitOn 0x2c := List.flatMap_singleton _ _
  have hwalk := walk_eq (parseTrustedNets trustedProxies) false (first.splitOn 0x2c).reverse
    fun p hp ↦ visible_of_mem_splitOn hvisible (List.mem_reverse.1 hp)
  rw [resolveClientIp_trusted htrusted, hget, Option.bind_some, toStr_of_visible hvisible]
  dsimp only
  rw [splitOn_text, ← List.map_reverse, hwalk, deciding, hpieces]
  cases hfind : (first.splitOn 0x2c).reverse.find? _ with
  | some e => rfl
  | none =>
    obtain ⟨p, ps, hsplit⟩ := List.exists_cons_of_ne_nil (List.splitOn_ne_nil 0x2c first)
    have hp : p.all isVisibleAscii = true :=
      visible_of_mem_splitOn hvisible (by rw [hsplit]; exact List.mem_cons_self)
    have hleftmost : leftmost (first.map asChar) = address p := by
      rw [leftmost, splitOn_text, hsplit, List.map_cons, List.head?_cons, Option.map_some,
        address_of_visible hp]
      by_cases hblank : trim (p.map asChar) = []
      · simp [hblank, parseIpAddr_nil]
      · rw [Option.filter_some, if_pos (by simpa using hblank), Option.bind_some]
    dsimp only
    rw [hleftmost, hsplit, List.headD_cons, Bool.false_or]
    by_cases hblank : trim (p.map asChar) = []
    · have hnone : address p = none := by
        rw [address_of_visible hp, hblank, parseIpAddr_nil]
      rw [hnone]
      split <;> simp_all
    · rw [if_pos]
      · cases address p <;> rfl
      · exact List.any_eq_true.2 ⟨p, by simp, by simp [hblank]⟩

end Trusted

/-! ### When the address is shielded -/

namespace HeaderMap

theorem getAll_withForwarded (headers : HeaderMap) (lines : List HeaderValue) :
    (withForwarded headers lines).getAll "x-forwarded-for" = lines := by
  have hold : (headers.filter fun line ↦ decide (line.1 ≠ "x-forwarded-for")).filter
      (fun line ↦ decide (line.1 = "x-forwarded-for")) = [] := by
    rw [List.filter_filter, List.filter_eq_nil_iff]
    simp
  have hnew : (lines.map fun v ↦ ("x-forwarded-for", v)).filter
      (fun line ↦ decide (line.1 = "x-forwarded-for")) =
      lines.map fun v ↦ ("x-forwarded-for", v) := by
    rw [List.filter_eq_self]
    simp
  rw [getAll, withForwarded, List.filter_append, hold, hnew, List.nil_append, List.map_map]
  exact List.map_id _

theorem realIp_withForwarded (headers : HeaderMap) (lines : List HeaderValue) (peer : IpAddr) :
    realIp (withForwarded headers lines) peer = realIp headers peer := by
  have hget : (withForwarded headers lines).get "x-real-ip" = headers.get "x-real-ip" := by
    have hold : (headers.filter fun line ↦ decide (line.1 ≠ "x-forwarded-for")).filter
        (fun line ↦ decide (line.1 = "x-real-ip")) =
        headers.filter fun line ↦ decide (line.1 = "x-real-ip") := by
      rw [List.filter_filter]
      refine List.filter_congr fun line _ ↦ ?_
      by_cases h : line.1 = "x-real-ip" <;> simp [h]
    have hnew : (lines.map fun v ↦ ("x-forwarded-for", v)).filter
        (fun line ↦ decide (line.1 = "x-real-ip")) = [] := by
      rw [List.filter_eq_nil_iff]
      simp
    rw [get, getAll, withForwarded, List.filter_append, hold, hnew, List.append_nil]
    rfl
  rw [realIp, hget, realIp]

end HeaderMap

theorem deciding_eq {nets : List TrustedNet} {lines : List HeaderValue}
    {left right : List HeaderValue} {e : HeaderValue} (hpieces : pieces lines = left ++ e :: right)
    (he : passedOver nets e = false) (hright : ∀ p ∈ right, passedOver nets p = true) :
    deciding nets lines = some e := by
  rw [deciding, hpieces, List.reverse_append, List.reverse_cons, List.append_assoc,
    List.find?_append, List.find?_eq_none.2, Option.none_or, List.singleton_append,
    List.find?_cons_of_pos (by simp [he])]
  intro p hp
  simp [hright p (List.mem_reverse.1 hp)]

theorem exists_of_deciding {nets : List TrustedNet} {lines : List HeaderValue} {e : HeaderValue}
    (h : deciding nets lines = some e) : ∃ left right, pieces lines = left ++ e :: right ∧
      passedOver nets e = false ∧ ∀ p ∈ right, passedOver nets p = true := by
  obtain ⟨he, before, after, hsplit, hbefore⟩ := List.find?_eq_some_iff_append.1 h
  refine ⟨after.reverse, before.reverse, ?_, by simpa using he, fun p hp ↦ ?_⟩
  · rw [← List.reverse_reverse (pieces lines), hsplit]
    simp
  · simpa using hbefore p (List.mem_reverse.1 hp)

theorem comma_not_mem_of_mem_pieces {lines : List HeaderValue} {p : HeaderValue}
    (h : p ∈ pieces lines) : 0x2c ∉ p := by
  obtain ⟨v, -, hp⟩ := List.mem_flatMap.1 h
  exact not_mem_of_mem_splitOn hp

theorem mem_intercalate {b c : UInt8} {ps : List HeaderValue} (h : b ∈ [c].intercalate ps) :
    b = c ∨ ∃ p ∈ ps, b ∈ p := by
  induction ps with
  | nil => exact absurd h (by simp)
  | cons p ps ih =>
    cases ps with
    | nil => exact .inr ⟨p, List.mem_cons_self, by simpa using h⟩
    | cons q ps =>
      rw [List.intercalate_cons_cons, List.mem_append, List.mem_append, List.mem_singleton] at h
      rcases h with (h | h) | h
      · exact .inr ⟨p, List.mem_cons_self, h⟩
      · exact .inl h
      · exact (ih h).imp_right fun ⟨q', hq', hb⟩ ↦ ⟨q', List.mem_cons_of_mem p hq', hb⟩

section Cut

variable {trustedProxies : List String} {peer : IpAddr} {lines : List HeaderValue}
  {left right : List HeaderValue} {e : HeaderValue}
  (htrusted : ipInTrusted peer (parseTrustedNets trustedProxies) = true)
  (hpieces : pieces lines = left ++ e :: right)
  (he : passedOver (parseTrustedNets trustedProxies) e = false)
  (hright : ∀ p ∈ right, passedOver (parseTrustedNets trustedProxies) p = true)

include htrusted hpieces he hright

/-- The answer for the chain that begins with the deciding entry. -/
theorem resolveClientIp_cut (headers : HeaderMap) :
    resolveClientIp (withForwarded headers [[0x2c].intercalate (e :: right)]) (some peer)
        trustedProxies =
      if e.all isVisibleAscii then address e else some (realIp headers peer) := by
  have hget : (withForwarded headers [[0x2c].intercalate (e :: right)]).get "x-forwarded-for" =
      some ([0x2c].intercalate (e :: right)) := by
    rw [HeaderMap.get, HeaderMap.getAll_withForwarded, List.head?_cons]
  have hsplit : ([0x2c].intercalate (e :: right)).splitOn 0x2c = e :: right := by
    refine List.splitOn_intercalate _ (fun p hp ↦ ?_) (List.cons_ne_nil _ _)
    have hmem : p ∈ pieces lines := by
      rw [hpieces]
      exact List.mem_append_right left hp
    exact comma_not_mem_of_mem_pieces hmem
  by_cases hvisible : e.all isVisibleAscii = true
  · have hall : ([0x2c].intercalate (e :: right)).all isVisibleAscii = true := by
      rw [List.all_eq_true]
      intro b hb
      rcases mem_intercalate hb with rfl | ⟨p, hp, hmem⟩
      · decide
      · rcases List.mem_cons.1 hp with rfl | hp
        · exact List.all_eq_true.1 hvisible b hmem
        · exact List.all_eq_true.1 (visible_of_passedOver (hright p hp)) b hmem
    have hdeciding : deciding (parseTrustedNets trustedProxies)
        [[0x2c].intercalate (e :: right)] = some e := by
      have hcut : pieces [[0x2c].intercalate (e :: right)] = [] ++ e :: right := by
        rw [pieces, List.flatMap_singleton, hsplit, List.nil_append]
      exact deciding_eq hcut he hright
    rw [resolveClientIp_line htrusted hget hall, hdeciding, if_pos hvisible]
  · rw [if_neg hvisible, resolveClientIp_unread htrusted, HeaderMap.realIp_withForwarded]
    rw [hget, Option.bind_some]
    refine toStr_of_not_visible fun hall ↦ hvisible ?_
    exact visible_of_mem_splitOn hall (by rw [hsplit]; exact List.mem_cons_self)

end Cut

theorem shielded_of_firstLineDecides {trustedProxies : List String} {peer : IpAddr}
    {headers : HeaderMap}
    (h : ipInTrusted peer (parseTrustedNets trustedProxies) = true →
      FirstLineDecides (parseTrustedNets trustedProxies) (headers.getAll "x-forwarded-for")) :
    Shielded trustedProxies peer headers := by
  rw [Shielded]
  by_cases htrusted : ipInTrusted peer (parseTrustedNets trustedProxies) = true
  · rw [if_pos htrusted]
    intro left e right hpieces he hright
    have hcut := resolveClientIp_cut htrusted hpieces he hright headers
    have hfirst := h htrusted e (deciding_eq hpieces he hright)
    have hanswer : resolveClientIp headers (some peer) trustedProxies =
        if e.all isVisibleAscii then address e else some (realIp headers peer) := by
      cases hlines : headers.getAll "x-forwarded-for" with
      | nil =>
        rw [hlines] at hpieces
        exact absurd hpieces (by simp [pieces])
      | cons first rest =>
        have hget : headers.get "x-forwarded-for" = some first := by
          rw [HeaderMap.get, hlines, List.head?_cons]
        rw [hlines] at hfirst
        have hdecides := hfirst first rfl
        split at hdecides
        · rename_i hvisible
          obtain ⟨hline, e', hdeciding, haddress⟩ := hdecides
          rw [if_pos hvisible, resolveClientIp_line htrusted hget hline, hdeciding]
          exact haddress
        · rename_i hvisible
          rw [if_neg hvisible]
          by_cases hline : first.all isVisibleAscii = true
          · obtain ⟨hdeciding, haddress⟩ := hdecides hline
            rw [resolveClientIp_line htrusted hget hline, hdeciding, haddress]
            rfl
          · rw [resolveClientIp_unread htrusted]
            rw [hget, Option.bind_some, toStr_of_not_visible hline]
    refine ⟨hanswer.trans hcut.symm, fun ip hip ↦ ?_⟩
    have hvisible : e.all isVisibleAscii = true := by
      by_contra hnot
      rw [address_of_not_visible hnot] at hip
      exact nomatch hip
    rw [hanswer, if_pos hvisible, hip]
  · rw [if_neg htrusted, resolveClientIp]
    rw [Bool.not_eq_true] at htrusted
    rw [htrusted, Bool.not_false, Bool.or_true, if_pos rfl]

/-- Headers with these field lines. -/
def chainHeaders (lines reals : List HeaderValue) : HeaderMap :=
  lines.map (fun v ↦ ("x-forwarded-for", v)) ++ reals.map fun v ↦ ("x-real-ip", v)

theorem getAll_chainHeaders (lines reals : List HeaderValue) :
    (chainHeaders lines reals).getAll "x-forwarded-for" = lines ∧
      (chainHeaders lines reals).getAll "x-real-ip" = reals := by
  have hsame (name : String) (vs : List HeaderValue) :
      (vs.map fun v ↦ (name, v)).filter (fun line ↦ decide (line.1 = name)) =
        vs.map fun v ↦ (name, v) := by
    rw [List.filter_eq_self]
    simp
  have hother {name other : String} (hne : name ≠ other) (vs : List HeaderValue) :
      (vs.map fun v ↦ (name, v)).filter (fun line ↦ decide (line.1 = other)) = [] := by
    rw [List.filter_eq_nil_iff]
    simp [hne]
  constructor
  · rw [HeaderMap.getAll, chainHeaders, List.filter_append, hsame, hother (by decide),
      List.append_nil, List.map_map]
    exact List.map_id _
  · rw [HeaderMap.getAll, chainHeaders, List.filter_append, hsame, hother (by decide),
      List.nil_append, List.map_map]
    exact List.map_id _

theorem realIp_chainHeaders_nil (lines : List HeaderValue) (peer : IpAddr) :
    realIp (chainHeaders lines []) peer = peer := by
  rw [realIp, HeaderMap.get, (getAll_chainHeaders lines []).2]
  rfl

/-- The fallback can be another address than a given one. -/
theorem exists_realIp_ne (lines : List HeaderValue) (peer ip : IpAddr) :
    ∃ reals, realIp (chainHeaders lines reals) peer ≠ ip := by
  have hreal {v : HeaderValue} {a : IpAddr} (ha : ((((toStr v).map trim).filter
      fun s ↦ !s.isEmpty).bind parseIpAddr) = some a) :
      realIp (chainHeaders lines [v]) peer = a := by
    rw [realIp, HeaderMap.get, (getAll_chainHeaders lines [v]).2, List.head?_cons,
      Option.bind_some, ha, Option.getD_some]
  by_cases hip : ip = .v4 0
  · refine ⟨["1.1.1.1".toUTF8.toList], ?_⟩
    rw [@hreal _ (.v4 0x01010101) (by decide +kernel), hip]
    decide
  · refine ⟨["0.0.0.0".toUTF8.toList], ?_⟩
    rw [@hreal _ (.v4 0) (by decide +kernel)]
    exact Ne.symm hip

section Converse

variable {trustedProxies : List String} {peer : IpAddr} {lines : List HeaderValue}
  (htrusted : ipInTrusted peer (parseTrustedNets trustedProxies) = true)
  (hshielded : ∀ headers : HeaderMap, headers.getAll "x-forwarded-for" = lines →
    Shielded trustedProxies peer headers)
  {e : HeaderValue} (hdeciding : deciding (parseTrustedNets trustedProxies) lines = some e)

include htrusted hshielded hdeciding

/-- The answer is that for the chain that begins with the deciding entry. -/
theorem answer_of_shielded (reals : List HeaderValue) :
    resolveClientIp (chainHeaders lines reals) (some peer) trustedProxies =
      if e.all isVisibleAscii then address e
      else some (realIp (chainHeaders lines reals) peer) := by
  have hlines := (getAll_chainHeaders lines reals).1
  obtain ⟨left, right, hpieces, he, hright⟩ := exists_of_deciding hdeciding
  have h := hshielded _ hlines
  rw [Shielded, if_pos htrusted, hlines] at h
  rw [(h left e right hpieces he hright).1, resolveClientIp_cut htrusted hpieces he hright]

omit htrusted hshielded in
/-- No trusted address is the one that decides. -/
theorem address_ne_of_trusted {ip : IpAddr}
    (hip : ipInTrusted ip (parseTrustedNets trustedProxies) = true) : address e ≠ some ip := by
  intro h
  obtain ⟨left, right, hpieces, he, hright⟩ := exists_of_deciding hdeciding
  rw [passedOver_of_address h hip] at he
  exact Bool.noConfusion he

theorem firstLineDecides_of_shielded {first : HeaderValue} (hfirst : first ∈ lines.head?) :
    if e.all isVisibleAscii then
      first.all isVisibleAscii = true ∧
        ∃ e', deciding (parseTrustedNets trustedProxies) [first] = some e' ∧ address e' = address e
    else first.all isVisibleAscii = true →
      deciding (parseTrustedNets trustedProxies) [first] = none ∧
        address ((first.splitOn 0x2c).headD []) = none := by
  have hget (reals : List HeaderValue) :
      (chainHeaders lines reals).get "x-forwarded-for" = some first := by
    rw [HeaderMap.get, (getAll_chainHeaders lines reals).1]
    exact hfirst
  have hplain := answer_of_shielded htrusted hshielded hdeciding []
  have hanswer := fun reals ↦ answer_of_shielded htrusted hshielded hdeciding reals
  have hpeer : address e ≠ some peer := address_ne_of_trusted hdeciding htrusted
  by_cases hvisible : e.all isVisibleAscii = true
  · rw [if_pos hvisible] at hplain ⊢
    have hline : first.all isVisibleAscii = true := by
      by_contra hnot
      rw [resolveClientIp_unread htrusted, realIp_chainHeaders_nil] at hplain
      · exact hpeer hplain.symm
      · rw [hget, Option.bind_some, toStr_of_not_visible hnot]
    refine ⟨hline, ?_⟩
    rw [resolveClientIp_line htrusted (hget []) hline] at hplain
    cases hown : deciding (parseTrustedNets trustedProxies) [first] with
    | some e' =>
      rw [hown] at hplain
      exact ⟨e', rfl, hplain⟩
    | none =>
      rw [hown, realIp_chainHeaders_nil] at hplain
      exfalso
      cases hhead : address ((first.splitOn 0x2c).headD []) with
      | none =>
        rw [hhead] at hplain
        exact hpeer hplain.symm
      | some ip =>
        rw [hhead] at hplain
        refine address_ne_of_trusted hdeciding ?_ hplain.symm
        obtain ⟨p, ps, hsplit⟩ := List.exists_cons_of_ne_nil (List.splitOn_ne_nil 0x2c first)
        rw [hsplit, List.headD_cons] at hhead
        rw [deciding, pieces, List.flatMap_singleton, hsplit, List.find?_eq_none] at hown
        refine trusted_of_passedOver ?_ hhead
        simpa using hown p (by simp)
  · rw [if_neg hvisible]
    intro hline
    have hown : deciding (parseTrustedNets trustedProxies) [first] = none := by
      cases hown : deciding (parseTrustedNets trustedProxies) [first] with
      | none => rfl
      | some e' =>
        rw [if_neg hvisible, resolveClientIp_line htrusted (hget []) hline, hown,
          realIp_chainHeaders_nil] at hplain
        exact absurd hplain (address_ne_of_trusted hown htrusted)
    refine ⟨hown, ?_⟩
    cases hhead : address ((first.splitOn 0x2c).headD []) with
    | none => rfl
    | some ip =>
      obtain ⟨reals, hne⟩ := exists_realIp_ne lines peer ip
      have h := hanswer reals
      rw [if_neg hvisible, resolveClientIp_line htrusted (hget reals) hline, hown, hhead] at h
      exact absurd (Option.some.inj h).symm hne

end Converse

/-- The recorded address is shielded from the client, whatever else is in the headers, if and only
if the first field line decides as the whole chain does, or the peer is not trusted. -/
theorem shielded_iff (trustedProxies : List String) (peer : IpAddr) (lines : List HeaderValue) :
    (∀ headers : HeaderMap, headers.getAll "x-forwarded-for" = lines →
      Shielded trustedProxies peer headers) ↔
    (ipInTrusted peer (parseTrustedNets trustedProxies) = true →
      FirstLineDecides (parseTrustedNets trustedProxies) lines) := by
  constructor
  · intro h htrusted e hdeciding first hfirst
    exact firstLineDecides_of_shielded htrusted h hdeciding hfirst
  · rintro h headers rfl
    exact shielded_of_firstLineDecides h

/-- The client sends a field line of its own, and its proxy adds another one. -/
def forgedHeaders : HeaderMap :=
  [("x-forwarded-for", "9.9.9.9".toUTF8.toList), ("x-forwarded-for", "8.8.8.8".toUTF8.toList)]

/-- The address that the client made up is recorded. -/
theorem not_shielded_forgedHeaders : ¬ Shielded ["10.0.0.0/8"] (.v4 0x0a000002) forgedHeaders := by
  intro h
  rw [Shielded, if_pos (by decide +kernel)] at h
  have hanswer := (h ["9.9.9.9".toUTF8.toList] "8.8.8.8".toUTF8.toList [] (by decide +kernel)
    (by decide +kernel) (by simp)).2 (.v4 0x08080808) (by decide +kernel)
  exact absurd hanswer (by decide +kernel)

end NextApi.Auth
