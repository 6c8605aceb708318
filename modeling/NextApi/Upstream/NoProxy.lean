import NextApi.Protocol.Chat.Response
import NextApi.Routing.MatchRoutes
import NextApi.Text.IpAddr
import NextApi.Text.Lines

/-!
# Hosts without a proxy

The entries of a `no_proxy` list are domains, patterns with `*`, and networks, which are given by an
address and the number of the bits that its hosts share. A host is in a network when it is of the
same family and its first bits are those of the address (`Covers`). The code compares masked words
for IPv4, and whole bytes and then a masked one for IPv6; both say the same (`maskMatch_iff`,
`ipv6PrefixMatch_iff`).

The host of a URL comes from its text. For IPv6 that has brackets, and a text with brackets is not
an address, so a network never has such a host: the two agree for IPv4, and otherwise just when the
host is not in the network (`accepts_iff`).
-/

set_option autoImplicit false

namespace NextApi.Upstream

open Chat (splitOnce)
open Text

/-! ### Matching -/

/-- The bytes of an IPv6 address. -/
def octets (a : BitVec 128) : List (BitVec 8) :=
  (List.range 16).map fun i ↦ a.extractLsb' (8 * (15 - i)) 8

/-- The first bytes are the same, and the first bits of the next one. -/
def ipv6PrefixMatch (h n : List (BitVec 8)) (len : ℕ) : Bool :=
  let fullBytes := len / 8
  let remBits := len % 8
  if h.take fullBytes ≠ n.take fullBytes then false
  else if remBits > 0 then
    let mask := BitVec.allOnes 8 <<< (8 - remBits)
    decide (h[fullBytes]?.getD 0 &&& mask = n[fullBytes]?.getD 0 &&& mask)
  else true

/-- The masked words are the same. -/
def maskMatch (h n : BitVec 32) (len : ℕ) : Bool :=
  let mask := if len = 0 then 0 else BitVec.allOnes 32 <<< (32 - len)
  decide (h &&& mask = n &&& mask)

/-- Decimal digits, after a plus sign or not. -/
def parseDecimal (text : List Char) : Option ℕ :=
  let digits :=
    match text with
    | '+' :: rest => rest
    | _ => text
  if digits ≠ [] ∧ digits.all Char.isDigit then some (Nat.ofDigitChars 10 digits 0) else none

/-- `parse::<u32>`. -/
def parseU32 (text : List Char) : Option ℕ :=
  (parseDecimal text).filter fun n ↦ decide (n < 2 ^ 32)

def cidrMatch (host cidr : List Char) : Bool :=
  match parseIpAddr host with
  | none => false
  | some hostIp =>
    match splitOnce '/' cidr with
    | none => false
    | some (netStr, lenStr) =>
      match parseU32 lenStr, parseIpAddr netStr with
      | some len, some netIp =>
        match hostIp, netIp with
        | .v4 h, .v4 n => if len > 32 then false else maskMatch h n len
        | .v6 h, .v6 n => if len > 128 then false else ipv6PrefixMatch (octets h) (octets n) len
        | _, _ => false
      | _, _ => false

def noProxyPatternMatch (pattern host : String) : Bool :=
  let pat := trim pattern.toList
  if pat = [] then false
  else if '/' ∈ pat then cidrMatch host.toList pat
  else if '*' ∈ pat then Routing.patternMatches (String.ofList pat) host
  else
    let domain :=
      match pat with
      | '.' :: rest => rest
      | _ => pat
    let h := host.toList.map Char.toLower
    let d := domain.map Char.toLower
    decide (h = d) || ('.' :: d).isSuffixOf h

/-- `Url::parse` with `host_str`: nothing when the text is not a URL. -/
class UrlParser where
  hostStr : String → Option (Option String)

def noProxyMatch [UrlParser] (lists : List (List String)) (url : String) : Bool :=
  match UrlParser.hostStr url with
  | none => false
  | some host =>
    let host := host.getD ""
    if host = "" then false
    else lists.any fun list ↦ list.any fun pat ↦ noProxyPatternMatch pat host

/-! ### Networks -/

/-- The first bits are the same. -/
def SameBits {w : ℕ} (h n : BitVec w) (len : ℕ) : Prop :=
  ∀ i < len, h.getMsbD i = n.getMsbD i

/-- The host is in the network. -/
def Covers : IpAddr → ℕ → IpAddr → Prop
  | .v4 n, len, .v4 h => len ≤ 32 ∧ SameBits h n len
  | .v6 n, len, .v6 h => len ≤ 128 ∧ SameBits h n len
  | _, _, _ => False

theorem getMsbD_mask {w len : ℕ} (hlen : len ≤ w) (x : BitVec w) (i : ℕ) :
    (x &&& BitVec.allOnes w <<< (w - len)).getMsbD i = (x.getMsbD i && decide (i < len)) := by
  rw [BitVec.getMsbD_and, BitVec.getMsbD_shiftLeft, BitVec.getMsbD_allOnes]
  congr 2
  rw [eq_iff_iff]
  omega

/-- Two words agree under the mask exactly when their first bits do. -/
theorem and_mask_eq_iff {w len : ℕ} (hlen : len ≤ w) (x y : BitVec w) :
    x &&& BitVec.allOnes w <<< (w - len) = y &&& BitVec.allOnes w <<< (w - len) ↔
      SameBits x y len := by
  constructor
  · intro h i hi
    have hbit := congrArg (fun z ↦ z.getMsbD i) h
    rwa [getMsbD_mask hlen, getMsbD_mask hlen, decide_eq_true hi, Bool.and_true,
      Bool.and_true] at hbit
  · intro h
    refine BitVec.eq_of_getMsbD_eq fun i _ ↦ ?_
    rw [getMsbD_mask hlen, getMsbD_mask hlen]
    by_cases hi : i < len
    · rw [h i hi]
    · rw [decide_eq_false hi, Bool.and_false, Bool.and_false]

theorem maskMatch_iff {h n : BitVec 32} {len : ℕ} (hlen : len ≤ 32) :
    maskMatch h n len = true ↔ SameBits h n len := by
  rw [maskMatch, decide_eq_true_eq]
  by_cases hzero : len = 0
  · rw [if_pos hzero, hzero]
    simp [SameBits]
  · rw [if_neg hzero]
    exact and_mask_eq_iff hlen h n

/-! ### Bytes -/

theorem length_octets (a : BitVec 128) : (octets a).length = 16 := by
  rw [octets, List.length_map, List.length_range]

/-- The bits of a byte are bits of the address. -/
theorem getMsbD_octet (a : BitVec 128) {i j : ℕ} (hi : i < 16) (hj : j < 8) :
    ((octets a)[i]?.getD 0).getMsbD j = a.getMsbD (8 * i + j) := by
  rw [octets, List.getElem?_map, List.getElem?_range hi, Option.map_some, Option.getD_some,
    BitVec.getMsbD_extractLsb', decide_eq_true hj, decide_eq_true (by omega), Bool.true_and,
    Bool.true_and]
  congr 1
  omega

/-- The first bytes are the same exactly when their bits are. -/
theorem take_octets_eq_iff {h n : BitVec 128} {k : ℕ} (hk : k ≤ 16) :
    (octets h).take k = (octets n).take k ↔ SameBits h n (8 * k) := by
  constructor
  · intro heq i hi
    have hbyte := congrArg (fun bytes ↦ (bytes[i / 8]?.getD 0).getMsbD (i % 8)) heq
    rw [List.getElem?_take_of_lt (by omega), List.getElem?_take_of_lt (by omega),
      getMsbD_octet h (by omega) (by omega), getMsbD_octet n (by omega) (by omega),
      Nat.div_add_mod] at hbyte
    exact hbyte
  · intro hsame
    refine List.ext_getElem? fun i ↦ ?_
    by_cases hi : i < k
    · rw [List.getElem?_take_of_lt hi, List.getElem?_take_of_lt hi]
      have hlt (a : BitVec 128) : i < (octets a).length := by
        rw [length_octets]
        omega
      have hget (a : BitVec 128) : (octets a)[i]? = some ((octets a)[i]?.getD 0) := by
        rw [List.getElem?_eq_getElem (hlt a), Option.getD_some]
      refine (hget h).trans ((congrArg some ?_).trans (hget n).symm)
      refine BitVec.eq_of_getMsbD_eq fun j hj ↦ ?_
      rw [getMsbD_octet h (by omega) hj, getMsbD_octet n (by omega) hj]
      exact hsame _ (by omega)
    · rw [List.getElem?_eq_none (by rw [List.length_take]; omega),
        List.getElem?_eq_none (by rw [List.length_take]; omega)]

theorem ipv6PrefixMatch_iff {h n : BitVec 128} {len : ℕ} (hlen : len ≤ 128) :
    ipv6PrefixMatch (octets h) (octets n) len = true ↔ SameBits h n len := by
  have hfull : (octets h).take (len / 8) = (octets n).take (len / 8) ↔
      SameBits h n (8 * (len / 8)) := take_octets_eq_iff (by omega)
  rw [ipv6PrefixMatch]
  dsimp only
  by_cases hbytes : (octets h).take (len / 8) = (octets n).take (len / 8)
  · rw [if_neg (not_not_intro hbytes)]
    have hfirst := hfull.1 hbytes
    by_cases hrem : len % 8 > 0
    · rw [if_pos hrem, decide_eq_true_eq, and_mask_eq_iff (by omega)]
      constructor
      · intro hlast i hi
        by_cases hbyte : i < 8 * (len / 8)
        · exact hfirst i hbyte
        · have hbit := hlast (i - 8 * (len / 8)) (by omega)
          rwa [getMsbD_octet h (by omega) (by omega), getMsbD_octet n (by omega) (by omega),
            Nat.add_sub_cancel' (by omega)] at hbit
      · intro hsame j hj
        rw [getMsbD_octet h (by omega) (by omega), getMsbD_octet n (by omega) (by omega)]
        exact hsame _ (by omega)
    · rw [if_neg hrem]
      refine iff_of_true rfl ?_
      rwa [show len = 8 * (len / 8) by omega]
  · rw [if_pos hbytes]
    refine iff_of_false Bool.false_ne_true fun hsame ↦ hbytes (hfull.2 fun i hi ↦ ?_)
    exact hsame i (by omega)

/-! ### Entries -/

/-- The entry is a network: an address, a slash, and the number of the bits. -/
def EntryOf (pat : String) (net : IpAddr) (len : ℕ) : Prop :=
  ∃ netStr lenStr, trim pat.toList = netStr ++ '/' :: lenStr ∧ '/' ∉ netStr ∧
    parseIpAddr netStr = some net ∧ parseDecimal lenStr = some len

/-- How a URL has an address as its host: with points, or in brackets. -/
def HostText : IpAddr → String → Prop
  | .v4 a, text => text = String.ofList (formatV4 a)
  | .v6 a, text => ∃ inner, parseIpAddr inner = some (.v6 a) ∧
      text = String.ofList ('[' :: inner ++ [']'])

theorem splitOnce_of_entry {netStr lenStr : List Char} (h : '/' ∉ netStr) :
    splitOnce '/' (netStr ++ '/' :: lenStr) = some (netStr, lenStr) := by
  have hall : ∀ c ∈ netStr, decide (c ≠ '/') = true := by
    intro c hc
    refine decide_eq_true fun heq ↦ h ?_
    rwa [← heq]
  rw [splitOnce, if_pos (by simp), List.takeWhile_append_of_pos hall,
    List.dropWhile_append_of_pos hall]
  simp

/-- What an entry does with a host. -/
theorem noProxyPatternMatch_of_entry {pat : String} {net : IpAddr} {len : ℕ}
    (hentry : EntryOf pat net len) (host : String) :
    noProxyPatternMatch pat host = true ↔
      ∃ hostIp, parseIpAddr host.toList = some hostIp ∧ Covers net len hostIp := by
  obtain ⟨netStr, lenStr, hpat, hslash, hnet, hlen⟩ := hentry
  rw [noProxyPatternMatch, hpat]
  dsimp only
  rw [if_neg (by simp), if_pos (by simp), cidrMatch]
  cases hhost : parseIpAddr host.toList with
  | none => simp
  | some hostIp =>
    simp only [Option.some.injEq, exists_eq_left', splitOnce_of_entry hslash, parseU32, hlen, hnet]
    by_cases hbig : len < 2 ^ 32
    · rw [Option.filter_some, decide_eq_true hbig, if_pos rfl]
      cases hostIp with
      | v4 h =>
        cases net with
        | v4 n =>
          dsimp only
          rw [Covers]
          by_cases hle : len ≤ 32
          · rw [if_neg (by omega), maskMatch_iff hle, and_iff_right hle]
          · rw [if_pos (by omega)]
            exact iff_of_false Bool.false_ne_true fun h ↦ hle h.1
        | v6 n => exact iff_of_false Bool.false_ne_true id
      | v6 h =>
        cases net with
        | v4 n => exact iff_of_false Bool.false_ne_true id
        | v6 n =>
          dsimp only
          rw [Covers]
          by_cases hle : len ≤ 128
          · rw [if_neg (by omega), ipv6PrefixMatch_iff hle, and_iff_right hle]
          · rw [if_pos (by omega)]
            exact iff_of_false Bool.false_ne_true fun h ↦ hle h.1
    · rw [Option.filter_some, decide_eq_false hbig, if_neg Bool.false_ne_true]
      refine iff_of_false Bool.false_ne_true fun hcovers ↦ ?_
      cases net with
      | v4 n =>
        cases hostIp with
        | v4 h => exact absurd hcovers.1 (by omega)
        | v6 h => exact hcovers
      | v6 n =>
        cases hostIp with
        | v4 h => exact hcovers
        | v6 h => exact absurd hcovers.1 (by omega)

theorem noProxyMatch_singleton [UrlParser] {url text pat : String}
    (hurl : UrlParser.hostStr url = some (some text)) (htext : text ≠ "") :
    noProxyMatch [[pat]] url = noProxyPatternMatch pat text := by
  rw [noProxyMatch, hurl]
  dsimp only
  rw [Option.getD_some, if_neg htext, List.any_cons, List.any_cons, List.any_nil, List.any_nil,
    Bool.or_false, Bool.or_false]

/-- An entry accepts exactly the URLs of its network, when the host is an IPv4 address; an IPv6
address it never accepts. -/
theorem accepts_iff [UrlParser] {url text : String} {host : IpAddr}
    (hurl : UrlParser.hostStr url = some (some text)) (htext : HostText host text) {pat : String}
    {net : IpAddr} {len : ℕ} (hentry : EntryOf pat net len) :
    (noProxyMatch [[pat]] url = true ↔ Covers net len host) ↔
      (∃ a, host = .v4 a) ∨ ¬ Covers net len host := by
  cases host with
  | v4 a =>
    rw [HostText] at htext
    refine iff_of_true ?_ (Or.inl ⟨a, rfl⟩)
    have hparse : parseIpAddr text.toList = some (.v4 a) := by
      rw [htext, String.toList_ofList, parseIpAddr_formatV4]
    have hne : text ≠ "" := by
      rintro rfl
      exact absurd hparse (by rw [show parseIpAddr "".toList = none by decide]; simp)
    rw [noProxyMatch_singleton hurl hne, noProxyPatternMatch_of_entry hentry, hparse]
    simp only [Option.some.injEq, exists_eq_left']
  | v6 a =>
    obtain ⟨inner, -, rfl⟩ := htext
    have hparse : parseIpAddr (String.ofList ('[' :: inner ++ [']'])).toList = none := by
      rw [String.toList_ofList]
      exact parseIpAddr_bracket _
    have hne : String.ofList ('[' :: inner ++ [']']) ≠ "" := by
      intro heq
      exact absurd (congrArg String.toList heq) (by simp)
    rw [noProxyMatch_singleton hurl hne, noProxyPatternMatch_of_entry hentry, hparse]
    simp

section Fixed

/-- The two URLs have addresses as their hosts. -/
local instance twoHosts : UrlParser where
  hostStr url :=
    if url = "http://10.1.2.3/x" then some (some "10.1.2.3")
    else if url = "http://[::1]/x" then some (some "[::1]")
    else none

theorem accepts_iff_private :
    (noProxyMatch [["10.0.0.0/8"]] "http://10.1.2.3/x" = true ↔
      Covers (.v4 0x0a000000) 8 (.v4 0x0a010203)) ↔
      (∃ a, IpAddr.v4 0x0a010203 = .v4 a) ∨ ¬ Covers (.v4 0x0a000000) 8 (.v4 0x0a010203) :=
  accepts_iff
    (show UrlParser.hostStr "http://10.1.2.3/x" = some (some "10.1.2.3") from by decide)
    (show HostText (.v4 0x0a010203) "10.1.2.3" from
      show "10.1.2.3" = String.ofList (formatV4 0x0a010203) by decide +kernel)
    ⟨"10.0.0.0".toList, "8".toList, by decide +kernel, by decide, by decide +kernel,
      by decide +kernel⟩

/-- The loopback address is in its network, and is not accepted. -/
theorem not_accepts_loopback :
    ¬ (noProxyMatch [["::1/128"]] "http://[::1]/x" = true ↔ Covers (.v6 1) 128 (.v6 1)) := by
  intro h
  have haccepts := h.2 ⟨le_rfl, fun _ _ ↦ rfl⟩
  exact absurd haccepts (by decide +kernel)

end Fixed

end NextApi.Upstream
