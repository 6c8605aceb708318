import NextApi.Error
import NextApi.Upstream.NoProxy

/-!
# Addresses that must not be reached

A URL that a user or an administrator has given is fetched only after a check: its host must not be
an address of the internal network, nor a name that is looked up as one. `isInternalIp` decides by
masked words and segments, which are networks in the sense of `SameBits`.

Some addresses are left out of it: those of `0.0.0.0/8`, and IPv6 addresses with an IPv4 address
inside that is not looked at. What is accepted is outside the internal networks exactly when there
is none of these among the addresses (`guarded_iff`).
-/

set_option autoImplicit false

namespace NextApi.Upstream

open Text

/-! ### The check -/

/-- `to_ipv4_mapped`. -/
def toIpv4Mapped (a : BitVec 128) : Option (BitVec 32) :=
  if (octets a).take 12 = [0, 0, 0, 0, 0, 0, 0, 0, 0, 0, 0xff, 0xff] then some (a.extractLsb' 0 32)
  else none

/-- The 16-bit segments. -/
def segment (a : BitVec 128) (i : ℕ) : BitVec 16 := a.extractLsb' (16 * (7 - i)) 16

def isInternalV4 (o : BitVec 32) : Bool :=
  decide (o &&& 0xFF000000 = 0x0A000000)
    || decide (o &&& 0xFFF00000 = 0xAC100000)
    || decide (o &&& 0xFFFF0000 = 0xC0A80000)
    || decide (o &&& 0xFF000000 = 0x7F000000)
    || decide (o &&& 0xFFFF0000 = 0xA9FE0000)
    || decide (o &&& 0xFFC00000 = 0x64400000)

def isInternalIp : IpAddr → Bool
  | .v4 v4 => isInternalV4 v4
  | .v6 v6 =>
    match toIpv4Mapped v6 with
    | some v4 => isInternalV4 v4
    | none =>
      decide (v6 = 1)
        || decide (segment v6 0 &&& 0xFFC0 = 0xFE80)
        || decide (segment v6 0 &&& 0xFE00 = 0xFC00)
        || decide (segment v6 0 = 0x0064) && decide (segment v6 1 = 0xff9b)

/-- A name of the machine or of the internal network. -/
def isInternalName (host : String) : Bool :=
  let lower := Ir.toAsciiLowercase host
  decide (lower = "localhost")
    || [".localhost", ".local", ".internal", ".localdomain"].any fun ending ↦
      ending.toList.isSuffixOf lower.toList

/-- What the check looks at in a URL. -/
structure OutboundUrl where
  scheme : String
  hostStr : Option String

/-- The parser of URLs, and the lookup of names; both may fail with a message. -/
class Resolver where
  parseUrl : String → Except String OutboundUrl
  lookupHost : String → Except String (List IpAddr)

section Check

variable [Resolver]

/-- The addresses of a host, an address itself or a name that is looked up. -/
def checkHost (host : String) : Except ApiError (List IpAddr) :=
  match parseIpAddr host.toList with
  | some ip => if isInternalIp ip then .error (.badRequest "禁止访问内网地址") else .ok [ip]
  | none =>
    if isInternalName host then .error (.badRequest "禁止访问本机/内网域名")
    else
      match Resolver.lookupHost host with
      | .error e => .error (.badRequest ("域名解析失败: " ++ e))
      | .ok ips =>
        if ips.isEmpty then .error (.badRequest "域名无解析结果")
        else if ips.any isInternalIp then .error (.badRequest "域名解析到内网地址，禁止访问")
        else .ok ips

/-- The addresses that may be connected to. -/
def checkOutboundUrl (url : String) : Except ApiError (List IpAddr) :=
  match Resolver.parseUrl url with
  | .error e => .error (.badRequest ("URL 非法: " ++ e))
  | .ok parsed =>
    if parsed.scheme ≠ "https" then .error (.badRequest "仅允许 https URL")
    else
      let host := parsed.hostStr.getD ""
      if host = "" then .error (.badRequest "URL 缺少主机名") else checkHost host

end Check

/-! ### Networks that must not be reached -/

/-- This network, loopback, private, link-local and shared addresses. -/
def internalNetsV4 : List (BitVec 32 × ℕ) :=
  [(0x00000000, 8), (0x7F000000, 8), (0x0A000000, 8), (0xAC100000, 12), (0xC0A80000, 16),
    (0xA9FE0000, 16), (0x64400000, 10)]

/-- The unspecified address, loopback, link-local and unique local addresses. -/
def internalNetsV6 : List (BitVec 128 × ℕ) :=
  [(0, 128), (1, 128), (0xFE80 <<< 112, 10), (0xFC00 <<< 112, 7)]

def ExternalV4 (a : BitVec 32) : Prop := ∀ net ∈ internalNetsV4, ¬ SameBits a net.1 net.2

def mappedNet : BitVec 128 := 0xFFFF <<< 32

def nat64Net : BitVec 128 := 0x0064FF9B <<< 96

def sixToFourNet : BitVec 128 := 0x2002 <<< 112

/-- The last 32 bits of an IPv6 address. -/
def lastV4 (a : BitVec 128) : BitVec 32 := a.extractLsb' 0 32

/-- The 32 bits after the first 16 of an IPv6 address. -/
def secondV4 (a : BitVec 128) : BitVec 32 := a.extractLsb' 80 32

/-- An IPv4 address inside an IPv6 address: mapped, compatible, of NAT64 or of 6to4. -/
inductive Embeds (a : BitVec 128) : BitVec 32 → Prop
  | mapped : SameBits a mappedNet 96 → Embeds a (lastV4 a)
  | compatible : SameBits a 0 96 → Embeds a (lastV4 a)
  | nat64 : SameBits a nat64Net 96 → Embeds a (lastV4 a)
  | sixToFour : SameBits a sixToFourNet 16 → Embeds a (secondV4 a)

/-- The address is in no internal network, nor is one inside it. -/
def External : IpAddr → Prop
  | .v4 a => ExternalV4 a
  | .v6 a => (∀ net ∈ internalNetsV6, ¬ SameBits a net.1 net.2) ∧ ∀ v4, Embeds a v4 → ExternalV4 v4

/-- The address is one that the check does not look for: in `0.0.0.0/8`, also mapped, or a
compatible or 6to4 address with one inside that must not be reached. -/
def Gap : IpAddr → Prop
  | .v4 a => SameBits a 0 8
  | .v6 a => (SameBits a mappedNet 96 ∧ SameBits (lastV4 a) 0 8) ∨
    (SameBits a 0 96 ∧ ¬ ExternalV4 (lastV4 a)) ∨
    (SameBits a sixToFourNet 16 ∧ ¬ ExternalV4 (secondV4 a))

section Claims

variable [Resolver]

/-- Whatever is accepted is external. -/
def Guarded (url : String) : Prop :=
  ∀ ips, checkOutboundUrl url = .ok ips → ∀ ip ∈ ips, External ip

/-- The address that a host is, or the addresses that it is looked up as. -/
def addressesOf (host : String) : List IpAddr :=
  match parseIpAddr host.toList with
  | some ip => [ip]
  | none =>
    match Resolver.lookupHost host with
    | .ok ips => ips
    | .error _ => []

/-- A host with these addresses passes the tests of the code. -/
structure HostPasses (host : String) (ips : List IpAddr) : Prop where
  name : parseIpAddr host.toList = none → isInternalName host = false
  addresses : addressesOf host = ips
  some : ips ≠ []
  tests : ∀ ip ∈ ips, isInternalIp ip = false

/-- The URL passes the tests of the code, with a host of these addresses. -/
def Passes (url : String) (ips : List IpAddr) : Prop :=
  ∃ host, Resolver.parseUrl url = .ok ⟨"https", some host⟩ ∧ host ≠ "" ∧ HostPasses host ips

end Claims

/-! ### Bits -/

instance {w : ℕ} (x y : BitVec w) (len : ℕ) : Decidable (SameBits x y len) :=
  inferInstanceAs (Decidable (∀ i < len, x.getMsbD i = y.getMsbD i))

theorem SameBits.mono {w m n : ℕ} {x y : BitVec w} (h : SameBits x y n) (hmn : m ≤ n) :
    SameBits x y m :=
  fun i hi ↦ h i (Nat.lt_of_lt_of_le hi hmn)

/-- An address of one network is in no other that differs from it in a bit of both. -/
theorem SameBits.not_sameBits {w m n : ℕ} {a x y : BitVec w} (h : SameBits a x n)
    (hapart : ¬ SameBits x y (min m n)) : ¬ SameBits a y m := by
  intro hy
  refine hapart fun i hi ↦ ?_
  rw [← h i (Nat.lt_of_lt_of_le hi (Nat.min_le_right m n)),
    hy i (Nat.lt_of_lt_of_le hi (Nat.min_le_left m n))]

theorem sameBits_full_iff {w : ℕ} {x y : BitVec w} : SameBits x y w ↔ x = y :=
  ⟨fun h ↦ BitVec.eq_of_getMsbD_eq h, fun h i _ ↦ congrArg (fun z ↦ z.getMsbD i) h⟩

/-- A masked word is the base of a network exactly when the word is in the network. -/
theorem mask_eq_base_iff {w : ℕ} (len : ℕ) {mask base : BitVec w} (hlen : len ≤ w)
    (hmask : mask = BitVec.allOnes w <<< (w - len)) (hbase : base &&& mask = base)
    (x : BitVec w) : x &&& mask = base ↔ SameBits x base len := by
  rw [← and_mask_eq_iff hlen, ← hmask, hbase]

theorem getMsbD_segment (a : BitVec 128) {i j : ℕ} (hi : i < 8) (hj : j < 16) :
    (segment a i).getMsbD j = a.getMsbD (16 * i + j) := by
  rw [segment, BitVec.getMsbD_extractLsb', decide_eq_true hj, decide_eq_true (by omega),
    Bool.true_and, Bool.true_and]
  congr 1
  omega

/-- The first bits of an address are those of its first segment. -/
theorem sameBits_segment {a n : BitVec 128} {len : ℕ} (hlen : len ≤ 16) :
    SameBits (segment a 0) (segment n 0) len ↔ SameBits a n len := by
  refine forall₂_congr fun i hi ↦ ?_
  rw [getMsbD_segment a (by omega) (by omega), getMsbD_segment n (by omega) (by omega)]
  rw [Nat.mul_zero, Nat.zero_add]

theorem segments_eq_iff {a n : BitVec 128} :
    (segment a 0 = segment n 0 ∧ segment a 1 = segment n 1) ↔ SameBits a n 32 := by
  constructor
  · rintro ⟨hfirst, hsecond⟩ i hi
    by_cases hlt : i < 16
    · have hbit := congrArg (fun z ↦ z.getMsbD i) hfirst
      rwa [getMsbD_segment a (by omega) hlt, getMsbD_segment n (by omega) hlt, Nat.mul_zero,
        Nat.zero_add] at hbit
    · have hbit := congrArg (fun z ↦ z.getMsbD (i - 16)) hsecond
      rwa [getMsbD_segment a (by omega) (by omega), getMsbD_segment n (by omega) (by omega),
        Nat.mul_one, Nat.add_sub_cancel' (by omega)] at hbit
  · intro h
    constructor
    · refine BitVec.eq_of_getMsbD_eq fun j hj ↦ ?_
      rw [getMsbD_segment a (by omega) hj, getMsbD_segment n (by omega) hj]
      exact h _ (by omega)
    · refine BitVec.eq_of_getMsbD_eq fun j hj ↦ ?_
      rw [getMsbD_segment a (by omega) hj, getMsbD_segment n (by omega) hj]
      exact h _ (by omega)

/-! ### What the tests find -/

/-- An IPv4 address passes the tests when it is external or in `0.0.0.0/8`. -/
theorem externalV4_iff (a : BitVec 32) :
    ExternalV4 a ↔ ¬ SameBits a 0 8 ∧ isInternalV4 a = false := by
  have h10 : a &&& 0xFF000000 = 0x0A000000 ↔ SameBits a 0x0A000000 8 :=
    mask_eq_base_iff 8 (by decide) (by decide) (by decide) a
  have h172 : a &&& 0xFFF00000 = 0xAC100000 ↔ SameBits a 0xAC100000 12 :=
    mask_eq_base_iff 12 (by decide) (by decide) (by decide) a
  have h192 : a &&& 0xFFFF0000 = 0xC0A80000 ↔ SameBits a 0xC0A80000 16 :=
    mask_eq_base_iff 16 (by decide) (by decide) (by decide) a
  have h127 : a &&& 0xFF000000 = 0x7F000000 ↔ SameBits a 0x7F000000 8 :=
    mask_eq_base_iff 8 (by decide) (by decide) (by decide) a
  have h169 : a &&& 0xFFFF0000 = 0xA9FE0000 ↔ SameBits a 0xA9FE0000 16 :=
    mask_eq_base_iff 16 (by decide) (by decide) (by decide) a
  have h100 : a &&& 0xFFC00000 = 0x64400000 ↔ SameBits a 0x64400000 10 :=
    mask_eq_base_iff 10 (by decide) (by decide) (by decide) a
  have htests : isInternalV4 a = false ↔ ¬ SameBits a 0x0A000000 8 ∧ ¬ SameBits a 0xAC100000 12 ∧
      ¬ SameBits a 0xC0A80000 16 ∧ ¬ SameBits a 0x7F000000 8 ∧ ¬ SameBits a 0xA9FE0000 16 ∧
      ¬ SameBits a 0x64400000 10 := by
    rw [← h10, ← h172, ← h192, ← h127, ← h169, ← h100, isInternalV4]
    simp only [Bool.or_eq_false_iff, decide_eq_false_iff_not, and_assoc]
  rw [htests, ExternalV4]
  simp only [internalNetsV4, List.forall_mem_cons]
  constructor
  · rintro ⟨h0, h127, h10, h172, h192, h169, h100, -⟩
    exact ⟨h0, h10, h172, h192, h127, h169, h100⟩
  · rintro ⟨h0, h10, h172, h192, h127, h169, h100⟩
    exact ⟨h0, h127, h10, h172, h192, h169, h100, fun _ h ↦ absurd h List.not_mem_nil⟩

theorem toIpv4Mapped_eq (a : BitVec 128) :
    toIpv4Mapped a = if SameBits a mappedNet 96 then some (lastV4 a) else none := by
  have hnet : (octets mappedNet).take 12 = [0, 0, 0, 0, 0, 0, 0, 0, 0, 0, 0xff, 0xff] := by decide
  rw [toIpv4Mapped, ← hnet, lastV4]
  exact if_congr (take_octets_eq_iff (by decide)) rfl rfl

/-- What the tests of an IPv6 address find, that is not mapped. -/
theorem not_internal_v6 {a : BitVec 128} (hmapped : ¬ SameBits a mappedNet 96) :
    isInternalIp (.v6 a) = false ↔ ¬ SameBits a 1 128 ∧ ¬ SameBits a (0xFE80 <<< 112) 10 ∧
      ¬ SameBits a (0xFC00 <<< 112) 7 ∧ ¬ SameBits a nat64Net 32 := by
  have hlink : segment a 0 &&& 0xFFC0 = 0xFE80 ↔ SameBits a (0xFE80 <<< 112) 10 :=
    (mask_eq_base_iff 10 (by decide) (by decide) (by decide) (segment a 0)).trans
      (sameBits_segment (n := 0xFE80 <<< 112) (by decide))
  have hlocal : segment a 0 &&& 0xFE00 = 0xFC00 ↔ SameBits a (0xFC00 <<< 112) 7 :=
    (mask_eq_base_iff 7 (by decide) (by decide) (by decide) (segment a 0)).trans
      (sameBits_segment (n := 0xFC00 <<< 112) (by decide))
  have hnat : (segment a 0 = 0x0064 ∧ segment a 1 = 0xff9b) ↔ SameBits a nat64Net 32 :=
    segments_eq_iff (n := nat64Net)
  rw [isInternalIp, toIpv4Mapped_eq, if_neg hmapped, ← hlink, ← hlocal, ← hnat,
    sameBits_full_iff]
  simp only [Bool.or_eq_false_iff, Bool.and_eq_false_iff, decide_eq_false_iff_not, and_assoc,
    not_and_or]

/-- A mapped address is external when the address inside it is. -/
theorem external_mapped {a : BitVec 128} (hmapped : SameBits a mappedNet 96) :
    External (.v6 a) ↔ ExternalV4 (lastV4 a) := by
  constructor
  · exact fun h ↦ h.2 _ (.mapped hmapped)
  · intro h
    constructor
    · simp only [internalNetsV6, List.forall_mem_cons]
      exact ⟨hmapped.not_sameBits (by decide), hmapped.not_sameBits (by decide),
        hmapped.not_sameBits (by decide), hmapped.not_sameBits (by decide),
        fun _ h ↦ absurd h List.not_mem_nil⟩
    · rintro v4 (hin | hin | hin | hin)
      · exact h
      · exact h
      · exact h
      · exact absurd hin (hmapped.not_sameBits (by decide))

theorem not_externalV4_zero : ¬ ExternalV4 0 := fun h ↦
  h (0x00000000, 8) List.mem_cons_self fun _ _ ↦ rfl

/-- What passes the tests is external unless it is one that the tests leave out. -/
theorem external_iff {ip : IpAddr} (h : isInternalIp ip = false) : External ip ↔ ¬ Gap ip := by
  cases ip with
  | v4 a => exact (externalV4_iff a).trans (and_iff_left h)
  | v6 a =>
    by_cases hmapped : SameBits a mappedNet 96
    · have hlast : isInternalV4 (lastV4 a) = false := by
        rwa [isInternalIp, toIpv4Mapped_eq, if_pos hmapped] at h
      have hcompatible : ¬ SameBits a 0 96 := hmapped.not_sameBits (by decide)
      have hsix : ¬ SameBits a sixToFourNet 16 := hmapped.not_sameBits (by decide)
      rw [external_mapped hmapped, externalV4_iff, and_iff_left hlast, Gap]
      simp only [hmapped, hcompatible, hsix, true_and, false_and, or_false]
    · obtain ⟨hloopback, hlink, hlocal, hnat⟩ := (not_internal_v6 hmapped).1 h
      constructor
      · rintro ⟨-, hinside⟩ (⟨hin, -⟩ | ⟨hin, hnot⟩ | ⟨hin, hnot⟩)
        · exact hmapped hin
        · exact hnot (hinside _ (.compatible hin))
        · exact hnot (hinside _ (.sixToFour hin))
      · intro hgap
        have hcompatible (hin : SameBits a 0 96) : ExternalV4 (lastV4 a) :=
          by_contra fun hnot ↦ hgap (.inr (.inl ⟨hin, hnot⟩))
        have hsix (hin : SameBits a sixToFourNet 16) : ExternalV4 (secondV4 a) :=
          by_contra fun hnot ↦ hgap (.inr (.inr ⟨hin, hnot⟩))
        have hzero : ¬ SameBits a 0 128 := by
          intro hin
          have hlast := hcompatible (hin.mono (by decide))
          rw [sameBits_full_iff.1 hin] at hlast
          exact not_externalV4_zero hlast
        constructor
        · simp only [internalNetsV6, List.forall_mem_cons]
          exact ⟨hzero, hloopback, hlink, hlocal, fun _ h ↦ absurd h List.not_mem_nil⟩
        · rintro v4 (hin | hin | hin | hin)
          · exact absurd hin hmapped
          · exact hcompatible hin
          · exact absurd (hin.mono (by decide)) hnat
          · exact hsix hin

/-! ### What is accepted -/

section Accepted

variable [Resolver]

theorem checkHost_eq_ok_iff {host : String} {ips : List IpAddr} :
    checkHost host = .ok ips ↔ HostPasses host ips := by
  cases hip : parseIpAddr host.toList with
  | some ip =>
    have haddresses : addressesOf host = [ip] := by rw [addressesOf, hip]
    rw [checkHost, hip]
    cases hin : isInternalIp ip with
    | true =>
      refine iff_of_false (by simp [hin]) fun h ↦ ?_
      have hnot := h.tests ip (h.addresses ▸ haddresses ▸ List.mem_singleton_self ip)
      rw [hin] at hnot
      exact nomatch hnot
    | false =>
      simp only [hin, Bool.false_eq_true, if_false, Except.ok.injEq]
      constructor
      · rintro rfl
        refine ⟨fun hnone ↦ ?_, haddresses, List.cons_ne_nil _ _, fun ip' hip' ↦ ?_⟩
        · rw [hip] at hnone
          exact nomatch hnone
        · rwa [List.mem_singleton.1 hip']
      · exact fun h ↦ haddresses.symm.trans h.addresses
  | none =>
    rw [checkHost, hip]
    cases hname : isInternalName host with
    | true =>
      refine iff_of_false (by simp) fun h ↦ ?_
      have hnot := h.name hip
      rw [hname] at hnot
      exact nomatch hnot
    | false =>
      cases hfound : Resolver.lookupHost host with
      | error e =>
        have haddresses : addressesOf host = [] := by rw [addressesOf, hip, hfound]
        refine iff_of_false (by simp) fun h ↦ ?_
        exact h.some (h.addresses.symm.trans haddresses)
      | ok found =>
        have haddresses : addressesOf host = found := by rw [addressesOf, hip, hfound]
        simp only [Bool.false_eq_true, if_false]
        by_cases hempty : found = []
        · refine iff_of_false (by simp [hempty]) fun h ↦ ?_
          exact h.some (h.addresses.symm.trans (haddresses.trans hempty))
        · rw [if_neg fun h ↦ hempty (List.isEmpty_iff.1 h)]
          cases hany : found.any isInternalIp with
          | true =>
            refine iff_of_false (by simp) fun h ↦ ?_
            obtain ⟨ip, hmem, hin⟩ := List.any_eq_true.1 hany
            have hnot := h.tests ip (h.addresses ▸ haddresses ▸ hmem)
            rw [hin] at hnot
            exact nomatch hnot
          | false =>
            have hall : ∀ ip ∈ found, isInternalIp ip = false := fun ip hmem ↦
              Bool.eq_false_iff.2 (List.any_eq_false.1 hany ip hmem)
            simp only [Bool.false_eq_true, if_false, Except.ok.injEq]
            constructor
            · rintro rfl
              exact ⟨fun _ ↦ hname, haddresses, hempty, hall⟩
            · exact fun h ↦ haddresses.symm.trans h.addresses

/-- What is accepted, and with which addresses. -/
theorem checkOutboundUrl_eq_ok_iff {url : String} {ips : List IpAddr} :
    checkOutboundUrl url = .ok ips ↔ Passes url ips := by
  rw [checkOutboundUrl, Passes]
  cases hparsed : Resolver.parseUrl url with
  | error e => simp
  | ok parsed =>
    obtain ⟨scheme, hostStr⟩ := parsed
    by_cases hscheme : scheme = "https"
    · subst hscheme
      cases hostStr with
      | none => simp
      | some host =>
        by_cases hempty : host = ""
        · simp [hempty]
        · simp [hempty, checkHost_eq_ok_iff]
    · simp [hscheme]

/-- Whatever is accepted is external, exactly when a URL that passes the tests does not stand for an
address that they leave out. -/
theorem guarded_iff (url : String) :
    Guarded url ↔ ∀ ips, Passes url ips → ∀ ip ∈ ips, ¬ Gap ip := by
  refine forall_congr' fun ips ↦ ?_
  rw [checkOutboundUrl_eq_ok_iff]
  refine forall_congr' fun hpasses ↦ forall₂_congr fun ip hip ↦ external_iff ?_
  obtain ⟨host, -, -, hhost⟩ := hpasses
  exact hhost.tests ip hip

end Accepted

/-! ### An address of the machine itself -/

section Example

local instance zeroHost : Resolver where
  parseUrl url :=
    if url = "https://0.0.0.0/" then .ok ⟨"https", some "0.0.0.0"⟩
    else .error "relative URL without a base"
  lookupHost _ := .error "failed to lookup address information"

theorem not_guarded_zero : ¬ Guarded "https://0.0.0.0/" := by
  intro h
  have haccepted : checkOutboundUrl "https://0.0.0.0/" = .ok [.v4 0] := by decide +kernel
  exact not_externalV4_zero (h _ haccepted _ (List.mem_singleton_self _))

end Example

end NextApi.Upstream
