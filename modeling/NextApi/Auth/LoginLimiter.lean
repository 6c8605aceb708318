import NextApi.Limit.RateLimiter
import NextApi.Protocol.Ir
import NextApi.Text.Lines

/-!
# The limiter of logins and of sensitive operations

Logins and sensitive operations share one table of at most 10,000 entries (`size_check_le`). A login
is counted under its user name, trimmed and in lower case, and a sensitive operation under the name
of the administrator behind `sens:`. When a new key comes to a full table, the entries that have
been idle for ten minutes are dropped; if that makes no room, the attempt is refused.

So a login under the name `sens:root` is counted against the sensitive operations of `root`, and as
many names as the table can hold keep the operations of everybody else out. In a run without both,
what an administrator's operations are answered does not depend on anything but these operations
(`isolated_of_clear`). What is dropped is no loss: it had expired long before.
-/

set_option autoImplicit false

namespace NextApi.Auth

open Limit (durationSince evict windowAllow)

/-! ### The limiter -/

def rateWindow : ℕ := 60 * 10 ^ 9

def maxRateEntries : ℕ := 10000

def idleEvict : ℕ := 600 * 10 ^ 9

/-- The instants that are counted, and when the key was last seen. -/
structure RateEntry where
  events : List ℕ
  lastSeen : ℕ

abbrev LoginRateLimiter := Table String RateEntry

/-- Drops what has not been seen for long. -/
def evictIdleEntries (map : LoginRateLimiter) (now idle : ℕ) : LoginRateLimiter :=
  map.retain fun _ entry ↦ decide (durationSince now entry.lastSeen ≤ idle)

namespace LoginRateLimiter

/-- Whether an attempt is let through by the entry of its key, a new one if there is none. -/
def record (map : LoginRateLimiter) (username : String) (limit : UInt32) (now : ℕ) :
    Bool × LoginRateLimiter :=
  let entry := (map.lookup username).getD ⟨[], now⟩
  let allowed := windowAllow entry.events now limit rateWindow
  (allowed.1, map.insert username ⟨allowed.2, now⟩)

/-- Whether an attempt is let through; without a limit nothing is counted. -/
def check (map : LoginRateLimiter) (username : String) (limit : UInt32) (now : ℕ) :
    Bool × LoginRateLimiter :=
  if limit = 0 then (true, map)
  else if (map.lookup username).isNone ∧ maxRateEntries ≤ map.size then
    let map := evictIdleEntries map now idleEvict
    if (map.lookup username).isNone ∧ maxRateEntries ≤ map.size then (false, map)
    else map.record username limit now
  else map.record username limit now

end LoginRateLimiter

/-- The key of a login. -/
def rateKey (username : String) : String :=
  Ir.toAsciiLowercase (String.ofList (Text.trim username.toList))

/-- The key of a sensitive operation. -/
def sensitiveKey (username : String) : String := "sens:" ++ username

/-- What is counted: logins under a name that anybody may send, and sensitive operations of
administrators. The limit is the one that is configured at the time. -/
inductive Attempt where
  | login (username : String) (limit : UInt32) (now : ℕ)
  | sensitive (username : String) (limit : UInt32) (now : ℕ)

namespace Attempt

def now : Attempt → ℕ
  | login _ _ now => now
  | sensitive _ _ now => now

/-- `login` and `sensitive_rate_check`. -/
def check (map : LoginRateLimiter) : Attempt → Bool × LoginRateLimiter
  | login username limit now => map.check (rateKey username) limit now
  | sensitive username limit now => map.check (sensitiveKey username) limit now

def isSensitiveOf (admin : String) : Attempt → Bool
  | login _ _ _ => false
  | sensitive username _ _ => decide (username = admin)

end Attempt

def step (map : LoginRateLimiter) (attempt : Attempt) : LoginRateLimiter := (attempt.check map).2

/-- What the sensitive operations of an administrator are answered. -/
def decisions (admin : String) : LoginRateLimiter → List Attempt → List Bool
  | _, [] => []
  | map, attempt :: rest =>
    if attempt.isSensitiveOf admin then
      (attempt.check map).1 :: decisions admin (step map attempt) rest
    else decisions admin (step map attempt) rest

/-! ### The claim on a run -/

/-- The answers are those that the operations of the administrator would be given alone. -/
def Isolated (admin : String) (attempts : List Attempt) : Prop :=
  decisions admin ∅ attempts = decisions admin ∅ (attempts.filter (·.isSensitiveOf admin))

instance (admin : String) (attempts : List Attempt) : Decidable (Isolated admin attempts) :=
  inferInstanceAs (Decidable (_ = _))

/-- There is no entry for a key, and no room for one. -/
def Full (map : LoginRateLimiter) (key : String) (now : ℕ) : Prop :=
  map.lookup key = none ∧ maxRateEntries ≤ (evictIdleEntries map now idleEvict).size

/-- An attempt is not a login that is counted against the administrator, nor an operation of the
administrator for which there is no room. -/
def Clear (admin : String) (map : LoginRateLimiter) : Attempt → Prop
  | .login username limit _ => limit ≠ 0 → rateKey username ≠ sensitiveKey admin
  | .sensitive username limit now =>
    limit ≠ 0 → username = admin → ¬ Full map (sensitiveKey admin) now

/-! ### The table -/

namespace LoginRateLimiter

variable {map : LoginRateLimiter} {key other : String} {now : ℕ}

theorem size_evictIdleEntries_le (map : LoginRateLimiter) (now idle : ℕ) :
    (evictIdleEntries map now idle).size ≤ map.size :=
  map.size_retain_le _

/-- Entries are found as they were, or have been idle for long. -/
theorem lookup_evictIdleEntries (map : LoginRateLimiter) (key : String) (now idle : ℕ) :
    (evictIdleEntries map now idle).lookup key = map.lookup key ∨
      ∃ entry, map.lookup key = some entry ∧ idle < durationSince now entry.lastSeen ∧
        (evictIdleEntries map now idle).lookup key = none := by
  rw [evictIdleEntries, Table.lookup_retain]
  cases hentry : map.lookup key with
  | none => exact .inl rfl
  | some entry =>
    by_cases hidle : durationSince now entry.lastSeen ≤ idle
    · exact .inl (Option.filter_some_pos (decide_eq_true hidle))
    · refine .inr ⟨entry, rfl, Nat.lt_of_not_le hidle, ?_⟩
      exact Option.filter_some_neg (by simpa using hidle)

theorem lookup_evictIdleEntries_none (h : map.lookup key = none) (now idle : ℕ) :
    (evictIdleEntries map now idle).lookup key = none := by
  rw [evictIdleEntries, Table.lookup_retain, h, Option.filter_none]

/-- What an attempt is judged by: the table, or the entries of it that are not idle. -/
def Remains (map rest : LoginRateLimiter) (key : String) (now : ℕ) : Prop :=
  (rest = map ∨ (rest = evictIdleEntries map now idleEvict ∧ map.lookup key = none)) ∧
    (rest.lookup key = none → rest.size < maxRateEntries)

theorem check_of_not_full (hfull : ¬ Full map key now) {limit : UInt32} (hlimit : limit ≠ 0) :
    ∃ rest, Remains map rest key now ∧ map.check key limit now = rest.record key limit now := by
  rw [check, if_neg hlimit]
  split
  · next hnew =>
    have hnone := Option.isNone_iff_eq_none.1 hnew.1
    have hroom : (evictIdleEntries map now idleEvict).size < maxRateEntries :=
      Nat.lt_of_not_le fun hle ↦ hfull ⟨hnone, hle⟩
    rw [if_neg fun h ↦ absurd h.2 (Nat.not_le.2 hroom)]
    exact ⟨_, ⟨.inr ⟨rfl, hnone⟩, fun _ ↦ hroom⟩, rfl⟩
  · next hroom =>
    refine ⟨map, ⟨.inl rfl, fun hnone ↦ Nat.lt_of_not_le fun hle ↦ hroom ⟨?_, hle⟩⟩, rfl⟩
    exact Option.isNone_iff_eq_none.2 hnone

theorem check_of_full (hfull : Full map key now) {limit : UInt32} (hlimit : limit ≠ 0) :
    map.check key limit now = (false, evictIdleEntries map now idleEvict) := by
  have hnew : (map.lookup key).isNone ∧ maxRateEntries ≤ map.size :=
    ⟨Option.isNone_iff_eq_none.2 hfull.1, hfull.2.trans (size_evictIdleEntries_le _ _ _)⟩
  have hstill : ((evictIdleEntries map now idleEvict).lookup key).isNone :=
    Option.isNone_iff_eq_none.2 (lookup_evictIdleEntries_none hfull.1 now idleEvict)
  rw [check, if_neg hlimit, if_pos hnew]
  exact if_pos ⟨hstill, hfull.2⟩

/-- The table never outgrows its bound. -/
theorem size_check_le (hsize : map.size ≤ maxRateEntries) (key : String) (limit : UInt32)
    (now : ℕ) : (map.check key limit now).2.size ≤ maxRateEntries := by
  by_cases hlimit : limit = 0
  · rwa [check, if_pos hlimit]
  by_cases hfull : Full map key now
  · rw [check_of_full hfull hlimit]
    exact (size_evictIdleEntries_le _ _ _).trans hsize
  · obtain ⟨rest, ⟨hrest, hroom⟩, heq⟩ := check_of_not_full hfull hlimit
    have hle : rest.size ≤ maxRateEntries := by
      rcases hrest with rfl | ⟨rfl, -⟩
      · exact hsize
      · exact (size_evictIdleEntries_le _ _ _).trans hsize
    rw [heq, record]
    cases hentry : rest.lookup key with
    | none => exact (rest.size_insert_le key _).trans (hroom hentry)
    | some entry =>
      rw [Table.size_insert_of_mem (Option.isSome_of_mem hentry)]
      exact hle

/-- What an attempt leaves of the entry of another key. -/
theorem lookup_check_other (hkey : key ≠ other) (limit : UInt32) (now : ℕ) :
    (map.check key limit now).2.lookup other = map.lookup other ∨
      ∃ entry, map.lookup other = some entry ∧ idleEvict < durationSince now entry.lastSeen ∧
        (map.check key limit now).2.lookup other = none := by
  by_cases hlimit : limit = 0
  · rw [check, if_pos hlimit]
    exact .inl rfl
  by_cases hfull : Full map key now
  · rw [check_of_full hfull hlimit]
    exact lookup_evictIdleEntries map other now idleEvict
  · obtain ⟨rest, ⟨hrest, -⟩, heq⟩ := check_of_not_full hfull hlimit
    rw [heq, record, Table.lookup_insert, if_neg hkey]
    rcases hrest with rfl | ⟨rfl, -⟩
    · exact .inl rfl
    · exact lookup_evictIdleEntries map other now idleEvict

/-- An attempt for which there is room is judged by the entry of its key. -/
theorem check_own (hfull : ¬ Full map key now) {limit : UInt32} (hlimit : limit ≠ 0) :
    let queue := ((map.lookup key).map RateEntry.events).getD []
    (map.check key limit now).1 = (windowAllow queue now limit rateWindow).1 ∧
      (map.check key limit now).2.lookup key =
        some ⟨(windowAllow queue now limit rateWindow).2, now⟩ := by
  obtain ⟨rest, ⟨hrest, -⟩, heq⟩ := check_of_not_full hfull hlimit
  have hlookup : rest.lookup key = map.lookup key := by
    rcases hrest with rfl | ⟨rfl, hnone⟩
    · rfl
    · rw [hnone, lookup_evictIdleEntries_none hnone]
  have hqueue : ((map.lookup key).getD ⟨[], now⟩).events =
      ((map.lookup key).map RateEntry.events).getD [] := by
    cases map.lookup key <;> rfl
  rw [heq, record, hlookup, hqueue, Table.lookup_insert, if_pos rfl]
  exact ⟨rfl, rfl⟩

end LoginRateLimiter

/-! ### Queues that have expired -/

theorem windowAllow_of_expired {queue : List ℕ} {now window : ℕ}
    (h : ∀ t ∈ queue, window < durationSince now t) (limit : UInt32) (hlimit : limit ≠ 0) :
    windowAllow queue now limit window = windowAllow [] now limit window := by
  have hnil : evict queue now window = evict [] now window :=
    List.dropWhile_eq_nil_iff.2 fun t ht ↦ decide_eq_true (h t ht)
  rw [windowAllow, windowAllow, if_neg hlimit, if_neg hlimit, hnil]

theorem mem_windowAllow {queue : List ℕ} {now window t : ℕ} {limit : UInt32}
    (h : t ∈ (windowAllow queue now limit window).2) : t ∈ queue ∨ t = now := by
  rw [windowAllow] at h
  split at h
  · exact .inl h
  · have hsublist := Limit.evict_sublist queue now window
    dsimp only at h
    split at h
    · exact .inl (hsublist.subset h)
    · rcases List.mem_append.1 h with h | h
      · exact .inl (hsublist.subset h)
      · exact .inr (List.mem_singleton.1 h)

/-! ### A run and the operations of one administrator -/

/-- A table in which there is more than one key, and one in which there is no other: what they have
under this key is the same, or has been dropped from the first and does not count any more. -/
structure Agrees (key : String) (now : ℕ) (map alone : LoginRateLimiter) : Prop where
  others : ∀ other, key ≠ other → alone.lookup other = none
  same : map.lookup key = alone.lookup key ∨
    (map.lookup key = none ∧ ∃ entry, alone.lookup key = some entry ∧
      ∀ t ∈ entry.events, rateWindow < durationSince now t)
  seen : ∀ entry, alone.lookup key = some entry →
    entry.lastSeen ≤ now ∧ ∀ t ∈ entry.events, t ≤ entry.lastSeen

namespace Agrees

variable {key : String} {before now : ℕ} {map alone : LoginRateLimiter}

theorem empty (key : String) (now : ℕ) : Agrees key now ∅ ∅ where
  others := fun other _ ↦ Table.lookup_empty other
  same := .inl rfl
  seen := fun entry h ↦ by simp at h

theorem later (h : Agrees key before map alone) (hnow : before ≤ now) :
    Agrees key now map alone where
  others := h.others
  same := by
    rcases h.same with hsame | ⟨hnone, entry, hentry, hexpired⟩
    · exact .inl hsame
    · exact .inr ⟨hnone, entry, hentry, fun t ht ↦
        Nat.lt_of_lt_of_le (hexpired t ht) (Nat.sub_le_sub_right hnow t)⟩
  seen := fun entry hentry ↦
    ⟨(h.seen entry hentry).1.trans hnow, (h.seen entry hentry).2⟩

/-- Attempts under other keys can only drop the entry, when it has expired. -/
theorem check_other (h : Agrees key before map alone) (hnow : before ≤ now) {other : String}
    (hkey : other ≠ key) (limit : UInt32) : Agrees key now (map.check other limit now).2 alone := by
  have hlater := h.later hnow
  refine ⟨hlater.others, ?_, hlater.seen⟩
  rcases @LoginRateLimiter.lookup_check_other map _ _ hkey limit now with
    hkept | ⟨entry, hentry, hidle, hnone⟩
  · rw [hkept]
    exact hlater.same
  · have halone : alone.lookup key = some entry := by
      rcases h.same with hsame | ⟨hmissing, -⟩
      · rw [← hsame, hentry]
      · rw [hmissing] at hentry
        exact nomatch hentry
    refine .inr ⟨hnone, entry, halone, fun t ht ↦ ?_⟩
    have hle := (hlater.seen entry halone).2 t ht
    simp only [durationSince, idleEvict, rateWindow] at hidle ⊢
    omega

/-- In the second table there is always room. -/
theorem not_full (h : Agrees key before map alone) : ¬ Full alone key now := by
  rintro ⟨hnone, hsize⟩
  have hkeys : alone.keys = [] := by
    refine List.eq_nil_iff_forall_not_mem.2 fun other hother ↦ ?_
    rw [Table.mem_keys_iff] at hother
    by_cases hkey : key = other
    · rw [← hkey, hnone] at hother
      exact nomatch hother
    · rw [h.others other hkey] at hother
      exact nomatch hother
  have hle := hsize.trans (LoginRateLimiter.size_evictIdleEntries_le alone now idleEvict)
  rw [Table.size, hkeys] at hle
  exact absurd hle (by decide)

/-- An attempt under the key is answered the same. -/
theorem check_own (h : Agrees key before map alone) (hnow : before ≤ now)
    (hfull : ¬ Full map key now) {limit : UInt32} (hlimit : limit ≠ 0) :
    (map.check key limit now).1 = (alone.check key limit now).1 ∧
      Agrees key now (map.check key limit now).2 (alone.check key limit now).2 := by
  have hlater := h.later hnow
  obtain ⟨hanswer, hentry⟩ := LoginRateLimiter.check_own hfull hlimit
  have halone : ¬ Full alone key now := hlater.not_full
  obtain ⟨hanswer', hentry'⟩ := LoginRateLimiter.check_own halone hlimit
  set queue := ((map.lookup key).map RateEntry.events).getD []
  set queue' := ((alone.lookup key).map RateEntry.events).getD [] with hqueue'
  have hallow : windowAllow queue now limit rateWindow =
      windowAllow queue' now limit rateWindow := by
    rcases hlater.same with hsame | ⟨hnone, entry, halone, hexpired⟩
    · rw [hqueue', ← hsame]
    · have hnil : queue = [] := by simp only [queue, hnone, Option.map_none, Option.getD_none]
      have hevents : queue' = entry.events := by rw [hqueue', halone]; rfl
      rw [hnil, hevents, windowAllow_of_expired hexpired limit hlimit]
  refine ⟨by rw [hanswer, hanswer', hallow], fun other hother ↦ ?_, .inl ?_, ?_⟩
  · have hnone := h.others other hother
    rcases @LoginRateLimiter.lookup_check_other alone _ _ hother limit now with
      hkept | ⟨-, -, -, hdropped⟩
    · rw [hkept, hnone]
    · exact hdropped
  · rw [hentry, hentry', hallow]
  · intro entry hfound
    rw [hentry'] at hfound
    obtain rfl := Option.some.inj hfound
    refine ⟨le_refl _, fun t ht ↦ ?_⟩
    rcases mem_windowAllow ht with hmem | rfl
    · cases halone : alone.lookup key with
      | none =>
        rw [hqueue', halone] at hmem
        cases hmem
      | some entry =>
        rw [hqueue', halone] at hmem
        exact ((hlater.seen entry halone).2 t hmem).trans (hlater.seen entry halone).1
    · exact le_refl _

end Agrees

/-! ### Runs -/

section Runs

variable {admin : String} {attempts : List Attempt}

theorem sensitiveKey_injective {admin admin' : String}
    (h : sensitiveKey admin = sensitiveKey admin') : admin = admin' :=
  String.append_right_inj _ |>.1 h

/-- What is not an operation of the administrator is counted under another key. -/
theorem Agrees.step_other {before : ℕ} {map alone : LoginRateLimiter} {attempt : Attempt}
    (h : Agrees (sensitiveKey admin) before map alone) (hnow : before ≤ attempt.now)
    (hclear : Clear admin map attempt) (hother : attempt.isSensitiveOf admin = false) :
    Agrees (sensitiveKey admin) attempt.now (step map attempt) alone := by
  cases attempt with
  | login username limit now =>
    by_cases hlimit : limit = 0
    · rw [step, Attempt.check, LoginRateLimiter.check, if_pos hlimit]
      exact h.later hnow
    · exact h.check_other hnow (hclear hlimit) limit
  | sensitive username limit now =>
    refine h.check_other hnow (fun hkey ↦ ?_) limit
    exact of_decide_eq_false hother (sensitiveKey_injective hkey)

/-- An operation of the administrator is answered as it is alone. -/
theorem Agrees.step_own {before : ℕ} {map alone : LoginRateLimiter} {attempt : Attempt}
    (h : Agrees (sensitiveKey admin) before map alone) (hnow : before ≤ attempt.now)
    (hclear : Clear admin map attempt) (hown : attempt.isSensitiveOf admin = true) :
    (attempt.check map).1 = (attempt.check alone).1 ∧
      Agrees (sensitiveKey admin) attempt.now (step map attempt) (step alone attempt) := by
  cases attempt with
  | login username limit now => exact nomatch hown
  | sensitive username limit now =>
    obtain rfl : username = admin := of_decide_eq_true hown
    by_cases hlimit : limit = 0
    · simp only [step, Attempt.check, LoginRateLimiter.check, if_pos hlimit, true_and]
      exact h.later hnow
    · exact h.check_own hnow (hclear hlimit rfl) hlimit

theorem Agrees.decisions_eq {before : ℕ} {map alone : LoginRateLimiter}
    (h : Agrees (sensitiveKey admin) before map alone)
    (hsorted : (before :: attempts.map Attempt.now).Pairwise (· ≤ ·))
    (hclear : Transition.EachStep step (Clear admin) map attempts) :
    decisions admin map attempts =
      decisions admin alone (attempts.filter (·.isSensitiveOf admin)) := by
  induction attempts generalizing before map alone with
  | nil => rfl
  | cons attempt rest ih =>
    obtain ⟨hbefore, hrest⟩ := List.pairwise_cons.1 hsorted
    obtain ⟨hfirst, hsteps⟩ := Transition.eachStep_cons.1 hclear
    have hnow : before ≤ attempt.now := hbefore _ List.mem_cons_self
    cases hown : attempt.isSensitiveOf admin with
    | false =>
      rw [decisions, hown, List.filter_cons_of_neg (by simp [hown])]
      exact ih (h.step_other hnow hfirst hown) hrest hsteps
    | true =>
      obtain ⟨hanswer, hagrees⟩ := h.step_own hnow hfirst hown
      rw [List.filter_cons_of_pos hown, decisions, decisions, hown, if_pos rfl, if_pos rfl, hanswer,
        ih hagrees hrest hsteps]

theorem size_run_le (attempts : List Attempt) :
    (Transition.run step ∅ attempts).size ≤ maxRateEntries := by
  refine Transition.run_preserves (P := fun map : LoginRateLimiter ↦ map.size ≤ maxRateEntries) ?_
    (Nat.zero_le _) attempts
  intro map attempt hsize
  cases attempt <;> exact LoginRateLimiter.size_check_le hsize _ _ _

/-- An operation for which there is no room is refused, which alone it would not be. -/
theorem refused_of_full {map : LoginRateLimiter} {limit : UInt32} {now : ℕ}
    (hlimit : limit ≠ 0) (hfull : Full map (sensitiveKey admin) now) :
    (Attempt.check map (.sensitive admin limit now)).1 = false ∧
      (Attempt.check ∅ (.sensitive admin limit now)).1 = true := by
  constructor
  · rw [Attempt.check, LoginRateLimiter.check_of_full hfull hlimit]
  · have hroom : ¬ Full ∅ (sensitiveKey admin) now := (Agrees.empty _ 0).not_full
    rw [Attempt.check, (LoginRateLimiter.check_own hroom hlimit).1, Table.lookup_empty,
      windowAllow, if_neg hlimit]
    have hzero : ¬ limit ≤ (evict [] now rateWindow).length.toUInt32 := by
      intro hle
      rw [UInt32.le_iff_toNat_le] at hle
      exact hlimit (UInt32.toNat_inj.1 (Nat.le_zero.1 hle))
    exact congrArg Prod.fst (if_neg hzero)

/-- In the order of time, the table stays within its bound, and when no login is counted against
the administrator and there is room for the administrator's operations, their answers depend on
nothing else. -/
theorem isolated_of_clear (hsorted : (attempts.map Attempt.now).Pairwise (· ≤ ·))
    (hclear : Transition.EachStep step (Clear admin) ∅ attempts) :
    (∀ before, before <+: attempts →
      (Transition.run step ∅ before).size ≤ maxRateEntries) ∧ Isolated admin attempts := by
  refine ⟨fun before _ ↦ size_run_le before, ?_⟩
  have hfrom : (0 :: attempts.map Attempt.now).Pairwise (· ≤ ·) :=
    List.pairwise_cons.2 ⟨fun t _ ↦ Nat.zero_le t, hsorted⟩
  exact (Agrees.empty (sensitiveKey admin) 0).decisions_eq hfrom hclear

end Runs

/-- Logins of another name do not change what an administrator is answered. -/
theorem isolated_otherLogin :
    (∀ before, before <+: [.login "Bob" 1 0, .sensitive "root" 1 1, .login "Bob" 1 2,
        .sensitive "root" 1 3] →
      (Transition.run step ∅ before).size ≤ maxRateEntries) ∧
    Isolated "root" [.login "Bob" 1 0, .sensitive "root" 1 1, .login "Bob" 1 2,
      .sensitive "root" 1 3] := by
  refine isolated_of_clear (by decide) ?_
  have hkey : rateKey "Bob" ≠ sensitiveKey "root" := by decide +kernel
  refine Transition.eachStep_cons.2 ⟨fun _ ↦ hkey, Transition.eachStep_cons.2 ⟨fun _ _ ↦ ?_,
    Transition.eachStep_cons.2 ⟨fun _ ↦ hkey, Transition.eachStep_cons.2 ⟨fun _ _ ↦ ?_,
      Transition.eachStep_nil⟩⟩⟩⟩
  · exact fun h ↦ absurd h.2 (by decide +kernel)
  · exact fun h ↦ absurd h.2 (by decide +kernel)

/-- A login under the name `sens:root` takes the place of an operation of `root`. -/
theorem not_isolated_forgedLogin :
    ([.login " SENS:root" 1 0, .sensitive "root" 1 1].map Attempt.now).Pairwise (· ≤ ·) ∧
      ¬ Isolated "root" [.login " SENS:root" 1 0, .sensitive "root" 1 1] :=
  ⟨by decide, by decide +kernel⟩

end NextApi.Auth
