import Mathlib.Data.List.TakeWhile
import Mathlib.Data.UInt
import NextApi.Logging.Event
import NextApi.Stream.Run
import NextApi.Stream.Table

/-!
# The requests of a minute

Every key has a queue with the instants of its admitted requests. Before a request is judged, the
instants in front that are older than the window are dropped; it is admitted when fewer than the
limit are left. On a clock that never goes back the queue holds the admitted instants of the closed
window (`windowAllow_iff`).

`rpmStatus` tells how many requests remain, from the instants that are younger than the window. It
agrees with `checkRpm` unless an instant that is exactly as old as the window makes the difference
(`statusAgrees_iff`).

Instants are in nanoseconds. The age of an instant that is yet to come is zero.
-/

set_option autoImplicit false

namespace NextApi.Limit

open Logging

/-! ### The window -/

def rpmWindow : ℕ := 60 * 10 ^ 9

/-- `duration_since`. -/
def durationSince (now t : ℕ) : ℕ := now - t

/-- Drops what has expired from the front. -/
def evict (queue : List ℕ) (now window : ℕ) : List ℕ :=
  queue.dropWhile fun t ↦ decide (window < durationSince now t)

/-- Whether a request is admitted, and the queue after it; without a limit nothing is counted. -/
def windowAllow (queue : List ℕ) (now : ℕ) (limit : UInt32) (window : ℕ) : Bool × List ℕ :=
  if limit = 0 then (true, queue)
  else
    let queue := evict queue now window
    if limit ≤ queue.length.toUInt32 then (false, queue) else (true, queue ++ [now])

/-! ### The limiter -/

/-- What the limiter reads of a key. -/
structure ApiKeyRow where
  id : Uuid
  rpm : Option Int32
  deriving DecidableEq

/-- The limit of a key; zero is none. -/
def ApiKeyRow.limit (key : ApiKeyRow) (defaultRpm : UInt32) : UInt32 :=
  match key.rpm with
  | some r => if r ≤ 0 then 0 else r.toUInt32
  | none => defaultRpm

/-- The queues of the keys. -/
abbrev RateLimiter := Table Uuid (List ℕ)

def RateLimiter.queue (windows : RateLimiter) (id : Uuid) : List ℕ := (windows.lookup id).getD []

/-- Whether a request of a key is admitted. -/
def RateLimiter.checkRpm (windows : RateLimiter) (key : ApiKeyRow) (defaultRpm : UInt32)
    (now : ℕ) : Bool × RateLimiter :=
  let limit := key.limit defaultRpm
  if limit = 0 then (true, windows)
  else
    let allowed := windowAllow (windows.queue key.id) now limit rpmWindow
    (allowed.1, windows.insert key.id allowed.2)

/-- The limit and how many requests remain, if there is a limit. -/
def RateLimiter.rpmStatus (windows : RateLimiter) (key : ApiKeyRow) (defaultRpm : UInt32)
    (now : ℕ) : Option (UInt32 × UInt32) :=
  let limit := key.limit defaultRpm
  if limit = 0 then none
  else
    let used := ((windows.queue key.id).countP fun t ↦
      decide (durationSince now t < rpmWindow)).toUInt32
    some (limit, if used ≤ limit then limit - used else 0)

def RateLimiter.removeKey (windows : RateLimiter) (id : Uuid) : RateLimiter := windows.erase id

/-- What changes the queues. -/
inductive Action where
  | check (key : ApiKeyRow) (defaultRpm : UInt32) (now : ℕ)
  | remove (id : Uuid)

def step (windows : RateLimiter) : Action → RateLimiter
  | .check key defaultRpm now => (windows.checkRpm key defaultRpm now).2
  | .remove id => windows.removeKey id

abbrev run (actions : List Action) : RateLimiter := Transition.run step ∅ actions

/-- The instants of the requests. -/
def instants (actions : List Action) : List ℕ :=
  actions.filterMap fun
    | .check _ _ now => some now
    | .remove _ => none

/-! ### Queues are short -/

theorem toNat_toUInt32 {n : ℕ} (h : n < 2 ^ 32) : n.toUInt32.toNat = n :=
  Nat.mod_eq_of_lt h

theorem evict_sublist (queue : List ℕ) (now window : ℕ) : (evict queue now window).Sublist queue :=
  List.dropWhile_sublist _

/-- Up to the length of the queue that stays, a request is admitted below the limit. -/
theorem windowAllow_cases {queue : List ℕ} {limit : UInt32} (now window : ℕ)
    (hlen : queue.length < 2 ^ 32) (hlimit : limit ≠ 0) :
    (limit.toNat ≤ (evict queue now window).length ∧
      windowAllow queue now limit window = (false, evict queue now window)) ∨
    ((evict queue now window).length < limit.toNat ∧
      windowAllow queue now limit window = (true, evict queue now window ++ [now])) := by
  have hshort : (evict queue now window).length < 2 ^ 32 :=
    Nat.lt_of_le_of_lt (evict_sublist _ _ _).length_le hlen
  have hle : limit ≤ (evict queue now window).length.toUInt32 ↔
      limit.toNat ≤ (evict queue now window).length := by
    rw [UInt32.le_iff_toNat_le, toNat_toUInt32 hshort]
  rw [windowAllow, if_neg hlimit]
  by_cases hfull : limit.toNat ≤ (evict queue now window).length
  · exact .inl ⟨hfull, if_pos (hle.2 hfull)⟩
  · exact .inr ⟨Nat.lt_of_not_le hfull, if_neg fun h ↦ hfull (hle.1 h)⟩

theorem length_windowAllow {queue : List ℕ} (limit : UInt32) (now window : ℕ)
    (hlen : queue.length < 2 ^ 32) : (windowAllow queue now limit window).2.length < 2 ^ 32 := by
  by_cases hlimit : limit = 0
  · rwa [windowAllow, if_pos hlimit]
  · have hmax : limit.toNat < 2 ^ 32 := limit.toNat_lt
    have hle := (evict_sublist queue now window).length_le
    rcases windowAllow_cases now window hlen hlimit with ⟨-, heq⟩ | ⟨hlt, heq⟩
    · rw [heq]
      exact Nat.lt_of_le_of_lt hle hlen
    · rw [heq, List.length_append, List.length_singleton]
      omega

/-! ### One queue in the order of time -/

section Sorted

variable {old : ℕ → Bool}

/-- Behind an instant that stays there is none that would not. -/
theorem not_old_of_mem_dropWhile (hmono : ∀ {s t}, s ≤ t → old t → old s) {queue : List ℕ}
    (hsorted : queue.Pairwise (· ≤ ·)) {t : ℕ} (ht : t ∈ queue.dropWhile old) : ¬ old t := by
  induction queue with
  | nil => exact nomatch ht
  | cons first rest ih =>
    obtain ⟨hfirst, hrest⟩ := List.pairwise_cons.1 hsorted
    rw [List.dropWhile_cons] at ht
    split at ht
    · exact ih hrest ht
    · rename_i hstays
      rcases List.mem_cons.1 ht with rfl | hmem
      · exact hstays
      · exact fun hold ↦ hstays (hmono (hfirst t hmem) hold)

theorem countP_not_old (hmono : ∀ {s t}, s ≤ t → old t → old s) {queue : List ℕ}
    (hsorted : queue.Pairwise (· ≤ ·)) :
    (queue.countP fun t ↦ !old t) = (queue.dropWhile old).length := by
  have hdropped : ((queue.takeWhile old).countP fun t ↦ !old t) = 0 :=
    List.countP_eq_zero.2 fun t ht ↦ by simp [List.mem_takeWhile_imp ht]
  have hstays : ((queue.dropWhile old).countP fun t ↦ !old t) = (queue.dropWhile old).length :=
    List.countP_eq_length.2 fun t ht ↦ by simpa using not_old_of_mem_dropWhile hmono hsorted ht
  have hall := congrArg (List.countP fun t ↦ !old t)
    (List.takeWhile_append_dropWhile (p := old) (l := queue))
  rw [List.countP_append, hdropped, Nat.zero_add, hstays] at hall
  exact hall.symm

/-- The old instants are those in front. -/
theorem old_iff_of_getElem? (hmono : ∀ {s t}, s ≤ t → old t → old s) {queue : List ℕ}
    (hsorted : queue.Pairwise (· ≤ ·)) {i t : ℕ} (hi : queue[i]? = some t) :
    old t ↔ i + (queue.dropWhile old).length < queue.length := by
  have hparts := List.takeWhile_append_dropWhile (p := old) (l := queue)
  have hlength := congrArg List.length hparts
  rw [List.length_append] at hlength
  have hlt : i < queue.length := (List.getElem?_eq_some_iff.1 hi).1
  by_cases hfront : i < (queue.takeWhile old).length
  · rw [← hparts, List.getElem?_append_left hfront] at hi
    exact iff_of_true (List.mem_takeWhile_imp (List.mem_of_getElem? hi)) (by omega)
  · rw [← hparts, List.getElem?_append_right (by omega)] at hi
    exact iff_of_false
      (not_old_of_mem_dropWhile hmono hsorted (List.mem_of_getElem? hi)) (by omega)

end Sorted

theorem durationSince_anti (now : ℕ) {s t : ℕ} (h : s ≤ t) :
    durationSince now t ≤ durationSince now s :=
  Nat.sub_le_sub_left h now

/-- In order, what stays is what is at most as old as the window. -/
theorem countP_window {queue : List ℕ} (hsorted : queue.Pairwise (· ≤ ·)) (now window : ℕ) :
    (queue.countP fun t ↦ decide (durationSince now t ≤ window)) =
      (evict queue now window).length := by
  have hmono {s t : ℕ} (hle : s ≤ t) (hold : decide (window < durationSince now t)) :
      decide (window < durationSince now s) :=
    decide_eq_true (Nat.lt_of_lt_of_le (of_decide_eq_true hold) (durationSince_anti now hle))
  rw [evict, ← countP_not_old hmono hsorted]
  exact List.countP_congr fun t _ ↦ by simp

/-- What is dropped has expired. -/
theorem exists_evict (queue : List ℕ) (now window : ℕ) :
    ∃ expired, queue = expired ++ evict queue now window ∧
      ∀ t ∈ expired, window < durationSince now t :=
  ⟨_, List.takeWhile_append_dropWhile.symm, fun _ ht ↦ by simpa using List.mem_takeWhile_imp ht⟩

/-- A queue together with all instants that were admitted. -/
structure History where
  queue : List ℕ := []
  admitted : List ℕ := []

def History.attempt (limit : UInt32) (window : ℕ) (h : History) (now : ℕ) : History :=
  let allowed := windowAllow h.queue now limit window
  ⟨allowed.2, if allowed.1 then h.admitted ++ [now] else h.admitted⟩

/-- What is left of some attempts at these instants. -/
def history (limit : UInt32) (window : ℕ) (attempts : List ℕ) : History :=
  Transition.run (History.attempt limit window) {} attempts

/-- The queue is the end of what was admitted, and all the rest has expired. -/
structure History.Tracks (window : ℕ) (limit : UInt32) (attempts : List ℕ) (h : History) :
    Prop where
  length_le : h.queue.length ≤ limit.toNat
  sublist : h.admitted.Sublist attempts
  expired : ∃ expired, h.admitted = expired ++ h.queue ∧
    ∀ a ∈ expired, ∀ now, (∀ t ∈ attempts, t ≤ now) → window < durationSince now a

/-- What stays of the queue at an instant is what was admitted in the window before it. -/
theorem History.Tracks.countP_eq {window : ℕ} {limit : UInt32} {attempts : List ℕ} {h : History}
    (htracks : h.Tracks window limit attempts) {now : ℕ}
    (hsorted : (attempts ++ [now]).Pairwise (· ≤ ·)) :
    (h.admitted.countP fun a ↦ decide (durationSince now a ≤ window)) =
      (evict h.queue now window).length := by
  obtain ⟨hattempts, -, hnow⟩ := List.pairwise_append.1 hsorted
  have hlast : ∀ t ∈ attempts, t ≤ now := fun t ht ↦ hnow t ht now (List.mem_singleton_self _)
  obtain ⟨expired, hadmitted, hexpired⟩ := htracks.expired
  have hqsorted : h.queue.Pairwise (· ≤ ·) :=
    (hattempts.sublist htracks.sublist).sublist (hadmitted ▸ List.sublist_append_right _ _)
  rw [hadmitted, List.countP_append, List.countP_eq_zero.2 fun a ha ↦ by
    simpa using hexpired a ha now hlast, Nat.zero_add, countP_window hqsorted]

theorem History.Tracks.length_lt {window : ℕ} {limit : UInt32} {attempts : List ℕ} {h : History}
    (htracks : h.Tracks window limit attempts) : h.queue.length < 2 ^ 32 :=
  Nat.lt_of_le_of_lt htracks.length_le limit.toNat_lt

theorem History.Tracks.attempt {window : ℕ} {limit : UInt32} (hlimit : limit ≠ 0)
    {attempts : List ℕ} {h : History} (htracks : h.Tracks window limit attempts) (now : ℕ) :
    (h.attempt limit window now).Tracks window limit (attempts ++ [now]) := by
  obtain ⟨expired, hadmitted, hexpired⟩ := htracks.expired
  obtain ⟨dropped, hqueue, hdropped⟩ := exists_evict h.queue now window
  have hgone : ∀ a ∈ expired ++ dropped, ∀ later, (∀ t ∈ attempts ++ [now], t ≤ later) →
      window < durationSince later a := by
    intro a ha later hlater
    rcases List.mem_append.1 ha with ha | ha
    · exact hexpired a ha later fun t ht ↦ hlater t (List.mem_append_left _ ht)
    · exact Nat.lt_of_lt_of_le (hdropped a ha)
        (Nat.sub_le_sub_right (hlater now (List.mem_append_right _ (List.mem_singleton_self _))) a)
  have hsplit : h.admitted = expired ++ dropped ++ evict h.queue now window := by
    rw [hadmitted, List.append_assoc, ← hqueue]
  rcases windowAllow_cases now window htracks.length_lt hlimit with ⟨-, heq⟩ | ⟨hlt, heq⟩
  · rw [History.attempt, heq]
    exact ⟨(evict_sublist _ _ _).length_le.trans htracks.length_le,
      htracks.sublist.trans (List.sublist_append_left _ _), expired ++ dropped, hsplit, hgone⟩
  · have hnext : h.attempt limit window now =
        ⟨evict h.queue now window ++ [now], h.admitted ++ [now]⟩ := by
      rw [History.attempt, heq]
      rfl
    rw [hnext]
    refine ⟨?_, htracks.sublist.append_right [now], expired ++ dropped, ?_, hgone⟩
    · rw [List.length_append, List.length_singleton]
      exact hlt
    · rw [hsplit, List.append_assoc]

theorem tracks_history (window : ℕ) {limit : UInt32} (hlimit : limit ≠ 0) (attempts : List ℕ) :
    (history limit window attempts).Tracks window limit attempts :=
  Transition.run_history (P := fun ts (h : History) ↦ h.Tracks window limit ts)
    ⟨Nat.zero_le _, .slnil, [], rfl, fun _ ha ↦ nomatch ha⟩
    (fun _ now h ↦ h.attempt hlimit now) attempts

/-- In the order of time, an attempt is admitted if and only if fewer than the limit were admitted
in the closed window before it. -/
theorem windowAllow_iff {limit : UInt32} (hlimit : limit ≠ 0) (window : ℕ) {attempts : List ℕ}
    {now : ℕ} (hsorted : (attempts ++ [now]).Pairwise (· ≤ ·)) :
    (windowAllow (history limit window attempts).queue now limit window).1 = true ↔
      ((history limit window attempts).admitted.countP fun a ↦
        decide (durationSince now a ≤ window)) < limit.toNat := by
  have htracks := tracks_history window hlimit attempts
  rw [htracks.countP_eq hsorted]
  rcases windowAllow_cases now window htracks.length_lt hlimit with ⟨hfull, heq⟩ | ⟨hlt, heq⟩
  · rw [heq]
    exact iff_of_false Bool.false_ne_true (Nat.not_lt.2 hfull)
  · rw [heq]
    exact iff_of_true rfl hlt

/-! ### The status -/

/-- The status says that requests remain if and only if the next request is admitted. -/
def StatusAgrees (windows : RateLimiter) (key : ApiKeyRow) (defaultRpm : UInt32) (now : ℕ) :
    Prop :=
  (windows.rpmStatus key defaultRpm now).all (fun status ↦ decide (0 < status.2)) =
    (windows.checkRpm key defaultRpm now).1

instance (windows : RateLimiter) (key : ApiKeyRow) (defaultRpm : UInt32) (now : ℕ) :
    Decidable (StatusAgrees windows key defaultRpm now) :=
  inferInstanceAs (Decidable (_ = _))

/-- How many instants are younger than the window. -/
def young (queue : List ℕ) (now : ℕ) : ℕ :=
  queue.countP fun t ↦ decide (durationSince now t < rpmWindow)

/-- The instants that stay reach the limit, but not those that are younger than the window. -/
def Straddles (queue : List ℕ) (limit : UInt32) (now : ℕ) : Prop :=
  young queue now < limit.toNat ∧ limit.toNat ≤ (evict queue now rpmWindow).length

theorem queue_checkRpm (windows : RateLimiter) (key : ApiKeyRow) (defaultRpm : UInt32) (now : ℕ)
    (id : Uuid) :
    (windows.checkRpm key defaultRpm now).2.queue id = windows.queue id ∨
      (windows.checkRpm key defaultRpm now).2.queue id =
        (windowAllow (windows.queue id) now (key.limit defaultRpm) rpmWindow).2 := by
  rw [RateLimiter.checkRpm]
  by_cases hlimit : key.limit defaultRpm = 0
  · rw [if_pos hlimit]
    exact .inl rfl
  · rw [if_neg hlimit]
    by_cases hid : key.id = id
    · right
      simp [RateLimiter.queue, hid]
    · left
      simp [RateLimiter.queue, hid]

theorem queue_removeKey (windows : RateLimiter) (id other : Uuid) :
    (windows.removeKey id).queue other = windows.queue other ∨
      (windows.removeKey id).queue other = [] := by
  rw [RateLimiter.removeKey, RateLimiter.queue, Table.lookup_erase]
  by_cases hid : id = other
  · exact .inr (by rw [if_pos hid]; rfl)
  · exact .inl (by rw [if_neg hid]; rfl)

theorem windowAllow_sublist (queue : List ℕ) (now : ℕ) (limit : UInt32) (window : ℕ) :
    (windowAllow queue now limit window).2.Sublist (queue ++ [now]) := by
  rw [windowAllow]
  split
  · exact List.sublist_append_left _ _
  · dsimp only
    split
    · exact (evict_sublist queue now window).trans (List.sublist_append_left _ _)
    · exact (evict_sublist queue now window).append_right _

/-- A queue is short and holds instants of requests, in their order. -/
theorem queue_run (actions : List Action) (id : Uuid) :
    ((run actions).queue id).length < 2 ^ 32 ∧
      ((run actions).queue id).Sublist (instants actions) := by
  refine Transition.run_history
    (P := fun before (windows : RateLimiter) ↦ (windows.queue id).length < 2 ^ 32 ∧
      (windows.queue id).Sublist (instants before))
    ?_ (fun before a ⟨hlen, hsub⟩ ↦ ?_) actions
  · have hempty : RateLimiter.queue ∅ id = [] := by simp [RateLimiter.queue]
    rw [hempty]
    exact ⟨Nat.two_pow_pos 32, List.nil_sublist _⟩
  rw [instants, List.filterMap_append]
  cases a with
  | check key defaultRpm now =>
    rcases queue_checkRpm (Transition.run step ∅ before) key defaultRpm now id with heq | heq
    · rw [step, heq]
      exact ⟨hlen, hsub.trans (List.sublist_append_left _ _)⟩
    · rw [step, heq]
      exact ⟨length_windowAllow _ _ _ hlen,
        (windowAllow_sublist _ _ _ _).trans (hsub.append_right [now])⟩
  | remove other =>
    rcases queue_removeKey (Transition.run step ∅ before) other id with heq | heq
    · rw [step, heq]
      exact ⟨hlen, hsub.trans (List.sublist_append_left _ _)⟩
    · rw [step, heq]
      exact ⟨Nat.two_pow_pos 32, List.nil_sublist _⟩

theorem statusAgrees_of_unlimited {key : ApiKeyRow} {defaultRpm : UInt32}
    (h : key.limit defaultRpm = 0) (windows : RateLimiter) (now : ℕ) :
    StatusAgrees windows key defaultRpm now := by
  rw [StatusAgrees, RateLimiter.rpmStatus, RateLimiter.checkRpm, h]
  rfl

theorem remaining_pos (limit used : UInt32) :
    0 < (if used ≤ limit then limit - used else 0) ↔ used.toNat < limit.toNat := by
  split
  · rename_i hle
    rw [UInt32.lt_iff_toNat_lt, UInt32.toNat_sub_of_le _ _ hle]
    exact Nat.sub_pos_iff_lt
  · rename_i hgt
    rw [UInt32.le_iff_toNat_le] at hgt
    exact iff_of_false (by decide) fun hlt ↦ hgt (Nat.le_of_lt hlt)

theorem statusAgrees_iff_not_straddles {windows : RateLimiter} {key : ApiKeyRow}
    {defaultRpm : UInt32} (now : ℕ) (hlen : (windows.queue key.id).length < 2 ^ 32)
    (hlimit : key.limit defaultRpm ≠ 0) :
    StatusAgrees windows key defaultRpm now ↔
      ¬ Straddles (windows.queue key.id) (key.limit defaultRpm) now := by
  have hyoung : young (windows.queue key.id) now ≤
      (evict (windows.queue key.id) now rpmWindow).length := by
    obtain ⟨expired, hqueue, hexpired⟩ := exists_evict (windows.queue key.id) now rpmWindow
    rw [young]
    nth_rewrite 1 [hqueue]
    rw [List.countP_append, List.countP_eq_zero.2 fun t ht ↦ by
      simpa using Nat.le_of_lt (hexpired t ht), Nat.zero_add]
    exact List.countP_le_length
  have hused : (young (windows.queue key.id) now).toUInt32.toNat =
      young (windows.queue key.id) now :=
    toNat_toUInt32 (Nat.lt_of_le_of_lt List.countP_le_length hlen)
  have hremains : (windows.rpmStatus key defaultRpm now).all (fun status ↦ decide (0 < status.2)) =
      decide (young (windows.queue key.id) now < (key.limit defaultRpm).toNat) := by
    rw [RateLimiter.rpmStatus, if_neg hlimit, Option.all_some]
    exact decide_eq_decide.2 ((remaining_pos _ _).trans (by rw [← young, hused]))
  rw [StatusAgrees, hremains, RateLimiter.checkRpm, if_neg hlimit, Straddles]
  rcases windowAllow_cases now rpmWindow hlen hlimit with ⟨hfull, heq⟩ | ⟨hlt, heq⟩
  · rw [heq]
    simp [hfull]
  · rw [heq]
    simp only [decide_eq_true_eq]
    omega

/-- In the order of time, the limit is reached only with the window's oldest instant. -/
theorem straddles_iff {queue : List ℕ} (hsorted : queue.Pairwise (· ≤ ·)) {limit : UInt32}
    (hlimit : limit ≠ 0) (now : ℕ) :
    Straddles queue limit now ↔
      ∃ t, queue.reverse[limit.toNat - 1]? = some t ∧ durationSince now t = rpmWindow := by
  have hpos : 0 < limit.toNat := Nat.pos_of_ne_zero fun h ↦ hlimit (UInt32.toNat_inj.1 h)
  have hexpired {s t : ℕ} (hle : s ≤ t) (hold : decide (rpmWindow < durationSince now t)) :
      decide (rpmWindow < durationSince now s) :=
    decide_eq_true (Nat.lt_of_lt_of_le (of_decide_eq_true hold) (durationSince_anti now hle))
  have hold {s t : ℕ} (hle : s ≤ t) (hold : decide (rpmWindow ≤ durationSince now t)) :
      decide (rpmWindow ≤ durationSince now s) :=
    decide_eq_true (Nat.le_trans (of_decide_eq_true hold) (durationSince_anti now hle))
  have hyoung : young queue now =
      (queue.dropWhile fun t ↦ decide (rpmWindow ≤ durationSince now t)).length := by
    rw [← countP_not_old hold hsorted, young]
    exact List.countP_congr fun t _ ↦ by simp
  have hkept := (evict_sublist queue now rpmWindow).length_le
  have hage {t : ℕ} (ht : queue[queue.length - limit.toNat]? = some t)
      (hle : limit.toNat ≤ queue.length) :
      durationSince now t = rpmWindow ↔ Straddles queue limit now := by
    have hge := old_iff_of_getElem? hold hsorted ht
    have hgt := old_iff_of_getElem? hexpired hsorted ht
    rw [decide_eq_true_iff, ← hyoung] at hge
    rw [decide_eq_true_iff, ← evict] at hgt
    rw [Straddles]
    omega
  by_cases hle : limit.toNat ≤ queue.length
  · have hidx : queue.length - 1 - (limit.toNat - 1) = queue.length - limit.toNat := by omega
    rw [List.getElem?_reverse (by omega), hidx]
    have hlt : queue.length - limit.toNat < queue.length := by omega
    rw [List.getElem?_eq_getElem hlt]
    refine ⟨fun h ↦ ⟨_, rfl, (hage (List.getElem?_eq_getElem hlt) hle).2 h⟩, ?_⟩
    rintro ⟨t, ht, heq⟩
    exact (hage ((List.getElem?_eq_getElem hlt).trans ht) hle).1 heq
  · refine iff_of_false (fun h ↦ hle (h.2.trans hkept)) ?_
    rintro ⟨t, ht, -⟩
    have := (List.getElem?_eq_some_iff.1 ht).1
    rw [List.length_reverse] at this
    omega

/-- Attempts in the order of time are judged by the closed window; the status agrees with the judge
unless the instant that fills the window is exactly as old as the window. -/
theorem rateLimiter_exact (limit : UInt32) (attempts : List ℕ) (attempt : ℕ)
    (actions : List Action) (key : ApiKeyRow) (defaultRpm : UInt32) (now : ℕ) :
    (limit ≠ 0 → (attempts ++ [attempt]).Pairwise (· ≤ ·) →
      ((windowAllow (history limit rpmWindow attempts).queue attempt limit rpmWindow).1 = true ↔
        ((history limit rpmWindow attempts).admitted.countP fun a ↦
          decide (durationSince attempt a ≤ rpmWindow)) < limit.toNat)) ∧
    (StatusAgrees (run actions) key defaultRpm now ↔ key.limit defaultRpm ≠ 0 →
      ¬ Straddles ((run actions).queue key.id) (key.limit defaultRpm) now) ∧
    ((instants actions).Pairwise (· ≤ ·) → key.limit defaultRpm ≠ 0 →
      (Straddles ((run actions).queue key.id) (key.limit defaultRpm) now ↔
        ∃ t, ((run actions).queue key.id).reverse[(key.limit defaultRpm).toNat - 1]? = some t ∧
          durationSince now t = rpmWindow)) := by
  refine ⟨fun hlimit hsorted ↦ windowAllow_iff hlimit rpmWindow hsorted, ?_,
    fun hsorted hlimit ↦ ?_⟩
  · by_cases hlimit : key.limit defaultRpm = 0
    · exact iff_of_true (statusAgrees_of_unlimited hlimit _ _) fun h ↦ absurd hlimit h
    · rw [statusAgrees_iff_not_straddles now (queue_run actions key.id).1 hlimit]
      exact ⟨fun h _ ↦ h, fun h ↦ h hlimit⟩
  · exact straddles_iff (hsorted.sublist (queue_run actions key.id).2) hlimit now

/-- With one request a minute, one request exactly a minute ago. -/
theorem not_statusAgrees_minute :
    ¬ ∀ (actions : List Action) (key : ApiKeyRow) (defaultRpm : UInt32) (now : ℕ),
      (instants actions ++ [now]).Pairwise (· ≤ ·) →
        StatusAgrees (run actions) key defaultRpm now := by
  intro h
  have hagrees := h [.check ⟨0, none⟩ 1 0] ⟨0, none⟩ 1 rpmWindow (by decide)
  exact absurd hagrees (by decide +kernel)

end NextApi.Limit
