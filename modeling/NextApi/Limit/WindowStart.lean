import Mathlib.Data.Int.LeastGreatest
import Mathlib.Data.List.Dedup
import Mathlib.Data.List.Sort
import NextApi.Logging.Batch
import NextApi.Stream.Calendar

/-!
# The start of a quota window

A daily or monthly window begins at midnight of the local day, or of the first day of the local
month. A time zone is given by its transitions. Where the clock shows midnight twice the earlier
instant is taken, and where it never does midnight is read as UTC. So a period has one start, and a
counter, in any case (`charge_key_eq_iff`). It is a start of the period in time as long as no clock
change jumps over the midnights around it (`windowLaws`).

Instants and local times are counted in whole seconds, fractions of which are never looked at.
-/

set_option autoImplicit false

namespace NextApi.Limit

open Logging

/-! ### Time zones -/

/-- A time zone: an offset, and the instants from which on there is another one. -/
structure TimeZone where
  initial : ℤ
  transitions : List (ℤ × ℤ)
  /-- An offset is less than a day. -/
  bounded : ∀ offset ∈ initial :: transitions.map Prod.snd, -86400 < offset ∧ offset < 86400

namespace TimeZone

def utc : TimeZone := ⟨0, [], by simp⟩

variable (zone : TimeZone)

/-- The offset that is in force, the last one that has begun. -/
def offsetAt (t : ℤ) : ℤ :=
  zone.transitions.foldl (fun offset transition ↦
    if transition.1 ≤ t then transition.2 else offset) zone.initial

/-- The time on the wall. -/
def toLocal (t : ℤ) : ℤ := t + zone.offsetAt t

def localDay (t : ℤ) : ℤ := zone.toLocal t / 86400

/-- The instants at which the wall shows a time, in order. -/
def instantsAt (wall : ℤ) : List ℤ :=
  (((zone.initial :: zone.transitions.map Prod.snd).map fun offset ↦ wall - offset).dedup.filter
    fun t ↦ decide (zone.toLocal t = wall)).insertionSort (· ≤ ·)

end TimeZone

/-- What a local time stands for. -/
inductive LocalResult where
  | single (t : ℤ)
  | ambiguous (earliest latest : ℤ)
  | none
  deriving DecidableEq

/-- `and_local_timezone`. -/
def TimeZone.fromLocal (zone : TimeZone) (wall : ℤ) : LocalResult :=
  match zone.instantsAt wall with
  | [] => .none
  | [t] => .single t
  | t :: t' :: _ => .ambiguous t t'

/-! ### Windows -/

/-- The zone of a name; one that is not known stands for UTC. -/
def zoneOf (parse : String → Option TimeZone) (tz : String) : TimeZone := (parse tz).getD .utc

/-- The start of a window. -/
def windowStart (parse : String → Option TimeZone) (window tz : String) (now : ℤ) : ℤ :=
  if window ≠ "daily" ∧ window ≠ "monthly" then 0
  else
    let zone := zoneOf parse tz
    let day := zone.localDay now
    let day := if window = "monthly" then monthStart (monthOf day) else day
    let naive := day * 86400
    match zone.fromLocal naive with
    | .single t => t
    | .ambiguous t _ => t
    | .none => naive

/-! ### The time on the wall -/

namespace TimeZone

variable {zone : TimeZone}

theorem offsetAt_mem (zone : TimeZone) (t : ℤ) :
    zone.offsetAt t ∈ zone.initial :: zone.transitions.map Prod.snd := by
  rw [offsetAt]
  generalize zone.initial = start
  induction zone.transitions generalizing start with
  | nil => exact List.mem_cons_self
  | cons transition rest ih =>
    rw [List.foldl_cons, List.map_cons]
    split
    · exact List.mem_cons_of_mem _ (ih transition.2)
    · rcases List.mem_cons.1 (ih start) with heq | hmem
      · rw [heq]
        exact List.mem_cons_self
      · exact List.mem_cons_of_mem _ (List.mem_cons_of_mem _ hmem)

theorem offsetAt_bounded (zone : TimeZone) (t : ℤ) :
    -86400 < zone.offsetAt t ∧ zone.offsetAt t < 86400 :=
  zone.bounded _ (zone.offsetAt_mem t)

/-- The offset changes at a transition only. -/
theorem offsetAt_pred {t : ℤ} (h : t ∉ zone.transitions.map Prod.fst) :
    zone.offsetAt (t - 1) = zone.offsetAt t := by
  rw [offsetAt, offsetAt]
  generalize zone.initial = start
  generalize zone.transitions = transitions at h ⊢
  induction transitions generalizing start with
  | nil => rfl
  | cons transition rest ih =>
    rw [List.map_cons] at h
    have hne : t ≠ transition.1 := List.ne_of_not_mem_cons h
    have hiff : transition.1 ≤ t - 1 ↔ transition.1 ≤ t := by omega
    rw [List.foldl_cons, List.foldl_cons, if_congr hiff rfl rfl]
    exact ih _ (List.not_mem_of_not_mem_cons h)

theorem mem_instantsAt {wall t : ℤ} : t ∈ zone.instantsAt wall ↔ zone.toLocal t = wall := by
  rw [instantsAt, List.mem_insertionSort, List.mem_filter, List.mem_dedup, List.mem_map,
    decide_eq_true_eq, and_iff_right_iff_imp]
  intro h
  refine ⟨zone.offsetAt t, zone.offsetAt_mem t, ?_⟩
  rw [toLocal] at h
  omega

/-- The earliest instant at which the wall shows a time. -/
def IsEarliest (zone : TimeZone) (wall t : ℤ) : Prop :=
  zone.toLocal t = wall ∧ ∀ t', zone.toLocal t' = wall → t ≤ t'

/-- What midnight stands for: the earliest instant, or midnight in UTC when the wall never shows
it. -/
def Starts (zone : TimeZone) (wall t : ℤ) : Prop :=
  zone.IsEarliest wall t ∨ ((∀ t', zone.toLocal t' ≠ wall) ∧ t = wall)

/-- The three cases of the conversion. -/
theorem starts_fromLocal (zone : TimeZone) (wall : ℤ) :
    zone.Starts wall (match zone.fromLocal wall with
      | .single t => t
      | .ambiguous t _ => t
      | .none => wall) := by
  have hsorted : (zone.instantsAt wall).Pairwise (· ≤ ·) := List.pairwise_insertionSort _ _
  have hmem (t : ℤ) : t ∈ zone.instantsAt wall ↔ zone.toLocal t = wall := mem_instantsAt
  have hhead {t : ℤ} {rest : List ℤ} (h : zone.instantsAt wall = t :: rest) :
      zone.IsEarliest wall t := by
    rw [h] at hsorted hmem
    refine ⟨(hmem t).1 List.mem_cons_self, fun t' ht' ↦ ?_⟩
    rcases List.mem_cons.1 ((hmem t').2 ht') with rfl | ht'
    · exact le_refl _
    · exact List.rel_of_pairwise_cons hsorted ht'
  rw [fromLocal]
  cases hinstants : zone.instantsAt wall with
  | nil =>
    refine Or.inr ⟨fun t ht ↦ ?_, rfl⟩
    rw [← hmem, hinstants] at ht
    exact absurd ht List.not_mem_nil
  | cons t rest =>
    cases rest with
    | nil => exact Or.inl (hhead hinstants)
    | cons t' rest => exact Or.inl (hhead hinstants)

theorem Starts.unique {wall t t' : ℤ} (h : zone.Starts wall t) (h' : zone.Starts wall t') :
    t = t' := by
  rcases h with h | h <;> rcases h' with h' | h'
  · exact le_antisymm (h.2 t' h'.1) (h'.2 t h.1)
  · exact absurd h.1 (h'.1 t)
  · exact absurd h'.1 (h.1 t')
  · rw [h.2, h'.2]

/-- Midnights of different days do not stand for one instant. -/
theorem Starts.day_unique {day day' t : ℤ} (h : zone.Starts (day * 86400) t)
    (h' : zone.Starts (day' * 86400) t) : day = day' := by
  have hbounded := zone.offsetAt_bounded t
  simp only [Starts, IsEarliest, toLocal] at h h'
  omega

/-! ### Jumps -/

/-- At an instant the clock is put forward over a time, which is not shown. -/
def Skips (zone : TimeZone) (t wall : ℤ) : Prop :=
  t + zone.offsetAt (t - 1) ≤ wall ∧ wall < zone.toLocal t

/-- At an instant the clock is put back over a time, which had been shown already. -/
def GoesBack (zone : TimeZone) (t wall : ℤ) : Prop :=
  zone.toLocal t < wall ∧ wall < t + zone.offsetAt (t - 1)

theorem mem_of_skips {t wall : ℤ} (h : zone.Skips t wall) : t ∈ zone.transitions.map Prod.fst := by
  by_contra hnot
  rw [Skips, offsetAt_pred hnot, toLocal] at h
  omega

theorem mem_of_goesBack {t wall : ℤ} (h : zone.GoesBack t wall) :
    t ∈ zone.transitions.map Prod.fst := by
  by_contra hnot
  rw [GoesBack, offsetAt_pred hnot, toLocal] at h
  omega

/-- The first instant at which the wall shows a time or a later one. -/
theorem exists_first (zone : TimeZone) (wall : ℤ) :
    ∃ s, wall ≤ zone.toLocal s ∧ ∀ t, wall ≤ zone.toLocal t → s ≤ t := by
  refine Int.exists_least_of_bdd ⟨wall - 86400, fun t ht ↦ ?_⟩ ⟨wall + 86400, ?_⟩
  · have hbounded := zone.offsetAt_bounded t
    rw [toLocal] at ht
    omega
  · have hbounded := zone.offsetAt_bounded (wall + 86400)
    rw [toLocal]
    omega

/-- It shows that time, unless the clock is put forward over it. -/
theorem toLocal_first {s wall : ℤ} (hs : wall ≤ zone.toLocal s)
    (hfirst : ∀ t, wall ≤ zone.toLocal t → s ≤ t) (hskips : ¬ zone.Skips s wall) :
    zone.toLocal s = wall := by
  have hbefore : zone.toLocal (s - 1) < wall := by
    by_contra hnot
    have hle := hfirst (s - 1) (Int.not_lt.1 hnot)
    omega
  rw [Skips] at hskips
  rw [toLocal] at hbefore hs hskips ⊢
  omega

/-- The wall shows later times from then on, unless the clock is put back. -/
theorem le_toLocal {s now wall : ℤ} (hs : wall ≤ zone.toLocal s)
    (hback : ∀ t, t ≤ now → ¬ zone.GoesBack t wall) {t : ℤ} (hst : s ≤ t) (htn : t ≤ now) :
    wall ≤ zone.toLocal t := by
  induction t, hst using Int.leInduction with
  | base => exact hs
  | succ t hst ih =>
    have hwall := ih (by omega)
    have hnot := hback (t + 1) htn
    rw [GoesBack, Int.add_sub_cancel] at hnot
    rw [toLocal] at hwall hnot ⊢
    omega

end TimeZone

/-! ### The period of an instant -/

/-- The days or months that a window stands for. -/
def periodsOf (window : String) : Periods :=
  if window = "monthly" then .monthly else .daily

section Window

variable {zone : TimeZone} {window : String}

/-- The local day or month of an instant. -/
def periodAt (zone : TimeZone) (window : String) (t : ℤ) : ℤ :=
  (periodsOf window).index (zone.localDay t)

/-- Midnight of the first day of a period. -/
def midnight (window : String) (k : ℤ) : ℤ := (periodsOf window).start k * 86400

theorem periodAt_eq_iff {t k : ℤ} :
    periodAt zone window t = k ↔
      midnight window k ≤ zone.toLocal t ∧ zone.toLocal t < midnight window (k + 1) := by
  rw [periodAt, (periodsOf window).index_eq_iff, midnight, midnight, TimeZone.localDay]
  omega

theorem starts_windowStart (parse : String → Option TimeZone) (tz : String)
    (hwindow : window = "daily" ∨ window = "monthly") (now : ℤ) :
    (zoneOf parse tz).Starts
      (midnight window (periodAt (zoneOf parse tz) window now))
      (windowStart parse window tz now) := by
  have hfirst : (periodsOf window).start
      ((periodsOf window).index ((zoneOf parse tz).localDay now)) =
        if window = "monthly" then monthStart (monthOf ((zoneOf parse tz).localDay now))
        else (zoneOf parse tz).localDay now := by
    rw [periodsOf]
    split <;> rfl
  have hnot : ¬ (window ≠ "daily" ∧ window ≠ "monthly") := fun h ↦ hwindow.elim h.1 h.2
  rw [windowStart, if_neg hnot, midnight, periodAt, hfirst]
  exact (zoneOf parse tz).starts_fromLocal _

/-- No clock change up to an instant jumps over the start of its period, and none goes back over its
end. -/
structure Steady (zone : TimeZone) (window : String) (now : ℤ) : Prop where
  skips : ∀ t ∈ zone.transitions.map Prod.fst, t ≤ now →
    ¬ zone.Skips t (midnight window (periodAt zone window now))
  goesBack : ∀ t ∈ zone.transitions.map Prod.fst, t ≤ now →
    ¬ zone.GoesBack t (midnight window (periodAt zone window now))
  returns : ∀ t ∈ zone.transitions.map Prod.fst, t ≤ now →
    ¬ zone.GoesBack t (midnight window (periodAt zone window now + 1))

/-- From the first midnight of its period on, every instant is in it. -/
theorem Steady.exists_start {now : ℤ} (h : Steady zone window now) :
    ∃ s ≤ now, zone.IsEarliest (midnight window (periodAt zone window now)) s ∧
      ∀ t, s ≤ t → t ≤ now → periodAt zone window t = periodAt zone window now := by
  obtain ⟨hstart, hend⟩ := periodAt_eq_iff.1 (rfl : periodAt zone window now = _)
  obtain ⟨s, hs, hfirst⟩ := zone.exists_first (midnight window (periodAt zone window now))
  have hsn : s ≤ now := hfirst now hstart
  have hlocal := TimeZone.toLocal_first hs hfirst fun hskips ↦
    h.skips s (TimeZone.mem_of_skips hskips) hsn hskips
  refine ⟨s, hsn, ⟨hlocal, fun t ht ↦ hfirst t ht.ge⟩, fun t hst htn ↦ ?_⟩
  refine periodAt_eq_iff.2 ⟨?_, ?_⟩
  · exact TimeZone.le_toLocal hs
      (fun t' ht' hback ↦ h.goesBack t' (TimeZone.mem_of_goesBack hback) ht' hback) hst htn
  · by_contra hnot
    have hlate := TimeZone.le_toLocal (Int.not_lt.1 hnot)
      (fun t' ht' hback ↦ h.returns t' (TimeZone.mem_of_goesBack hback) ht' hback) htn (le_refl now)
    exact absurd hend (Int.not_lt.2 hlate)

end Window

/-! ### What holds of a window -/

section Laws

variable {parse : String → Option TimeZone} {window tz : String}

theorem windowStart_eq_iff (hwindow : window = "daily" ∨ window = "monthly") {t t' : ℤ} :
    windowStart parse window tz t = windowStart parse window tz t' ↔
      periodAt (zoneOf parse tz) window t = periodAt (zoneOf parse tz) window t' := by
  have h := starts_windowStart parse tz hwindow t
  have h' := starts_windowStart parse tz hwindow t'
  constructor
  · intro heq
    rw [heq] at h
    exact (periodsOf window).strictMono_start.injective (h.day_unique h')
  · intro heq
    rw [heq] at h
    exact h.unique h'

/-- The start of the window of a steady instant. -/
theorem Steady.windowStart (hwindow : window = "daily" ∨ window = "monthly") {now : ℤ}
    (h : Steady (zoneOf parse tz) window now) :
    windowStart parse window tz now ≤ now ∧
      ∀ t, windowStart parse window tz now ≤ t → t ≤ now →
        periodAt (zoneOf parse tz) window t = periodAt (zoneOf parse tz) window now := by
  obtain ⟨s, hsn, hearliest, hperiod⟩ := h.exists_start
  obtain rfl := (starts_windowStart parse tz hwindow now).unique
    (Or.inl hearliest)
  exact ⟨hsn, hperiod⟩

theorem windowStart_mono (hwindow : window = "daily" ∨ window = "monthly") {now now' : ℤ}
    (h : Steady (zoneOf parse tz) window now) (h' : Steady (zoneOf parse tz) window now')
    (hle : now ≤ now') :
    windowStart parse window tz now ≤ windowStart parse window tz now' := by
  by_cases hbefore : windowStart parse window tz now' ≤ now
  · exact ((windowStart_eq_iff hwindow).2 ((h'.windowStart hwindow).2 now hbefore hle)).le
  · exact (h.windowStart hwindow).1.trans (Int.not_le.1 hbefore).le

/-- The counter of an event. -/
theorem charge_key {env : Env} {unit : String} {ev : LogEvent} {c : QuotaKey × ℚ}
    (h : charge env unit ev = some c) : ∃ keyId keyWindow keyUnit,
      ev.keyId = some keyId ∧ env.keyQuota keyId = some (keyUnit, keyWindow) ∧
        c.1 = ⟨keyId, unit, keyWindow.getD "total",
          env.windowStart (keyWindow.getD "total") (ev.ts / 10 ^ 9)⟩ := by
  simp only [charge, Option.bind_eq_bind, Option.bind_eq_some_iff] at h
  obtain ⟨keyId, hkey, ⟨keyUnit, keyWindow⟩, hquota, h⟩ := h
  split at h
  · exact absurd h (by simp)
  · obtain ⟨amount, -, h⟩ := Option.bind_eq_some_iff.1 h
    obtain rfl := Option.some.inj h
    exact ⟨keyId, keyWindow, keyUnit, hkey, hquota, rfl⟩

/-- Two events of a key are charged to one counter when they fall in one period. -/
theorem charge_key_eq_iff (hwindow : window = "daily" ∨ window = "monthly") {env : Env}
    (henv : ∀ w t, env.windowStart w t = windowStart parse w tz t) {unit : String}
    {ev ev' : LogEvent} {c c' : QuotaKey × ℚ} (h : charge env unit ev = some c)
    (h' : charge env unit ev' = some c') (hkey : ev.keyId = ev'.keyId)
    (hkind : c.1.windowKind = window) :
    c.1 = c'.1 ↔ periodAt (zoneOf parse tz) window (ev.ts / 10 ^ 9) =
      periodAt (zoneOf parse tz) window (ev'.ts / 10 ^ 9) := by
  obtain ⟨keyId, keyWindow, keyUnit, hid, hquota, hc⟩ := charge_key h
  obtain ⟨keyId', keyWindow', keyUnit', hid', hquota', hc'⟩ := charge_key h'
  rw [hkey, hid'] at hid
  obtain rfl := Option.some.inj hid
  rw [hquota] at hquota'
  obtain ⟨-, rfl⟩ := Prod.mk.inj (Option.some.inj hquota')
  rw [hc] at hkind
  rw [← windowStart_eq_iff hwindow, hc, hc', QuotaKey.mk.injEq, henv, henv, ← hkind]
  simp only [true_and]

/-- What holds of a window in a zone, for instants in nanoseconds. -/
structure WindowLaws (parse : String → Option TimeZone) (window tz : String) : Prop where
  starts : ∀ now : ℤ,
    (zoneOf parse tz).Starts (midnight window (periodAt (zoneOf parse tz) window (now / 10 ^ 9)))
      (windowStart parse window tz (now / 10 ^ 9))
  onePerPeriod : ∀ now now' : ℤ,
    windowStart parse window tz (now / 10 ^ 9) = windowStart parse window tz (now' / 10 ^ 9) ↔
      periodAt (zoneOf parse tz) window (now / 10 ^ 9) =
        periodAt (zoneOf parse tz) window (now' / 10 ^ 9)
  steady : ∀ now : ℤ, Steady (zoneOf parse tz) window (now / 10 ^ 9) →
    windowStart parse window tz (now / 10 ^ 9) * 10 ^ 9 ≤ now ∧
      periodAt (zoneOf parse tz) window (windowStart parse window tz (now / 10 ^ 9)) =
        periodAt (zoneOf parse tz) window (now / 10 ^ 9) ∧
      ∀ u, windowStart parse window tz (now / 10 ^ 9) * 10 ^ 9 ≤ u → u ≤ now →
        windowStart parse window tz (u / 10 ^ 9) = windowStart parse window tz (now / 10 ^ 9)
  monotone : ∀ now now' : ℤ, Steady (zoneOf parse tz) window (now / 10 ^ 9) →
    Steady (zoneOf parse tz) window (now' / 10 ^ 9) → now ≤ now' →
      windowStart parse window tz (now / 10 ^ 9) ≤ windowStart parse window tz (now' / 10 ^ 9)
  oneCounter : ∀ (env : Env) (unit : String) (ev ev' : LogEvent) (c c' : QuotaKey × ℚ),
    (∀ w t, env.windowStart w t = windowStart parse w tz t) → charge env unit ev = some c →
      charge env unit ev' = some c' → ev.keyId = ev'.keyId → c.1.windowKind = window →
        (c.1 = c'.1 ↔ periodAt (zoneOf parse tz) window (ev.ts / 10 ^ 9) =
          periodAt (zoneOf parse tz) window (ev'.ts / 10 ^ 9))

theorem windowLaws (parse : String → Option TimeZone) (window tz : String)
    (hwindow : window = "daily" ∨ window = "monthly") : WindowLaws parse window tz where
  starts now := starts_windowStart parse tz hwindow _
  onePerPeriod now now' := windowStart_eq_iff hwindow
  steady now h := by
    obtain ⟨hle, hperiod⟩ := h.windowStart hwindow
    refine ⟨by omega, hperiod _ (le_refl _) hle, fun u hsu hun ↦ ?_⟩
    exact (windowStart_eq_iff hwindow).2 (hperiod _ (by omega) (by omega))
  monotone now now' h h' hle := windowStart_mono hwindow h h' (by omega)
  oneCounter env unit ev ev' c c' henv h h' := charge_key_eq_iff hwindow henv h h'

end Laws

/-! ### Clock changes at midnight -/

/-- The clock is put from midnight to one in spring. -/
def beirut : TimeZone := ⟨7200, [(1711836000, 10800)], by decide⟩

/-- The clock is put from a minute past midnight to a minute past eleven in autumn. -/
def stJohns : TimeZone := ⟨-9000, [(1289097060, -12600)], by decide⟩

def twoZones : String → Option TimeZone
  | "Asia/Beirut" => some beirut
  | "America/St_Johns" => some stJohns
  | _ => none

theorem windowLaws_beirut :
    WindowLaws twoZones "daily" "Asia/Beirut" ∧ Steady beirut "daily" 1711922400 := by
  refine ⟨windowLaws twoZones "daily" "Asia/Beirut" (Or.inl rfl), ?_, ?_, ?_⟩
  all_goals
    intro t ht _
    obtain rfl := List.mem_singleton.1 ht
  · rw [TimeZone.Skips]
    decide +kernel
  · rw [TimeZone.GoesBack]
    decide +kernel
  · rw [TimeZone.GoesBack]
    decide +kernel

/-- A window that starts after the instant, and an instant whose window starts earlier than that of
the instant before it. -/
theorem not_windowStart_le_midnight :
    ¬ (windowStart twoZones "daily" "Asia/Beirut" 1711836000 ≤ 1711836000) ∧
      ¬ (windowStart twoZones "daily" "America/St_Johns" 1289097059 ≤
        windowStart twoZones "daily" "America/St_Johns" 1289097060) := by
  decide +kernel

end NextApi.Limit
