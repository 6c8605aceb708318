import Mathlib.Data.List.Induction
import NextApi.Routing.Entry

/-!
# What holds of every run of the breaker

A run is any sequence of calls, on any upstreams, at times that do not decrease and with one
threshold. Every entry stays `Good`: a closed one has fewer failures than the threshold, an open or
half-open one has been opened at least once, and the time of a probe is recorded exactly while one
is under way.

Over a run the entries open on schedule. The k-th opening in a row lasts a minute doubled k - 1
times, half an hour at most, when a failure is its cause (`OpensByFailure`). When the cause is a
persisted cooldown, it lasts until that cooldown ends, and what it counts are the persisted
failures (`TakesOver`). A half-open entry lets at most one request through in two minutes, and none
refuses forever.
-/

set_option autoImplicit false

namespace NextApi.Routing

/-! ### Single entries -/

namespace Entry

def IsOpen (e : Entry) : Prop := ∃ until' opens, e.state = some (.opened until' opens)

def IsHalfOpen (e : Entry) : Prop := ∃ opens, e.state = some (.halfOpen opens)

/-- The invariant of an entry. -/
structure Good (t : ℕ) (e : Entry) : Prop where
  failures_lt : ∀ failures, e.state = some (.closed failures) → failures < t
  opened_pos : ∀ until' opens, e.state = some (.opened until' opens) → 1 ≤ opens
  halfOpen_pos : ∀ opens, e.state = some (.halfOpen opens) → 1 ≤ opens
  since_iff : e.since.isSome = true ↔ e.IsHalfOpen

theorem good_empty (t : ℕ) : Good t {} where
  failures_lt _ h := absurd h (by simp)
  opened_pos _ _ h := absurd h (by simp)
  halfOpen_pos _ h := absurd h (by simp)
  since_iff := by simp [IsHalfOpen]

/-- Without a probe no time is recorded. -/
theorem Good.since_eq_none {t : ℕ} {e : Entry} (h : Good t e) (hstate : ¬ e.IsHalfOpen) :
    e.since = none := by
  rw [← Option.isSome_eq_false_iff.trans Option.isNone_iff_eq_none, Bool.eq_false_iff]
  intro hsome
  exact hstate (h.since_iff.1 hsome)

end Entry

/-- The failures of a call are counted against this threshold. -/
def Call.AtThreshold (t : ℕ) (c : Call) : Prop :=
  ∀ up autoDisable, c.op = .onFailure up autoDisable → Breaker.threshold up = t

namespace Entry

theorem Good.step {t : ℕ} {e : Entry} {c : Call} (hgood : Good t e) (ht : 1 ≤ t)
    (hc : c.AtThreshold t) : Good t (e.step c) := by
  have hopened {until' : ℤ} {opens : ℕ} (hpos : 1 ≤ opens) :
      Good t ⟨some (.opened until' opens), none⟩ := by
    refine ⟨fun f h ↦ ?_, fun u k h ↦ ?_, fun k h ↦ ?_, ?_⟩
    · simp at h
    · simp only [Option.some.injEq, BreakerState.opened.injEq] at h
      omega
    · simp at h
    · simp [IsHalfOpen]
  have hclosed {failures : ℕ} (hlt : failures < t) :
      Good t ⟨some (.closed failures), none⟩ := by
    refine ⟨fun f h ↦ ?_, fun u k h ↦ ?_, fun k h ↦ ?_, ?_⟩
    · simp only [Option.some.injEq, BreakerState.closed.injEq] at h
      omega
    · simp at h
    · simp at h
    · simp [IsHalfOpen]
  have hhalf {opens : ℕ} (hpos : 1 ≤ opens) :
      Good t ⟨some (.halfOpen opens), some c.now⟩ := by
    refine ⟨fun f h ↦ ?_, fun u k h ↦ ?_, fun k h ↦ ?_, ?_⟩
    · simp at h
    · simp at h
    · simp only [Option.some.injEq, BreakerState.halfOpen.injEq] at h
      omega
    · simp [IsHalfOpen]
  have hidle {failures : ℕ} (h : e.state.getD (.closed 0) = .closed failures) :
      e.since = none := by
    refine hgood.since_eq_none fun ⟨opens, hhalf⟩ ↦ ?_
    rw [hhalf] at h
    simp at h
  obtain ⟨e', hstep⟩ : ∃ e', e' = e.step c := ⟨_, rfl⟩
  have hcases := e.step_cases c
  rw [← hstep] at hcases ⊢
  cases hcases with
  | same => exact hgood
  | forgotten => exact good_empty t
  | closed up hop => exact hclosed ht
  | first up hop hstate hdb =>
    rw [@hidle 0 (by rw [hstate]; rfl)]
    exact hclosed ht
  | imported up until' hop hstate hdb =>
    rw [@hidle 0 (by rw [hstate]; rfl)]
    exact hopened (by rw [Breaker.importedOpens]; omega)
  | probe up until' opens hop hstate hdue => exact hhalf (hgood.opened_pos _ _ hstate)
  | reprobe up opens hop hstate hstuck =>
    rw [hstate]
    exact hhalf (hgood.halfOpen_pos _ hstate)
  | counted up failures hop hstate hbelow =>
    rw [hidle hstate]
    exact hclosed (hc up true hop ▸ hbelow)
  | opened up failures hop hstate hreached =>
    rw [hidle hstate]
    exact hopened le_rfl
  | reopened up opens hop hstate => exact hopened (by omega)

end Entry

/-! ### Openings -/

/-- The openings in a row before a state: those counted while half open. -/
def opensBefore : Option BreakerState → ℕ
  | some (.halfOpen opens) => opens
  | _ => 0

/-- The length of the k-th opening in a row. -/
def backoff (k : ℕ) : ℤ := seconds (min (60 * 2 ^ (k - 1)) 1800 : ℕ)

/-- A failure opens an entry, for as long as its count says. -/
structure OpensByFailure (before : Option BreakerState) (c : Call) (until' : ℤ) (k : ℕ) :
    Prop where
  isFailure : ∃ up, c.op = .onFailure up true
  counted : k = opensBefore before + 1
  lasts : until' = c.now + backoff k

/-- A persisted cooldown opens an entry that was forgotten, until it ends. -/
def TakesOver (before : Option BreakerState) (c : Call) (until' : ℤ) (k : ℕ) : Prop :=
  ∃ up, c.op = .allow up true ∧ before = none ∧ Breaker.dbCooldown up c.now = some until' ∧
    k = Breaker.importedOpens up

namespace Entry

theorem opens_of_step {e : Entry} {c : Call} {until' : ℤ} {k : ℕ} (hbefore : ¬ e.IsOpen)
    (hafter : (e.step c).state = some (.opened until' k)) :
    OpensByFailure e.state c until' k ∨ TakesOver e.state c until' k := by
  obtain ⟨e', hstep⟩ : ∃ e', e' = e.step c := ⟨_, rfl⟩
  have hcases := e.step_cases c
  rw [← hstep] at hcases hafter
  cases hcases with
  | same => exact absurd ⟨until', k, hafter⟩ hbefore
  | forgotten => simp at hafter
  | closed up hop => simp [closed] at hafter
  | first up hop hstate hdb => simp at hafter
  | imported up until'' hop hstate hdb =>
    simp only [Option.some.injEq, BreakerState.opened.injEq] at hafter
    exact .inr ⟨up, hop, hstate, hafter.1 ▸ hdb, hafter.2.symm⟩
  | probe up until'' opens hop hstate hdue => simp at hafter
  | reprobe up opens hop hstate hstuck => simp [hstate] at hafter
  | counted up failures hop hstate hbelow => simp at hafter
  | opened up failures hop hstate hreached =>
    simp only [Option.some.injEq, BreakerState.opened.injEq] at hafter
    obtain ⟨rfl, rfl⟩ := hafter
    refine .inl ⟨⟨up, hop⟩, ?_, ?_⟩
    · cases hs : e.state with
      | none => rfl
      | some s =>
        rw [hs, Option.getD_some] at hstate
        rw [hstate]
        rfl
    · rw [cooldownSecs_eq]
      rfl
  | reopened up opens hop hstate =>
    simp only [Option.some.injEq, BreakerState.opened.injEq] at hafter
    obtain ⟨rfl, rfl⟩ := hafter
    refine .inl ⟨⟨up, hop⟩, by rw [hstate]; rfl, ?_⟩
    rw [cooldownSecs_eq]
    rfl

/-- While an entry is open its end and its count stay. -/
theorem opened_step {e : Entry} {c : Call} {until' until'' : ℤ} {k k' : ℕ}
    (hbefore : e.state = some (.opened until' k))
    (hafter : (e.step c).state = some (.opened until'' k')) : until'' = until' ∧ k' = k := by
  obtain ⟨e', hstep⟩ : ∃ e', e' = e.step c := ⟨_, rfl⟩
  have hcases := e.step_cases c
  rw [← hstep] at hcases hafter
  cases hcases with
  | same => simpa [hbefore, eq_comm] using hafter
  | forgotten => simp at hafter
  | closed up hop => simp [closed] at hafter
  | first up hop hstate hdb => simp at hafter
  | imported up _ hop hstate hdb => simp [hbefore] at hstate
  | probe up _ opens hop hstate hdue => simp at hafter
  | reprobe up opens hop hstate hstuck => simp [hbefore] at hstate
  | counted up failures hop hstate hbelow => simp at hafter
  | opened up failures hop hstate hreached => simp [hbefore] at hstate
  | reopened up opens hop hstate => simp [hbefore] at hstate

/-! ### Probes -/

/-- The time of a probe is the one that was let through last. -/
theorem since_step {e : Entry} {c : Call} (hbefore : e.IsHalfOpen)
    (hafter : (e.step c).IsHalfOpen) :
    (e.step c).since = e.since ∨ (e.step c).since = some c.now := by
  obtain ⟨k, hbefore⟩ := hbefore
  obtain ⟨k', hafter⟩ := hafter
  obtain ⟨e', hstep⟩ : ∃ e', e' = e.step c := ⟨_, rfl⟩
  have hcases := e.step_cases c
  rw [← hstep] at hcases hafter ⊢
  cases hcases with
  | same => exact .inl rfl
  | forgotten => simp at hafter
  | closed up hop => simp [closed] at hafter
  | first up hop hstate hdb => simp at hafter
  | imported up _ hop hstate hdb => simp at hafter
  | probe up _ opens hop hstate hdue => exact .inr rfl
  | reprobe up opens hop hstate hstuck => exact .inr rfl
  | counted up failures hop hstate hbelow => simp at hafter
  | opened up failures hop hstate hreached => simp at hafter
  | reopened up opens hop hstate => simp at hafter

/-- A request that a half-open entry lets through is its probe, and comes two minutes after the
one before. -/
theorem admits_halfOpen {e : Entry} {c : Call} (hadmits : e.admits c = true)
    (hafter : (e.step c).IsHalfOpen) :
    (e.step c).since = some c.now ∧
      (e.IsHalfOpen → ∀ since, e.since = some since → since + seconds 120 ≤ c.now) := by
  obtain ⟨op, now⟩ := c
  cases op with
  | onSuccess up => simp [admits] at hadmits
  | onFailure up autoDisable => simp [admits] at hadmits
  | reset id => simp [admits] at hadmits
  | allow up autoDisable =>
    obtain ⟨k, hafter⟩ := hafter
    obtain ⟨state, since⟩ := e
    simp only [admits, step, allow] at hadmits hafter ⊢
    by_cases hdisabled : (!up.enabled || decide (up.disabledBy = some "manual")) = true
    · simp [hdisabled] at hadmits
    rw [if_neg hdisabled] at hadmits hafter ⊢
    by_cases hoff : (!autoDisable) = true
    · simp [hoff] at hafter
    rw [if_neg hoff] at hadmits hafter ⊢
    cases hdb : Breaker.dbCooldown up now with
    | some until' => simp [hdb] at hadmits
    | none =>
      simp only [hdb] at hadmits hafter ⊢
      cases state with
      | none => simp at hafter
      | some state =>
        cases state with
        | closed failures => simp at hafter
        | opened until' opens =>
          dsimp only at hadmits hafter ⊢
          by_cases hearly : now < until'
          · simp [hearly] at hadmits
          · rw [if_neg hearly]
            refine ⟨rfl, fun hhalf ↦ ?_⟩
            obtain ⟨_, hhalf⟩ := hhalf
            simp at hhalf
        | halfOpen opens =>
          dsimp only at hadmits hafter ⊢
          by_cases hstuck : Breaker.stuck since now = true
          · rw [if_pos hstuck]
            refine ⟨rfl, fun _ start hstart ↦ ?_⟩
            rw [hstart] at hstuck
            exact Breaker.stuck_iff.1 hstuck
          · simp [hstuck] at hadmits

/-! ### Recovery -/

/-- The time from which an entry lets requests through: the end of its cooldown, or of the window
of its probe. -/
def readyAt (e : Entry) : Option ℤ :=
  match e.state with
  | some (.opened until' _) => some until'
  | some (.halfOpen _) => e.since.map (· + seconds 120)
  | _ => none

/-- From that time on a request is let through, if its upstream is not disabled. -/
theorem Good.admits_of_ready {t : ℕ} {e : Entry} (hgood : Good t e) {up : UpstreamRow}
    (autoDisable : Bool) {now : ℤ} (henabled : up.enabled = true)
    (hmanual : up.disabledBy ≠ some "manual") (hdb : Breaker.dbCooldown up now = none)
    (hready : ∀ time ∈ e.readyAt, time ≤ now) : (e.allow up autoDisable now).1 = true := by
  have hdisabled : ¬ (!up.enabled || decide (up.disabledBy = some "manual")) = true := by
    simp [henabled, hmanual]
  rw [allow, if_neg hdisabled]
  cases autoDisable with
  | false => rfl
  | true =>
    rw [if_neg (by simp)]
    simp only [hdb]
    obtain ⟨state, since⟩ := e
    cases state with
    | none => rfl
    | some state =>
      cases state with
      | closed failures => rfl
      | opened until' opens =>
        have hdue : ¬ now < until' := Int.not_lt.2 (hready until' rfl)
        dsimp only
        rw [if_neg hdue]
      | halfOpen opens =>
        obtain ⟨start, hstart⟩ := Option.isSome_iff_exists.1 (hgood.since_iff.2 ⟨opens, rfl⟩)
        obtain rfl : since = some start := hstart
        have hdue : start + seconds 120 ≤ now := hready _ rfl
        dsimp only
        rw [if_pos (Breaker.stuck_iff.2 hdue)]

end Entry

/-! ### Runs -/

/-- A run with one threshold, at times that do not decrease. -/
structure IsRun (t : ℕ) (calls : List Call) : Prop where
  atThreshold : ∀ c ∈ calls, c.AtThreshold t
  sorted : (calls.map Call.now).Pairwise (· ≤ ·)

theorem IsRun.left {t : ℕ} {calls rest : List Call} (h : IsRun t (calls ++ rest)) :
    IsRun t calls where
  atThreshold c hc := h.atThreshold c (List.mem_append_left rest hc)
  sorted := by
    have hsorted := h.sorted
    rw [List.map_append, List.pairwise_append] at hsorted
    exact hsorted.1

/-- Every entry of the breaker is good. -/
def Good (t : ℕ) (b : Breaker) : Prop := ∀ id, (b.entry id).Good t

theorem good_run {t : ℕ} (ht : 1 ≤ t) {calls : List Call} (h : IsRun t calls) :
    Good t (Breaker.run calls) := by
  induction calls using List.reverseRecOn with
  | nil => exact fun id ↦ Entry.good_empty t
  | append_singleton calls c ih =>
    intro id
    rw [Breaker.run_concat, Breaker.entry_step]
    split
    · exact (ih h.left id).step ht (h.atThreshold c (by simp))
    · exact ih h.left id

/-- Every opening of the run lasts as its count says, or as the cooldown that it takes over. -/
def OpensOnSchedule (calls : List Call) : Prop :=
  ∀ before c after id until' k, calls = before ++ c :: after →
    ((Breaker.run (before ++ [c])).entry id).state = some (.opened until' k) →
      ((Breaker.run before).entry id).state = some (.opened until' k) ∨
      OpensByFailure ((Breaker.run before).entry id).state c until' k ∨
      TakesOver ((Breaker.run before).entry id).state c until' k

theorem opensOnSchedule (calls : List Call) : OpensOnSchedule calls := by
  rintro before c after id until' k - hafter
  rw [Breaker.run_concat, Breaker.entry_step] at hafter
  split at hafter
  · by_cases hopen : ((Breaker.run before).entry id).IsOpen
    · obtain ⟨until'', k', hbefore⟩ := hopen
      obtain ⟨rfl, rfl⟩ := Entry.opened_step hbefore hafter
      exact .inl hbefore
    · exact .inr (Entry.opens_of_step hopen hafter)
  · exact .inl hafter

/-- Two requests that are let through while an entry stays half open are two minutes apart. -/
def OneProbeAtATime (calls : List Call) : Prop :=
  ∀ before c₁ between c₂ after, calls = before ++ c₁ :: between ++ c₂ :: after →
    c₁.op.id = c₂.op.id → (Breaker.run before).admits c₁ = true →
    (Breaker.run (before ++ c₁ :: between)).admits c₂ = true →
    (∀ part, part <+: between ++ [c₂] →
      ((Breaker.run (before ++ c₁ :: part)).entry c₂.op.id).IsHalfOpen) →
    c₁.now + seconds 120 ≤ c₂.now

/-- While an entry stays half open, the time of its probe does not fall behind. -/
theorem since_run {before between : List Call} {c : Call} {id : UpstreamId} (hid : c.op.id = id)
    (hsorted : ((before ++ c :: between).map Call.now).Pairwise (· ≤ ·))
    (hadmits : (Breaker.run before).admits c = true)
    (hhalf : ∀ part, part <+: between →
      ((Breaker.run (before ++ c :: part)).entry id).IsHalfOpen) :
    ∃ since, ((Breaker.run (before ++ c :: between)).entry id).since = some since ∧
      c.now ≤ since := by
  induction between using List.reverseRecOn with
  | nil =>
    have hafter := hhalf [] (List.prefix_refl [])
    rw [Breaker.run_concat, Breaker.entry_step, if_pos hid] at hafter ⊢
    rw [Breaker.admits_eq, hid] at hadmits
    exact ⟨c.now, (Entry.admits_halfOpen hadmits hafter).1, Int.le_refl c.now⟩
  | append_singleton between d ih =>
    have hassoc : before ++ c :: (between ++ [d]) = before ++ c :: between ++ [d] := by simp
    rw [hassoc, List.map_append, List.pairwise_append] at hsorted
    obtain ⟨since, hsince, hle⟩ := ih hsorted.1 fun part hpart ↦
      hhalf part (hpart.trans (List.prefix_append between [d]))
    have hbefore := hhalf between (List.prefix_append between [d])
    have hafter := hhalf (between ++ [d]) (List.prefix_refl _)
    rw [hassoc, Breaker.run_concat, Breaker.entry_step] at hafter ⊢
    split
    case isTrue hd =>
      rw [if_pos hd] at hafter
      rcases Entry.since_step hbefore hafter with h | h
      · exact ⟨since, h.trans hsince, hle⟩
      · refine ⟨d.now, h, hsorted.2.2 _ (List.mem_map.2 ⟨c, by simp, rfl⟩) _ (by simp)⟩
    case isFalse => exact ⟨since, hsince, hle⟩

theorem oneProbeAtATime {calls : List Call} (hsorted : (calls.map Call.now).Pairwise (· ≤ ·)) :
    OneProbeAtATime calls := by
  intro before c₁ between c₂ after hcalls hid hfirst hsecond hhalf
  rw [hcalls, List.map_append, List.pairwise_append] at hsorted
  obtain ⟨since, hsince, hle⟩ := since_run hid hsorted.1 hfirst fun part hpart ↦
    hhalf part (hpart.trans (List.prefix_append between [c₂]))
  have hbefore := hhalf between (List.prefix_append between [c₂])
  have hafter := hhalf (between ++ [c₂]) (List.prefix_refl _)
  have hassoc : before ++ c₁ :: (between ++ [c₂]) = before ++ c₁ :: between ++ [c₂] := by simp
  rw [hassoc, Breaker.run_concat, Breaker.entry_step, if_pos rfl] at hafter
  rw [Breaker.admits_eq] at hsecond
  have hwindow := (Entry.admits_halfOpen hsecond hafter).2 hbefore since hsince
  omega

/-- No upstream is refused forever: from the end of its cooldown or of the window of its probe on,
a request is let through, unless the row says otherwise. -/
def Recovers (b : Breaker) : Prop :=
  ∀ (up : UpstreamRow) (autoDisable : Bool) (now : ℤ), up.enabled = true →
    up.disabledBy ≠ some "manual" → Breaker.dbCooldown up now = none →
    (∀ time ∈ (b.entry up.id).readyAt, time ≤ now) → (b.allow up autoDisable now).1 = true

theorem Good.recovers {t : ℕ} {b : Breaker} (h : Good t b) : Recovers b := by
  intro up autoDisable now henabled hmanual hdb hready
  rw [(b.allow_entry up autoDisable now up.id).1]
  exact (h up.id).admits_of_ready autoDisable henabled hmanual hdb hready

/-- A row with a threshold of five failures. -/
def sampleRow : UpstreamRow where
  id := 7

/-- The row after its first opening: four failures were counted before it. -/
def cooledRow : UpstreamRow :=
  { sampleRow with
    disabledBy := some "auto"
    cooldownUntil := some (seconds 60)
    consecutiveFailures := 4 }

/-- Five failures open the breaker for the first time, and a reset makes it forget that. The next
request takes the persisted cooldown over. -/
def takenOver : List Call :=
  List.replicate 5 ⟨.onFailure sampleRow true, 0⟩ ++
    [⟨.reset 7, seconds 1⟩, ⟨.allow cooledRow true, seconds 2⟩]

theorem isRun_takenOver : IsRun 5 takenOver where
  atThreshold c hc := by
    intro up autoDisable hop
    simp only [takenOver, List.mem_append, List.mem_replicate, List.mem_cons, List.not_mem_nil,
      or_false] at hc
    rcases hc with ⟨-, rfl⟩ | rfl | rfl
    · obtain ⟨rfl, -⟩ := Op.onFailure.inj hop
      rfl
    · exact absurd hop (by simp)
    · exact absurd hop (by simp)
  sorted := by decide

end NextApi.Routing
