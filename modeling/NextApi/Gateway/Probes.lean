import Mathlib.Data.List.Basic
import NextApi.Gateway.Attempts
import NextApi.Routing.BreakerRuns

/-!
# Probes of a request

A half-open breaker waits for the result of the request that it let through. Whether one comes is
decided far away from the breaker: the candidates are let through all together, and then tried
until one succeeds, and of the errors only the retryable ones are reported.

A probe is `Resolved` when its upstream is tried and leaves the breaker closed after a success, and
open after an error. That is so exactly when it is `Reported`: every candidate before it fails over
to the next one, and one of its own executions succeeds, or fails with a retryable error while the
automatic disabling is on (`resolved_iff_reported`).
-/

set_option autoImplicit false

namespace NextApi.Gateway

open Ir Routing

/-! ### Executions -/

namespace Target

/-- Whether the call is made again after a result, if there are repetitions left. -/
def repeats (t : Target) (r : ExecResult) : Bool :=
  match r.error with
  | none => false
  | some e => e.retryable t.retryStatusCodes && !t.lockUpstream

/-- The results that are used from an index on, with so many repetitions left. -/
def usedFrom (t : Target) : ℕ → ℕ → List ExecResult
  | 0, idx => [t.results idx]
  | left + 1, idx =>
    if t.repeats (t.results idx) then t.results idx :: t.usedFrom left (idx + 1)
    else [t.results idx]

/-- The results of the executions of an attempt. -/
def used (t : Target) : List ExecResult := t.usedFrom t.retryLimit 0

/-- How an attempt ends whose last result this is. -/
def endOf (t : Target) (r : ExecResult) : AttemptEnd :=
  match r.error with
  | none => .success
  | some e => if t.lockUpstream || e.clientCausal then .stop else .failover

/-- The next candidate is tried after this one. -/
def PassesOn (t : Target) : Prop :=
  match t.conversion with
  | some (.parse _) => False
  | some _ => True
  | none => ∃ r, t.used.getLast? = some r ∧ t.endOf r = .failover

/-- The breaker hears of a result. -/
def Tells (t : Target) (r : ExecResult) : Prop :=
  match r.error with
  | none => True
  | some e => e.retryable t.retryStatusCodes = true ∧ r.autoDisable = true

theorem tryFrom_eq (t : Target) (left idx : ℕ) (b : Breaker) :
    ∃ r, (t.usedFrom left idx).getLast? = some r ∧
      t.tryFrom left idx b = ((t.usedFrom left idx).foldl t.report b, t.endOf r) := by
  induction left generalizing idx b with
  | zero =>
    refine ⟨t.results idx, rfl, ?_⟩
    rw [tryFrom]
    cases herror : (t.results idx).error <;> simp [usedFrom, endOf, herror]
  | succ left ih =>
    rw [tryFrom, usedFrom, repeats]
    cases herror : (t.results idx).error with
    | none => exact ⟨t.results idx, rfl, by simp [endOf, herror]⟩
    | some e =>
      dsimp only
      split
      · obtain ⟨r, hlast, htry⟩ := ih (idx + 1) (t.report b (t.results idx))
        refine ⟨r, ?_, htry⟩
        rw [List.getLast?_cons, hlast, Option.getD_some]
      · exact ⟨t.results idx, rfl, by simp [endOf, herror]⟩

/-- Only the last result may be a success. -/
theorem usedFrom_eq (t : Target) (left idx : ℕ) :
    ∃ failures r, t.usedFrom left idx = failures ++ [r] ∧ ∀ x ∈ failures, x.error ≠ none := by
  have hlast (r : ExecResult) :
      ∃ failures s, [r] = failures ++ [s] ∧ ∀ x ∈ failures, x.error ≠ none :=
    ⟨[], r, rfl, fun x hx ↦ absurd hx List.not_mem_nil⟩
  induction left generalizing idx with
  | zero => exact hlast _
  | succ left ih =>
    rw [usedFrom]
    split
    case isTrue hrepeats =>
      obtain ⟨failures, r, hused, hfailures⟩ := ih (idx + 1)
      refine ⟨t.results idx :: failures, r, by rw [hused, List.cons_append], ?_⟩
      intro x hx
      rcases List.mem_cons.1 hx with rfl | hx
      · intro hnone
        rw [repeats, hnone] at hrepeats
        exact absurd hrepeats (by simp)
      · exact hfailures x hx
    case isFalse => exact hlast _

end Target

/-- The executions of a list of attempts, with their targets. -/
def executions : List Target → List (Target × ExecResult)
  | [] => []
  | t :: rest =>
    match t.conversion with
    | some (.parse _) => []
    | some _ => executions rest
    | none =>
      t.used.map (fun r ↦ (t, r)) ++
        match t.used.getLast?.map t.endOf with
        | some .failover => executions rest
        | _ => []

/-- Tells the breaker of an execution. -/
def reportExecution (b : Breaker) (x : Target × ExecResult) : Breaker := x.1.report b x.2

theorem attemptAll_eq (l : List Target) (b : Breaker) :
    attemptAll l b = (executions l).foldl reportExecution b := by
  induction l generalizing b with
  | nil => rfl
  | cons t rest ih =>
    rw [attemptAll, executions]
    cases t.conversion with
    | some e =>
      cases e with
      | parse message => rfl
      | unsupported message => exact ih b
    | none =>
      obtain ⟨r, hlast, htry⟩ := t.tryFrom_eq t.retryLimit 0 b
      have hmap : (t.used.map fun r ↦ (t, r)).foldl reportExecution b = t.used.foldl t.report b :=
        List.foldl_map
      rw [← Target.used] at hlast htry
      dsimp only
      rw [htry, hlast, Option.map_some, List.foldl_append, hmap]
      cases t.endOf r with
      | success => rfl
      | stop => rfl
      | failover => exact ih _

/-- The candidates behind one are tried when it passes on. -/
theorem executions_cons (t : Target) (rest : List Target) (x : Target × ExecResult) :
    x ∈ executions (t :: rest) ↔
      (x.1 = t ∧ t.conversion = none ∧ x.2 ∈ t.used) ∨ (t.PassesOn ∧ x ∈ executions rest) := by
  rw [executions, Target.PassesOn]
  cases t.conversion with
  | some e => cases e <;> simp
  | none =>
    obtain ⟨failures, r, hused, -⟩ := t.usedFrom_eq t.retryLimit 0
    have hlast : t.used.getLast? = some r := by
      rw [Target.used, hused, List.getLast?_concat]
    dsimp only
    rw [List.mem_append, List.mem_map, hlast, Option.map_some]
    constructor
    · rintro (⟨s, hs, rfl⟩ | hx)
      · exact .inl ⟨rfl, rfl, hs⟩
      · refine .inr ?_
        cases hend : t.endOf r with
        | success => exact absurd (hend ▸ hx) List.not_mem_nil
        | stop => exact absurd (hend ▸ hx) List.not_mem_nil
        | failover => exact ⟨⟨r, rfl, hend⟩, by rw [hend] at hx; exact hx⟩
    · rintro (⟨rfl, -, hused⟩ | ⟨⟨s, hs, hend⟩, hx⟩)
      · exact .inl ⟨x.2, hused, rfl⟩
      · obtain rfl : r = s := Option.some.inj hs
        rw [hend]
        exact .inr hx

/-- An execution is one of a target whose body converts, behind targets that pass on. -/
theorem mem_executions {l : List Target} {x : Target × ExecResult} :
    x ∈ executions l ↔ ∃ before after, l = before ++ x.1 :: after ∧
      (∀ u ∈ before, u.PassesOn) ∧ x.1.conversion = none ∧ x.2 ∈ x.1.used := by
  induction l with
  | nil => simp [executions]
  | cons t rest ih =>
    rw [executions_cons, ih]
    constructor
    · rintro (⟨rfl, hconversion, hused⟩ | ⟨hpasses, before, after, rfl, hbefore, hrest⟩)
      · exact ⟨[], rest, rfl, fun u hu ↦ absurd hu List.not_mem_nil, hconversion, hused⟩
      · refine ⟨t :: before, after, rfl, fun u hu ↦ ?_, hrest⟩
        rcases List.mem_cons.1 hu with rfl | hu
        · exact hpasses
        · exact hbefore u hu
    · rintro ⟨before, after, hsplit, hbefore, hrest⟩
      cases before with
      | nil =>
        obtain ⟨rfl, rfl⟩ := List.cons.inj hsplit
        exact .inl ⟨rfl, hrest⟩
      | cons u before =>
        obtain ⟨rfl, rfl⟩ := List.cons.inj hsplit
        exact .inr ⟨hbefore t List.mem_cons_self, before, after, rfl,
          fun u hu ↦ hbefore u (List.mem_cons_of_mem t hu), hrest⟩

/-- A success ends a request. -/
theorem executions_eq (l : List Target) :
    ∃ failures last, executions l = failures ++ last ∧ (∀ x ∈ failures, x.2.error ≠ none) ∧
      (last = [] ∨ ∃ x, last = [x] ∧ x.2.error = none) := by
  induction l with
  | nil => exact ⟨[], [], rfl, fun x hx ↦ absurd hx List.not_mem_nil, .inl rfl⟩
  | cons t rest ih =>
    rw [executions]
    cases t.conversion with
    | some e =>
      cases e with
      | parse message => exact ⟨[], [], rfl, fun x hx ↦ absurd hx List.not_mem_nil, .inl rfl⟩
      | unsupported message => exact ih
    | none =>
      obtain ⟨failures, r, hused, hfailures⟩ := t.usedFrom_eq t.retryLimit 0
      obtain ⟨failures', last, hrest, hfailures', hlast⟩ := ih
      have hmapped : ∀ x ∈ failures.map (fun r ↦ (t, r)), x.2.error ≠ none := by
        intro x hx
        obtain ⟨s, hs, rfl⟩ := List.mem_map.1 hx
        exact hfailures s hs
      dsimp only
      rw [Target.used, hused, List.getLast?_concat, Option.map_some, List.map_append, hrest,
        List.map_singleton, Target.endOf]
      cases herror : r.error with
      | none => exact ⟨_, [(t, r)], List.append_nil _, hmapped, .inr ⟨(t, r), rfl, herror⟩⟩
      | some e =>
        have hall : ∀ x ∈ failures.map (fun r ↦ (t, r)) ++ [(t, r)], x.2.error ≠ none := by
          intro x hx
          rcases List.mem_append.1 hx with hx | hx
          · exact hmapped x hx
          · obtain rfl := List.mem_singleton.1 hx
            simp [herror]
        dsimp only
        split
        · refine ⟨_, last, (List.append_assoc _ _ _).symm, ?_, hlast⟩
          intro x hx
          rcases List.mem_append.1 hx with hx | hx
          · exact hall x hx
          · exact hfailures' x hx
        · exact ⟨_, [], rfl, hall, .inl rfl⟩

/-! ### Reports -/

/-- A report acts on the entry of its upstream only. -/
theorem entry_reportExecution (b : Breaker) (x : Target × ExecResult) (id : UpstreamId) :
    (reportExecution b x).entry id =
      match x.2.error with
      | none => if x.1.upstream.id = id then Entry.closed else b.entry id
      | some e =>
        if x.1.upstream.id = id ∧ e.retryable x.1.retryStatusCodes = true then
          (b.entry id).onFailure x.1.upstream x.2.autoDisable x.2.now
        else b.entry id := by
  rw [reportExecution, Target.report]
  cases x.2.error with
  | none => exact b.entry_onSuccess x.1.upstream id
  | some e =>
    dsimp only
    by_cases hretry : e.retryable x.1.retryStatusCodes = true
    · rw [if_pos hretry, Breaker.entry_onFailure]
      by_cases hid : x.1.upstream.id = id
      · rw [if_pos hid, if_pos ⟨hid, hretry⟩, hid]
      · rw [if_neg hid, if_neg fun h ↦ hid h.1]
    · rw [if_neg hretry, if_neg fun h ↦ hretry h.2]

/-- An execution of an upstream that its breaker hears of. -/
def Told (id : UpstreamId) (x : Target × ExecResult) : Prop :=
  x.1.upstream.id = id ∧ x.1.Tells x.2

/-- A half-open entry is opened by the first error that it hears of, and stays open. -/
theorem entry_failures {b : Breaker} {id : UpstreamId} {xs : List (Target × ExecResult)}
    (hmanual : ∀ x ∈ xs, x.1.upstream.disabledBy ≠ some "manual")
    (hfail : ∀ x ∈ xs, x.2.error ≠ none) :
    ((b.entry id).IsOpen → ((xs.foldl reportExecution b).entry id).IsOpen) ∧
      ((b.entry id).IsHalfOpen →
        ((∃ x ∈ xs, Told id x) → ((xs.foldl reportExecution b).entry id).IsOpen) ∧
        ((∀ x ∈ xs, ¬ Told id x) → ((xs.foldl reportExecution b).entry id).IsHalfOpen)) := by
  induction xs generalizing b with
  | nil =>
    refine ⟨fun hopen ↦ hopen, fun hhalf ↦ ⟨?_, fun _ ↦ hhalf⟩⟩
    rintro ⟨x, hx, -⟩
    exact absurd hx List.not_mem_nil
  | cons x rest ih =>
    obtain ⟨ihopen, ihhalf⟩ := @ih (reportExecution b x)
      (fun y hy ↦ hmanual y (List.mem_cons_of_mem x hy))
      (fun y hy ↦ hfail y (List.mem_cons_of_mem x hy))
    obtain ⟨e, herror⟩ := Option.ne_none_iff_exists'.1 (hfail x List.mem_cons_self)
    have hentry := entry_reportExecution b x id
    rw [herror] at hentry
    dsimp only at hentry
    have hx := hmanual x List.mem_cons_self
    have htells : x.1.Tells x.2 ↔
        e.retryable x.1.retryStatusCodes = true ∧ x.2.autoDisable = true := by
      rw [Target.Tells, herror]
    constructor
    · intro hopen
      refine ihopen ?_
      rw [hentry]
      split
      · obtain ⟨until', opens, hstate⟩ := hopen
        rw [Entry.onFailure]
        split
        · exact ⟨until', opens, hstate⟩
        · rw [hstate]
          exact ⟨until', opens, rfl⟩
      · exact hopen
    · intro hhalf
      by_cases htold : Told id x
      · obtain ⟨hid, htold⟩ := htold
        obtain ⟨hretry, hon⟩ := htells.1 htold
        have hopen : ((reportExecution b x).entry id).IsOpen := by
          obtain ⟨opens, hstate⟩ := hhalf
          rw [hentry, if_pos ⟨hid, hretry⟩, Entry.onFailure, if_neg (by simp [hx, hon]), hstate]
          exact ⟨_, _, rfl⟩
        refine ⟨fun _ ↦ ihopen hopen, fun hnone ↦ ?_⟩
        exact absurd ⟨hid, htold⟩ (hnone x List.mem_cons_self)
      · have hsame : ((reportExecution b x).entry id).IsHalfOpen := by
          rw [hentry]
          split
          case isTrue h =>
            have hoff : x.2.autoDisable = false := by
              by_contra hon
              exact htold ⟨h.1, htells.2 ⟨h.2, by simpa using hon⟩⟩
            rw [Entry.onFailure, if_pos (.inr hoff)]
            exact hhalf
          case isFalse => exact hhalf
        obtain ⟨ihtold, ihnone⟩ := ihhalf hsame
        refine ⟨?_, fun hnone ↦ ihnone fun y hy ↦ hnone y (List.mem_cons_of_mem x hy)⟩
        rintro ⟨y, hy, hytold⟩
        rcases List.mem_cons.1 hy with rfl | hy
        · exact absurd hytold htold
        · exact ihtold ⟨y, hy, hytold⟩

/-! ### Probes -/

/-- The upstreams whose breakers let a probe through. -/
def probesOf (autoDisable : UpstreamRow → Bool) : Breaker → List Target → List UpstreamId
  | _, [] => []
  | b, t :: rest =>
    if !t.capable || t.blocked || !t.upstream.enabled then probesOf autoDisable b rest
    else
      let (admitted, b) := b.allow t.upstream (autoDisable t.upstream) t.askedAt
      if admitted && ((b.entry t.upstream.id).state.map BreakerState.isHalfOpen).getD false then
        t.upstream.id :: probesOf autoDisable b rest
      else probesOf autoDisable b rest

theorem isHalfOpen_iff {e : Entry} :
    (e.state.map BreakerState.isHalfOpen).getD false = true ↔ e.IsHalfOpen := by
  rw [Entry.IsHalfOpen]
  cases e.state with
  | none => simp
  | some state => cases state <;> simp [BreakerState.isHalfOpen]

/-- While its breaker is on, a half-open entry stays half open when it is asked. -/
theorem halfOpen_allow {b : Breaker} {id : UpstreamId} (up : UpstreamRow) (now : ℤ)
    (h : (b.entry id).IsHalfOpen) : ((b.allow up true now).2.entry id).IsHalfOpen := by
  rw [(b.allow_entry up true now id).2]
  split
  case isTrue hid =>
    rw [hid]
    have hcases := Entry.step_cases (b.entry id) ⟨.allow up true, now⟩
    obtain ⟨opens, hstate⟩ := h
    generalize hstep : (b.entry id).step ⟨.allow up true, now⟩ = e' at hcases
    have hallow : ((b.entry id).allow up true now).2 = e' := hstep
    rw [hallow]
    cases hcases with
    | same => exact ⟨opens, hstate⟩
    | forgotten h => simp at h
    | closed up' hop => simp at hop
    | first up' hop hnone hdb => simp [hstate] at hnone
    | imported up' until' hop hnone hdb => simp [hstate] at hnone
    | probe up' until' opens' hop hopen hdue => exact ⟨opens', rfl⟩
    | reprobe up' opens' hop hhalf hstuck => exact ⟨opens, hstate⟩
    | counted up' failures hop hclosed hbelow => simp at hop
    | opened up' failures hop hclosed hreached => simp at hop
    | reopened up' opens' hop hhalf => simp at hop
  case isFalse => exact h

theorem halfOpen_select {autoDisable : UpstreamRow → Bool} {targets : List Target} {b : Breaker}
    {id : UpstreamId} (h : (b.entry id).IsHalfOpen)
    (hon : ∀ t ∈ targets, t.upstream.id = id → autoDisable t.upstream = true) :
    ((select autoDisable b targets).1.entry id).IsHalfOpen := by
  induction targets generalizing b with
  | nil => exact h
  | cons t rest ih =>
    have hrest : ∀ u ∈ rest, u.upstream.id = id → autoDisable u.upstream = true :=
      fun u hu ↦ hon u (List.mem_cons_of_mem t hu)
    rw [select]
    split
    · exact ih h hrest
    · refine ih ?_ hrest
      by_cases hid : t.upstream.id = id
      · rw [hon t List.mem_cons_self hid]
        exact halfOpen_allow t.upstream t.askedAt h
      · rw [(b.allow_entry t.upstream _ t.askedAt id).2, if_neg hid]
        exact h

/-- A breaker that is switched off is forgotten, and not half open. -/
theorem autoDisable_of_halfOpen {b : Breaker} {up : UpstreamRow} {autoDisable : Bool} {now : ℤ}
    (hadmitted : (b.allow up autoDisable now).1 = true)
    (h : ((b.allow up autoDisable now).2.entry up.id).IsHalfOpen) : autoDisable = true := by
  by_contra hoff
  obtain rfl : autoDisable = false := by simpa using hoff
  obtain ⟨opens, hstate⟩ := h
  rw [Breaker.allow] at hadmitted hstate
  by_cases hdisabled : (!up.enabled || decide (up.disabledBy = some "manual")) = true
  · rw [if_pos hdisabled] at hadmitted
    exact absurd hadmitted (by simp)
  · rw [if_neg hdisabled, if_pos (by simp), Breaker.entry_reset, if_pos rfl] at hstate
    exact absurd hstate (by simp)

/-- The entry of a probe is half open when the request gets to its attempts. -/
theorem halfOpen_of_mem_probesOf {autoDisable : UpstreamRow → Bool} {targets : List Target}
    {b : Breaker} {id : UpstreamId}
    (hrows : ∀ t ∈ targets, ∀ u ∈ targets, t.upstream.id = u.upstream.id →
      t.upstream = u.upstream)
    (h : id ∈ probesOf autoDisable b targets) :
    ((select autoDisable b targets).1.entry id).IsHalfOpen := by
  induction targets generalizing b with
  | nil => exact absurd h List.not_mem_nil
  | cons t rest ih =>
    have hrest : ∀ u ∈ rest, ∀ v ∈ rest, u.upstream.id = v.upstream.id →
        u.upstream = v.upstream :=
      fun u hu v hv ↦ hrows u (List.mem_cons_of_mem t hu) v (List.mem_cons_of_mem t hv)
    rw [probesOf] at h
    rw [select]
    split
    case isTrue hskip =>
      rw [if_pos hskip] at h
      exact ih hrest h
    case isFalse hskip =>
      rw [if_neg hskip] at h
      dsimp only at h ⊢
      split at h
      case isFalse => exact ih hrest h
      case isTrue hprobe =>
        rcases List.mem_cons.1 h with rfl | h
        · rw [Bool.and_eq_true, isHalfOpen_iff] at hprobe
          refine halfOpen_select hprobe.2 fun u hu hid ↦ ?_
          rw [hrows u (List.mem_cons_of_mem t hu) t List.mem_cons_self hid]
          exact autoDisable_of_halfOpen hprobe.1 hprobe.2
        · exact ih hrest h

/-- No candidate is disabled by hand. -/
theorem notManual_of_mem_select {autoDisable : UpstreamRow → Bool} {targets : List Target}
    {b : Breaker} {t : Target} (h : t ∈ (select autoDisable b targets).2) :
    t.upstream.disabledBy ≠ some "manual" := by
  induction targets generalizing b with
  | nil => exact absurd h List.not_mem_nil
  | cons u rest ih =>
    rw [select] at h
    split at h
    · exact ih h
    · dsimp only at h
      split at h
      case isFalse => exact ih h
      case isTrue hadmitted =>
        rcases List.mem_cons.1 h with rfl | h
        · intro hmanual
          rw [Breaker.allow, if_pos (by simp [hmanual])] at hadmitted
          exact absurd hadmitted (by simp)
        · exact ih h

/-- The last execution of an upstream. -/
def lastOf (id : UpstreamId) (xs : List (Target × ExecResult)) : Option (Target × ExecResult) :=
  (xs.filter fun x ↦ decide (x.1.upstream.id = id)).getLast?

theorem not_isOpen_of_isHalfOpen {e : Entry} (h : e.IsHalfOpen) : ¬ e.IsOpen := by
  rintro ⟨until', opens, hopen⟩
  obtain ⟨opens', hhalf⟩ := h
  rw [hopen] at hhalf
  exact absurd hhalf (by simp)

/-- After errors only, a half-open entry is open exactly when it heard of one. -/
theorem open_iff_told {b : Breaker} {id : UpstreamId} {xs : List (Target × ExecResult)}
    (hhalf : (b.entry id).IsHalfOpen)
    (hmanual : ∀ x ∈ xs, x.1.upstream.disabledBy ≠ some "manual")
    (hfail : ∀ x ∈ xs, x.2.error ≠ none) :
    ((xs.foldl reportExecution b).entry id).IsOpen ↔ ∃ x ∈ xs, Told id x := by
  obtain ⟨htold, hnone⟩ := (entry_failures hmanual hfail).2 hhalf
  constructor
  · intro hopen
    by_contra hno
    exact not_isOpen_of_isHalfOpen (hnone fun x hx htold ↦ hno ⟨x, hx, htold⟩) hopen
  · exact htold

theorem lastOf_eq_some {id : UpstreamId} {xs : List (Target × ExecResult)}
    {x : Target × ExecResult} (h : lastOf id xs = some x) : x ∈ xs :=
  (List.mem_filter.1 (List.mem_of_getLast? h)).1

theorem lastOf_isSome {id : UpstreamId} {xs : List (Target × ExecResult)}
    {x : Target × ExecResult} (hx : x ∈ xs) (hid : x.1.upstream.id = id) :
    ∃ y, lastOf id xs = some y := by
  have hmem : x ∈ xs.filter fun x ↦ decide (x.1.upstream.id = id) :=
    List.mem_filter.2 ⟨hx, by simpa using hid⟩
  exact ⟨_, List.getLast?_eq_some_getLast (List.ne_nil_of_mem hmem)⟩

/-- What a probe leaves behind, by the last execution of its upstream. -/
def Settled (e : Entry) (last : Option (Target × ExecResult)) : Prop :=
  ∃ x, last = some x ∧ (x.2.error = none → e.state = some (.closed 0)) ∧
    (x.2.error ≠ none → e.IsOpen)

/-- After errors only, a probe is settled exactly when its breaker heard of one. -/
theorem settled_iff_told {b : Breaker} {id : UpstreamId} {xs : List (Target × ExecResult)}
    (hhalf : (b.entry id).IsHalfOpen)
    (hmanual : ∀ x ∈ xs, x.1.upstream.disabledBy ≠ some "manual")
    (hfail : ∀ x ∈ xs, x.2.error ≠ none) :
    Settled ((xs.foldl reportExecution b).entry id) (lastOf id xs) ↔ ∃ x ∈ xs, Told id x := by
  rw [← open_iff_told hhalf hmanual hfail]
  constructor
  · rintro ⟨x, hx, -, hopen⟩
    exact hopen (hfail x (lastOf_eq_some hx))
  · intro hopen
    obtain ⟨x, hx, hid, -⟩ := (open_iff_told hhalf hmanual hfail).1 hopen
    obtain ⟨y, hy⟩ := lastOf_isSome hx hid
    exact ⟨y, hy, fun hnone ↦ absurd hnone (hfail y (lastOf_eq_some hy)), fun _ ↦ hopen⟩

/-! ### Requests -/

namespace Request

/-- The upstreams that a request has to probe. -/
def probes (req : Request) (b : Breaker) : List UpstreamId :=
  probesOf req.autoDisable b req.targets

/-- The executions of a request. -/
def execs (req : Request) (b : Breaker) : List (Target × ExecResult) :=
  if req.proceeds then executions (req.attempts b) else []

/-- The upstream is tried, and its breaker is closed after a success and open after an error. -/
def Resolved (req : Request) (b : Breaker) (id : UpstreamId) : Prop :=
  Settled ((req.handle b).entry id) (lastOf id (req.execs b))

/-- Every candidate before the upstream passes on, and the breaker hears of one of its own
executions. -/
def Reported (req : Request) (b : Breaker) (id : UpstreamId) : Prop :=
  req.proceeds = true ∧ ∃ before t after, req.attempts b = before ++ t :: after ∧
    t.upstream.id = id ∧ (∀ u ∈ before, u.PassesOn) ∧ t.conversion = none ∧
    ∃ r ∈ t.used, t.Tells r

theorem reported_iff {req : Request} {b : Breaker} {id : UpstreamId} :
    req.Reported b id ↔ ∃ x ∈ req.execs b, Told id x := by
  rw [Reported, execs]
  constructor
  · rintro ⟨hproceeds, before, t, after, hattempts, hid, hbefore, hconversion, r, hr, htells⟩
    rw [if_pos hproceeds]
    exact ⟨(t, r), mem_executions.2 ⟨before, after, hattempts, hbefore, hconversion, hr⟩, hid,
      htells⟩
  · rintro ⟨⟨t, r⟩, hx, hid, htells⟩
    split at hx
    case isTrue hproceeds =>
      obtain ⟨before, after, hattempts, hbefore, hconversion, hr⟩ := mem_executions.1 hx
      exact ⟨hproceeds, before, t, after, hattempts, hid, hbefore, hconversion, r, hr, htells⟩
    case isFalse => exact absurd hx List.not_mem_nil

theorem handle_eq (req : Request) (b : Breaker) :
    req.handle b = (req.execs b).foldl reportExecution (select req.autoDisable b req.targets).1 := by
  rw [handle, execs]
  split
  · exact attemptAll_eq _ _
  · rfl

theorem execs_eq (req : Request) (b : Breaker) :
    ∃ failures last, req.execs b = failures ++ last ∧ (∀ x ∈ failures, x.2.error ≠ none) ∧
      (last = [] ∨ ∃ x, last = [x] ∧ x.2.error = none) := by
  rw [execs]
  split
  · exact executions_eq _
  · exact ⟨[], [], rfl, fun x hx ↦ absurd hx List.not_mem_nil, .inl rfl⟩

theorem notManual_of_mem_execs {req : Request} {b : Breaker} {x : Target × ExecResult}
    (hx : x ∈ req.execs b) : x.1.upstream.disabledBy ≠ some "manual" := by
  rw [execs] at hx
  split at hx
  case isTrue =>
    obtain ⟨before, after, hattempts, -⟩ := mem_executions.1 hx
    have hmem : x.1 ∈ req.attempts b := by
      rw [hattempts]
      exact List.mem_append_right before List.mem_cons_self
    have hcandidate := (req.order_perm _).mem_iff.1 (List.mem_filter.1 hmem).1
    exact notManual_of_mem_select hcandidate
  case isFalse => exact absurd hx List.not_mem_nil

/-- A probe is resolved exactly when it is reported. -/
theorem resolved_iff_reported {req : Request} {b : Breaker} {id : UpstreamId}
    (h : id ∈ req.probes b) : req.Resolved b id ↔ req.Reported b id := by
  have hhalf := halfOpen_of_mem_probesOf req.one_snapshot h
  have hmanual : ∀ x ∈ req.execs b, x.1.upstream.disabledBy ≠ some "manual" :=
    fun x hx ↦ notManual_of_mem_execs hx
  obtain ⟨failures, last, hexecs, hfail, hlast⟩ := req.execs_eq b
  rw [reported_iff, Resolved, handle_eq, hexecs, List.foldl_append]
  rw [hexecs] at hmanual
  have hfailures := settled_iff_told hhalf
    (fun x hx ↦ hmanual x (List.mem_append_left last hx)) hfail
  rcases hlast with rfl | ⟨s, rfl, hsuccess⟩
  · rw [List.append_nil]
    exact hfailures
  have hentry := entry_reportExecution
    (failures.foldl reportExecution (select req.autoDisable b req.targets).1) s id
  rw [hsuccess] at hentry
  dsimp only at hentry
  rw [List.foldl_cons, List.foldl_nil, hentry]
  by_cases hid : s.1.upstream.id = id
  · have htold : Told id s := ⟨hid, by rw [Target.Tells, hsuccess]; exact trivial⟩
    have hlast : lastOf id (failures ++ [s]) = some s := by
      rw [lastOf, List.filter_append, List.filter_cons_of_pos (by simpa using hid),
        List.filter_nil, List.getLast?_concat]
    rw [if_pos hid, hlast]
    refine iff_of_true ⟨s, rfl, fun _ ↦ rfl, fun herror ↦ absurd hsuccess herror⟩ ?_
    exact ⟨s, List.mem_append_right failures (List.mem_singleton_self s), htold⟩
  · have hlast : lastOf id (failures ++ [s]) = lastOf id failures := by
      rw [lastOf, List.filter_append, List.filter_cons_of_neg (by simpa using hid),
        List.filter_nil, List.append_nil, lastOf]
    rw [if_neg hid, hlast, hfailures]
    constructor
    · rintro ⟨x, hx, htold⟩
      exact ⟨x, List.mem_append_left _ hx, htold⟩
    · rintro ⟨x, hx, htold⟩
      rcases List.mem_append.1 hx with hx | hx
      · exact ⟨x, hx, htold⟩
      · obtain rfl := List.mem_singleton.1 hx
        exact absurd htold.1 hid

/-- The breaker after a sequence of requests. -/
def handleAll (b : Breaker) (reqs : List Request) : Breaker :=
  reqs.foldl (fun b req ↦ req.handle b) b

end Request

/-- In a sequence of requests every probe is resolved exactly when every one is reported. -/
theorem probes_resolved (b : Breaker) (reqs : List Request) :
    (∀ before req after, reqs = before ++ req :: after →
      ∀ id ∈ req.probes (Request.handleAll b before),
        req.Resolved (Request.handleAll b before) id) ↔
    (∀ before req after, reqs = before ++ req :: after →
      ∀ id ∈ req.probes (Request.handleAll b before),
        req.Reported (Request.handleAll b before) id) := by
  constructor
  · intro h before req after hreqs id hid
    exact (Request.resolved_iff_reported hid).1 (h before req after hreqs id hid)
  · intro h before req after hreqs id hid
    exact (Request.resolved_iff_reported hid).2 (h before req after hreqs id hid)

/-! ### A probe that is not tried -/

/-- A target that answers in this way, asked at a second. -/
def sampleTarget (id : UpstreamId) (askedAt : ℤ) (retries : ℤ) (error : Option UpstreamError) :
    Target where
  upstream := { id := id }
  retries := retries
  askedAt := seconds askedAt
  results _ := { error := error, autoDisable := true, now := seconds askedAt }

theorem sampleTarget_one_snapshot {targets : List Target}
    (h : ∀ t ∈ targets, t.upstream = { id := t.upstream.id }) :
    ∀ t ∈ targets, ∀ u ∈ targets, t.upstream.id = u.upstream.id → t.upstream = u.upstream := by
  intro t ht u hu hid
  rw [h t ht, h u hu, hid]

/-- Five timeouts open the breaker of the second upstream. -/
def openingRequest : Request where
  targets := [sampleTarget 2 0 4 (some .timeout)]
  one_snapshot := sampleTarget_one_snapshot (by simp [sampleTarget])
  autoDisable _ := true
  order := id
  order_perm _ := List.Perm.refl _

/-- A minute later the first upstream answers; the second one is a candidate too. -/
def answeredRequest : Request where
  targets := [sampleTarget 1 61 0 none, sampleTarget 2 61 0 none]
  one_snapshot := sampleTarget_one_snapshot (by simp [sampleTarget])
  autoDisable _ := true
  order := id
  order_perm _ := List.Perm.refl _

/-- The probe of the second upstream is let through, and never tried. -/
theorem probe_not_resolved :
    ¬ ∀ (reqs : List Request) (before : List Request) (req : Request) (after : List Request),
      reqs = before ++ req :: after → ∀ id ∈ req.probes (Request.handleAll {} before),
        req.Resolved (Request.handleAll {} before) id := by
  intro h
  obtain ⟨x, hx, -⟩ := h [openingRequest, answeredRequest] [openingRequest] answeredRequest [] rfl 2
    (by decide +kernel)
  have hnone : (lastOf 2 (answeredRequest.execs (Request.handleAll {} [openingRequest]))).isNone =
      true := by
    decide +kernel
  rw [hx] at hnone
  exact absurd hnone Bool.false_ne_true

end NextApi.Gateway
