import NextApi.Gateway.AttemptLoop
import NextApi.Stream.Trials

/-!
# What the loop does

The executions of an attempt are repetitions of a trial, and the attempts are trials themselves:
which ones are made is decided by the attempts alone, one by one. The effects of the loop are those
of the attempts that are made, in order (`effects_attemptLoop`), and it ends with the last one of
them: with its answer, or with what is remembered of all of them (`end_attemptLoop`).
-/

set_option autoImplicit false

namespace NextApi.Gateway

open Json Ir Logging Upstream Stream.Trials

/-- The error of a result. -/
def errorOf : Except UpstreamError ExecOutcome → Option UpstreamError
  | .ok _ => none
  | .error e => some e

/-- An execution is repeated after this result, while repetitions are left. -/
def Candidate.again (c : Candidate) : Except UpstreamError ExecOutcome → Bool
  | .ok _ => false
  | .error e => e.retryable c.retryStatusCodes

/-- The next attempt follows when this is the last result. -/
def Candidate.passesOn (c : Candidate) : Except UpstreamError ExecOutcome → Bool
  | .ok _ => false
  | .error e => !(c.lockUpstream || e.clientCausal)

namespace Attempt

variable (req : Inbound) (a : Attempt)

/-- The results of the passes that the route allows. -/
def answers (out : Outbound) : List (Except UpstreamError ExecOutcome) :=
  (List.range (a.candidate.retryLimit + 1)).map fun idx ↦
    a.candidate.execRes req.stream out (a.passes idx)

/-- The results of the executions. -/
def results : List (Except UpstreamError ExecOutcome) :=
  match a.outbound with
  | .error _ => []
  | .ok out => tried a.candidate.again (a.answers req out)

/-- The errors among the results. -/
def errors : List UpstreamError := (a.results req).filterMap errorOf

/-- The next attempt follows. -/
def failsOver : Bool :=
  match a.outbound with
  | .error (.parse _) => false
  | .error (.unsupported _) => true
  | .ok _ => (a.results req).getLast?.any a.candidate.passesOn

end Attempt

/-- The effects of an execution. -/
def execEffects (req : Inbound) (i : ℕ) (c : Candidate) :
    Except UpstreamError ExecOutcome → List Effect
  | .ok outcome =>
    .executed i (.ok outcome) :: .breakerSuccess i :: .authCleared i ::
      if req.stickyRouting then [.pinned i] else []
  | .error e => .executed i (.error e) :: errorEffects i c e

/-- The effects of an attempt. -/
def Attempt.effects (req : Inbound) (i : ℕ) (a : Attempt) : List Effect :=
  match a.outbound with
  | .error e => [.rejected i e]
  | .ok _ => (a.results req).flatMap (execEffects req i a.candidate)

/-- The attempts that are made. -/
def made (req : Inbound) (l : List Attempt) : List Attempt := tried (Attempt.failsOver req) l

section Loop

variable [SerdeJson]

/-- What is remembered after some errors of an attempt. -/
def afterErrors (req : Inbound) (c : Candidate) (out : Outbound) (errors : List UpstreamError)
    (last : Last) : Last :=
  errors.foldl (fun last e ↦ afterError req c out e last) last

/-- What is remembered after an attempt that was given up. -/
def remember (req : Inbound) (last : Last) (a : Attempt) : Last :=
  match a.outbound with
  | .error e => afterRejection req a.candidate e last
  | .ok out =>
    { afterErrors req a.candidate out (a.errors req) (afterBuild out last) with
      failedCandidates := last.failedCandidates + 1
      idx := (a.results req).length - 1 }

theorem fields_afterErrors (req : Inbound) (c : Candidate) (out : Outbound)
    (errors : List UpstreamError) (last : Last) :
    (afterErrors req c out errors last).failedCandidates = last.failedCandidates ∧
      (afterErrors req c out errors last).protocolOut = last.protocolOut ∧
      (afterErrors req c out errors last).convertMode = last.convertMode := by
  induction errors generalizing last with
  | nil => exact ⟨rfl, rfl, rfl⟩
  | cons e rest ih => exact ih (afterError req c out e last)

/-- The tries of an attempt from an index on: their effects, and how they end. -/
theorem tryFrom_eq (req : Inbound) (i : ℕ) (a : Attempt) (out : Outbound) {left : ℕ}
    (hlock : a.candidate.lockUpstream = true → left = 0) (idx : ℕ) (last : Last) :
    ∃ (failed : List UpstreamError) (r : Except UpstreamError ExecOutcome),
      tried a.candidate.again ((List.range' idx (left + 1)).map fun idx ↦
          a.candidate.execRes req.stream out (a.passes idx)) = failed.map Except.error ++ [r] ∧
        (tryFrom req i a out left idx last).1 =
          (failed.map Except.error ++ [r]).flatMap (execEffects req i a.candidate) ∧
        (tryFrom req i a out left idx last).2 =
          match r with
          | .ok outcome => (afterErrors req a.candidate out failed last,
              .success (idx + failed.length) outcome)
          | .error e =>
            ({ afterErrors req a.candidate out (failed ++ [e]) last with
                failedCandidates := last.failedCandidates + 1
                idx := idx + failed.length },
              if a.candidate.lockUpstream || e.clientCausal then .stop else .failover) := by
  induction left generalizing idx last with
  | zero =>
    refine ⟨[], a.candidate.execRes req.stream out (a.passes idx), ?_, ?_, ?_⟩
    · rw [List.range'_one, List.map_singleton, tried_cons, tried_nil, ite_self]
      rfl
    · rw [tryFrom]
      cases a.candidate.execRes req.stream out (a.passes idx) with
      | ok outcome => simp [execEffects]
      | error e => simp [execEffects]
    · rw [tryFrom]
      cases a.candidate.execRes req.stream out (a.passes idx) with
      | ok outcome => rfl
      | error e => rfl
  | succ left ih =>
    have hunlocked : a.candidate.lockUpstream = false :=
      Bool.eq_false_iff.2 fun h ↦ absurd (hlock h) (Nat.succ_ne_zero left)
    rw [List.range'_succ, List.map_cons, tried_cons, tryFrom]
    cases hr : a.candidate.execRes req.stream out (a.passes idx) with
    | ok outcome => exact ⟨[], .ok outcome, rfl, by simp [execEffects], rfl⟩
    | error e =>
      by_cases hretry : e.retryable a.candidate.retryStatusCodes = true
      · obtain ⟨failed, r, htried, heffects, hend⟩ :=
          ih (fun h ↦ absurd h (by simp [hunlocked])) (idx + 1) (afterError req a.candidate out e last)
        refine ⟨e :: failed, r, ?_, ?_, ?_⟩
        · rw [Candidate.again, if_pos hretry, htried]
          rfl
        · simp only [hretry, hunlocked, Bool.not_false, Bool.and_self, if_true]
          rw [heffects]
          rfl
        · simp only [hretry, hunlocked, Bool.not_false, Bool.and_self, if_true]
          rw [hend, hunlocked, List.length_cons, Nat.add_right_comm idx 1, Nat.add_assoc idx]
          cases r with
          | ok outcome => rfl
          | error e' => rfl
      · refine ⟨[], .error e, ?_, ?_, ?_⟩
        · rw [Candidate.again, if_neg hretry]
          rfl
        · simp [hretry, execEffects]
        · simp only [hretry, Bool.false_and, Bool.false_eq_true, if_false]
          rfl

/-- The tries of an attempt that has a body: it succeeds, or is given up. -/
theorem tryFrom_results (req : Inbound) (i : ℕ) (a : Attempt) {out : Outbound}
    (hout : a.outbound = .ok out) (last : Last) :
    ∃ (failed : List UpstreamError) (r : Except UpstreamError ExecOutcome),
      a.results req = failed.map Except.error ++ [r] ∧
        (tryFrom req i a out a.candidate.retryLimit 0 (afterBuild out last)).1 = a.effects req i ∧
        (tryFrom req i a out a.candidate.retryLimit 0 (afterBuild out last)).2 =
          match r with
          | .ok outcome => (afterErrors req a.candidate out (a.errors req) (afterBuild out last),
              .success ((a.results req).length - 1) outcome)
          | .error e => (remember req last a,
              if a.candidate.lockUpstream || e.clientCausal then .stop else .failover) := by
  have hlock (h : a.candidate.lockUpstream = true) : a.candidate.retryLimit = 0 := by
    rw [Candidate.retryLimit, if_pos h]
  obtain ⟨failed, r, htried, heffects, hend⟩ := tryFrom_eq req i a out hlock 0 (afterBuild out last)
  have hresults : a.results req = failed.map Except.error ++ [r] := by
    rw [Attempt.results, hout]
    dsimp only
    rw [Attempt.answers, List.range_eq_range', htried]
  have herrors : a.errors req = failed ++ (errorOf r).toList := by
    rw [Attempt.errors, hresults, List.filterMap_append, List.filterMap_map]
    cases r <;> simp [Function.comp_def, errorOf]
  have hlength : (a.results req).length - 1 = failed.length := by
    rw [hresults, List.length_append, List.length_map]
    rfl
  refine ⟨failed, r, hresults, ?_, ?_⟩
  · rw [heffects, Attempt.effects, hout, hresults]
  · rw [hend, hlength, herrors, remember, hout]
    cases r with
    | ok outcome => simp [errorOf]
    | error e => simp [errorOf, herrors, hlength, afterBuild]

/-- One attempt of the loop: it is passed over, it has an answer, or the request ends with it. -/
theorem attemptLoop_cons (req : Inbound) (i : ℕ) (a : Attempt) (rest : List Attempt) (last : Last) :
    (a.failsOver req = true ∧ (∀ outcome, (a.results req).getLast? ≠ some (.ok outcome)) ∧
        attemptLoop req i (a :: rest) last =
          (a.effects req i ++ (attemptLoop req (i + 1) rest (remember req last a)).1,
            (attemptLoop req (i + 1) rest (remember req last a)).2)) ∨
      (a.failsOver req = false ∧ ∃ out outcome, a.outbound = .ok out ∧
        (a.results req).getLast? = some (.ok outcome) ∧
        attemptLoop req i (a :: rest) last =
          (a.effects req i, .answered i a out ((a.results req).length - 1) outcome
            (afterErrors req a.candidate out (a.errors req) (afterBuild out last)))) ∨
      (a.failsOver req = false ∧ (∀ outcome, (a.results req).getLast? ≠ some (.ok outcome)) ∧
        attemptLoop req i (a :: rest) last = (a.effects req i, .failed (remember req last a))) := by
  cases hout : a.outbound with
  | error cvt =>
    have hresults : a.results req = [] := by
      rw [Attempt.results, hout]
    have hnone (outcome : ExecOutcome) : (a.results req).getLast? ≠ some (.ok outcome) := by
      rw [hresults]
      exact fun h ↦ nomatch h
    cases cvt with
    | parse message =>
      refine .inr (.inr ⟨by rw [Attempt.failsOver, hout], hnone, ?_⟩)
      rw [attemptLoop, Attempt.effects, remember, hout]
    | unsupported message =>
      refine .inl ⟨by rw [Attempt.failsOver, hout], hnone, ?_⟩
      rw [attemptLoop, Attempt.effects, remember, hout]
      rfl
  | ok out =>
    obtain ⟨failed, r, hresults, heffects, hend⟩ := tryFrom_results req i a hout last
    have hlast : (a.results req).getLast? = some r := by
      rw [hresults, List.getLast?_concat]
    have hfails : a.failsOver req = a.candidate.passesOn r := by
      rw [Attempt.failsOver, hout, hlast]
      rfl
    rw [attemptLoop, hout]
    dsimp only
    cases r with
    | ok outcome =>
      have htry : tryFrom req i a out a.candidate.retryLimit 0 (afterBuild out last) = (_, _) :=
        Prod.ext heffects hend
      rw [htry]
      exact .inr (.inl ⟨hfails, out, outcome, rfl, hlast, rfl⟩)
    | error e =>
      have hnone (outcome : ExecOutcome) : (a.results req).getLast? ≠ some (.ok outcome) := by
        rw [hlast]
        exact fun h ↦ nomatch h
      have htry : tryFrom req i a out a.candidate.retryLimit 0 (afterBuild out last) = (_, _) :=
        Prod.ext heffects hend
      rw [htry]
      rw [Candidate.passesOn] at hfails
      cases hstop : a.candidate.lockUpstream || e.clientCausal with
      | true =>
        rw [hstop] at hfails
        exact .inr (.inr ⟨hfails, hnone, rfl⟩)
      | false =>
        rw [hstop] at hfails
        exact .inl ⟨hfails, hnone, rfl⟩

/-- The effects of the loop are those of the attempts that are made. -/
theorem effects_attemptLoop (req : Inbound) (i : ℕ) (l : List Attempt) (last : Last) :
    (attemptLoop req i l last).1 = ((made req l).zipIdx i).flatMap fun x ↦ x.1.effects req x.2 := by
  induction l generalizing i last with
  | nil => rfl
  | cons a rest ih =>
    rw [made, tried_cons]
    rcases attemptLoop_cons req i a rest last with
      ⟨hfails, -, hloop⟩ | ⟨hfails, out, outcome, -, -, hloop⟩ | ⟨hfails, -, hloop⟩
    · rw [hloop, if_pos hfails, ih, List.zipIdx_cons, List.flatMap_cons]
      rfl
    · rw [hloop, if_neg (by simp [hfails])]
      simp
    · rw [hloop, if_neg (by simp [hfails])]
      simp

/-- Something that no attempt does the loop does not do. -/
theorem filterMap_attemptLoop {α : Type*} {f : Effect → Option α} (req : Inbound)
    (hrejected : ∀ i e, f (.rejected i e) = none)
    (hexec : ∀ i c r, (execEffects req i c r).filterMap f = []) (i : ℕ) (l : List Attempt)
    (last : Last) : (attemptLoop req i l last).1.filterMap f = [] := by
  rw [effects_attemptLoop, List.filterMap_flatMap, List.flatMap_eq_nil_iff]
  intro x _
  rw [Attempt.effects]
  split
  · rw [List.filterMap_cons_none (hrejected _ _), List.filterMap_nil]
  · rw [List.filterMap_flatMap, List.flatMap_eq_nil_iff]
    exact fun r _ ↦ hexec x.2 x.1.candidate r

/-- The loop ends with the answer of the last attempt that is made, or with what is remembered of
all of them. -/
theorem end_attemptLoop (req : Inbound) (i : ℕ) (l : List Attempt) (last : Last) :
    (∃ before a out outcome, made req l = before ++ [a] ∧ a.outbound = .ok out ∧
        (a.results req).getLast? = some (.ok outcome) ∧
        (attemptLoop req i l last).2 =
          .answered (i + before.length) a out ((a.results req).length - 1) outcome
            (afterErrors req a.candidate out (a.errors req)
              (afterBuild out (before.foldl (remember req) last)))) ∨
      ((∀ a ∈ made req l, ∀ outcome, (a.results req).getLast? ≠ some (.ok outcome)) ∧
        (attemptLoop req i l last).2 = .failed ((made req l).foldl (remember req) last)) := by
  induction l generalizing i last with
  | nil => exact .inr ⟨fun a ha ↦ absurd ha List.not_mem_nil, rfl⟩
  | cons a rest ih =>
    rw [made, tried_cons]
    rcases attemptLoop_cons req i a rest last with
      ⟨hfails, hnone, hloop⟩ | ⟨hfails, out, outcome, hout, hlast, hloop⟩ | ⟨hfails, hnone, hloop⟩
    · rw [hloop, if_pos hfails]
      rcases ih (i + 1) (remember req last a) with
        ⟨before, b, out, outcome, hmade, hout, hlast, hend⟩ | ⟨hnever, hend⟩
      · refine .inl ⟨a :: before, b, out, outcome, congrArg (a :: ·) hmade, hout, hlast, ?_⟩
        rw [hend, List.length_cons, Nat.add_right_comm, Nat.add_assoc]
        rfl
      · refine .inr ⟨fun b hb ↦ ?_, hend⟩
        rcases List.mem_cons.1 hb with rfl | hb
        · exact hnone
        · exact hnever b hb
    · rw [hloop, if_neg (by simp [hfails])]
      exact .inl ⟨[], a, out, outcome, rfl, hout, hlast, rfl⟩
    · rw [hloop, if_neg (by simp [hfails])]
      refine .inr ⟨fun b hb ↦ ?_, rfl⟩
      rw [List.mem_singleton.1 hb]
      exact hnone

end Loop

/-! ### The results of one attempt -/

/-- All results but the last are errors that can be retried. -/
theorem again_of_results {req : Inbound} {a : Attempt} {before after : List _}
    {r : Except UpstreamError ExecOutcome} (h : a.results req = before ++ r :: after) :
    (∀ x ∈ before, a.candidate.again x = true) ∧ (after ≠ [] → a.candidate.again r = true) := by
  rw [Attempt.results] at h
  split at h
  · exact absurd h (by simp)
  · obtain ⟨hbefore, hafter, -⟩ := tried_split h
    exact ⟨hbefore, hafter⟩

theorem length_results_le (req : Inbound) (a : Attempt) :
    (a.results req).length ≤ a.candidate.retryLimit + 1 := by
  rw [Attempt.results]
  split
  · exact Nat.zero_le _
  · refine (tried_begins _ _).length_le.trans (le_of_eq ?_)
    rw [Attempt.answers, List.length_map, List.length_range]

theorem results_ne_nil {req : Inbound} {a : Attempt} {out : Outbound} (h : a.outbound = .ok out) :
    a.results req ≠ [] := by
  rw [Attempt.results, h]
  intro hnil
  exact absurd ((tried_eq_nil _).1 hnil) (by simp [Attempt.answers])

end NextApi.Gateway
