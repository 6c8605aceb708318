import Mathlib.Tactic.NormNum
import NextApi.Gateway.AttemptTrace

/-!
# Which candidate a log event is about

The log event of a request names an upstream and its model, and says how the request got there. It
ought to be about one candidate: the one with the answer, or else the last one that was tried.

What is known of a candidate is remembered in variables of their own, and a candidate whose body
cannot be converted does not set all of them. Its event then has the protocol of a candidate before
it. And when an answer cannot be converted, its event does not say what the request had lost. There
are no other exceptions, as long as the retries can be counted (`accounted_iff`).
-/

set_option autoImplicit false

namespace NextApi.Gateway

open Json Ir Logging Upstream Stream.Trials

/-- What a log event says about a candidate. -/
structure Account where
  upstreamId : Option Uuid
  upstreamModel : Option String
  protocolOut : String
  convertMode : String
  degraded : Bool
  deriving DecidableEq, Inhabited

def accountOf (ev : LogEvent) : Account where
  upstreamId := ev.upstreamId
  upstreamModel := ev.upstreamModel
  protocolOut := ev.protocolOut
  convertMode := ev.convertMode
  degraded := ev.degraded

/-- The event that an effect logs. -/
def Effect.event? : Effect → Option LogEvent
  | .logged ev => some ev
  | _ => none

section Account

variable [SerdeJson]

/-- The events of a request; that of a stream comes with its end. -/
def loggedEvents (r : List Effect × Ending) (collect : StreamCollect) (elapsed : ℕ) :
    List LogEvent :=
  r.1.filterMap Effect.event? ++
    match r.2 with
    | .replied _ _ _ => []
    | .streaming ctx _ => [(finalizeStream ctx collect elapsed).1]

variable [Responses.RandSuffix]

/-- Something is lost when an answer is converted. -/
def losesAnswer (req : Inbound) (out : Outbound) : ExecOutcome → Bool
  | .json v =>
    match convertResponse req.entry out.mode v with
    | .ok (_, ctx) => (degradedHeader ctx).isSome
    | .error _ => false
  | .stream => false

namespace Attempt

variable (req : Inbound) (a : Attempt)

/-- Something is lost on the way to a candidate, or on the way back. -/
def degraded : Bool :=
  match a.outbound with
  | .error _ => false
  | .ok out =>
    out.reqDegraded.isSome ||
      match (a.results req).getLast? with
      | some (.ok outcome) => losesAnswer req out outcome
      | _ => false

omit [SerdeJson] [Responses.RandSuffix] in
/-- The protocol of a candidate; that of the request when there is no body for it. -/
def protocolOut : String :=
  match a.outbound with
  | .ok out => out.protocol.asStr
  | .error _ => req.entry.asStr

omit [SerdeJson] [Responses.RandSuffix] in
def convertMode : String :=
  match a.outbound with
  | .ok out => modeStr out.mode
  | .error _ => "none"

/-- What there is to say about a candidate. -/
def account : Account where
  upstreamId := some a.candidate.upstreamId
  upstreamModel := req.upstreamModel a.candidate
  protocolOut := a.protocolOut req
  convertMode := a.convertMode
  degraded := a.degraded req

omit [SerdeJson] [Responses.RandSuffix] in
/-- The executions of a candidate after its first. -/
def retriesMade : ℕ := (a.results req).length - 1

end Attempt

/-- The event is about the last candidate that was tried, and counts its retries and the candidates
before it. -/
def Accounted (req : Inbound) (attempts : List Attempt) (ev : LogEvent) : Prop :=
  ∀ before a, made req attempts = before ++ [a] →
    accountOf ev = a.account req ∧ ev.retryCount = ((a.retriesMade req + before.length : ℕ) : ℤ)

/-- A body was converted or passed through for a candidate. -/
def Attempt.HasBody (a : Attempt) : Prop := ∃ out, a.outbound = .ok out

/-- The answer of a candidate cannot be converted, and its request has lost something. -/
def Attempt.LosesTwice (req : Inbound) (a : Attempt) : Prop :=
  ∃ out v e, a.outbound = .ok out ∧ out.reqDegraded.isSome = true ∧
    (a.results req).getLast? = some (.ok (.json v)) ∧
    convertResponse req.entry out.mode v = .error e

/-- The last candidate that is tried has a body, or none had one; its answer can be converted, or
its request has lost nothing; and the retries can be counted. -/
structure Accountable (req : Inbound) (before : List Attempt) (a : Attempt) : Prop where
  body : a.HasBody ∨ ∀ b ∈ before, ¬ b.HasBody
  answer : ¬ a.LosesTwice req
  count : a.retriesMade req + before.length < 2 ^ 31

/-! ### What is remembered -/

omit [SerdeJson] [Responses.RandSuffix] in
theorem asStr_ne_empty (p : Protocol) : p.asStr ≠ "" := by
  cases p <;> decide

omit [SerdeJson] [Responses.RandSuffix] in
theorem modeStr_ne (m : Mode) : modeStr m ≠ "" ∧ modeStr m ≠ "none" := by
  cases m <;> exact ⟨by simp [modeStr], by simp [modeStr]⟩

omit [SerdeJson] [Responses.RandSuffix] in
theorem retryCount_eq_iff (idx failed : ℕ) :
    retryCount idx failed = ((idx + failed : ℕ) : ℤ) ↔ idx + failed < 2 ^ 31 := by
  unfold retryCount
  generalize idx + failed = n
  refine (Int.bmod_eq_iff (by norm_num)).trans ?_
  constructor
  · intro ⟨_, h, _⟩
    norm_num at h
    omega
  · intro h
    refine ⟨by norm_num, ?_, by simp⟩
    norm_num
    omega

omit [SerdeJson] [Responses.RandSuffix] in
theorem isSome_mergeDegraded (a b : Option String) :
    (mergeDegraded a b).isSome = (a.isSome || b.isSome) := by
  cases a <;> cases b <;> rfl

omit [Responses.RandSuffix] in
/-- Every candidate that was given up is counted. -/
theorem failedCandidates_foldl (req : Inbound) (l : List Attempt) (last : Last) :
    (l.foldl (remember req) last).failedCandidates = last.failedCandidates + l.length := by
  induction l generalizing last with
  | nil => rfl
  | cons a rest ih =>
    have hone : (remember req last a).failedCandidates = last.failedCandidates + 1 := by
      rw [remember]
      split <;> rfl
    rw [List.foldl_cons, ih, hone, List.length_cons, Nat.add_assoc, Nat.add_comm 1]

omit [Responses.RandSuffix] in
/-- A candidate without a body sets neither the protocol nor the mode. -/
theorem recall_of_error {req : Inbound} {last : Last} {a : Attempt} (h : ¬ a.HasBody) :
    (remember req last a).protocolOut = last.protocolOut ∧
      (remember req last a).convertMode = last.convertMode ∧
      (remember req last a).degraded = last.degraded ∧
      (remember req last a).upstreamId = some a.candidate.upstreamId ∧
      (remember req last a).upstreamModel = req.upstreamModel a.candidate ∧
      (remember req last a).idx = a.retriesMade req := by
  cases hout : a.outbound with
  | ok out => exact absurd ⟨out, hout⟩ h
  | error e =>
    have hresults : a.results req = [] := by
      rw [Attempt.results, hout]
    rw [remember, hout, Attempt.retriesMade, hresults]
    exact ⟨rfl, rfl, rfl, rfl, rfl, rfl⟩

omit [Responses.RandSuffix] in
/-- A candidate with a body that was given up sets everything. -/
theorem recall_of_ok {req : Inbound} {last : Last} {a : Attempt} {out : Outbound}
    (hout : a.outbound = .ok out)
    (hnone : ∀ outcome, (a.results req).getLast? ≠ some (.ok outcome)) :
    (remember req last a).protocolOut = some out.protocol.asStr ∧
      (remember req last a).convertMode = some (modeStr out.mode) ∧
      (remember req last a).degraded = out.reqDegraded.isSome ∧
      (remember req last a).upstreamId = some a.candidate.upstreamId ∧
      (remember req last a).upstreamModel = req.upstreamModel a.candidate ∧
      (remember req last a).idx = a.retriesMade req := by
  obtain ⟨init, e, herrors⟩ : ∃ init e, a.errors req = init ++ [e] := by
    obtain ⟨before, r, hresults⟩ : ∃ before r, a.results req = before ++ [r] :=
      ⟨_, _, (List.dropLast_append_getLast (results_ne_nil hout)).symm⟩
    cases r with
    | ok outcome => exact absurd (by rw [hresults, List.getLast?_concat]) (hnone outcome)
    | error e =>
      exact ⟨before.filterMap errorOf, e, by simp [Attempt.errors, hresults, errorOf]⟩
  obtain ⟨-, hprotocol, hmode⟩ :=
    fields_afterErrors req a.candidate out (a.errors req) (afterBuild out last)
  have hlast : afterErrors req a.candidate out (a.errors req) (afterBuild out last) =
      afterError req a.candidate out e
        (afterErrors req a.candidate out init (afterBuild out last)) := by
    rw [afterErrors, herrors, List.foldl_append]
    rfl
  rw [remember, hout]
  refine ⟨hprotocol, hmode, ?_, ?_, ?_, rfl⟩ <;> dsimp only <;> rw [hlast] <;> rfl

omit [Responses.RandSuffix] in
theorem foldl_recall_of_error (req : Inbound) {l : List Attempt} (h : ∀ b ∈ l, ¬ b.HasBody)
    (last : Last) :
    (l.foldl (remember req) last).protocolOut = last.protocolOut ∧
      (l.foldl (remember req) last).convertMode = last.convertMode ∧
      (l.foldl (remember req) last).degraded = last.degraded := by
  induction l generalizing last with
  | nil => exact ⟨rfl, rfl, rfl⟩
  | cons a rest ih =>
    obtain ⟨hprotocol, hmode, hdegraded, -⟩ :=
      @recall_of_error _ req last a (h a List.mem_cons_self)
    obtain ⟨hp, hm, hd⟩ := ih (fun b hb ↦ h b (List.mem_cons_of_mem a hb)) (remember req last a)
    exact ⟨hp.trans hprotocol, hm.trans hmode, hd.trans hdegraded⟩

omit [Responses.RandSuffix] in
/-- After a candidate with a body there is a mode. -/
theorem convertMode_foldl (req : Inbound) {l : List Attempt}
    (hnone : ∀ b ∈ l, ∀ outcome, (b.results req).getLast? ≠ some (.ok outcome))
    (h : ∃ b ∈ l, b.HasBody) (last : Last) :
    ∃ m, (l.foldl (remember req) last).convertMode = some (modeStr m) := by
  induction l using List.reverseRecOn with
  | nil =>
    obtain ⟨b, hb, -⟩ := h
    exact absurd hb List.not_mem_nil
  | append_singleton before a ih =>
    rw [List.foldl_append, List.foldl_cons, List.foldl_nil]
    by_cases ha : a.HasBody
    · obtain ⟨out, hout⟩ := ha
      exact ⟨out.mode, (recall_of_ok hout (hnone a (by simp))).2.1⟩
    · rw [(recall_of_error ha).2.1]
      refine ih (fun b hb ↦ hnone b (List.mem_append_left _ hb)) ?_
      obtain ⟨b, hb, hbody⟩ := h
      rcases List.mem_append.1 hb with hb | hb
      · exact ⟨b, hb, hbody⟩
      · rw [List.mem_singleton.1 hb] at hbody
        exact absurd hbody ha

/-! ### The events -/

omit [SerdeJson] [Responses.RandSuffix] in
theorem event?_execEffects (req : Inbound) (i : ℕ) (c : Candidate)
    (r : Except UpstreamError ExecOutcome) :
    (execEffects req i c r).filterMap Effect.event? = [] := by
  cases r with
  | ok outcome =>
    rw [execEffects]
    cases req.stickyRouting <;> rfl
  | error e =>
    rw [execEffects, errorEffects]
    cases e.authFailure <;> cases e.retryable c.retryStatusCodes <;> rfl

omit [Responses.RandSuffix] in
/-- Nothing is logged before the loop has ended. -/
theorem event?_attemptLoop (req : Inbound) (i : ℕ) (l : List Attempt) (last : Last) :
    (attemptLoop req i l last).1.filterMap Effect.event? = [] :=
  filterMap_attemptLoop req (fun _ _ ↦ rfl) (event?_execEffects req) i l last

/-- A response is converted, with what was lost either way, or it is refused. -/
theorem nonstreamSuccess_cases (entry : Protocol) (v : Value) (gatewayModel : String) {out : Outbound}
    (hplain : out.mode = .passthrough → out.reqDegraded = none) :
    let answer := nonstreamSuccess entry out.mode v gatewayModel out.reqDegraded
    (answer.status = 200 ∧ ∃ w ctx, convertResponse entry out.mode v = .ok (w, ctx) ∧
        answer.degraded = (out.reqDegraded.isSome || (degradedHeader ctx).isSome)) ∨
      (answer.status = 502 ∧ answer.degraded = false ∧
        ∃ e, convertResponse entry out.mode v = .error e) := by
  cases hmode : out.mode with
  | passthrough =>
    refine .inl ⟨rfl, v, [], rfl, ?_⟩
    rw [hplain hmode]
    rfl
  | convert t =>
    rw [nonstreamSuccess]
    cases convertResponse entry (.convert t) v with
    | ok read => exact .inl ⟨rfl, read.1, read.2, rfl, isSome_mergeDegraded _ _⟩
    | error e => exact .inr ⟨rfl, rfl, e, rfl⟩

/-- The event of an answer is about its candidate, unless what the request has lost is forgotten. -/
theorem succeed_logs {req : Inbound} {a : Attempt} {out : Outbound} {outcome : ExecOutcome}
    (hout : a.outbound = .ok out) (hlast : (a.results req).getLast? = some (.ok outcome))
    (idx : ℕ) (last : Last) (elapsed : ℕ) (collect : StreamCollect) (elapsed' : ℕ) :
    ∃ ev, loggedEvents (succeed req a out idx outcome last elapsed) collect elapsed' = [ev] ∧
      (accountOf ev = a.account req ↔ ¬ a.LosesTwice req) ∧
      ev.retryCount = retryCount idx last.failedCandidates := by
  have haccount (ev : LogEvent) (hev : accountOf ev =
      { accountOf (answerEvent req a.candidate out) with degraded := ev.degraded }) :
      accountOf ev = a.account req ↔
        ev.degraded = (out.reqDegraded.isSome || losesAnswer req out outcome) := by
    rw [hev, accountOf, Attempt.account, Attempt.protocolOut, Attempt.convertMode,
      Attempt.degraded, hout, hlast, Account.mk.injEq]
    simp [answerEvent]
  cases outcome with
  | stream =>
    refine ⟨_, rfl, ?_, rfl⟩
    refine Iff.trans (haccount _ ?_) (iff_of_true (Bool.or_false _).symm ?_)
    · rfl
    rintro ⟨_, v, _, _, _, hjson, _⟩
    cases hlast.symm.trans hjson
  | json v =>
    have hidem {f : ℕ → Effect} (hf : ∀ rid, (f rid).event? = none) :
        (req.idemRec.toList.map f).filterMap Effect.event? = [] := by
      rw [List.filterMap_map, List.filterMap_eq_nil_iff]
      exact fun rid _ ↦ hf rid
    have hloses : a.LosesTwice req ↔ out.reqDegraded.isSome = true ∧
        ∃ e, convertResponse req.entry out.mode v = .error e := by
      constructor
      · rintro ⟨out', v', e', hout', hsome, hjson, herror⟩
        obtain rfl : out = out' := Except.ok.inj (hout.symm.trans hout')
        obtain rfl : v = v' := by simpa using hlast.symm.trans hjson
        exact ⟨hsome, e', herror⟩
      · rintro ⟨hsome, e', herror⟩
        exact ⟨out, v, e', hout, hsome, hlast, herror⟩
    have hcases := nonstreamSuccess_cases req.entry v req.model (a.built.plain out hout)
    rw [succeed, loggedEvents]
    dsimp only at hcases ⊢
    rcases hcases with ⟨hstatus, w, ctx, hconvert, hdegraded⟩ | ⟨hstatus, hdegraded, hconvert⟩
    · rw [if_pos hstatus, List.filterMap_append, hidem fun _ ↦ rfl]
      refine ⟨_, rfl, ?_, rfl⟩
      refine Iff.trans (haccount _ ?_) ?_
      · rfl
      rw [losesAnswer, hconvert, hloses]
      refine iff_of_true hdegraded ?_
      rintro ⟨-, e, herror⟩
      cases hconvert.symm.trans herror
    · obtain ⟨e, herror⟩ := hconvert
      rw [if_neg (by rw [hstatus]; decide), List.filterMap_append, hidem fun _ ↦ rfl]
      refine ⟨_, rfl, ?_, rfl⟩
      refine Iff.trans (haccount _ ?_) ?_
      · rfl
      rw [losesAnswer, herror, hloses]
      show (nonstreamSuccess _ _ _ _ _).degraded = (_ || false) ↔ _
      rw [hdegraded, Bool.or_false]
      cases out.reqDegraded.isSome with
      | false => simp
      | true => simpa using ⟨e, herror⟩

omit [SerdeJson] [Responses.RandSuffix] in
theorem accountOf_logFail {tmpl : LogEvent} (hprotocol : tmpl.protocolOut ≠ "")
    (hmode : tmpl.convertMode ≠ "") (elapsed : ℕ) (status : ℤ) (message : String) (retries : ℤ) :
    accountOf (logFail tmpl elapsed status message retries) = accountOf tmpl := by
  rw [logFail, accountOf, accountOf, if_neg hprotocol, if_neg hmode]

/-- The event of a request that failed is about its last candidate, unless that has no body and
another one had. -/
theorem fail_logs {req : Inbound} {before : List Attempt} {a : Attempt}
    (hnone : ∀ b ∈ before ++ [a], ∀ outcome, (b.results req).getLast? ≠ some (.ok outcome))
    (elapsed : ℕ) (collect : StreamCollect) (elapsed' : ℕ) :
    ∃ ev, loggedEvents (fail req ((before ++ [a]).foldl (remember req) {}) elapsed) collect elapsed' =
        [ev] ∧
      (accountOf ev = a.account req ↔ a.HasBody ∨ ∀ b ∈ before, ¬ b.HasBody) ∧
      ev.retryCount = retryCount (a.retriesMade req) before.length := by
  have hlast : ∀ outcome, (a.results req).getLast? ≠ some (.ok outcome) :=
    hnone a (List.mem_append_right before (List.mem_singleton_self a))
  rw [List.foldl_append, List.foldl_cons, List.foldl_nil]
  have hcount : (remember req (before.foldl (remember req) {}) a).failedCandidates - 1 =
      before.length := by
    have hall := failedCandidates_foldl req (before ++ [a]) {}
    rw [List.foldl_append, List.foldl_cons, List.foldl_nil] at hall
    rw [hall, List.length_append]
    simp
  generalize hstate : before.foldl (remember req) {} = state at hcount ⊢
  have hidem : (req.idemRec.toList.map Effect.idemFailed).filterMap Effect.event? = [] := by
    rw [List.filterMap_map, List.filterMap_eq_nil_iff]
    exact fun rid _ ↦ rfl
  have hdegraded : a.degraded req = a.outbound.toOption.any fun out ↦ out.reqDegraded.isSome := by
    rw [Attempt.degraded]
    cases a.outbound with
    | error e => rfl
    | ok out =>
      cases hr : (a.results req).getLast? with
      | none => exact Bool.or_false _
      | some r =>
        cases r with
        | ok outcome => exact absurd hr (hlast outcome)
        | error e => exact Bool.or_false _
  refine ⟨_, by simp only [fail, loggedEvents, List.filterMap_cons, Effect.event?, hidem,
    List.append_nil]; rfl, ?_, ?_⟩
  · by_cases hbody : a.HasBody
    · refine iff_of_true ?_ (.inl hbody)
      obtain ⟨out, hout⟩ := hbody
      obtain ⟨hprotocol, hmode, hlost, hid, hmodel, -⟩ := @recall_of_ok _ req state a out hout hlast
      have hevent : accountOf (failedEvent req (remember req state a)) = a.account req := by
        rw [failedEvent, accountOf, hprotocol, hmode, hlost, hid, hmodel, Attempt.account,
          hdegraded, Attempt.protocolOut, Attempt.convertMode, hout]
        rfl
      rw [accountOf_logFail, hevent]
      · rw [failedEvent, hprotocol]
        exact asStr_ne_empty out.protocol
      · rw [failedEvent, hmode]
        exact (modeStr_ne out.mode).1
    · obtain ⟨hprotocol, hmode, hlost, hid, hmodel, -⟩ := @recall_of_error _ req state a hbody
      have herror : ∃ e, a.outbound = .error e := by
        cases hout : a.outbound with
        | error e => exact ⟨e, rfl⟩
        | ok out => exact absurd ⟨out, hout⟩ hbody
      obtain ⟨e, hout⟩ := herror
      constructor
      · intro haccount
        refine .inr fun b hb hb' ↦ ?_
        obtain ⟨m, hm⟩ := convertMode_foldl req (fun c hc ↦ hnone c (List.mem_append_left _ hc))
          ⟨b, hb, hb'⟩ {}
        rw [hstate] at hm
        have hevent : (failedEvent req (remember req state a)).convertMode = modeStr m := by
          rw [failedEvent, hmode, hm]
          rfl
        have hlogged := congrArg Account.convertMode haccount
        rw [accountOf, logFail, hevent, if_neg (modeStr_ne m).1, Attempt.account,
          Attempt.convertMode, hout] at hlogged
        exact (modeStr_ne m).2 hlogged
      · rintro (hbody' | hnever)
        · exact absurd hbody' hbody
        · obtain ⟨hp, hm, hd⟩ := foldl_recall_of_error req hnever {}
          rw [hstate] at hp hm hd
          have hevent : accountOf (failedEvent req (remember req state a)) = a.account req := by
            rw [failedEvent, accountOf, hprotocol, hmode, hlost, hid, hmodel, hp, hm, hd,
              Attempt.account, hdegraded, Attempt.protocolOut, Attempt.convertMode, hout]
            rfl
          rw [accountOf_logFail, hevent]
          · rw [failedEvent, hprotocol, hp]
            exact asStr_ne_empty req.entry
          · rw [failedEvent, hmode, hm]
            simp
  · rw [hcount]
    refine congrArg (retryCount · before.length) ?_
    by_cases hbody : a.HasBody
    · obtain ⟨out, hout⟩ := hbody
      exact (recall_of_ok hout hlast).2.2.2.2.2
    · exact (recall_of_error hbody).2.2.2.2.2

omit [SerdeJson] [Responses.RandSuffix] in
/-- There is one last attempt. -/
theorem forall_made_iff {req : Inbound} {l before : List Attempt} {a : Attempt}
    (h : made req l = before ++ [a]) {P : List Attempt → Attempt → Prop} :
    (∀ before a, made req l = before ++ [a] → P before a) ↔ P before a := by
  constructor
  · intro hall
    exact hall before a h
  · intro hP before' a' h'
    obtain ⟨rfl, hlast⟩ := List.append_inj' (h.symm.trans h') rfl
    rw [← (List.cons.inj hlast).1]
    exact hP

omit [Responses.RandSuffix] in
theorem loggedEvents_append {told : List Effect} (h : told.filterMap Effect.event? = [])
    (r : List Effect × Ending) (collect : StreamCollect) (elapsed : ℕ) :
    loggedEvents (told ++ r.1, r.2) collect elapsed = loggedEvents r collect elapsed := by
  rw [loggedEvents, loggedEvents, List.filterMap_append, h]
  rfl

/-- The one event of a request is about the last candidate that was tried, with its count, exactly
when that candidate is accountable. -/
theorem accounted_iff (req : Inbound) (first : Attempt) (rest : List Attempt) (elapsed : ℕ)
    (collect : StreamCollect) (elapsed' : ℕ) :
    ∃ ev, loggedEvents (runAttempts req (first :: rest) elapsed) collect elapsed' = [ev] ∧
      (Accounted req (first :: rest) ev ↔
        ∀ before a, made req (first :: rest) = before ++ [a] → Accountable req before a) := by
  have hsilent := event?_attemptLoop req 0 (first :: rest) {}
  rcases end_attemptLoop req 0 (first :: rest) {} with
    ⟨before, a, out, outcome, hmade, hout, hlast, hend⟩ | ⟨hnever, hend⟩
  · have hfailed : (afterErrors req a.candidate out (a.errors req)
        (afterBuild out (before.foldl (remember req) {}))).failedCandidates = before.length := by
      rw [(fields_afterErrors req a.candidate out (a.errors req) _).1]
      exact (failedCandidates_foldl req before {}).trans (Nat.zero_add _)
    obtain ⟨ev, hev, haccount, hcount⟩ := succeed_logs hout hlast ((a.results req).length - 1)
      (afterErrors req a.candidate out (a.errors req)
        (afterBuild out (before.foldl (remember req) {}))) elapsed collect elapsed'
    refine ⟨ev, ?_, ?_⟩
    · rw [runAttempts, loggedEvents_append hsilent, hend]
      exact hev
    · rw [Accounted, forall_made_iff hmade, forall_made_iff hmade, haccount, hcount, hfailed,
        Attempt.retriesMade, retryCount_eq_iff]
      constructor
      · intro ⟨hanswer, hbound⟩
        exact ⟨.inl ⟨out, hout⟩, hanswer, hbound⟩
      · intro h
        exact ⟨h.answer, h.count⟩
  · obtain ⟨before, a, hmade⟩ : ∃ before a, made req (first :: rest) = before ++ [a] :=
      exists_tried_last (List.cons_ne_nil first rest)
    rw [hmade] at hnever hend
    obtain ⟨ev, hev, haccount, hcount⟩ := fail_logs hnever elapsed collect elapsed'
    refine ⟨ev, ?_, ?_⟩
    · rw [runAttempts, loggedEvents_append hsilent, hend]
      exact hev
    · rw [Accounted, forall_made_iff hmade, forall_made_iff hmade, haccount, hcount,
        retryCount_eq_iff]
      constructor
      · intro ⟨hbody, hbound⟩
        refine ⟨hbody, ?_, hbound⟩
        rintro ⟨_, v, _, _, _, hjson, _⟩
        exact hnever a (List.mem_append_right before (List.mem_singleton_self a)) _ hjson
      · intro h
        exact ⟨h.body, h.count⟩

end Account

/-! ### A mixed event -/

section Codec

local instance accountCodec : SerdeJson := Compact.codec

local instance accountSuffix : Responses.RandSuffix := ⟨fun _ ↦ "0"⟩

/-- A Chat request without messages. -/
def emptyChat : Value := .object [("model", .str "m"), ("messages", .arr [])]

/-- An upstream to convert for. -/
def anthropicCandidate : Candidate where
  upstreamId := 2
  upstreamName := "claude"
  channel := { protocols := ["anthropic"] }

/-- The first upstream gets the body as it is and does not answer in time; for the second one it is
refused. -/
theorem not_accounted_emptyChat :
    ¬ ∀ (limit : ℕ) (req : Inbound) (body : Value) (first : Attempt) (rest : List Attempt)
      (elapsed : ℕ) (collect : StreamCollect) (elapsed' : ℕ) (ev : LogEvent),
      AttemptsOf limit req body (first :: rest) →
      loggedEvents (runAttempts req (first :: rest) elapsed) collect elapsed' = [ev] →
      Accounted req (first :: rest) ev := by
  intro h
  obtain ⟨b, hfirst⟩ : ∃ b, buildOutbound 1000 .openaiChat .passthrough emptyChat false "m"
      chatCandidate.channel = .ok (.ok ⟨b, .openaiChat, .passthrough, none⟩) := ⟨_, rfl⟩
  obtain ⟨message, hsecond⟩ : ∃ message, buildOutbound 1000 .openaiChat (.convert .anthropic)
      emptyChat false "m" anthropicCandidate.channel = .ok (.error (.parse message)) := ⟨_, rfl⟩
  let first : Attempt := ⟨chatCandidate, .ok _, built_buildOutbound hfirst,
    fun _ ↦ { http := .error .timeout }⟩
  let second : Attempt := ⟨anthropicCandidate, .error (.parse message),
    built_buildOutbound hsecond, fun _ ↦ {}⟩
  have hattempts : AttemptsOf 1000 chatInbound emptyChat [first, second] := by
    intro a ha
    rcases List.mem_pair.1 ha with rfl | rfl
    · exact ⟨.passthrough, rfl, hfirst⟩
    · exact ⟨.convert .anthropic, rfl, hsecond⟩
  have hmade : made chatInbound [first, second] = [first] ++ [second] := rfl
  have hnone : ∀ b ∈ [first] ++ [second], ∀ outcome,
      (b.results chatInbound).getLast? ≠ some (.ok outcome) := by
    intro b hb outcome hlast
    rcases List.mem_pair.1 hb with rfl | rfl
    · have hresults : first.results chatInbound = [.error .timeout] := rfl
      exact nomatch (congrArg List.getLast? hresults).symm.trans hlast
    · exact nomatch hlast
  obtain ⟨ev, hev, haccount, -⟩ := fail_logs hnone 0 {} 0
  have hend : (attemptLoop chatInbound 0 [first, second] {}).2 =
      .failed (([first] ++ [second]).foldl (remember chatInbound) {}) := by
    rcases end_attemptLoop chatInbound 0 [first, second] {} with
      ⟨_, a, _, outcome, hmade', -, hlast, -⟩ | ⟨-, hend⟩
    · refine absurd hlast (hnone a ?_ outcome)
      rw [← hmade, hmade']
      exact List.mem_append_right _ (List.mem_singleton_self a)
    · rw [← hmade]
      exact hend
  have hlogged : loggedEvents (runAttempts chatInbound [first, second] 0) {} 0 = [ev] := by
    rw [runAttempts, loggedEvents_append (event?_attemptLoop _ _ _ _), hend]
    exact hev
  rcases haccount.1 (h 1000 chatInbound emptyChat first [second] 0 {} 0 ev hattempts hlogged
    [first] second hmade).1 with ⟨out, hout⟩ | hnever
  · exact nomatch hout
  · exact hnever first (List.mem_singleton_self first) ⟨_, rfl⟩

end Codec

end NextApi.Gateway
