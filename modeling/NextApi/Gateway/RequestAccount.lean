import NextApi.Gateway.AttemptAccount
import NextApi.Gateway.RunGateway

/-!
# Every request is accounted once

A request that is refused is logged when it is refused; one that gets to its attempts is logged
after them, with its answer or its last error; and a stream when it ends or is dropped
(`runGateway_accounted`). An answer from the record of an earlier request is not logged, and nothing
is done for it.

A request that has begun the record of an idempotency key completes it or lets it fail, once. A
stream would do neither, but no stream begins a record.
-/

set_option autoImplicit false

namespace NextApi.Gateway

open Json Ir Logging Upstream Stream.Trials

/-- The record of an idempotency key that an effect resolves. -/
def Effect.resolved? : Effect → Option ℕ
  | .idemCompleted rid _ _ => some rid
  | .idemFailed rid => some rid
  | _ => none

namespace Handled

/-- The records that are resolved. -/
def resolved (h : Handled) : List ℕ := h.effects.filterMap Effect.resolved?

/-- The events that are logged until the connection, after some polls, drops the stream. -/
def events [SerdeJson] (h : Handled) (polls : List (BodyPoll × ℕ)) (dropped : ℕ) : List LogEvent :=
  h.effects.filterMap Effect.event? ++
    match h.ending with
    | .replied _ _ _ => []
    | .streaming ctx _ => ((teeLogStream ctx).run polls dropped).filterMap TeeEffect.event?

end Handled

/-- What is accounted of a request. -/
structure AccountedOnce [SerdeJson] (call : GatewayCall) (h : Handled)
    (polls : List (BodyPoll × ℕ)) (dropped : ℕ) : Prop where
  /-- There is one event, of the request. -/
  event : h.replayed = false →
    ∃ ev, h.events polls dropped = [ev] ∧ ev.requestId = call.requestId
  /-- For an answer from a record there is none, and nothing is done. -/
  replay : h.replayed = true → h.events polls dropped = [] ∧ h.effects = []
  /-- The record that was begun is resolved once, and no other. -/
  record : h.resolved = h.begun.toList

/-! ### Refusals -/

/-- The request is answered with an error. -/
def Refused (call : GatewayCall) (w : World) (h : Handled) : Prop :=
  ∃ tmpl status logged message, tmpl.requestId = call.requestId ∧
    h = call.refuse w tmpl status logged message

namespace GatewayCall

variable {call : GatewayCall} {w : World} {r : ReadCall} {h : Handled}

theorem refused_refuse {tmpl : LogEvent} (htmpl : tmpl.requestId = call.requestId)
    (status : ℕ) (logged message : String) :
    Refused call w (call.refuse w tmpl status logged message) :=
  ⟨tmpl, status, logged, message, htmpl, rfl⟩

theorem requestId_of_read (hread : call.read w = .ok r) : r.tmpl.requestId = call.requestId := by
  unfold read at hread
  split at hread
  · exact nomatch hread
  · split at hread
    · exact nomatch hread
    · split at hread
      · exact nomatch hread
      · rw [← Except.ok.inj hread]
        rfl

theorem refused_of_read (hread : call.read w = .error h) : Refused call w h := by
  unfold read at hread
  split at hread
  · rw [← Except.error.inj hread]
    exact refused_refuse rfl _ _ _
  · split at hread
    · rw [← Except.error.inj hread]
      exact refused_refuse rfl _ _ _
    · split at hread
      · rw [← Except.error.inj hread]
        exact refused_refuse rfl _ _ _
      · exact nomatch hread

theorem refused_of_checkLimits (htmpl : r.tmpl.requestId = call.requestId)
    (hlimits : call.checkLimits w r = .error h) : Refused call w h := by
  unfold checkLimits at hlimits
  split at hlimits
  · rw [← Except.error.inj hlimits]
    exact refused_refuse htmpl _ _ _
  · split at hlimits
    · rw [← Except.error.inj hlimits]
      exact refused_refuse htmpl _ _ _
    · split at hlimits
      · rw [← Except.error.inj hlimits]
        exact refused_refuse htmpl _ _ _
      · split at hlimits
        · rw [← Except.error.inj hlimits]
          exact refused_refuse htmpl _ _ _
        · rw [← Except.error.inj hlimits]
          exact refused_refuse htmpl _ _ _
        · exact nomatch hlimits

theorem refused_of_choose (htmpl : r.tmpl.requestId = call.requestId)
    (hchoose : call.choose w r = .error h) : Refused call w h := by
  unfold choose at hchoose
  split at hchoose
  · rw [← Except.error.inj hchoose]
    exact refused_refuse htmpl _ _ _
  · dsimp only at hchoose
    split at hchoose
    · rw [← Except.error.inj hchoose]
      exact refused_refuse htmpl _ _ _
    · split at hchoose
      · rw [← Except.error.inj hchoose]
        exact refused_refuse htmpl _ _ _
      · exact nomatch hchoose

/-- A request that is not registered is refused, or answered from a record. -/
theorem refused_of_register (htmpl : r.tmpl.requestId = call.requestId)
    (hregister : call.register w r = .error h) :
    Refused call w h ∨ ∃ status response, h = replay status response := by
  unfold register at hregister
  split at hregister
  · exact nomatch hregister
  · split at hregister
    · exact nomatch hregister
    · split at hregister
      · rw [← Except.error.inj hregister]
        exact Or.inl (refused_refuse htmpl _ _ _)
      · split at hregister
        · rw [← Except.error.inj hregister]
          exact Or.inl (refused_refuse htmpl _ _ _)
        · split at hregister
          · exact nomatch hregister
          · rw [← Except.error.inj hregister]
            exact Or.inr ⟨_, _, rfl⟩
          · rw [← Except.error.inj hregister]
            exact Or.inl (refused_refuse htmpl _ _ _)
          · rw [← Except.error.inj hregister]
            exact Or.inl (refused_refuse htmpl _ _ _)

/-- A stream begins no record. -/
theorem register_of_stream {idemRec : Option ℕ} (hregister : call.register w r = .ok idemRec)
    (hstream : r.stream = true) : idemRec = none := by
  unfold register at hregister
  rw [hstream] at hregister
  split at hregister
  · exact (Except.ok.inj hregister).symm
  · split at hregister
    · exact (Except.ok.inj hregister).symm
    · exact nomatch hregister

end GatewayCall

/-! ### Attempts -/

section Attempts

/-- A stream is an answer to a request for one. -/
theorem stream_of_execRes {c : Candidate} {stream : Bool} {out : Outbound} {p : Pass}
    (h : c.execRes stream out p = .ok .stream) : stream = true := by
  have hanswered (x : Except UpstreamError Value) (hx : answered stream x = .ok .stream) :
      stream = true := by
    obtain ⟨v, -, hv⟩ := map_eq_ok.1 hx
    by_contra hnot
    rw [if_neg hnot] at hv
    exact nomatch hv
  unfold Candidate.execRes at h
  split at h
  · split at h
    · exact nomatch h
    · exact hanswered _ h
  · split at h
    · split at h
      · exact nomatch h
      · dsimp only at h
        split at h
        · split at h
          · rename_i outcome hws
            rw [Except.ok.inj h] at hws
            exact hanswered _ hws
          · split at h
            · exact hanswered _ h
            · exact nomatch h
        · exact hanswered _ h
    · exact hanswered _ h

theorem stream_of_results {req : Inbound} {a : Attempt} (h : .ok .stream ∈ a.results req) :
    req.stream = true := by
  rw [Attempt.results] at h
  split at h
  · exact absurd h List.not_mem_nil
  · obtain ⟨idx, -, hr⟩ := List.mem_map.1 ((tried_begins _ _).subset h)
    exact stream_of_execRes hr

theorem resolved?_execEffects (req : Inbound) (i : ℕ) (c : Candidate)
    (r : Except UpstreamError ExecOutcome) :
    (execEffects req i c r).filterMap Effect.resolved? = [] := by
  cases r with
  | ok outcome =>
    rw [execEffects]
    cases req.stickyRouting <;> rfl
  | error e =>
    rw [execEffects, errorEffects]
    cases e.authFailure <;> cases e.retryable c.retryStatusCodes <;> rfl

/-- The record is resolved, and an event is logged. -/
theorem effects_resolved {f : ℕ → Effect} (hevent : ∀ rid, (f rid).event? = none)
    (hresolved : ∀ rid, (f rid).resolved? = some rid) (record : Option ℕ) (ev : LogEvent) :
    (record.toList.map f ++ [Effect.logged ev]).filterMap Effect.event? = [ev] ∧
      (record.toList.map f ++ [Effect.logged ev]).filterMap Effect.resolved? = record.toList := by
  cases record with
  | none => exact ⟨rfl, rfl⟩
  | some rid =>
    rw [Option.toList_some, List.map_singleton, List.singleton_append]
    rw [List.filterMap_cons_none (hevent rid), List.filterMap_cons_some (hresolved rid)]
    exact ⟨rfl, rfl⟩

variable [SerdeJson] [Responses.RandSuffix]

/-- What follows an answer that is a document: one event, and the record is resolved. -/
theorem succeed_json (req : Inbound) (a : Attempt) (out : Outbound) (idx : ℕ) (v : Value)
    (last : Last) (elapsed : ℕ) :
    let next := succeed req a out idx (.json v) last elapsed
    (∃ ev, next.1.filterMap Effect.event? = [ev] ∧ ev.requestId = req.tmpl.requestId) ∧
      next.1.filterMap Effect.resolved? = req.idemRec.toList ∧
      ∃ status header body, next.2 = .replied status header body := by
  dsimp only [succeed]
  split
  · obtain ⟨hevent, hrecord⟩ := @effects_resolved
      (fun rid ↦ .idemCompleted rid 200 _) (fun _ ↦ rfl) (fun _ ↦ rfl) req.idemRec _
    exact ⟨⟨_, hevent, rfl⟩, hrecord, _, _, _, rfl⟩
  · obtain ⟨hevent, hrecord⟩ := @effects_resolved .idemFailed (fun _ ↦ rfl) (fun _ ↦ rfl)
      req.idemRec _
    exact ⟨⟨_, hevent, rfl⟩, hrecord, _, _, _, rfl⟩

omit [Responses.RandSuffix] in
/-- What follows when no candidate is left. -/
theorem fail_accounted (req : Inbound) (last : Last) (elapsed : ℕ) :
    let next := fail req last elapsed
    (∃ ev, next.1.filterMap Effect.event? = [ev] ∧ ev.requestId = req.tmpl.requestId) ∧
      next.1.filterMap Effect.resolved? = req.idemRec.toList ∧
      ∃ status header body, next.2 = .replied status header body := by
  dsimp only [fail]
  cases req.idemRec with
  | none => exact ⟨⟨_, rfl, rfl⟩, rfl, _, _, _, rfl⟩
  | some rid => exact ⟨⟨_, rfl, rfl⟩, rfl, _, _, _, rfl⟩

omit [Responses.RandSuffix] in
/-- A request that is answered at once, after one event. -/
theorem accountedOnce_of_replied {call : GatewayCall} {h : Handled} (hreplay : h.replayed = false)
    (hevent : ∃ ev, h.effects.filterMap Effect.event? = [ev] ∧ ev.requestId = call.requestId)
    (hrecord : h.resolved = h.begun.toList)
    (hending : ∃ status header body, h.ending = .replied status header body)
    (polls : List (BodyPoll × ℕ)) (dropped : ℕ) : AccountedOnce call h polls dropped := by
  obtain ⟨ev, heffects, hid⟩ := hevent
  obtain ⟨status, header, body, hreplied⟩ := hending
  refine ⟨fun _ ↦ ⟨ev, ?_, hid⟩, fun htrue ↦ ?_, hrecord⟩
  · rw [Handled.events, heffects, hreplied]
    rfl
  · rw [hreplay] at htrue
    exact absurd htrue Bool.false_ne_true

omit [Responses.RandSuffix] in
/-- A request that is answered with a stream. -/
theorem accountedOnce_of_streaming {call : GatewayCall} {h : Handled} {ctx : TeeLogCtx}
    {header : Option String} (hreplay : h.replayed = false)
    (hevents : h.effects.filterMap Effect.event? = []) (hrecord : h.resolved = h.begun.toList)
    (hending : h.ending = .streaming ctx header) (hid : ctx.tmpl.requestId = call.requestId)
    (polls : List (BodyPoll × ℕ)) (dropped : ℕ) : AccountedOnce call h polls dropped := by
  obtain ⟨elapsed, hrun⟩ :=
    @TeeStream.events_run _ (teeLogStream ctx) ctx rfl rfl rfl polls dropped
  refine ⟨fun _ ↦ ?_, fun htrue ↦ ?_, hrecord⟩
  · rw [Handled.events, hevents, hending]
    exact ⟨_, hrun, hid⟩
  · rw [hreplay] at htrue
    exact absurd htrue Bool.false_ne_true

/-- The attempts of a request are accounted once. -/
theorem runAttempts_accounted {call : GatewayCall} {req : Inbound}
    (htmpl : req.tmpl.requestId = call.requestId) (hstream : req.stream = true → req.idemRec = none)
    (attempts : List Attempt) (elapsed : ℕ) (polls : List (BodyPoll × ℕ)) (dropped : ℕ) :
    let run := runAttempts req attempts elapsed
    AccountedOnce call { begun := req.idemRec, effects := run.1, ending := run.2 } polls
      dropped := by
  have hevents := event?_attemptLoop req 0 attempts {}
  have hresolved := @filterMap_attemptLoop _ _ Effect.resolved? req (fun _ _ ↦ rfl)
    (resolved?_execEffects req) 0 attempts {}
  dsimp only [runAttempts]
  -- an end of the loop that is followed by one event and an answer
  have hreplied (next : List Effect × Ending)
      (hev : ∃ ev, next.1.filterMap Effect.event? = [ev] ∧ ev.requestId = req.tmpl.requestId)
      (hrecord : next.1.filterMap Effect.resolved? = req.idemRec.toList)
      (hending : ∃ status header body, next.2 = .replied status header body) :
      AccountedOnce call
        ⟨req.idemRec, false, (attemptLoop req 0 attempts {}).1 ++ next.1, next.2⟩ polls dropped := by
    refine accountedOnce_of_replied rfl ?_ ?_ hending polls dropped
    · rw [List.filterMap_append, hevents, List.nil_append, ← htmpl]
      exact hev
    · rw [Handled.resolved, List.filterMap_append, hresolved, List.nil_append]
      exact hrecord
  rcases end_attemptLoop req 0 attempts {} with
    ⟨before, a, out, outcome, -, -, hlast, hend⟩ | ⟨-, hend⟩
  · rw [hend, conclude]
    cases outcome with
    | json v =>
      obtain ⟨hev, hrecord, hending⟩ := succeed_json req a out ((a.results req).length - 1) v
        (afterErrors req a.candidate out (a.errors req)
          (afterBuild out (before.foldl (remember req) {}))) elapsed
      exact hreplied _ hev hrecord hending
    | stream =>
      have hnone := hstream (stream_of_results (List.mem_of_getLast? hlast))
      refine accountedOnce_of_streaming rfl ?_ ?_ rfl htmpl polls dropped
      · rw [succeed, List.append_nil]
        exact hevents
      · rw [Handled.resolved, succeed, List.append_nil, hresolved, hnone]
        rfl
  · rw [hend, conclude]
    obtain ⟨hev, hrecord, hending⟩ := fail_accounted req ((made req attempts).foldl (remember req) {})
      elapsed
    exact hreplied _ hev hrecord hending

omit [Responses.RandSuffix] in
/-- A refusal is one event. -/
theorem accountedOnce_of_refused {call : GatewayCall} {w : World} {h : Handled}
    (hrefused : Refused call w h) (polls : List (BodyPoll × ℕ)) (dropped : ℕ) :
    AccountedOnce call h polls dropped := by
  obtain ⟨tmpl, status, logged, message, htmpl, rfl⟩ := hrefused
  exact accountedOnce_of_replied rfl ⟨logFail tmpl w.elapsed status logged 0, rfl, htmpl⟩ rfl
    ⟨_, _, _, rfl⟩ polls dropped

end Attempts

end NextApi.Gateway
