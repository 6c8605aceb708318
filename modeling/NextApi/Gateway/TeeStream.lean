import NextApi.Gateway.StreamUsage
import NextApi.Upstream.Devin.Stream

/-!
# The stream that is accounted

The body of a streamed answer passes through a `TeeStream`, which keeps what it needs for the log
event of the request. The event is written in one of two places: when the stream is polled after its
end, and when it is dropped before. An error ends the stream too, but is passed on first.

What is needed for the event is taken out of the stream when the event is written, so it is written
once, whatever the polls answer and whenever the client goes away (`events_run`).
-/

set_option autoImplicit false

namespace NextApi.Gateway

open Json Ir Logging Upstream

/-! ### The stream -/

/-- What the body answers to a poll. -/
inductive BodyPoll where
  | chunk (bytes : List UInt8)
  | error (message : String)
  | finished
  | pending
  deriving DecidableEq, Inhabited

/-- What is done to the rest of the gateway. -/
inductive TeeEffect where
  | authNoted (upstreamId : Uuid) (status : ℕ) (code message : String)
  | logged (ev : LogEvent)

structure TeeStream where
  collect : StreamCollect := {}
  ctx : Option TeeLogCtx
  done : Bool := false
  finalized : Bool := false

namespace TeeStream

/-- What an error tells about the credentials of the upstream. -/
def authEffects (s : TeeStream) (message : String) : List TeeEffect :=
  match s.ctx.bind fun ctx ↦ ctx.tmpl.upstreamId, Devin.classify message with
  | some upstreamId, some code => [.authNoted upstreamId 200 code message]
  | _, _ => []

section Poll

variable [SerdeJson]

/-- Writes the event. -/
def finalize (s : TeeStream) (elapsed : ℕ) : TeeStream × List TeeEffect :=
  match s.ctx with
  | none => (s, [])
  | some ctx => ({ s with ctx := none }, [.logged (finalizeStream ctx s.collect elapsed).1])

/-- A poll after the end. -/
def finish (s : TeeStream) (elapsed : ℕ) : TeeStream × List TeeEffect :=
  if s.finalized then (s, []) else finalize { s with finalized := true } elapsed

/-- A poll, with what the body answers if it is asked. -/
def poll (s : TeeStream) (inner : BodyPoll) (elapsed : ℕ) :
    (TeeStream × List TeeEffect) × BodyPoll :=
  if s.done then (s.finish elapsed, .finished)
  else
    match inner with
    | .chunk bytes =>
      (({ s with collect := appendChunk s.collect bytes elapsed }, []), .chunk bytes)
    | .error message => (({ s with done := true }, s.authEffects message), .error message)
    | .finished => (finish { s with done := true } elapsed, .finished)
    | .pending => ((s, []), .pending)

/-- The stream is dropped, inside the runtime or outside. -/
def drop (s : TeeStream) (inRuntime : Bool) (elapsed : ℕ) : List TeeEffect :=
  if s.finalized || s.ctx.isNone then []
  else if inRuntime then (finalize { s with finalized := true } elapsed).2 else []

/-- The polls of a connection, which drops the stream in the end. -/
def run (s : TeeStream) : List (BodyPoll × ℕ) → ℕ → List TeeEffect
  | [], dropped => s.drop true dropped
  | (inner, elapsed) :: rest, dropped =>
    let next := (s.poll inner elapsed).1
    next.2 ++ next.1.run rest dropped

end Poll

end TeeStream

/-- The stream of an answer. -/
def teeLogStream (ctx : TeeLogCtx) : TeeStream where
  ctx := some ctx

/-- The log event of an effect. -/
def TeeEffect.event? : TeeEffect → Option LogEvent
  | .logged ev => some ev
  | .authNoted _ _ _ _ => none

/-! ### One event -/

/-- The chunks that come before the end. -/
def passedOn : List (BodyPoll × ℕ) → List (List UInt8 × ℕ)
  | [] => []
  | (.chunk bytes, elapsed) :: rest => (bytes, elapsed) :: passedOn rest
  | (.pending, _) :: rest => passedOn rest
  | (.error _, _) :: _ | (.finished, _) :: _ => []

namespace TeeStream

theorem event?_authEffects (s : TeeStream) (message : String) :
    (s.authEffects message).filterMap TeeEffect.event? = [] := by
  unfold authEffects
  split <;> rfl

section Run

variable [SerdeJson]

theorem poll_of_done {s : TeeStream} (h : s.done = true) (inner : BodyPoll) (elapsed : ℕ) :
    s.poll inner elapsed = (s.finish elapsed, .finished) := by
  rw [poll.eq_def, if_pos h]

/-- A stream that has written its event writes no other. -/
theorem events_run_of_finalized {s : TeeStream} (hfinal : s.finalized = true)
    (hdone : s.done = true) (polls : List (BodyPoll × ℕ)) (dropped : ℕ) :
    s.run polls dropped = [] := by
  induction polls with
  | nil => rw [run, drop, hfinal, Bool.true_or, if_pos rfl]
  | cons x rest ih =>
    rw [run, poll_of_done hdone, finish, if_pos hfinal]
    exact ih

/-- A stream that has ended and not written its event writes it at the next poll, or when it is
dropped. -/
theorem events_run_of_done {s : TeeStream} {ctx : TeeLogCtx} (hctx : s.ctx = some ctx)
    (hfinal : s.finalized = false) (hdone : s.done = true) (polls : List (BodyPoll × ℕ))
    (dropped : ℕ) :
    ∃ elapsed, s.run polls dropped = [.logged (finalizeStream ctx s.collect elapsed).1] := by
  cases polls with
  | nil =>
    refine ⟨dropped, ?_⟩
    rw [run, drop, hfinal, hctx]
    simp [finalize]
  | cons x rest =>
    refine ⟨x.2, ?_⟩
    have hfinish : s.finish x.2 = ({ s with finalized := true, ctx := none },
        [.logged (finalizeStream ctx s.collect x.2).1]) := by
      rw [finish, if_neg (by simp [hfinal]), finalize, hctx]
    rw [run, poll_of_done hdone, hfinish]
    dsimp only
    rw [@events_run_of_finalized _ { s with finalized := true, ctx := none } rfl hdone, List.append_nil]

/-- A stream writes one event, of the chunks that have passed through it. -/
theorem events_run {s : TeeStream} {ctx : TeeLogCtx} (hctx : s.ctx = some ctx)
    (hfinal : s.finalized = false) (hdone : s.done = false) (polls : List (BodyPoll × ℕ))
    (dropped : ℕ) :
    ∃ elapsed, (s.run polls dropped).filterMap TeeEffect.event? =
      [(finalizeStream ctx ((passedOn polls).foldl (fun c chunk ↦ appendChunk c chunk.1 chunk.2)
        s.collect) elapsed).1] := by
  induction polls generalizing s with
  | nil =>
    refine ⟨dropped, ?_⟩
    rw [run, drop, hfinal, hctx]
    simp [finalize, TeeEffect.event?, passedOn]
  | cons x rest ih =>
    obtain ⟨inner, elapsed⟩ := x
    cases inner with
    | chunk bytes =>
      rw [run, poll, if_neg (by simp [hdone])]
      exact @ih { s with collect := appendChunk s.collect bytes elapsed } hctx hfinal hdone
    | error message =>
      obtain ⟨elapsed', hrun⟩ := @events_run_of_done _ { s with done := true } ctx hctx hfinal rfl
        rest dropped
      refine ⟨elapsed', ?_⟩
      rw [run, poll, if_neg (by simp [hdone])]
      dsimp only
      rw [hrun, List.filterMap_append, event?_authEffects]
      rfl
    | finished =>
      refine ⟨elapsed, ?_⟩
      have hfinish : finish { s with done := true } elapsed =
          ({ s with done := true, finalized := true, ctx := none },
            [.logged (finalizeStream ctx s.collect elapsed).1]) := by
        rw [finish, if_neg (by simp [hfinal]), finalize, hctx]
      rw [run, poll, if_neg (by simp [hdone])]
      dsimp only
      rw [hfinish]
      dsimp only
      rw [events_run_of_finalized rfl rfl, List.append_nil]
      rfl
    | pending =>
      rw [run, poll, if_neg (by simp [hdone])]
      exact ih hctx hfinal hdone

end Run

end TeeStream

end NextApi.Gateway
