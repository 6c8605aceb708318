import NextApi.Protocol.Ir
import NextApi.Routing.Entry

/-!
# Candidates and attempts

A request goes through the routes of its model. Every upstream that has the capabilities, whose
credentials are not blocked and that its breaker lets through is a candidate (`select`). The
candidates are put in an order, and tried one after the other until one succeeds: an attempt is
repeated while its errors are retryable, and then the next candidate follows, unless the error is
the client's or the route is locked to its upstream (`tryFrom`, `attemptAll`).

The breaker is told about every success and every retryable error.

What the world answers is part of the request: whether the conversion of the body for a candidate
fails, and how every execution ends, with its time and with the switch of the automatic disabling
at that time.
-/

set_option autoImplicit false

namespace NextApi.Gateway

open Ir Routing

/-- The error of a call to an upstream. -/
inductive UpstreamError where
  | timeout
  | connect (message : String)
  | status (code : ℕ) (body : String)
  | authFailed (code : ℕ) (message : String)
  | bodyRead (message : String)
  deriving DecidableEq, Inhabited

/-- Whether the call may be made again; the codes are those of the route. -/
def UpstreamError.retryable (codes : List ℤ) : UpstreamError → Bool
  | .timeout | .connect _ => true
  | .status s _ => decide ((s : ℤ) ∈ codes)
  | .authFailed _ _ => false
  | .bodyRead _ => false

/-- Whether every upstream would answer so. -/
def UpstreamError.clientCausal : UpstreamError → Bool
  | .status s _ => decide (s ∈ [400, 404, 405, 413, 422])
  | _ => false

/-- How an execution ends, and when. -/
structure ExecResult where
  error : Option UpstreamError
  autoDisable : Bool
  now : ℤ
  deriving DecidableEq, Inhabited

/-- A route of the model with its upstream, and what the world answers for it. -/
structure Target where
  upstream : UpstreamRow
  retries : ℤ := 0
  lockUpstream : Bool := false
  retryStatusCodes : List ℤ := []
  /-- No capability that the request needs is missing. -/
  capable : Bool := true
  /-- The credentials are blocked after a failed authentication. -/
  blocked : Bool := false
  /-- The time at which the breaker is asked. -/
  askedAt : ℤ
  /-- The upstream has the protocol of the request, or one that it can be converted to. -/
  hasMode : Bool := true
  /-- Why the body cannot be converted. -/
  conversion : Option ConvertError := none
  /-- How the executions end. -/
  results : ℕ → ExecResult

/-- A request. The rows are those of one snapshot, and the candidates are tried in some order. -/
structure Request where
  targets : List Target
  one_snapshot : ∀ t ∈ targets, ∀ u ∈ targets, t.upstream.id = u.upstream.id →
    t.upstream = u.upstream
  autoDisable : UpstreamRow → Bool
  /-- The request gets to its attempts: no idempotency key ends it before. -/
  proceeds : Bool := true
  order : List Target → List Target
  order_perm : ∀ candidates, (order candidates).Perm candidates

/-! ### Selection -/

/-- Asks the breakers, in the order of the routes. -/
def select (autoDisable : UpstreamRow → Bool) : Breaker → List Target → Breaker × List Target
  | b, [] => (b, [])
  | b, t :: rest =>
    if !t.capable || t.blocked || !t.upstream.enabled then select autoDisable b rest
    else
      let (admitted, b) := b.allow t.upstream (autoDisable t.upstream) t.askedAt
      let (b, candidates) := select autoDisable b rest
      (b, if admitted then t :: candidates else candidates)

/-! ### Attempts -/

/-- How an attempt ends. -/
inductive AttemptEnd where
  | success
  | failover
  | stop
  deriving DecidableEq, Inhabited

namespace Target

def retryLimit (t : Target) : ℕ := if t.lockUpstream then 0 else (max t.retries 0).toNat

/-- Tells the breaker how an execution ended. -/
def report (t : Target) (b : Breaker) (r : ExecResult) : Breaker :=
  match r.error with
  | none => (b.onSuccess t.upstream).1
  | some e =>
    if e.retryable t.retryStatusCodes then (b.onFailure t.upstream r.autoDisable r.now).1 else b

/-- Executes from an index on, with so many repetitions left. -/
def tryFrom (t : Target) : ℕ → ℕ → Breaker → Breaker × AttemptEnd
  | left, idx, b =>
    let r := t.results idx
    let b := t.report b r
    match r.error with
    | none => (b, .success)
    | some e =>
      match left with
      | left + 1 =>
        if e.retryable t.retryStatusCodes && !t.lockUpstream then t.tryFrom left (idx + 1) b
        else (b, if t.lockUpstream || e.clientCausal then .stop else .failover)
      | 0 => (b, if t.lockUpstream || e.clientCausal then .stop else .failover)

end Target

/-- Tries the candidates in order. A body that cannot be parsed ends the request. -/
def attemptAll : List Target → Breaker → Breaker
  | [], b => b
  | t :: rest, b =>
    match t.conversion with
    | some (.parse _) => b
    | some _ => attemptAll rest b
    | none =>
      match t.tryFrom t.retryLimit 0 b with
      | (b, .failover) => attemptAll rest b
      | (b, _) => b

namespace Request

/-- The attempts: the candidates that have a mode, in the order of the request. -/
def attempts (req : Request) (b : Breaker) : List Target :=
  (req.order (select req.autoDisable b req.targets).2).filter Target.hasMode

/-- The breaker after the request. -/
def handle (req : Request) (b : Breaker) : Breaker :=
  let selected := (select req.autoDisable b req.targets).1
  if req.proceeds then attemptAll (req.attempts b) selected else selected

end Request

end NextApi.Gateway
