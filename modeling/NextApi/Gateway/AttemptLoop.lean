import NextApi.Gateway.EntryError
import NextApi.Gateway.Outbound
import NextApi.Gateway.StreamUsage
import NextApi.Media.Tasks
import NextApi.Protocol.Adapter
import NextApi.Protocol.ParseErrors

/-!
# The loop over the attempts

The attempts of a request are made in order. The body is converted for an upstream, and then sent to
it, again and again while the error can be retried; then the next attempt follows, or the request
ends (`attemptLoop`). A first answer is the answer to the request (`succeed`); when there is none,
the last error is (`fail`).

What is remembered of the last attempt stands in variables that outlive it (`Last`). What the loop
does to the rest of the gateway is written down as a list of effects, which name the attempts by
their positions.

What the world answers is part of an attempt: the converted body, with the images of its addresses
in it, and the answers of the upstream, one pass after another. The headers of the requests, the
waiting between the passes, the metrics and the texts of the program log are left out.
-/

set_option autoImplicit false

namespace NextApi.Gateway

open Json Ir Logging Upstream

/-! ### Attempts -/

/-- A route with its upstream. -/
structure Candidate where
  upstreamId : Uuid
  upstreamName : String := ""
  kind : String := ""
  apiKeyPlain : Option String := none
  channel : Channel := {}
  /-- The address can be one of a WebSocket, and no proxy is in the way. -/
  wsReachable : Bool := false
  overrideModel : Option String := none
  retries : ℤ := 0
  retryStatusCodes : List ℤ := []
  lockUpstream : Bool := false
  deriving DecidableEq, Inhabited

/-- What the world answers in one pass. -/
structure Pass where
  /-- Why there is no access token for Codex. -/
  tokenError : Option String := none
  /-- The answer over a WebSocket. -/
  ws : Except UpstreamError Value := .error .timeout
  /-- The answer over HTTP, also that of Devin. -/
  http : Except UpstreamError Value := .error .timeout

/-- What a body for an upstream can be: it is refused because it cannot be parsed, and one that is
passed through has lost nothing. -/
structure Built (r : Except ConvertError Outbound) : Prop where
  refused : ∀ e, r = .error e → ∃ message, e = .parse message
  plain : ∀ out, r = .ok out → out.mode = .passthrough → out.reqDegraded = none

theorem built_buildOutbound [SerdeJson] {limit : ℕ} {entry : Protocol} {mode : Mode} {body : Value}
    {stream : Bool} {upstreamModel : String} {up : Channel} {r : Except ConvertError Outbound}
    (h : buildOutbound limit entry mode body stream upstreamModel up = .ok r) : Built r := by
  rw [buildOutbound.eq_def] at h
  cases mode with
  | passthrough =>
    obtain ⟨b, -, rfl⟩ := map_eq_ok.1 h
    refine ⟨fun e he ↦ (by cases he), fun out hout _ ↦ ?_⟩
    rw [← Except.ok.inj hout]
  | convert target =>
    dsimp only at h
    cases hread : requestToIr entry body with
    | error e =>
      rw [hread] at h
      rw [← Except.ok.inj h]
      refine ⟨fun e' he ↦ ?_, fun out hout ↦ by cases hout⟩
      rw [← Except.error.inj he]
      exact parseOnly_requestToIr entry body e hread
    | ok read =>
      rw [hread] at h
      dsimp only at h
      cases hempty : rejectEmptyMessages read.1 read.2 with
      | error e =>
        rw [hempty] at h
        rw [← Except.ok.inj h]
        refine ⟨fun e' he ↦ ?_, fun out hout ↦ by cases hout⟩
        rw [rejectEmptyMessages] at hempty
        split at hempty
        · cases hempty
        · exact ⟨_, (Except.error.inj he).symm.trans (Except.error.inj hempty).symm⟩
      | ok _ =>
        rw [hempty] at h
        obtain ⟨b, -, rfl⟩ := map_eq_ok.1 h
        refine ⟨fun e he ↦ (by cases he), fun out hout hmode ↦ ?_⟩
        rw [← Except.ok.inj hout] at hmode
        cases hmode

/-- A candidate, its body, and what the world answers. -/
structure Attempt where
  candidate : Candidate
  outbound : Except ConvertError Outbound
  built : Built outbound
  passes : ℕ → Pass

/-- What an execution yields. -/
inductive ExecOutcome where
  | json (v : Value)
  | stream
  deriving DecidableEq, Inhabited

/-- How a Codex upstream is reached. -/
inductive Transport where
  | auto
  | ws
  | http
  deriving DecidableEq, Inhabited

def transport (extra : Value) : Transport :=
  let text := ((extra.get? "codex_transport").bind Value.asStr).getD ""
  match toAsciiLowercase (String.ofList (Text.trim text.toList)) with
  | "ws" | "websocket" => .ws
  | "http" | "sse" => .http
  | _ => .auto

/-- Why a body cannot be turned into a request of Devin. -/
def inputError (body : Value) : Option String :=
  match body.get? "input" with
  | some (.str _) | some (.arr _) => none
  | _ => some "input 既非字符串也非数组"

/-- The session token of Devin. -/
def Candidate.sessionToken (c : Candidate) : Option (List Char) :=
  (c.apiKeyPlain.map fun key ↦ Text.trim key.toList).filter fun token ↦ !token.isEmpty

/-- Why there is no request for Devin. -/
def Candidate.devinError (c : Candidate) (body : Value) : Option String :=
  match c.sessionToken with
  | some _ => inputError body
  | none => some "devin 渠道缺少 session token（api_key）"

/-- An answer to a request with or without streaming. -/
def answered (stream : Bool) (r : Except UpstreamError Value) : Except UpstreamError ExecOutcome :=
  r.map fun v ↦ if stream then .stream else .json v

/-- One execution. -/
def Candidate.execRes (c : Candidate) (stream : Bool) (out : Outbound) (p : Pass) :
    Except UpstreamError ExecOutcome :=
  if c.kind = "devin" then
    match c.devinError out.body with
    | some e => .error (.connect ("devin: " ++ e))
    | none => answered stream p.http
  else if c.kind = "codex" then
    match p.tokenError with
    | some e => .error (.connect ("codex oauth: " ++ e))
    | none =>
      let transport := transport c.channel.extra
      if c.wsReachable ∧ transport ≠ .http then
        match answered stream p.ws with
        | .ok outcome => .ok outcome
        | .error e => if transport = .auto then answered stream p.http else .error e
      else answered stream p.http
  else answered stream p.http

/-- The repetitions that the route allows. -/
def Candidate.retryLimit (c : Candidate) : ℕ := if c.lockUpstream then 0 else (max c.retries 0).toNat

/-! ### The state of a request -/

/-- What the loop knows of its request. -/
structure Inbound where
  entry : Protocol
  model : String
  stream : Bool
  tmpl : LogEvent
  paramsMeta : Value := .null
  idemRec : Option ℕ := none
  stickyRouting : Bool := false
  /-- What debugging keeps of an answer, of a failure, and of a stream. -/
  debugPayload : Value → Option Value := fun _ ↦ none
  debugFailPayload : Option Value → Value → Option Value := fun _ _ ↦ none
  debugStream : List Char → Option Value := fun _ ↦ none

/-- The name of the model at an upstream. -/
def Inbound.upModel (req : Inbound) (c : Candidate) : String :=
  (c.overrideModel.filter fun s ↦ s ≠ "").getD req.model

/-- The name of the model at an upstream where it is another one. -/
def Inbound.upstreamModel (req : Inbound) (c : Candidate) : Option String :=
  if req.upModel c ≠ req.model then some (req.upModel c) else none

/-- What is remembered of the last attempt. -/
structure Last where
  err : Option Fail := none
  upstreamId : Option Uuid := none
  upstreamModel : Option String := none
  degraded : Bool := false
  debug : Option Value := none
  failedCandidates : ℕ := 0
  idx : ℕ := 0
  protocolOut : Option String := none
  convertMode : Option String := none

/-- What is done to the rest of the gateway. -/
inductive Effect where
  /-- The body cannot be converted for an attempt. -/
  | rejected (i : ℕ) (e : ConvertError)
  | executed (i : ℕ) (r : Except UpstreamError ExecOutcome)
  | breakerSuccess (i : ℕ)
  | breakerFailure (i : ℕ)
  | authNoted (i : ℕ) (failure : ℕ × String × String)
  | authCleared (i : ℕ)
  | pinned (i : ℕ)
  | idemCompleted (rid : ℕ) (status : ℤ) (response : Value)
  | idemFailed (rid : ℕ)
  | logged (ev : LogEvent)

/-- How the tries of one attempt end. -/
inductive TryEnd where
  | success (idx : ℕ) (outcome : ExecOutcome)
  | failover
  | stop

/-- How the loop ends. -/
inductive LoopEnd where
  | answered (i : ℕ) (a : Attempt) (out : Outbound) (idx : ℕ) (outcome : ExecOutcome) (last : Last)
  | failed (last : Last)

/-- The name of a mode. -/
def modeStr : Mode → String
  | .passthrough => "passthrough"
  | .convert _ => "convert"

section Loop

variable [SerdeJson]

/-- The attempts are those of a body: each has the mode of its upstream, and its outbound body. -/
def AttemptsOf (limit : ℕ) (req : Inbound) (body : Value) (attempts : List Attempt) : Prop :=
  ∀ a ∈ attempts, ∃ mode, a.candidate.channel.decideMode req.entry = some mode ∧
    buildOutbound limit req.entry mode body req.stream (req.upModel a.candidate)
      a.candidate.channel = .ok a.outbound

/-- An error for debugging. -/
def errorValue (e : UpstreamError) : Value :=
  match e with
  | .status s body =>
    .object [("status", .ofNat s), ("body", (Codex.parse body).getD (.str body))]
  | other => .object [("error", .str (Codex.errorText other))]

/-! ### Tries -/

/-- What is remembered of an execution that failed. -/
def afterError (req : Inbound) (c : Candidate) (out : Outbound) (e : UpstreamError) (last : Last) :
    Last :=
  { last with
    upstreamId := some c.upstreamId
    upstreamModel := req.upstreamModel c
    degraded := out.reqDegraded.isSome
    debug := req.debugFailPayload (some out.body) (errorValue e)
    err := some (.upstream e) }

omit [SerdeJson] in
/-- What is done after an execution that failed. -/
def errorEffects (i : ℕ) (c : Candidate) (e : UpstreamError) : List Effect :=
  (e.authFailure.toList.map (.authNoted i)) ++
    if e.retryable c.retryStatusCodes then [.breakerFailure i] else []

/-- Executes from an index on, with so many repetitions left. -/
def tryFrom (req : Inbound) (i : ℕ) (a : Attempt) (out : Outbound) :
    ℕ → ℕ → Last → List Effect × Last × TryEnd
  | left, idx, last =>
    let c := a.candidate
    let r := c.execRes req.stream out (a.passes idx)
    match r with
    | .ok outcome =>
      (.executed i r :: .breakerSuccess i :: .authCleared i ::
        (if req.stickyRouting then [.pinned i] else []), last, .success idx outcome)
    | .error e =>
      let told := .executed i r :: errorEffects i c e
      let last := afterError req c out e last
      let givesUp : List Effect × Last × TryEnd :=
        (told, { last with failedCandidates := last.failedCandidates + 1, idx := idx },
          if c.lockUpstream || e.clientCausal then .stop else .failover)
      match left with
      | left + 1 =>
        if e.retryable c.retryStatusCodes && !c.lockUpstream then
          let rest := tryFrom req i a out left (idx + 1) last
          (told ++ rest.1, rest.2)
        else givesUp
      | 0 => givesUp

/-- What is remembered of an attempt without a body. -/
def afterRejection (req : Inbound) (c : Candidate) (e : ConvertError) (last : Last) : Last :=
  { last with
    upstreamId := some c.upstreamId
    upstreamModel := req.upstreamModel c
    debug := req.debugFailPayload none (.object [("convert_error", .str (convertErrorText e))])
    err := some (.convert e)
    failedCandidates := last.failedCandidates + 1
    idx := 0 }

/-- What is remembered of the body of an attempt. -/
def afterBuild (out : Outbound) (last : Last) : Last :=
  { last with
    protocolOut := some out.protocol.asStr
    convertMode := some (modeStr out.mode) }

/-- Makes the attempts in order; the first one has the given position. -/
def attemptLoop (req : Inbound) : ℕ → List Attempt → Last → List Effect × LoopEnd
  | _, [], last => ([], .failed last)
  | i, a :: rest, last =>
    match a.outbound with
    | .error cvt =>
      let last := afterRejection req a.candidate cvt last
      match cvt with
      | .parse _ => ([.rejected i cvt], .failed last)
      | .unsupported _ =>
        let next := attemptLoop req (i + 1) rest last
        (.rejected i cvt :: next.1, next.2)
    | .ok out =>
      match tryFrom req i a out a.candidate.retryLimit 0 (afterBuild out last) with
      | (told, last, .success idx outcome) => (told, .answered i a out idx outcome last)
      | (told, last, .stop) => (told, .failed last)
      | (told, last, .failover) =>
        let next := attemptLoop req (i + 1) rest last
        (told ++ next.1, next.2)

/-! ### The answer -/

/-- A response without streaming. -/
structure NonstreamOutcome where
  status : ℕ
  header : Option String
  degraded : Bool
  error : Option String
  finalJson : Value

omit [SerdeJson] in
/-- Puts the name of the model in the gateway into a response that names one. -/
def renameModel (v : Value) (gatewayModel : String) : Value :=
  match v with
  | .obj m =>
    if (Map.get? m "model").isSome then .obj (Map.insert m "model" (.str gatewayModel)) else v
  | other => other

omit [SerdeJson] in
/-- The degradations of the request and of the response. -/
def mergeDegraded : Option String → Option String → Option String
  | some a, some b => some (a ++ ";" ++ b)
  | a, b => a.or b

variable [Responses.RandSuffix]

/-- The response for the client, if it can be converted, with what was lost. -/
def convertResponse (entry : Protocol) (mode : Mode) (json : Value) :
    Except ConvertError (Value × ConvCtx) :=
  match mode with
  | .passthrough => .ok (json, [])
  | .convert t =>
    (responseToIr t json).map fun read ↦
      let written := responseFromIr entry read.1
      (written.1, read.2 ++ written.2)

omit [SerdeJson] [Responses.RandSuffix] in
/-- The message for an answer that cannot be converted. -/
def unconvertedText (e : ConvertError) : String := "响应转换失败: " ++ convertErrorText e

/-- The response of a candidate. -/
def nonstreamSuccess (entry : Protocol) (mode : Mode) (json : Value) (gatewayModel : String)
    (reqDegraded : Option String) : NonstreamOutcome :=
  match mode with
  | .convert _ =>
    match convertResponse entry mode json with
    | .ok (out, ctx) =>
      let merged := mergeDegraded reqDegraded (degradedHeader ctx)
      ⟨200, merged, merged.isSome, none, renameModel out gatewayModel⟩
    | .error e =>
      let body := errorFromIr entry (plainError 502 (unconvertedText e))
      ⟨502, none, false, some (Media.truncateChars (unconvertedText e) 2000), body⟩
  | .passthrough => ⟨200, none, false, none, renameModel json gatewayModel⟩

/-- How a request ends. -/
inductive Ending where
  | replied (status : ℕ) (header : Option String) (body : Value)
  | streaming (ctx : TeeLogCtx) (header : Option String)

omit [SerdeJson] [Responses.RandSuffix] in
/-- The count of the retries, as an `i32`. -/
@[irreducible] def retryCount (idx failedCandidates : ℕ) : ℤ :=
  Int.bmod ((idx + failedCandidates : ℕ) : ℤ) (2 ^ 32)

omit [SerdeJson] [Responses.RandSuffix] in
/-- The log event of an answer, without its end. -/
def answerEvent (req : Inbound) (c : Candidate) (out : Outbound) : LogEvent :=
  { req.tmpl with
    upstreamId := some c.upstreamId
    upstreamModel := req.upstreamModel c
    protocolOut := out.protocol.asStr
    convertMode := modeStr out.mode }

omit [SerdeJson] [Responses.RandSuffix] in
/-- The usage of a document in its log event. -/
def withUsage (req : Inbound) (p : Protocol) (json : Value) (ev : LogEvent) : LogEvent :=
  let usage := extractJsonUsage p json
  { ev with
    promptTokens := usage.promptTokens
    completionTokens := usage.completionTokens
    cacheWriteTokens := usage.cacheWriteTokens
    cacheReadTokens := usage.cacheReadTokens
    usageRaw := some (.object
      [("params", req.paramsMeta), ("usage", usage.raw.getD .null)]) }

/-- What follows a first answer. -/
def succeed (req : Inbound) (a : Attempt) (out : Outbound) (idx : ℕ) (outcome : ExecOutcome)
    (last : Last) (elapsed : ℕ) : List Effect × Ending :=
  let ev := answerEvent req a.candidate out
  let retries := retryCount idx last.failedCandidates
  match outcome with
  | .json json =>
    let answer := nonstreamSuccess req.entry out.mode json req.model out.reqDegraded
    let ev :=
      { ev with
        latencyMs := some (millisI32 elapsed)
        retryCount := retries
        degraded := answer.degraded
        status := answer.status
        debugPayload := (req.debugPayload answer.finalJson).or ev.debugPayload }
    if answer.status = 200 then
      ((req.idemRec.toList.map fun rid ↦ .idemCompleted rid 200 answer.finalJson) ++
        [.logged (withUsage req out.protocol json ev)],
        .replied answer.status answer.header answer.finalJson)
    else
      ((req.idemRec.toList.map .idemFailed) ++ [.logged { ev with error := answer.error }],
        .replied answer.status answer.header answer.finalJson)
  | .stream =>
    ([], .streaming
      { tmpl := { ev with degraded := out.reqDegraded.isSome }
        paramsMeta := req.paramsMeta
        retryCount := retries
        entryProtocol := req.entry
        debugPayload := req.debugStream }
      out.reqDegraded)

/-! ### Failure -/

omit [SerdeJson] [Responses.RandSuffix] in
/-- The log event of a failure. -/
def logFail (tmpl : LogEvent) (elapsed : ℕ) (status : ℤ) (message : String) (retries : ℤ) :
    LogEvent :=
  { tmpl with
    status := status
    error := some (Media.truncateChars message 2000)
    latencyMs := some (millisI32 elapsed)
    retryCount := retries
    protocolOut := if tmpl.protocolOut = "" then tmpl.protocolIn else tmpl.protocolOut
    convertMode := if tmpl.convertMode = "" then "none" else tmpl.convertMode }

omit [Responses.RandSuffix] in
/-- The status, the message and the body of the answer to a request that failed. -/
def failure (entry : Protocol) : Option Fail → ℕ × String × Value
  | some f => ((entryError entry f).1, failMessage f, (entryError entry f).2)
  | none => (502, "无可用上游", errorFromIr entry (plainError 502 "无可用上游"))

omit [SerdeJson] [Responses.RandSuffix] in
/-- The log event of a request that failed, without its end. -/
def failedEvent (req : Inbound) (last : Last) : LogEvent :=
  { req.tmpl with
    protocolOut := last.protocolOut.getD req.entry.asStr
    convertMode := last.convertMode.getD "none"
    upstreamId := last.upstreamId
    upstreamModel := last.upstreamModel
    degraded := last.degraded
    debugPayload := last.debug }

omit [Responses.RandSuffix] in
/-- What follows when no candidate is left. -/
def fail (req : Inbound) (last : Last) (elapsed : ℕ) : List Effect × Ending :=
  let answer := failure req.entry last.err
  (.logged (logFail (failedEvent req last) elapsed answer.1 answer.2.1
      (retryCount last.idx (last.failedCandidates - 1))) ::
    req.idemRec.toList.map .idemFailed, .replied answer.1 none answer.2.2)

/-- What follows the loop. -/
def conclude (req : Inbound) (elapsed : ℕ) : LoopEnd → List Effect × Ending
  | .answered _ a out idx outcome last => succeed req a out idx outcome last elapsed
  | .failed last => fail req last elapsed

/-- The attempts and what follows them. -/
def runAttempts (req : Inbound) (attempts : List Attempt) (elapsed : ℕ) : List Effect × Ending :=
  let loop := attemptLoop req 0 attempts {}
  let next := conclude req elapsed loop.2
  (loop.1 ++ next.1, next.2)

end Loop

/-! ### A Chat request -/

/-- A Chat request for a model. -/
def chatInbound : Inbound where
  entry := .openaiChat
  model := "m"
  stream := false
  tmpl := eventAt 0

/-- An upstream with the protocol of the request. -/
def chatCandidate : Candidate where
  upstreamId := 1
  upstreamName := "chat"
  channel := { protocols := ["openai_chat"] }

end NextApi.Gateway
