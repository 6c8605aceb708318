import NextApi.Admin.Routes
import NextApi.Gateway.AttemptLoop
import NextApi.Gateway.TeeStream
import NextApi.Gateway.TokenLimit
import NextApi.Idempotency.Begin
import NextApi.Routing.MatchRoutes

/-!
# The way of a request through the gateway

After its authentication a request is read, checked against the limits of its key, given its
candidates, and registered under its idempotency key; then its attempts are made (`runGateway`). At
each of these steps it can be refused, with a log event of its own, and at the last it can be
answered from the record of an earlier request.

The limits, the draws among the routes, the states of the breakers and of the credentials, the
records of idempotency keys and the answers of the upstreams are what the world answers (`World`).
-/

set_option autoImplicit false

namespace NextApi

/-- The text of an error. -/
def ApiError.text : ApiError → String
  | .unauthorized => "未授权"
  | .forbidden => "禁止访问"
  | .notFound => "资源不存在"
  | .badRequest message => "参数错误: " ++ message
  | .conflict message => "冲突: " ++ message
  | .rateLimited => "请求过于频繁，请稍后再试"
  | .totpRequired => "需要二次验证码"
  | .totpInvalid => "二次验证码错误"
  | .badGateway message => "网关错误: " ++ message
  | .internal message => "内部错误: " ++ message

/-- The HTTP status of an error. -/
def ApiError.status : ApiError → ℕ
  | .unauthorized | .totpRequired | .totpInvalid => 401
  | .forbidden => 403
  | .notFound => 404
  | .badRequest _ => 400
  | .conflict _ => 409
  | .rateLimited => 429
  | .badGateway _ => 502
  | .internal _ => 500

namespace Gateway

open Json Ir Logging Upstream Routing

/-! ### What is read of a request -/

/-- The model and the method in the address of a Gemini request. -/
def parseGeminiAction (action : String) : Option (String × Bool) :=
  let text := (Text.trim action.toList).dropWhile (· == '/')
  if ':' ∈ text then
    let model := Text.trim (text.takeWhile (· != ':'))
    let method := String.ofList ((text.dropWhile (· != ':')).drop 1)
    if model.isEmpty then none
    else
      match method with
      | "generateContent" => some (String.ofList model, false)
      | "streamGenerateContent" => some (String.ofList model, true)
      | _ => none
  else none

/-- Whether a stream is asked for. -/
def isStream (body : Value) (geminiStream : Option Bool) : Bool :=
  match geminiStream with
  | some s => s
  | none => body["stream"].asBool.getD false

/-- A key may use a model. -/
def modelAllowed (models : Option (List String)) (model : String) : Bool :=
  match models with
  | none | some [] => true
  | some list => list.any fun p ↦ patternMatches p model

/-- Checks the form of an idempotency key. -/
def validateKey (k : String) : Except String String :=
  let k := Text.trim k.toList
  let length := (Text.encodeUtf8 k).length
  if length < 8 ∨ 128 < length then .error "Idempotency-Key 长度须为 8-128 字符"
  else if k.all fun c ↦ c.isAlphanum || decide (c ∈ ['.', '_', ':', '-', '/']) then
    .ok (String.ofList k)
  else .error "Idempotency-Key 只能包含字母、数字与 . _ : - /"

/-! ### A request and its world -/

/-- A request that has been authenticated. -/
structure GatewayCall where
  entry : Protocol
  requestId : String
  ts : ℤ := 0
  keyId : Uuid
  /-- The models that the key may use. -/
  models : Option (List String) := none
  tpm : Option ℤ := none
  requestHeaders : Option Value := none
  geminiAction : Option String := none
  /-- The body, if it is JSON. -/
  body : Option Value
  /-- The header of the idempotency key, if it is a text. -/
  idemHeader : Option String := none
  debugPayload : Value → Option Value := fun _ ↦ none
  debugFailPayload : Option Value → Value → Option Value := fun _ _ ↦ none
  debugStream : List Char → Option Value := fun _ ↦ none

/-- An upstream in the snapshot. -/
structure SnapshotUpstream where
  id : Uuid
  name : String := ""
  kind : String := ""
  enabled : Bool := true
  apiKeyPlain : Option String := none
  channel : Channel := {}
  wsReachable : Bool := false
  deriving DecidableEq, Inhabited

/-- A route with its upstream. -/
structure RoutedUpstream where
  route : ModelRouteRow
  upstream : SnapshotUpstream
  deriving DecidableEq, Inhabited

/-- What the world answers for a route: the body for its upstream, and the passes. -/
structure RouteAnswer where
  outbound : Except ConvertError Outbound
  built : Built outbound
  passes : ℕ → Pass

/-- What the world answers. -/
structure World where
  aliases : List Admin.AliasRow := []
  routes : List ModelRouteRow := []
  upstreams : List SnapshotUpstream := []
  /-- The check of the requests per minute. -/
  rpm : Except ApiError Unit := .ok ()
  /-- Whether the quota is known to be used up, and what the check of it says. -/
  quotaCached : Option Bool := none
  quota : Except ApiError Unit := .ok ()
  /-- Why the credentials of an upstream are blocked. -/
  blocking : Uuid → Option String := fun _ ↦ none
  /-- The breaker lets the candidate through. -/
  admitted : RoutedUpstream → Bool := fun _ ↦ true
  /-- The number that is drawn for the routes of a priority. -/
  draw : ℤ → ℕ := fun _ ↦ 0
  stickyRouting : Bool := false
  pin : Option Uuid := none
  /-- What the store of idempotency keys answers. -/
  begins : Except String Idempotency.Begin := .ok (.proceed 0)
  answers : ModelRouteRow → RouteAnswer
  /-- The milliseconds that have passed when the log event is written. -/
  elapsed : ℕ := 0

/-! ### Candidates -/

/-- One candidate of each priority is drawn, and the others follow by weight and place. -/
def orderCandidates (draw : ℤ → ℕ) (candidates : List RoutedUpstream) : List RoutedUpstream :=
  let priorities := ((candidates.map fun c ↦ c.route.priority).dedup).mergeSort fun a b ↦
    decide (a ≤ b)
  priorities.flatMap fun prio ↦
    let group := candidates.filter fun c ↦ decide (c.route.priority = prio)
    match weightedPick (draw prio) (group.map RoutedUpstream.route) with
    | none => []
    | some primary =>
      match group.find? fun c ↦ decide (c.route.id = primary.id) with
      | none => []
      | some p =>
        p :: (group.filter fun c ↦ decide (c.route.id ≠ p.route.id)).mergeSort fun a b ↦
          decide (b.route.weight < a.route.weight ∨
            a.route.weight = b.route.weight ∧ a.route.sortOrder ≤ b.route.sortOrder)

/-- The candidate of the upstream that the key has used last comes first, if it is of the best
priority. -/
def reorderPinnedFirst (attempts : List RoutedUpstream) (pin : Uuid) : List RoutedUpstream :=
  match attempts with
  | [] => []
  | first :: _ =>
    match attempts.findIdx? fun a ↦
        decide (a.upstream.id = pin ∧ a.route.priority = first.route.priority) with
    | none => attempts
    | some pos => (attempts[pos]?.getD first) :: attempts.eraseIdx pos

/-- What the loop reads of a candidate. -/
def RoutedUpstream.candidate (c : RoutedUpstream) : Candidate where
  upstreamId := c.upstream.id
  upstreamName := c.upstream.name
  kind := c.upstream.kind
  apiKeyPlain := c.upstream.apiKeyPlain
  channel := c.upstream.channel
  wsReachable := c.upstream.wsReachable
  overrideModel := c.route.overrideModel
  retries := c.route.retries
  retryStatusCodes := c.route.retryStatusCodes
  lockUpstream := c.route.lockUpstream

namespace World

variable (w : World)

/-- The routes of a model whose upstream is known. -/
def routed (model : String) : List RoutedUpstream :=
  (matchRoutes model w.routes).filterMap fun route ↦
    (w.upstreams.find? fun u ↦ decide (u.id = route.upstreamId)).map (RoutedUpstream.mk route)

/-- Why a candidate is skipped. -/
def skipped (caps : RequiredCaps) (c : RoutedUpstream) : Option String :=
  let missing := (capabilities c.upstream.channel.extra).missing caps
  if !missing.isEmpty then some (c.upstream.name ++ " 缺 " ++ String.intercalate "/" missing)
  else (w.blocking c.upstream.id).map fun code ↦ c.upstream.name ++ " 凭证失效（" ++ code ++ "）"

/-- The candidates. -/
def candidates (model : String) (caps : RequiredCaps) : List RoutedUpstream :=
  (w.routed model).filter fun c ↦
    (w.skipped caps c).isNone && c.upstream.enabled && w.admitted c

/-- The candidates that have a mode, in their order. -/
def ordered (entry : Protocol) (candidates : List RoutedUpstream) : List RoutedUpstream :=
  (orderCandidates w.draw candidates).filter fun c ↦ (c.upstream.channel.decideMode entry).isSome

/-- The pinned candidate first. -/
def pinned (attempts : List RoutedUpstream) : List RoutedUpstream :=
  if w.stickyRouting then (w.pin.map (reorderPinnedFirst attempts)).getD attempts else attempts

/-- A candidate with what the world answers for it. -/
def attempt (c : RoutedUpstream) : Attempt where
  candidate := c.candidate
  outbound := (w.answers c.route).outbound
  built := (w.answers c.route).built
  passes := (w.answers c.route).passes

end World

/-! ### The steps -/

/-- How a request is handled. -/
structure Handled where
  /-- The record of an idempotency key that the request has begun. -/
  begun : Option ℕ := none
  /-- The answer is that of an earlier request. -/
  replayed : Bool := false
  effects : List Effect := []
  ending : Ending

/-- What has been read of a request. -/
structure ReadCall where
  model : String
  stream : Bool
  body : Value
  tmpl : LogEvent

namespace GatewayCall

variable (call : GatewayCall)

/-- The log event of a request, without what is known later. -/
def template : LogEvent where
  requestId := call.requestId
  ts := call.ts
  keyId := some call.keyId
  model := ""
  requestedModel := none
  upstreamModel := none
  upstreamId := none
  protocolIn := call.entry.asStr
  protocolOut := ""
  convertMode := "none"
  stream := false
  status := 0
  error := none
  promptTokens := none
  completionTokens := none
  cacheWriteTokens := none
  cacheReadTokens := none
  images := none
  imageSize := none
  videoSeconds := none
  videoResolution := none
  videoTaskType := none
  latencyMs := none
  retryCount := 0
  ttfbMs := none
  degraded := false
  usageRaw := none
  debugPayload := none
  costCny := none
  costUsd := none
  pricingSource := none
  priceUsed := none
  fxSnapshot := none
  requestHeaders := call.requestHeaders

/-- Answers with an error, and logs it with a message of its own. -/
def refuse (w : World) (tmpl : LogEvent) (status : ℕ) (logged message : String) : Handled where
  effects := [.logged (logFail tmpl w.elapsed status logged 0)]
  ending := .replied status none (errorFromIr call.entry (plainError status message))

/-- Answers with an error. -/
def refuseWith (w : World) (tmpl : LogEvent) (e : ApiError) : Handled :=
  call.refuse w tmpl e.status e.text e.text

/-- The model and the method in the address, of a Gemini request only. -/
def action : Option (Option (String × Bool)) :=
  match call.entry with
  | .gemini => (parseGeminiAction (call.geminiAction.getD "")).map some
  | _ => some none

def actionText : String :=
  "无效 Gemini action（应为 model:generateContent 或 model:streamGenerateContent）"

/-- Reads the request. -/
def read (w : World) : Except Handled ReadCall :=
  match call.action with
  | none => .error (call.refuse w call.template 400 actionText actionText)
  | some gemini =>
    match call.body with
    | none => .error (call.refuse w call.template 400 "请求体不是合法 JSON" "请求体不是合法 JSON")
    | some body =>
      match extractModel call.entry body (gemini.map Prod.fst) with
      | .error e => .error (call.refuseWith w call.template e)
      | .ok name =>
        let resolved := Admin.resolveAlias w.aliases name
        let stream := isStream body (gemini.map Prod.snd)
        .ok ⟨resolved.1, stream, body,
          { call.template with
            requestedModel := resolved.2
            model := resolved.1
            stream := stream
            usageRaw := some (.object [("params", requestParamsMeta call.entry body)]) }⟩

/-- Whether the quota is used up. -/
def exceeded (w : World) : Except ApiError Bool :=
  match w.quotaCached with
  | some v => .ok v
  | none =>
    match w.quota with
    | .ok () => .ok false
    | .error .rateLimited => .ok true
    | .error e => .error e

/-- Checks the request against the models and the limits of its key. -/
def checkLimits (w : World) (r : ReadCall) : Except Handled Unit :=
  if !modelAllowed call.models r.model then .error (call.refuse w r.tmpl 403 "禁止访问" "禁止访问")
  else
    match w.rpm with
    | .error e => .error (call.refuseWith w r.tmpl e)
    | .ok () =>
      match tpmPrecheck call.tpm (extractMaxTokens call.entry r.body) with
      | .error e => .error (call.refuseWith w r.tmpl e)
      | .ok () =>
        match exceeded w with
        | .error e =>
          .error (call.refuse w r.tmpl 503 ("配额检查失败: " ++ e.text) "配额检查失败，请稍后重试")
        | .ok true => .error (call.refuseWith w r.tmpl .rateLimited)
        | .ok false => .ok ()

/-- What is said when there is no candidate. -/
def unavailableText (skipped : List String) : String :=
  if skipped.isEmpty then "无可用上游"
  else "无可用上游（跳过：" ++ String.intercalate "；" skipped ++ "）"

/-- Finds the attempts. -/
def choose (w : World) (r : ReadCall) : Except Handled (List Attempt) :=
  if (matchRoutes r.model w.routes).isEmpty then
    .error (call.refuse w r.tmpl 404 "模型未配置路由" "模型未配置路由")
  else
    let caps := requiredCaps r.body r.stream
    let candidates := w.candidates r.model caps
    let message := unavailableText ((w.routed r.model).filterMap (w.skipped caps))
    if candidates.isEmpty then .error (call.refuse w r.tmpl 503 message message)
    else
      let attempts := w.ordered call.entry candidates
      if attempts.isEmpty then .error (call.refuse w r.tmpl 503 "无可用上游" "无可用上游")
      else .ok ((w.pinned attempts).map w.attempt)

/-- Answers from the record of an earlier request. -/
def replay (status : ℤ) (response : Value) : Handled where
  replayed := true
  ending :=
    let code := (status % 2 ^ 16).toNat
    .replied (if 100 ≤ code ∧ code < 1000 then code else 200) none response

/-- Registers the request under its idempotency key. -/
def register (w : World) (r : ReadCall) : Except Handled (Option ℕ) :=
  match call.idemHeader with
  | none => .ok none
  | some raw =>
    if (Text.trim raw.toList).isEmpty then .ok none
    else if r.stream then
      .error (call.refuse w r.tmpl 400 "流式请求不支持 Idempotency-Key" "流式请求不支持 Idempotency-Key")
    else
      match validateKey raw with
      | .error message => .error (call.refuse w r.tmpl 400 message message)
      | .ok _ =>
        match w.begins with
        | .ok (.proceed rid) => .ok (some rid)
        | .ok (.replay status response) => .error (replay status response)
        | .ok (.conflict message) => .error (call.refuse w r.tmpl 409 message message)
        | .error e => .error (call.refuse w r.tmpl 500 ("幂等键存储失败: " ++ e) "幂等键存储失败")

/-- What the loop knows of the request. -/
def inbound (w : World) (r : ReadCall) (idemRec : Option ℕ) : Inbound where
  entry := call.entry
  model := r.model
  stream := r.stream
  tmpl := r.tmpl
  paramsMeta := requestParamsMeta call.entry r.body
  idemRec := idemRec
  stickyRouting := w.stickyRouting
  debugPayload := call.debugPayload
  debugFailPayload := call.debugFailPayload
  debugStream := call.debugStream

end GatewayCall

section Run

variable [SerdeJson] [Responses.RandSuffix]

/-- Handles a request. -/
def runGateway (call : GatewayCall) (w : World) : Handled :=
  match call.read w with
  | .error h => h
  | .ok r =>
    match call.checkLimits w r with
    | .error h => h
    | .ok () =>
      match call.choose w r with
      | .error h => h
      | .ok attempts =>
        match call.register w r with
        | .error h => h
        | .ok idemRec =>
          let run := runAttempts (call.inbound w r idemRec) attempts w.elapsed
          { begun := idemRec, effects := run.1, ending := run.2 }

end Run

end Gateway

end NextApi
