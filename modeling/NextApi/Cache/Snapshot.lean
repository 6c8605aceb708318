import Mathlib.Data.List.Induction
import Mathlib.Data.List.Nodup
import Mathlib.Data.Rat.Init
import NextApi.Protocol.Ir
import NextApi.Routing.MatchRoutes
import NextApi.Stream.Table
import NextApi.Text.Lines

/-!
# The snapshot of the tables

Requests do not read the database. They read a snapshot in memory, built from the rows of five
tables (`Snapshot.build`): the keys by their hashes, the upstreams and the proxies by their ids with
the texts that the database has encrypted, the routes, and the aliases by their names.

A request presents a key in one of three headers, and is let in if the snapshot has a usable row for
the hash of the key (`authenticateGatewayKey`).
-/

set_option autoImplicit false

namespace NextApi.Cache

open Json

abbrev Uuid := BitVec 128

/-! ### Rows -/

structure ApiKeyRow where
  id : Uuid
  name : String := ""
  keyHash : String
  /-- The first characters of the key. -/
  shown : String := ""
  enabled : Bool := true
  models : Option (List String) := none
  rpm : Option ℤ := none
  tpm : Option ℤ := none
  quotaLimit : Option ℚ := none
  quotaUnit : Option String := none
  quotaWindow : Option String := none
  allowUpstreamPassthrough : Bool := false
  passthroughUpstreams : Option (List String) := none
  debugEnabled : Bool := false
  debugExpiresAt : Option ℤ := none
  expiresAt : Option ℤ := none
  createdAt : ℤ := 0
  lastUsedAt : Option ℤ := none
  deriving DecidableEq

/-- The key is enabled and has not expired. -/
def ApiKeyRow.isUsable (k : ApiKeyRow) (now : ℤ) : Bool :=
  k.enabled && (k.expiresAt.map fun e ↦ decide (now < e)).getD true

/-- The credential of an upstream that is used with an account. -/
structure CodexOAuth where
  accessToken : String
  refreshToken : String
  expiresAt : ℤ
  accountId : String
  deriving DecidableEq

/-- A row of `upstreams`, with encrypted columns. -/
structure UpstreamDbRow where
  id : Uuid
  name : String
  kind : String := "custom"
  baseUrl : String := ""
  apiKeyEnc : Option String := none
  protocols : List String := ["openai_chat"]
  enabled : Bool := true
  timeoutMs : ℤ := 300000
  breakerThreshold : ℤ := 5
  probeModel : Option String := none
  consecutiveFailures : ℤ := 0
  disabledBy : Option String := none
  cooldownUntil : Option ℤ := none
  useProxy : Bool := false
  proxyId : Option Uuid := none
  extra : Value := .obj []
  modelSync : String := "manual"
  modelExclude : List String := []
  modelsCache : Value := .arr []
  modelsFetchedAt : Option ℤ := none
  oauthEnc : Option String := none
  balanceKeyEnc : Option String := none
  createdAt : ℤ := 0
  updatedAt : ℤ := 0
  deriving DecidableEq

/-- An upstream in memory. -/
structure UpstreamRow where
  id : Uuid
  name : String
  kind : String
  baseUrl : String
  apiKeyPlain : Option String
  oauthPlain : Option CodexOAuth
  balanceKeyPlain : Option String
  protocols : List String
  enabled : Bool
  timeoutMs : ℤ
  breakerThreshold : ℤ
  probeModel : Option String
  consecutiveFailures : ℤ
  disabledBy : Option String
  cooldownUntil : Option ℤ
  useProxy : Bool
  proxyId : Option Uuid
  extra : Value
  modelSync : String
  modelExclude : List String
  modelsCache : Value
  modelsFetchedAt : Option ℤ
  createdAt : ℤ
  updatedAt : ℤ
  deriving DecidableEq

structure ModelRouteRow extends Routing.ModelRouteRow where
  managedBy : Option String := none
  createdAt : ℤ := 0
  updatedAt : ℤ := 0
  deriving DecidableEq

structure ModelAliasRow where
  id : Uuid
  aliasName : String
  model : String
  enabled : Bool := true
  createdAt : ℤ := 0
  updatedAt : ℤ := 0
  deriving DecidableEq

structure ProxyDbRow where
  id : Uuid
  name : String
  kind : String
  host : String
  port : ℤ
  username : Option String := none
  passwordEnc : Option String := none
  noProxy : List String := []
  enabled : Bool := true
  deriving DecidableEq

structure ProxyRow where
  id : Uuid
  name : String
  kind : String
  host : String
  port : ℤ
  username : Option String
  passwordPlain : Option String
  noProxy : List String
  enabled : Bool
  deriving DecidableEq

/-! ### Tables -/

/-- The rows of `api_keys`: the id is the primary key, and no two rows have the same hash. -/
structure KeyTable where
  rows : List ApiKeyRow
  ids : (rows.map ApiKeyRow.id).Nodup
  hashes : (rows.map ApiKeyRow.keyHash).Nodup

inductive TableName
  | apiKeys
  | upstreams
  | modelRoutes
  | modelAliases
  | proxyConfigs
  deriving DecidableEq

/-- What a table has. -/
def Rows : TableName → Type
  | .apiKeys => KeyTable
  | .upstreams => List UpstreamDbRow
  | .modelRoutes => List ModelRouteRow
  | .modelAliases => List ModelAliasRow
  | .proxyConfigs => List ProxyDbRow

abbrev Db := (t : TableName) → Rows t

/-! ### The snapshot -/

/-- The texts behind encrypted columns. -/
class Crypto where
  decrypt : String → Option String
  /-- Reads a credential. -/
  readOauth : String → Option CodexOAuth

section Build

variable [Crypto]

/-- The text behind a column, if it has one that can be read. -/
def decryptColumn (enc : Option String) : Option String :=
  match enc with
  | some text => if text.isEmpty then none else Crypto.decrypt text
  | none => none

def UpstreamDbRow.load (u : UpstreamDbRow) : UpstreamRow where
  id := u.id
  name := u.name
  kind := u.kind
  baseUrl := u.baseUrl
  apiKeyPlain := decryptColumn u.apiKeyEnc
  oauthPlain := (decryptColumn u.oauthEnc).bind Crypto.readOauth
  balanceKeyPlain := decryptColumn u.balanceKeyEnc
  protocols := u.protocols
  enabled := u.enabled
  timeoutMs := u.timeoutMs
  breakerThreshold := u.breakerThreshold
  probeModel := u.probeModel
  consecutiveFailures := u.consecutiveFailures
  disabledBy := u.disabledBy
  cooldownUntil := u.cooldownUntil
  useProxy := u.useProxy
  proxyId := u.proxyId
  extra := u.extra
  modelSync := u.modelSync
  modelExclude := u.modelExclude
  modelsCache := u.modelsCache
  modelsFetchedAt := u.modelsFetchedAt
  createdAt := u.createdAt
  updatedAt := u.updatedAt

def ProxyDbRow.load (p : ProxyDbRow) : ProxyRow where
  id := p.id
  name := p.name
  kind := p.kind
  host := p.host
  port := p.port
  username := p.username
  passwordPlain := decryptColumn p.passwordEnc
  noProxy := p.noProxy
  enabled := p.enabled

end Build

structure Snapshot where
  apiKeys : Table String ApiKeyRow := ∅
  upstreams : Table Uuid UpstreamRow := ∅
  upstreamIds : Table String Uuid := ∅
  routes : List ModelRouteRow := []
  proxies : Table Uuid ProxyRow := ∅
  aliases : Table String ModelAliasRow := ∅

/-- Rows by a column of theirs. -/
def indexBy {κ ν μ : Type} [DecidableEq κ] (key : ν → κ) (value : ν → μ) (rows : List ν) :
    Table κ μ :=
  rows.foldl (fun t r ↦ t.insert (key r) (value r)) ∅

/-- The snapshot of the rows that were read. -/
def Snapshot.build [Crypto] (db : Db) : Snapshot where
  apiKeys := indexBy ApiKeyRow.keyHash id (db .apiKeys).rows
  upstreams := indexBy UpstreamDbRow.id UpstreamDbRow.load (db .upstreams)
  upstreamIds := indexBy UpstreamDbRow.name UpstreamDbRow.id (db .upstreams)
  routes := db .modelRoutes
  proxies := indexBy ProxyDbRow.id ProxyDbRow.load (db .proxyConfigs)
  aliases := indexBy ModelAliasRow.aliasName id (db .modelAliases)

/-- Puts a quota into the snapshot of one upstream. -/
def Snapshot.updateUpstreamQuota (snap : Snapshot) (id : Uuid) (quota : Value) : Snapshot :=
  match snap.upstreams.lookup id with
  | none => snap
  | some up =>
    let extra := if up.extra.isObject then up.extra else .obj []
    { snap with upstreams := snap.upstreams.insert id { up with extra := extra.set "quota" quota } }

/-! ### Authentication -/

/-- The key in a header. -/
def cleanAuthValue (name raw : String) : Option String :=
  let t := Text.trim raw.toList
  if t.isEmpty then none
  else if name.toLower = "authorization" then
    let value :=
      match t.span fun c ↦ !Text.isWhitespace c with
      | (scheme, _ :: rest) =>
        if (String.ofList scheme).toLower = "bearer" then Text.trim rest else t
      | (_, []) => t
    if value.isEmpty then none else some (String.ofList value)
  else some (String.ofList t)

def primaryAuthHeader : Ir.Protocol → String
  | .openaiChat | .openaiResponses => "authorization"
  | .anthropic => "x-api-key"
  | .gemini => "x-goog-api-key"

/-- The key that a request presents. A header that is not a text is left out. -/
def extractApiKey (headers : String → Option String) (entry : Ir.Protocol) : Option String :=
  let first := primaryAuthHeader entry
  let order := first :: ["authorization", "x-api-key", "x-goog-api-key"].filter fun h ↦
    decide (h ≠ first)
  order.findSome? fun name ↦ (headers name).bind (cleanAuthValue name)

/-- A refused request. -/
structure Refusal where
  status : ℕ
  message : String
  deriving DecidableEq

def unauthorized : Refusal := ⟨401, "未授权"⟩

/-- The key that a request is made with. -/
def authenticateGatewayKey (hashKey : String → String) (now : ℤ) (snap : Snapshot)
    (headers : String → Option String) : Except Refusal ApiKeyRow :=
  match extractApiKey headers .openaiChat with
  | none => .error unauthorized
  | some rawKey =>
    match snap.apiKeys.lookup (hashKey rawKey) with
    | none => .error unauthorized
    | some key => if key.isUsable now then .ok key else .error unauthorized

/-- A quota is no matter of authentication. -/
@[simp] theorem authenticateGatewayKey_updateUpstreamQuota (hashKey : String → String) (now : ℤ)
    (snap : Snapshot) (id : Uuid) (quota : Value) (headers : String → Option String) :
    authenticateGatewayKey hashKey now (snap.updateUpstreamQuota id quota) headers =
      authenticateGatewayKey hashKey now snap headers := by
  have hkeys : (snap.updateUpstreamQuota id quota).apiKeys = snap.apiKeys := by
    rw [Snapshot.updateUpstreamQuota]
    split
    · rfl
    · rfl
  rw [authenticateGatewayKey, authenticateGatewayKey, hkeys]

/-! ### Rows by a column -/

/-- What is found under a key is the value of a row with that key. -/
theorem mem_of_lookup_indexBy {κ ν μ : Type} [DecidableEq κ] {key : ν → κ} {value : ν → μ}
    {rows : List ν} {k : κ} {v : μ} (h : (indexBy key value rows).lookup k = some v) :
    ∃ r ∈ rows, key r = k ∧ value r = v := by
  rw [indexBy] at h
  induction rows using List.reverseRecOn with
  | nil => exact absurd h (by simp)
  | append_singleton rows r ih =>
    rw [List.foldl_append, List.foldl_cons, List.foldl_nil, Table.lookup_insert] at h
    split at h
    · next heq =>
      exact ⟨r, List.mem_append_right _ (List.mem_singleton_self r), heq, Option.some.inj h⟩
    · obtain ⟨r', hr', heq⟩ := ih h
      exact ⟨r', List.mem_append_left _ hr', heq⟩

/-- No row with the hash is enabled. -/
def KeyTable.Revoked (t : KeyTable) (hash : String) : Prop :=
  ∀ k ∈ t.rows, k.keyHash = hash → k.enabled = false

/-- A request with a key whose hash is on no enabled row is refused. -/
theorem authenticateGatewayKey_of_revoked [Crypto] {hashKey : String → String} {db : Db}
    {headers : String → Option String} {rawKey : String}
    (hkey : extractApiKey headers .openaiChat = some rawKey)
    (hrevoked : KeyTable.Revoked (db .apiKeys) (hashKey rawKey)) (now : ℤ) :
    authenticateGatewayKey hashKey now (Snapshot.build db) headers = .error unauthorized := by
  rw [authenticateGatewayKey, hkey]
  dsimp only
  split
  · rfl
  · next key hlookup =>
    obtain ⟨row, hrow, hhash, heq⟩ := mem_of_lookup_indexBy hlookup
    rw [id_eq] at heq
    rw [heq] at hrow hhash
    rw [if_neg]
    rw [ApiKeyRow.isUsable, hrevoked key hrow hhash, Bool.false_and]
    exact Bool.false_ne_true

end NextApi.Cache
