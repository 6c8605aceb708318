import NextApi.Admin.Routes
import NextApi.Admin.UpdateUpstream
import NextApi.Text.Uuid

/-!
# Proxies, and clients for upstreams

A proxy is created, changed and deleted by the administration. A password is encrypted; in an update
it is kept when it is not sent or masked, and dropped when it is empty. Whoever changes the table
reloads the proxies of the snapshot from it.

An upstream is reached directly, through a proxy of its own, or through the default proxy. A client
is kept for each of these choices by a key, the id of the proxy as a text, and is never built again.

A client is thus the one of the first call for its key. The clients of a run are those that would be
built afresh exactly when all calls for one key find the same address in the snapshot
(`clientsFresh_iff`).
-/

set_option autoImplicit false

namespace NextApi.Admin.Proxies

open Cache Admin.Upstreams

/-! ### Bodies -/

structure CreateProxyReq where
  name : String
  kind : String
  host : String
  port : UInt16 := 0
  username : Option String := none
  password : Option String := none
  noProxy : Option (List String) := none
  enabled : Option Bool := none

/-- What is sent is changed. -/
structure UpdateProxyReq where
  name : Option String := none
  kind : Option String := none
  host : Option String := none
  port : Option UInt16 := none
  username : Option String := none
  password : Option String := none
  noProxy : Option (List String) := none
  enabled : Option Bool := none

/-! ### Checks -/

def validateProxy (name kind host : String) (port : UInt16) : Except ApiError Unit := do
  if (Admin.trim name).isEmpty then .error (.badRequest "代理名称不能为空")
  if 255 < name.length then .error (.badRequest "name 不能超过 255 字符")
  if (Admin.trim host).isEmpty then .error (.badRequest "代理主机不能为空")
  if 255 < host.length then .error (.badRequest "host 不能超过 255 字符")
  if kind ∉ ["http", "https", "socks5"] then
    .error (.badRequest "代理类型必须为 http/https/socks5")
  if port = 0 then .error (.badRequest "端口必须在 1..=65535")

def validateProxyExtras (username : Option String) (noProxy : Option (List String)) :
    Except ApiError Unit := do
  if username.any fun u ↦ decide (128 < u.length) then
    .error (.badRequest "username 不能超过 128 字符")
  if noProxy.any fun np ↦ decide (100 < np.length) then .error (.badRequest "no_proxy 最多 100 项")
  if noProxy.any fun np ↦ np.any fun item ↦ decide (255 < item.length) then
    .error (.badRequest "no_proxy 项不能超过 255 字符")

/-- A name of spaces is none. -/
def trimUsername (username : Option String) : Option String :=
  (username.map Admin.trim).filter fun u ↦ !u.isEmpty

section Passwords

variable (cipher : Cipher)

def encryptPassword (plain : String) : Except ApiError String :=
  if !cipher.available then .error (.badRequest "未设置 NEXTAPI_SECRET_KEY，无法保存代理密码")
  else (cipher.encrypt plain).mapError ApiError.badRequest

/-- The column of the password of a new proxy. -/
def encryptPasswordOption (password : Option String) : Except ApiError (Option String) :=
  match password with
  | none => .ok none
  | some pw =>
    if pw.isEmpty then .ok none
    else if pw = "***" then .error (.badRequest "\"***\" 为掩码保留值，不能作为真实密码")
    else (encryptPassword cipher pw).map some

/-! ### Handlers -/

/-- The row of a new proxy, with the id that the database gives it. -/
def newProxy (body : CreateProxyReq) (id : Uuid) : Except ApiError ProxyDbRow := do
  validateProxy body.name body.kind body.host body.port
  validateProxyExtras body.username body.noProxy
  let passwordEnc ← encryptPasswordOption cipher body.password
  return {
    id, name := body.name, kind := body.kind, host := body.host, port := body.port.toNat
    username := trimUsername body.username, passwordEnc, noProxy := body.noProxy.getD []
    enabled := body.enabled.getD true }

/-- The row of a proxy after an update. -/
def updatedProxy (row : ProxyDbRow) (body : UpdateProxyReq) : Except ApiError ProxyDbRow := do
  let name := body.name.getD row.name
  let kind := body.kind.getD row.kind
  let host := body.host.getD row.host
  let port := body.port.getD (UInt16.ofNat row.port.toNat)
  validateProxy name kind host port
  let username :=
    match body.username with
    | some _ => trimUsername body.username
    | none => row.username
  let noProxy := body.noProxy.getD row.noProxy
  validateProxyExtras username (some noProxy)
  let enabled := body.enabled.getD row.enabled
  let passwordEnc ← (match apiKeySemantics body.password with
    | .keep => .ok row.passwordEnc
    | .clear => .ok none
    | .set plain => (encryptPassword cipher plain).map some : Except ApiError (Option String))
  return { row with
    name, kind, host, port := port.toNat, username, passwordEnc, noProxy, enabled }

/-- The name is unique, and so is the id. -/
def insertProxy (rows : List ProxyDbRow) (row : ProxyDbRow) : Except ApiError (List ProxyDbRow) :=
  if rows.any fun r ↦ decide (r.name = row.name ∨ r.id = row.id) then
    .error (.conflict "唯一键冲突")
  else .ok (rows ++ [row])

def createProxy (rows : List ProxyDbRow) (id : Uuid) (body : CreateProxyReq) :
    Except ApiError (List ProxyDbRow) := do
  let row ← newProxy cipher body id
  insertProxy rows row

def updateProxy (rows : List ProxyDbRow) (id : Uuid) (body : UpdateProxyReq) :
    Except ApiError (List ProxyDbRow) :=
  match rows.find? fun r ↦ decide (r.id = id) with
  | none => .error .notFound
  | some row => do
    let row ← updatedProxy cipher row body
    if rows.any fun r ↦ decide (r.name = row.name ∧ r.id ≠ id) then .error (.conflict "唯一键冲突")
    else return rows.map fun r ↦ if r.id = id then row else r

end Passwords

def deleteProxy (rows : List ProxyDbRow) (id : Uuid) : Except ApiError (List ProxyDbRow) :=
  if rows.any fun r ↦ decide (r.id = id) then .ok (rows.filter fun r ↦ decide (r.id ≠ id))
  else .error .notFound

/-- The proxies of the snapshot. -/
def proxiesOf [Crypto] (rows : List ProxyDbRow) : Table Uuid ProxyRow :=
  indexBy ProxyDbRow.id ProxyDbRow.load rows

end NextApi.Admin.Proxies

namespace NextApi.Upstream

open Cache Admin.Proxies

/-! ### The address of a proxy -/

/-- The bytes that stand for themselves. -/
def unreserved : List Char :=
  "ABCDEFGHIJKLMNOPQRSTUVWXYZabcdefghijklmnopqrstuvwxyz0123456789-._~".toList

/-- Percent-encodes all bytes but the unreserved ones. -/
def urlencodeCredential (s : String) : String :=
  String.ofList (s.toList.flatMap fun c ↦ (String.utf8EncodeChar c).flatMap fun b ↦
    if unreserved.contains (Char.ofNat b.toNat) then [Char.ofNat b.toNat]
    else '%' :: (Text.hexDigits 2 b.toNat).map Char.toUpper)

/-- The address of a proxy, with its credentials. -/
def proxyUrl (proxy : ProxyRow) : String :=
  let scheme :=
    match proxy.kind with
    | "socks5" => "socks5"
    | "https" => "https"
    | _ => "http"
  let address := proxy.host ++ ":" ++ toString proxy.port
  match proxy.username, proxy.passwordPlain with
  | some u, some p =>
    scheme ++ "://" ++ urlencodeCredential u ++ ":" ++ urlencodeCredential p ++ "@" ++ address
  | some u, none => scheme ++ "://" ++ urlencodeCredential u ++ "@" ++ address
  | none, _ => scheme ++ "://" ++ address

/-! ### Clients -/

/-- The proxies of the library. -/
class ProxyScheme where
  Proxy : Type
  /-- `Proxy::all`, which fails for what is no address. -/
  all : String → Option Proxy

section Clients

variable [ProxyScheme]

/-- A client, which connects through a proxy or directly. -/
structure Client where
  proxy : Option ProxyScheme.Proxy

def buildClient (proxy : Option ProxyScheme.Proxy) : Client := ⟨proxy⟩

/-- The clients there are, by their keys. -/
abbrev ClientPools := Table String Client

/-- The key of an upstream. -/
def poolKey (up : UpstreamRow) (defaultProxyId : String) : String :=
  if !up.useProxy then "direct"
  else
    match up.proxyId with
    | some pid => Text.formatUuid pid
    | none => if !defaultProxyId.isEmpty then defaultProxyId else "direct"

/-- The client that is built for a key. -/
def buildFor (proxies : Table Uuid ProxyRow) (key : String) : Client :=
  if key = "direct" then buildClient none
  else
    match Text.parseUuid key with
    | some pid =>
      match proxies.lookup pid with
      | some proxy =>
        if proxy.enabled then
          match ProxyScheme.all (proxyUrl proxy) with
          | some p => buildClient (some p)
          | none => buildClient none
        else buildClient none
      | none => buildClient none
    | none => buildClient none

/-- The client of a key, which is built when there is none. -/
def ClientPools.get (pools : ClientPools) (proxies : Table Uuid ProxyRow) (key : String) :
    Client × ClientPools :=
  match pools.lookup key with
  | some client => (client, pools)
  | none => (buildFor proxies key, pools.insert key (buildFor proxies key))

def ClientPools.clientFor (pools : ClientPools) (up : UpstreamRow) (proxies : Table Uuid ProxyRow)
    (defaultProxyId : String) : Client × ClientPools :=
  pools.get proxies (poolKey up defaultProxyId)

/-- `direct_client`. -/
def ClientPools.directClient (pools : ClientPools) : Client × ClientPools :=
  match pools.lookup "direct" with
  | some client => (client, pools)
  | none => (buildClient none, pools.insert "direct" (buildClient none))

/-! ### What a client should be -/

/-- The proxy that an upstream selects. -/
def selectedProxy (up : UpstreamRow) (defaultProxyId : String) : Option Uuid :=
  if up.useProxy then up.proxyId.or (Text.parseUuid defaultProxyId) else none

/-- The client of an upstream: through the proxy that it selects, if that is there, enabled and has an
address, and else directly. -/
def freshClient (up : UpstreamRow) (proxies : Table Uuid ProxyRow) (defaultProxyId : String) :
    Client :=
  ⟨(((selectedProxy up defaultProxyId).bind proxies.lookup).filter ProxyRow.enabled).bind
    fun proxy ↦ ProxyScheme.all (proxyUrl proxy)⟩

omit [ProxyScheme] in
theorem formatUuid_ne_direct (id : Uuid) : Text.formatUuid id ≠ "direct" := by
  intro h
  have hlength := Text.length_formatUuid id
  rw [h] at hlength
  exact absurd hlength (by decide)

/-- The key stands for what the upstream selects. -/
theorem buildFor_poolKey (up : UpstreamRow) (proxies : Table Uuid ProxyRow)
    (defaultProxyId : String) :
    buildFor proxies (poolKey up defaultProxyId) = freshClient up proxies defaultProxyId := by
  have hdirect : buildFor proxies "direct" = ⟨none⟩ := rfl
  have hkey {key : String} (hne : key ≠ "direct") :
      buildFor proxies key = ⟨(((Text.parseUuid key).bind proxies.lookup).filter
        ProxyRow.enabled).bind fun proxy ↦ ProxyScheme.all (proxyUrl proxy)⟩ := by
    rw [buildFor, if_neg hne]
    cases Text.parseUuid key with
    | none => rfl
    | some pid =>
      rw [Option.bind_some]
      dsimp only
      cases proxies.lookup pid with
      | none => rfl
      | some proxy =>
        dsimp only
        by_cases henabled : proxy.enabled = true
        · rw [if_pos henabled, Option.filter_some, if_pos henabled, Option.bind_some]
          cases ProxyScheme.all (proxyUrl proxy) <;> rfl
        · rw [if_neg henabled, Option.filter_some, if_neg henabled]
          rfl
  rw [poolKey, freshClient, selectedProxy]
  by_cases huse : up.useProxy = true
  · rw [huse, Bool.not_true, if_neg Bool.false_ne_true, if_pos rfl]
    cases up.proxyId with
    | some pid =>
      rw [Option.some_or]
      dsimp only
      rw [hkey (formatUuid_ne_direct pid), Text.parseUuid_formatUuid]
    | none =>
      rw [Option.none_or]
      dsimp only
      by_cases hdefault : defaultProxyId = "" ∨ defaultProxyId = "direct"
      · rcases hdefault with rfl | rfl
        · exact hdirect
        · exact hdirect
      · rw [not_or] at hdefault
        have hempty : defaultProxyId.isEmpty = false := String.isEmpty_eq_false_iff.2 hdefault.1
        rw [hempty, Bool.not_false, if_pos rfl, hkey hdefault.2]
  · rw [Bool.not_eq_true] at huse
    rw [huse, Bool.not_false, if_pos rfl, if_neg Bool.false_ne_true, hdirect]
    rfl

/-! ### Runs -/

/-- The table, the snapshot of it and the clients. -/
structure PoolState where
  rows : List ProxyDbRow
  proxies : Table Uuid ProxyRow
  pools : ClientPools := ∅

/-- What can happen: an operation of the administration, and a call for a client. -/
inductive PoolAction
  | create (id : Uuid) (body : CreateProxyReq)
  | update (id : Uuid) (body : UpdateProxyReq)
  | delete (id : Uuid)
  | clientFor (up : UpstreamRow) (defaultProxyId : String)
  | directClient

/-- A call: the client that was returned, and the one that would be built afresh. -/
structure Call where
  key : String
  returned : Client
  fresh : Client

section Runs

variable [Crypto] (cipher : Admin.Upstreams.Cipher)

/-- The process with a table and no client. -/
def PoolState.start (rows : List ProxyDbRow) : PoolState := { rows, proxies := proxiesOf rows }

/-- An operation that fails changes nothing; another one is followed by its reload. -/
def PoolState.store (s : PoolState) (answer : Except ApiError (List ProxyDbRow)) : PoolState :=
  match answer with
  | .ok rows => { s with rows := rows, proxies := proxiesOf rows }
  | .error _ => s

def PoolState.step (s : PoolState) : PoolAction → PoolState
  | .create id body => s.store (createProxy cipher s.rows id body)
  | .update id body => s.store (updateProxy cipher s.rows id body)
  | .delete id => s.store (deleteProxy s.rows id)
  | .clientFor up defaultProxyId =>
    { s with pools := (s.pools.clientFor up s.proxies defaultProxyId).2 }
  | .directClient => { s with pools := s.pools.directClient.2 }

/-- The call of an action. -/
def PoolState.observe (s : PoolState) : PoolAction → Option Call
  | .clientFor up defaultProxyId =>
    some ⟨poolKey up defaultProxyId, (s.pools.clientFor up s.proxies defaultProxyId).1,
      freshClient up s.proxies defaultProxyId⟩
  | .directClient => some ⟨"direct", s.pools.directClient.1, ⟨none⟩⟩
  | _ => none

/-- The calls of a run. -/
def calls (s : PoolState) : List PoolAction → List Call
  | [] => []
  | a :: rest => (s.observe a).toList ++ calls (s.step cipher a) rest

/-! ### What is kept -/

omit [Crypto] in
/-- A client that is there stays. -/
theorem lookup_get {pools : ClientPools} {key : String} {client : Client}
    (h : pools.lookup key = some client) (proxies : Table Uuid ProxyRow) (other : String) :
    (pools.get proxies other).2.lookup key = some client := by
  rw [ClientPools.get]
  cases hother : pools.lookup other with
  | some _ => exact h
  | none =>
    refine (Table.lookup_insert _ _ _ _).trans ((if_neg ?_).trans h)
    rintro rfl
    rw [h] at hother
    exact absurd hother (by simp)

omit [Crypto] in
/-- What is returned is there from then on. -/
theorem lookup_get_self (pools : ClientPools) (proxies : Table Uuid ProxyRow) (key : String) :
    (pools.get proxies key).2.lookup key = some (pools.get proxies key).1 := by
  rw [ClientPools.get]
  cases hkey : pools.lookup key with
  | some _ => exact hkey
  | none => exact (Table.lookup_insert _ _ _ _).trans (if_pos rfl)

omit [Crypto] in
/-- What a call returns and leaves behind. -/
structure Call.Made (s : PoolState) (call : Call) (s' : PoolState) : Prop where
  returned : call.returned = (s.pools.get s.proxies call.key).1
  fresh : call.fresh = buildFor s.proxies call.key
  pools : s'.pools = (s.pools.get s.proxies call.key).2

/-- An action is a call, or it leaves the clients alone. -/
theorem observe_cases (s : PoolState) (a : PoolAction) :
    (∃ call, s.observe a = some call ∧ call.Made s (s.step cipher a)) ∨
      (s.observe a = none ∧ (s.step cipher a).pools = s.pools) := by
  have hstore (answer : Except ApiError (List ProxyDbRow)) : (s.store answer).pools = s.pools := by
    cases answer <;> rfl
  cases a with
  | create id body => exact Or.inr ⟨rfl, hstore _⟩
  | update id body => exact Or.inr ⟨rfl, hstore _⟩
  | delete id => exact Or.inr ⟨rfl, hstore _⟩
  | clientFor up defaultProxyId =>
    exact Or.inl ⟨_, rfl, rfl, (buildFor_poolKey up s.proxies defaultProxyId).symm, rfl⟩
  | directClient => exact Or.inl ⟨_, rfl, rfl, rfl, rfl⟩

variable {cipher}

/-- A client that is there is the one that is returned. -/
theorem returned_eq_of_lookup {s : PoolState} {actions : List PoolAction} {call : Call}
    (hcall : call ∈ calls cipher s actions) {client : Client}
    (h : s.pools.lookup call.key = some client) : call.returned = client := by
  induction actions generalizing s with
  | nil => exact absurd hcall List.not_mem_nil
  | cons a rest ih =>
    rw [calls, List.mem_append] at hcall
    rcases observe_cases cipher s a with ⟨first, hfirst, hmade⟩ | ⟨hnone, hpools⟩
    · rw [hfirst, Option.toList_some, List.mem_singleton] at hcall
      rcases hcall with rfl | hcall
      · rw [hmade.returned, ClientPools.get, h]
      · refine ih hcall ?_
        rw [hmade.pools]
        exact lookup_get h s.proxies first.key
    · rw [hnone, Option.toList_none] at hcall
      refine ih (hcall.resolve_left List.not_mem_nil) ?_
      rw [hpools]
      exact h

/-- Two calls for one key return the same client. -/
theorem returned_eq {s : PoolState} {actions : List PoolAction} {call call' : Call}
    (hcall : call ∈ calls cipher s actions) (hcall' : call' ∈ calls cipher s actions)
    (hkey : call.key = call'.key) : call.returned = call'.returned := by
  induction actions generalizing s with
  | nil => exact absurd hcall List.not_mem_nil
  | cons a rest ih =>
    rw [calls, List.mem_append] at hcall hcall'
    rcases observe_cases cipher s a with ⟨first, hfirst, hmade⟩ | ⟨hnone, _⟩
    · have hthere : (s.step cipher a).pools.lookup first.key = some first.returned := by
        rw [hmade.pools, hmade.returned]
        exact lookup_get_self s.pools s.proxies first.key
      rw [hfirst, Option.toList_some, List.mem_singleton] at hcall hcall'
      rcases hcall with rfl | hcall <;> rcases hcall' with rfl | hcall'
      · rfl
      · exact (returned_eq_of_lookup hcall' (hkey ▸ hthere)).symm
      · exact returned_eq_of_lookup hcall (hkey ▸ hthere)
      · exact ih hcall hcall'
    · rw [hnone, Option.toList_none] at hcall hcall'
      exact ih (hcall.resolve_left List.not_mem_nil) (hcall'.resolve_left List.not_mem_nil)

/-- What is returned was built by the first call for the key. -/
theorem exists_first_call {s : PoolState} {actions : List PoolAction} {call : Call}
    (hcall : call ∈ calls cipher s actions) (h : s.pools.lookup call.key = none) :
    ∃ first ∈ calls cipher s actions, first.key = call.key ∧ call.returned = first.fresh := by
  induction actions generalizing s with
  | nil => exact absurd hcall List.not_mem_nil
  | cons a rest ih =>
    rw [calls, List.mem_append] at hcall
    rcases observe_cases cipher s a with ⟨first, hfirst, hmade⟩ | ⟨hnone, hpools⟩
    · have hmem : first ∈ calls cipher s (a :: rest) := by
        rw [calls, hfirst]
        exact List.mem_cons_self
      rw [hfirst, Option.toList_some, List.mem_singleton] at hcall
      by_cases hkey : first.key = call.key
      · have hbuilt : first.returned = first.fresh := by
          rw [hmade.returned, hmade.fresh, ClientPools.get, hkey, h]
        refine ⟨first, hmem, hkey, ?_⟩
        rcases hcall with rfl | hcall
        · exact hbuilt
        · rw [← hbuilt]
          refine returned_eq_of_lookup hcall ?_
          rw [hmade.pools, hmade.returned, ← hkey]
          exact lookup_get_self s.pools s.proxies first.key
      · have hcall := hcall.resolve_left fun heq ↦ hkey (by rw [heq])
        have hnone : (s.step cipher a).pools.lookup call.key = none := by
          rw [hmade.pools, ClientPools.get]
          cases s.pools.lookup first.key with
          | some _ => exact h
          | none => exact (Table.lookup_insert _ _ _ _).trans ((if_neg hkey).trans h)
        obtain ⟨built, hbuilt, hrest⟩ := ih hcall hnone
        refine ⟨built, ?_, hrest⟩
        rw [calls]
        exact List.mem_append_right _ hbuilt
    · rw [hnone, Option.toList_none] at hcall
      obtain ⟨built, hbuilt, hrest⟩ := ih (hcall.resolve_left List.not_mem_nil) (hpools ▸ h)
      refine ⟨built, ?_, hrest⟩
      rw [calls]
      exact List.mem_append_right _ hbuilt

/-- Every call of a run returns the client that would be built afresh, exactly when all calls for one
key would build the same one. -/
theorem clientsFresh_iff (cipher : Admin.Upstreams.Cipher) (rows : List ProxyDbRow)
    (actions : List PoolAction) :
    (∀ call ∈ calls cipher (PoolState.start rows) actions, call.returned = call.fresh) ↔
      ∀ call ∈ calls cipher (PoolState.start rows) actions,
        ∀ call' ∈ calls cipher (PoolState.start rows) actions,
          call.key = call'.key → call.fresh = call'.fresh := by
  constructor
  · intro h call hcall call' hcall' hkey
    rw [← h call hcall, ← h call' hcall']
    exact returned_eq hcall hcall' hkey
  · intro h call hcall
    obtain ⟨first, hfirst, hkey, hbuilt⟩ := exists_first_call hcall (Table.lookup_empty call.key)
    rw [hbuilt]
    exact h first hfirst call hcall hkey

end Runs

end Clients

/-! ### A proxy that is disabled -/

section Disabled

local instance everyAddress : ProxyScheme := ⟨String, some⟩

local instance plainColumns : Crypto := ⟨some, fun _ ↦ none⟩

def noCipher : Admin.Upstreams.Cipher := ⟨false, .ok, .ok⟩

/-- An upstream with a proxy of its own. -/
def proxiedUpstream : UpstreamRow :=
  UpstreamDbRow.load { id := 2, name := "u", useProxy := true, proxyId := some 1 }

def egress : CreateProxyReq :=
  { name := "egress", kind := "http", host := "10.0.0.1", port := 8080, username := some "nx" }

/-- A proxy is used, disabled, and used again. -/
def disabledInUse : List PoolAction :=
  [.create 1 egress, .clientFor proxiedUpstream "", .update 1 { enabled := some false },
    .clientFor proxiedUpstream ""]

/-- The addresses of a call: the one that was returned, and the one it should be. -/
def addresses (call : Call) : Option String × Option String := (call.returned.proxy, call.fresh.proxy)

/-- The second call still connects through the proxy. -/
theorem not_clientsFresh_disabled :
    ¬ ∀ call ∈ calls noCipher (PoolState.start []) disabledInUse, call.returned = call.fresh := by
  intro h
  have hcalls : (calls noCipher (PoolState.start []) disabledInUse).map addresses =
      [(some "http://nx@10.0.0.1:8080", some "http://nx@10.0.0.1:8080"),
        (some "http://nx@10.0.0.1:8080", none)] := by
    decide +kernel
  have hsecond : (some "http://nx@10.0.0.1:8080", none) ∈
      (calls noCipher (PoolState.start []) disabledInUse).map addresses := by
    rw [hcalls]
    exact List.mem_cons_of_mem _ List.mem_cons_self
  obtain ⟨call, hcall, heq⟩ := List.mem_map.1 hsecond
  rw [addresses, h call hcall] at heq
  obtain ⟨hproxied, hdirect⟩ := Prod.mk.inj heq
  rw [hproxied] at hdirect
  exact absurd hdirect (by simp)

end Disabled

end NextApi.Upstream
