import NextApi.Admin.UpdateUpstream

/-!
# What an update leaves alone

An update respects the row it writes to if it changes nothing that its body does not name, but for
what comes with enabling and with turning the breaker off (`Respects`). A body that has `extra`
names all its members, except for the quota and the state of the credential, which no body can
name.

`respectsRun_iff` says when all updates of a run do so: when every row an update writes to agrees
with the one it has read in all that its body does not name, and has no state of the credential
(`Agrees`).
-/

set_option autoImplicit false

namespace NextApi.Admin.Upstreams

open Json Cache

/-! ### Properties -/

/-- The columns of the breaker that an update should make of those in a row. -/
def documentedLinks (body : UpdateUpstreamReq) (row : UpstreamDbRow) : BreakerColumns :=
  links body.enabled row (body.extra.getD row.extra)

/-- An update has written `new` in the place of `current`, and changed nothing but what its body
names and what comes with it. -/
structure Respects (body : UpdateUpstreamReq) (current new : UpstreamDbRow) : Prop where
  name : body.name = none → new.name = current.name
  kind : body.kind = none → new.kind = current.kind
  baseUrl : body.baseUrl = none → new.baseUrl = current.baseUrl
  apiKeyEnc : apiKeySemantics body.apiKey = .keep → new.apiKeyEnc = current.apiKeyEnc
  protocols : body.protocols = none → new.protocols = current.protocols
  enabled : body.enabled = none → new.enabled = current.enabled
  timeoutMs : body.timeoutMs = none → new.timeoutMs = current.timeoutMs
  breakerThreshold : body.breakerThreshold = none →
    new.breakerThreshold = current.breakerThreshold
  probeModel : body.probeModel = none → new.probeModel = current.probeModel
  links : breakerColumns new = documentedLinks body current
  useProxy : body.useProxy = none → new.useProxy = current.useProxy
  proxyId : body.proxyId = none → new.proxyId = current.proxyId
  extra : body.extra = none → ∀ key, new.extra.get? key = current.extra.get? key
  quota : new.extra.get? "quota" = current.extra.get? "quota"
  authState : new.extra.get? authStateKey = current.extra.get? authStateKey
  modelSync : body.modelSync = none → new.modelSync = current.modelSync
  modelExclude : body.modelExclude = none → new.modelExclude = current.modelExclude
  models : new.modelsCache = current.modelsCache ∧
    new.modelsFetchedAt = current.modelsFetchedAt
  oauthEnc : apiKeySemantics body.authJson = .keep → new.oauthEnc = current.oauthEnc
  balanceKeyEnc : balanceKeySemantics body.balanceKey (body.clearBalanceKey.getD false) = .keep →
    new.balanceKeyEnc = current.balanceKeyEnc
  created : new.id = current.id ∧ new.createdAt = current.createdAt

/-- The row that an update has read agrees with the one it writes to in all that the body does not
name, and there is no state of the credential. -/
structure Agrees (body : UpdateUpstreamReq) (row current : UpstreamDbRow) : Prop where
  name : body.name = none → row.name = current.name
  kind : body.kind = none → row.kind = current.kind
  baseUrl : body.baseUrl = none →
    defaultBaseUrl (body.kind.getD row.kind) row.baseUrl = current.baseUrl
  apiKeyEnc : apiKeySemantics body.apiKey = .keep → row.apiKeyEnc = current.apiKeyEnc
  protocols : body.protocols = none → row.protocols = current.protocols
  enabled : body.enabled = none → row.enabled = current.enabled
  timeoutMs : body.timeoutMs = none → row.timeoutMs = current.timeoutMs
  breakerThreshold : body.breakerThreshold = none →
    row.breakerThreshold = current.breakerThreshold
  probeModel : body.probeModel = none → row.probeModel = current.probeModel
  links : documentedLinks body row = documentedLinks body current
  useProxy : body.useProxy = none → row.useProxy = current.useProxy
  proxyId : body.proxyId = none → row.proxyId = current.proxyId
  extra : body.extra = none → ∀ key, key ≠ authStateKey →
    row.extra.get? key = current.extra.get? key
  quota : row.extra.get? "quota" = current.extra.get? "quota"
  authState : current.extra.get? authStateKey = none
  modelSync : body.modelSync = none → row.modelSync = current.modelSync
  modelExclude : body.modelExclude = none → row.modelExclude = current.modelExclude
  oauthEnc : apiKeySemantics body.authJson = .keep → row.oauthEnc = current.oauthEnc
  balanceKeyEnc : balanceKeySemantics body.balanceKey (body.clearBalanceKey.getD false) = .keep →
    row.balanceKeyEnc = current.balanceKeyEnc

/-! ### One column -/

/-- A column that is named has the value of the body, and another one that of the row read. -/
theorem keeps_getD_iff {α : Type} (named : Option α) (old current : α) :
    (named = none → named.getD old = current) ↔ (named = none → old = current) := by
  cases named with
  | none => rfl
  | some v => exact iff_of_true (fun h ↦ nomatch h) (fun h ↦ nomatch h)

theorem keeps_or_iff {α : Type} (named old current : Option α) :
    (named = none → named.or old = current) ↔ (named = none → old = current) := by
  cases named with
  | none => rfl
  | some v => exact iff_of_true (fun h ↦ nomatch h) (fun h ↦ nomatch h)

theorem secretColumn_keep {semantics : ApiKeySemantics} {old new : Option String}
    {encrypt : String → Except String String}
    (h : secretColumn semantics old encrypt = .ok new) (hkeep : semantics = .keep) : new = old := by
  rw [hkeep, secretColumn] at h
  exact (Except.ok.inj h).symm

/-- The members of `extra` after an update. -/
theorem get?_mergeExtra (named : Option Value) (old : Value) (key : String) :
    (mergeExtra named old).get? key =
      if key = "quota" then old.get? "quota"
      else if key = authStateKey then none
      else (named.getD old).get? key := by
  have hstripped : ∀ m : Map, Map.get? (Map.remove (Map.remove m authStateKey) "quota") key =
      if key = "quota" then none else if key = authStateKey then none else Map.get? m key := by
    intro m
    rw [Map.get?_remove, Map.get?_remove]
    simp only [eq_comm]
  rw [mergeExtra]
  generalize named.getD old = extra
  cases hquota : old.get? "quota" with
  | none =>
    cases extra with
    | obj m => exact hstripped m
    | _ =>
      dsimp only
      split
      · rfl
      · split
        · rfl
        · rfl
  | some quota =>
    cases extra with
    | obj m =>
      refine (Map.get?_insert _ _ _ _).trans ?_
      rw [hstripped m]
      simp only [eq_comm]
      split
      · rfl
      · rfl
    | _ =>
      refine (Map.get?_insert _ _ _ _).trans ?_
      simp only [eq_comm]
      split
      · rfl
      · split
        · rfl
        · rfl

/-- The setting of the breaker is not one of the members that an update drops. -/
theorem links_mergeExtra (body : UpdateUpstreamReq) (row : UpstreamDbRow) :
    links body.enabled row (mergeExtra body.extra row.extra) = documentedLinks body row := by
  have hallowed : autoDisableAllowedIn (mergeExtra body.extra row.extra) =
      autoDisableAllowedIn (body.extra.getD row.extra) := by
    rw [autoDisableAllowedIn, autoDisableAllowedIn, get?_mergeExtra, if_neg (by decide),
      if_neg (by decide)]
  unfold documentedLinks links
  rw [hallowed]

/-! ### One update -/

/-- An update changes nothing that its body does not name if what it does not name is still as it
was read, and only then. -/
theorem respects_iff [Checks] {cipher : Cipher} {body : UpdateUpstreamReq}
    {row merged : UpstreamDbRow} (h : mergeUpdate cipher body row = .ok merged)
    (current : UpstreamDbRow) (now : ℤ) :
    Respects body current (writeRow merged current now) ↔ Agrees body row current := by
  obtain ⟨oauthEnc, apiKeyEnc, balanceKeyEnc, hoauth, hapiKey, hbalance, rfl⟩ := mergeUpdate_ok h
  have hextra : ∀ key, key ≠ authStateKey → body.extra = none →
      (mergeExtra body.extra row.extra).get? key = row.extra.get? key := by
    intro key hauth hnone
    rw [get?_mergeExtra, hnone, if_neg hauth]
    split
    · next hquota => rw [hquota]
    · rfl
  have hquota : (mergeExtra body.extra row.extra).get? "quota" = row.extra.get? "quota" := by
    rw [get?_mergeExtra, if_pos rfl]
  have hauthState : (mergeExtra body.extra row.extra).get? authStateKey = none := by
    rw [get?_mergeExtra, if_neg (by decide), if_pos rfl]
  constructor
  · intro hr
    exact {
      name := (keeps_getD_iff _ _ _).1 hr.name
      kind := (keeps_getD_iff _ _ _).1 hr.kind
      baseUrl := fun hnone ↦ by
        have := hr.baseUrl hnone
        rw [writeRow] at this
        dsimp only at this
        rw [hnone] at this
        exact this
      apiKeyEnc := fun hkeep ↦ (secretColumn_keep hapiKey hkeep).symm.trans (hr.apiKeyEnc hkeep)
      protocols := (keeps_getD_iff _ _ _).1 hr.protocols
      enabled := (keeps_getD_iff _ _ _).1 hr.enabled
      timeoutMs := (keeps_getD_iff _ _ _).1 hr.timeoutMs
      breakerThreshold := (keeps_getD_iff _ _ _).1 hr.breakerThreshold
      probeModel := (keeps_or_iff _ _ _).1 hr.probeModel
      links := (links_mergeExtra body row).symm.trans hr.links
      useProxy := (keeps_getD_iff _ _ _).1 hr.useProxy
      proxyId := (keeps_or_iff _ _ _).1 hr.proxyId
      extra := fun hnone key hauth ↦ (hextra key hauth hnone).symm.trans (hr.extra hnone key)
      quota := hquota.symm.trans hr.quota
      authState := hr.authState.symm.trans hauthState
      modelSync := (keeps_getD_iff _ _ _).1 hr.modelSync
      modelExclude := (keeps_getD_iff _ _ _).1 hr.modelExclude
      oauthEnc := fun hkeep ↦ (secretColumn_keep hoauth hkeep).symm.trans (hr.oauthEnc hkeep)
      balanceKeyEnc := fun hkeep ↦
        (secretColumn_keep hbalance hkeep).symm.trans (hr.balanceKeyEnc hkeep) }
  · intro ha
    exact {
      name := (keeps_getD_iff _ _ _).2 ha.name
      kind := (keeps_getD_iff _ _ _).2 ha.kind
      baseUrl := fun hnone ↦ by
        rw [writeRow]
        dsimp only
        rw [hnone]
        exact ha.baseUrl hnone
      apiKeyEnc := fun hkeep ↦ (secretColumn_keep hapiKey hkeep).trans (ha.apiKeyEnc hkeep)
      protocols := (keeps_getD_iff _ _ _).2 ha.protocols
      enabled := (keeps_getD_iff _ _ _).2 ha.enabled
      timeoutMs := (keeps_getD_iff _ _ _).2 ha.timeoutMs
      breakerThreshold := (keeps_getD_iff _ _ _).2 ha.breakerThreshold
      probeModel := (keeps_or_iff _ _ _).2 ha.probeModel
      links := (links_mergeExtra body row).trans ha.links
      useProxy := (keeps_getD_iff _ _ _).2 ha.useProxy
      proxyId := (keeps_or_iff _ _ _).2 ha.proxyId
      extra := fun hnone key ↦ by
        by_cases hauth : key = authStateKey
        · rw [hauth]
          exact hauthState.trans ha.authState.symm
        · exact (hextra key hauth hnone).trans (ha.extra hnone key hauth)
      quota := hquota.trans ha.quota
      authState := hauthState.trans ha.authState.symm
      modelSync := (keeps_getD_iff _ _ _).2 ha.modelSync
      modelExclude := (keeps_getD_iff _ _ _).2 ha.modelExclude
      models := ⟨rfl, rfl⟩
      oauthEnc := fun hkeep ↦ (secretColumn_keep hoauth hkeep).trans (ha.oauthEnc hkeep)
      balanceKeyEnc := fun hkeep ↦
        (secretColumn_keep hbalance hkeep).trans (ha.balanceKeyEnc hkeep)
      created := ⟨rfl, rfl⟩ }

/-! ### Runs -/

/-- Every update of a run that writes changes nothing that its body does not name. -/
def RespectsRun [Checks] (row : UpstreamDbRow) (actions : List Action) : Prop :=
  ∀ before u cipher now after, actions = before ++ .write u cipher now :: after →
    ∀ body old merged, (State.run ⟨row, ∅⟩ before).updates.lookup u = some (body, old) →
      mergeUpdate cipher body old = .ok merged →
      Respects body (State.run ⟨row, ∅⟩ before).row
        ((State.run ⟨row, ∅⟩ before).step (.write u cipher now)).row

/-- Every update of a run that writes has read what it does not name as it still is. -/
def AgreesRun [Checks] (row : UpstreamDbRow) (actions : List Action) : Prop :=
  ∀ before u cipher now after, actions = before ++ .write u cipher now :: after →
    ∀ body old merged, (State.run ⟨row, ∅⟩ before).updates.lookup u = some (body, old) →
      mergeUpdate cipher body old = .ok merged →
      Agrees body old (State.run ⟨row, ∅⟩ before).row

/-- What a write leaves in the row. -/
theorem row_step_write [Checks] {s : State} {u : ℕ} {body : UpdateUpstreamReq}
    {old merged : UpstreamDbRow} {cipher : Cipher} (hu : s.updates.lookup u = some (body, old))
    (h : mergeUpdate cipher body old = .ok merged) (now : ℤ) :
    (s.step (.write u cipher now)).row = writeRow merged s.row now := by
  rw [State.step, hu]
  dsimp only
  rw [h]

/-- The updates of a run change nothing that they do not name when what they do not name is at each
write as it was read, and there is no state of the credential to drop; and in no other run. -/
theorem respectsRun_iff [Checks] (row : UpstreamDbRow) (actions : List Action) :
    RespectsRun row actions ↔ AgreesRun row actions := by
  constructor
  · intro hr before u cipher now after hactions body old merged hu hmerged
    have hrespects := hr before u cipher now after hactions body old merged hu hmerged
    rw [row_step_write hu hmerged now] at hrespects
    exact (respects_iff hmerged _ now).1 hrespects
  · intro ha before u cipher now after hactions body old merged hu hmerged
    rw [row_step_write hu hmerged now]
    exact (respects_iff hmerged _ now).2
      (ha before u cipher now after hactions body old merged hu hmerged)

/-! ### An update and a refresh -/

/-- Checks that find nothing wrong. -/
@[reducible] def laxChecks : Checks where
  parseUrl _ := some ⟨"https", some "chatgpt.com", "", none, none, none⟩
  validateExtra _ := none

def codexRow : UpstreamDbRow where
  id := 1
  name := "codex"
  kind := "codex"
  baseUrl := "https://chatgpt.com/backend-api/codex"
  protocols := ["openai_responses"]
  oauthEnc := some "old"

/-- A cipher without a key. -/
def noCipher : Cipher where
  available := false
  encrypt _ := .error "NEXTAPI_SECRET_KEY 未设置"
  parseAuthJson _ := .error "auth.json 不是合法 JSON"

/-- While the upstream gets a new name, its credential is refreshed. -/
def renameRun : List Action :=
  [.read 0 { name := some "codex-2" }, .other (.storeOauth "new" 5), .write 0 noCipher 9]

/-- An upstream gets a new name after its credential was refused. -/
def refusedRun : List Action :=
  [.other (.storeAuthState (.str "unauthenticated") 5), .read 0 { name := some "codex-2" },
    .write 0 noCipher 9]

/-- The credential that was used up is back, and the state of the credential is dropped. -/
theorem not_respectsRun_rename :
    ¬ @RespectsRun laxChecks codexRow renameRun ∧ ¬ @RespectsRun laxChecks codexRow refusedRun := by
  let _ := laxChecks
  constructor
  · intro h
    obtain ⟨merged, hmerged, hold⟩ : ∃ merged,
        mergeUpdate noCipher { name := some "codex-2" } codexRow = .ok merged ∧
          merged.oauthEnc = some "old" := ⟨_, rfl, rfl⟩
    have hoauth := (h [.read 0 { name := some "codex-2" }, .other (.storeOauth "new" 5)] 0 noCipher
      9 [] rfl _ _ merged rfl hmerged).oauthEnc rfl
    rw [row_step_write rfl hmerged, writeRow, hold] at hoauth
    exact absurd hoauth (by decide +kernel)
  · intro h
    obtain ⟨merged, hmerged, hextra⟩ : ∃ merged,
        mergeUpdate noCipher { name := some "codex-2" }
            (Write.apply codexRow (.storeAuthState (.str "unauthenticated") 5)) = .ok merged ∧
          merged.extra = .obj [] := ⟨_, rfl, rfl⟩
    have hauth := (h [.other (.storeAuthState (.str "unauthenticated") 5),
      .read 0 { name := some "codex-2" }] 0 noCipher 9 [] rfl _ _ merged rfl hmerged).authState
    rw [row_step_write rfl hmerged, writeRow, hextra] at hauth
    exact absurd hauth (by decide +kernel)

end NextApi.Admin.Upstreams
