import Mathlib.Data.List.Nodup
import NextApi.Json.Yaml

/-!
# Masked configurations

The administration sees the configuration file as a JSON document in which the secrets are masked:
a text that is not empty becomes `***`. The document comes back edited, and a mask in it stands for
the secret that is on file. The entries of the two lists with secrets, the upstreams and the
proxies, are found again by their names, wherever they are now.

Masking and restoring gives back the document (`restore_mask`), and an entry that stays gets its
own secret (`restoreItem_mask`). But an entry whose name is no text, or that has none, is looked up
under the empty name. It gets the secret of the entry that is so called, if there is one
(`restores_iff`).
-/

set_option autoImplicit false

namespace NextApi.Admin.SettingsApi

open Json

/-! ### Configuration files -/

structure ServerCfg where
  listen : String := "0.0.0.0:3220"
  adminJwtSecret : String := ""
  debug : Bool := false
  trustedProxies : List String := []

structure AdminCfg where
  username : String := "admin"
  initialPassword : String := ""
  passwordHash : String := ""

structure ProxySeed where
  name : String := ""
  kind : String := "http"
  host : String := ""
  port : UInt16 := 8080
  username : Option String := none
  password : Option String := none
  noProxy : List String := []
  enabled : Bool := true

/-- A configuration file. The sections without secrets are here as what they are serialised to. -/
structure ConfigFile where
  server : ServerCfg := {}
  database : Value := .null
  gateway : Value := .null
  admin : AdminCfg := {}
  upstreams : List Yaml.Value := []
  modelRoutes : List Yaml.Value := []
  priceRules : List Yaml.Value := []
  fxRates : Value := .null
  fxAutoFetch : Value := .null
  priceImport : Value := .null
  mediaDownload : Value := .null
  proxy : Value := .null
  proxies : List ProxySeed := []
  updateCheck : Value := .null
  mediaPoller : Value := .null
  modelSync : Value := .null

/-! ### Serialising -/

def textOrNull (s : Option String) : Value := (s.map Value.str).getD .null

def ServerCfg.toValue (c : ServerCfg) : Value :=
  .object [("listen", .str c.listen), ("admin_jwt_secret", .str c.adminJwtSecret),
    ("debug", .bool c.debug), ("trusted_proxies", .arr (c.trustedProxies.map .str))]

def AdminCfg.toValue (c : AdminCfg) : Value :=
  .object [("username", .str c.username), ("initial_password", .str c.initialPassword),
    ("password_hash", .str c.passwordHash)]

def ProxySeed.toValue (p : ProxySeed) : Value :=
  .object [("name", .str p.name), ("kind", .str p.kind), ("host", .str p.host),
    ("port", .int p.port.toNat), ("username", textOrNull p.username),
    ("password", textOrNull p.password), ("no_proxy", .arr (p.noProxy.map .str)),
    ("enabled", .bool p.enabled)]

/-! ### Masking -/

def maskStringField : Value → Value
  | .str s => if s = "" then .str s else .str "***"
  | v => v

def maskConfigJson (v : Value) : Value :=
  let v := v.modify "server" (·.modify "admin_jwt_secret" maskStringField)
  let v := v.modify "admin" fun admin ↦
    (admin.modify "password_hash" maskStringField).modify "initial_password" maskStringField
  let v := v.modify "upstreams" (·.mapItems (·.modify "api_key" maskStringField))
  v.modify "proxies" (·.mapItems (·.modify "password" maskStringField))

/-! ### Restoring an entry -/

/-- The text on file in place of a mask. -/
def restoreText (old : String) (v : Value) : Value := if v.asStr = some "***" then .str old else v

def isMasked (field : String) (item : Value) : Bool :=
  decide ((item.get? field).bind Value.asStr = some "***")

/-- The name under which an entry is looked up. -/
def nameOf (item : Value) : String := ((item.get? "name").bind Value.asStr).getD ""

/-- What is on file under the name of an entry in place of its mask. -/
def restoreField (field : String) (onFile : String → Option Value) (item : Value) : Value :=
  if isMasked field item then
    match onFile (nameOf item) with
    | some o => item.modify field fun _ ↦ o
    | none => item
  else item

/-! ### One entry -/

theorem maskStringField_cases (v : Value) :
    (maskStringField v = v ∧ v ≠ .str "***") ∨
      ∃ s, s ≠ "" ∧ v = .str s ∧ maskStringField v = .str "***" := by
  cases v with
  | str s =>
    by_cases hs : s = ""
    · subst hs
      exact .inl ⟨rfl, by decide⟩
    · exact .inr ⟨s, hs, rfl, if_neg hs⟩
  | _ => exact .inl ⟨rfl, Value.noConfusion⟩

theorem isMasked_iff {field : String} {item : Value} :
    isMasked field item = true ↔ item.get? field = some (.str "***") := by
  rw [isMasked, decide_eq_true_iff, Option.bind_eq_some_iff]
  constructor
  · rintro ⟨v, hv, hs⟩
    cases v with
    | str s => rw [hv, Option.some.inj hs]
    | _ => exact nomatch hs
  · exact fun h ↦ ⟨_, h, rfl⟩

theorem restoreText_mask (s : String) : restoreText s (maskStringField (.str s)) = .str s := by
  rw [maskStringField]
  split
  · next hs =>
    subst hs
    rfl
  · rfl

section Item

variable {field : String} {onFile : String → Option Value}

theorem nameOf_modify (hfield : field ≠ "name") (item : Value) (f : Value → Value) :
    nameOf (item.modify field f) = nameOf item := by
  rw [nameOf, Value.get?_modify, if_neg hfield, nameOf]

/-- A masked entry comes back, if its own secret is what is on file under its name. -/
theorem restoreField_mask (hfield : field ≠ "name") {item : Value}
    (hsorted : ∀ m, item = .obj m → Map.Sorted m)
    (hown : ∀ s, s ≠ "" → item.get? field = some (.str s) → onFile (nameOf item) = some (.str s)) :
    restoreField field onFile (item.modify field maskStringField) = item := by
  by_cases hmask : ∃ s, s ≠ "" ∧ item.get? field = some (.str s)
  · obtain ⟨s, hs, hget⟩ := hmask
    have hmasked : isMasked field (item.modify field maskStringField) = true := by
      rw [isMasked_iff, Value.get?_modify, if_pos rfl, hget, Option.map_some, maskStringField,
        if_neg hs]
    rw [restoreField, if_pos hmasked, nameOf_modify hfield, hown s hs hget]
    refine @Value.modifyAll_eq_self item hsorted
      [(field, maskStringField), (field, fun _ ↦ .str s)] fun key w hw ↦ ?_
    by_cases hkey : field = key
    · rw [← hkey, hget] at hw
      simp [Value.edited, hkey, Option.some.inj hw]
    · simp [Value.edited, hkey]
  · -- there is nothing to mask
    have hsame : item.modify field maskStringField = item :=
      Value.modify_eq_self hsorted fun v hv ↦ by
        rcases maskStringField_cases v with ⟨hv', -⟩ | ⟨s, hs, rfl, -⟩
        · exact hv'
        · exact absurd ⟨s, hs, hv⟩ hmask
    have hnot : ¬ isMasked field item = true :=
      fun h ↦ hmask ⟨"***", by decide, isMasked_iff.1 h⟩
    rw [hsame, restoreField, if_neg hnot]

/-- What an entry has new after restoring is what is on file under its name. -/
theorem restoreField_new (item : Value) :
    restoreField field onFile item = item ∨ ∃ o, item.get? field = some (.str "***") ∧
      onFile (nameOf item) = some o ∧ (restoreField field onFile item).get? field = some o := by
  rw [restoreField]
  by_cases hmasked : isMasked field item = true
  · rw [if_pos hmasked]
    rw [isMasked_iff] at hmasked
    cases hfile : onFile (nameOf item) with
    | none => exact .inl rfl
    | some o =>
      refine .inr ⟨o, hmasked, rfl, ?_⟩
      show (item.modify field _).get? field = some o
      rw [Value.get?_modify, if_pos rfl, hmasked, Option.map_some]
  · exact .inl (if_neg hmasked)

end Item

/-! ### Lists with secrets -/

/-- The lists whose entries have secrets. -/
inductive SecretList
  | upstreams
  | proxies

namespace SecretList

def member : SecretList → String
  | upstreams => "upstreams"
  | proxies => "proxies"

def field : SecretList → String
  | upstreams => "api_key"
  | proxies => "password"

/-- The entry at a position of the list in a document. -/
def entryAt (list : SecretList) (doc : Value) (i : ℕ) : Option Value :=
  ((doc.get? list.member).bind Value.asArray).bind fun items ↦ items[i]?

def maskItem (list : SecretList) (item : Value) : Value := item.modify list.field maskStringField

theorem entryAt_mask (list : SecretList) (doc : Value) (i : ℕ) :
    list.entryAt (maskConfigJson doc) i = (list.entryAt doc i).map list.maskItem := by
  have hget : (maskConfigJson doc).get? list.member =
      (doc.get? list.member).map (·.mapItems list.maskItem) := by
    cases list with
    | upstreams =>
      simp only [maskConfigJson, member, Value.get?_modify]
      rfl
    | proxies =>
      simp only [maskConfigJson, member, Value.get?_modify]
      rfl
  rw [entryAt, hget]
  exact Value.bind_mapItems _ _ i

/-- The secret of an entry: what is masked. -/
def secretOf (list : SecretList) (item : Value) : Option String :=
  ((item.get? list.field).bind Value.asStr).filter fun s ↦ decide (s ≠ "")

theorem secretOf_eq_some_iff {list : SecretList} {item : Value} {s : String} :
    list.secretOf item = some s ↔ item.get? list.field = some (.str s) ∧ s ≠ "" := by
  rw [secretOf, Option.filter_eq_some_iff, Option.bind_eq_some_iff, decide_eq_true_iff]
  refine and_congr_left fun _ ↦ ⟨?_, fun h ↦ ⟨_, h, rfl⟩⟩
  rintro ⟨v, hv, hs⟩
  cases v with
  | str t => rw [hv, Option.some.inj hs]
  | _ => exact nomatch hs

end SecretList

/-- The name of an upstream, when it is a text. -/
def stringName (it : Yaml.Value) : Option String :=
  match it.get "name" with
  | some (.str name) => some name
  | _ => none

namespace ConfigFile

/-- The list has an entry with this name and secret. -/
def HasSecret (c : ConfigFile) : SecretList → String → String → Prop
  | .upstreams, name, s =>
    ∃ it ∈ c.upstreams, stringName it = some name ∧ it.get "api_key" = some (.str s)
  | .proxies, name, s => ∃ p ∈ c.proxies, p.name = name ∧ p.password = some s

/-- The entries of each list have names, which are texts and all different. -/
structure DistinctNames (c : ConfigFile) : Prop where
  named : ∀ it ∈ c.upstreams, (stringName it).isSome
  upstreams : (c.upstreams.map stringName).Nodup
  proxies : (c.proxies.map ProxySeed.name).Nodup

end ConfigFile

/-- No entry with the empty name has a secret, but for one that reads like a mask. -/
def NoBlankSecret (c : ConfigFile) : Prop :=
  ∀ list s, c.HasSecret list "" s → s = "" ∨ s = "***"

theorem get_of_stringName {it : Yaml.Value} {name : String} (h : stringName it = some name) :
    it.get "name" = some (.str name) := by
  rw [stringName] at h
  split at h
  · next s hs => rw [hs, Option.some.inj h]
  · exact nomatch h

/-- What is found by a key that all items have different is the item with that key. -/
theorem find?_of_nodup {α β : Type} {f : α → β} {p : α → Bool} {l : List α}
    (hnodup : (l.map f).Nodup) {a : α} (ha : a ∈ l) (hp : ∀ b ∈ l, p b = true ↔ f b = f a) :
    l.find? p = some a := by
  have hsome : (l.find? p).isSome := by
    rw [List.find?_isSome]
    exact ⟨a, ha, (hp a ha).2 rfl⟩
  obtain ⟨b, hb⟩ := Option.isSome_iff_exists.1 hsome
  have hmem := List.mem_of_find?_eq_some hb
  rw [hb, List.inj_on_of_nodup_map hnodup hmem ha ((hp b hmem).1 (List.find?_some hb))]

theorem ConfigFile.DistinctNames.asStr_iff {c : ConfigFile} (h : c.DistinctNames)
    {it : Yaml.Value} (hit : it ∈ c.upstreams) {name : String} :
    (it.get "name").bind Yaml.Value.asStr = some name ↔ stringName it = some name := by
  obtain ⟨s, hs⟩ := Option.isSome_iff_exists.1 (h.named it hit)
  rw [get_of_stringName hs, hs]
  rfl

theorem isWord_name : Yaml.IsWord "name" := ⟨by decide, by decide, 'n', rfl, by decide⟩

theorem isWord_apiKey : Yaml.IsWord "api_key" := ⟨by decide, by decide, 'a', rfl, by decide⟩

/-! ### The texts outside of the lists -/

theorem sorted_object (l : List (String × Value)) (m : Map) (hm : Value.object l = .obj m) :
    Map.Sorted m := by
  rw [← Value.obj.inj hm]
  exact Map.sorted_ofList l

theorem serverRestored (server : ServerCfg) :
    (server.toValue.modify "admin_jwt_secret" maskStringField).modify "admin_jwt_secret"
      (restoreText server.adminJwtSecret) = server.toValue := by
  refine @Value.modifyAll_eq_self _ (sorted_object _) [("admin_jwt_secret", maskStringField),
    ("admin_jwt_secret", restoreText server.adminJwtSecret)] fun key w hw ↦ ?_
  by_cases hkey : "admin_jwt_secret" = key
  · subst hkey
    have hw' : some (.str server.adminJwtSecret) = some w := by
      rw [← hw]
      rfl
    rw [← Option.some.inj hw']
    exact restoreText_mask _
  · simp [Value.edited, hkey]

theorem adminRestored (admin : AdminCfg) :
    (((admin.toValue.modify "password_hash" maskStringField).modify "initial_password"
      maskStringField).modify "password_hash" (restoreText admin.passwordHash)).modify
        "initial_password" (restoreText admin.initialPassword) = admin.toValue := by
  refine @Value.modifyAll_eq_self _ (sorted_object _) [("password_hash", maskStringField),
    ("initial_password", maskStringField), ("password_hash", restoreText admin.passwordHash),
    ("initial_password", restoreText admin.initialPassword)] fun key w hw ↦ ?_
  by_cases hhash : "password_hash" = key
  · subst hhash
    have hw' : some (.str admin.passwordHash) = some w := by
      rw [← hw]
      rfl
    rw [← Option.some.inj hw']
    exact restoreText_mask _
  · by_cases hinitial : "initial_password" = key
    · subst hinitial
      have hw' : some (.str admin.initialPassword) = some w := by
        rw [← hw]
        rfl
      rw [← Option.some.inj hw']
      exact restoreText_mask _
    · simp [Value.edited, hhash, hinitial]

/-! ### Documents -/

section Documents

variable [Yaml.FloatKeys]

/-- `serde_json::to_value`, which fails for a mapping with a key that no name can be made of. -/
def ConfigFile.toValue (c : ConfigFile) : Option Value := do
  let upstreams ← Yaml.toJsonItems c.upstreams
  let modelRoutes ← Yaml.toJsonItems c.modelRoutes
  let priceRules ← Yaml.toJsonItems c.priceRules
  some (.object [("server", c.server.toValue), ("database", c.database), ("gateway", c.gateway),
    ("admin", c.admin.toValue), ("upstreams", .arr upstreams), ("model_routes", .arr modelRoutes),
    ("price_rules", .arr priceRules), ("fx_rates", c.fxRates), ("fx_auto_fetch", c.fxAutoFetch),
    ("price_import", c.priceImport), ("media_download", c.mediaDownload), ("proxy", c.proxy),
    ("proxies", .arr (c.proxies.map ProxySeed.toValue)), ("update_check", c.updateCheck),
    ("media_poller", c.mediaPoller), ("model_sync", c.modelSync)])

def yamlValueToJson (v : Yaml.Value) : Value := (Yaml.toJson v).getD .null

/-- The key on file of the first upstream with this name. -/
def apiKeyOnFile (old : ConfigFile) (name : String) : Option Value :=
  ((old.upstreams.find? fun it ↦ decide ((it.get "name").bind Yaml.Value.asStr = some name)).bind
    (·.get "api_key")).map yamlValueToJson

/-- The password on file of the first proxy with this name, or none. -/
def passwordOnFile (old : ConfigFile) (name : String) : Option Value :=
  some (.str (((old.proxies.find? fun p ↦ decide (p.name = name)).bind ProxySeed.password).getD ""))

def restoreMaskedFields (value : Value) (old : ConfigFile) : Value :=
  let value := value.modify "server"
    (·.modify "admin_jwt_secret" (restoreText old.server.adminJwtSecret))
  let value := value.modify "admin" (·.modify "password_hash" (restoreText old.admin.passwordHash))
  let value := value.modify "admin"
    (·.modify "initial_password" (restoreText old.admin.initialPassword))
  let value := value.modify "upstreams" (·.mapItems (restoreField "api_key" (apiKeyOnFile old)))
  value.modify "proxies" (·.mapItems (restoreField "password" (passwordOnFile old)))

/-! ### What is promised -/

namespace ConfigFile

/-- The list has an entry with this JSON form. -/
def HasEntry (c : ConfigFile) : SecretList → Value → Prop
  | .upstreams, json => ∃ it ∈ c.upstreams, Yaml.toJson it = some json
  | .proxies, json => ∃ p ∈ c.proxies, p.toValue = json

end ConfigFile

/-- What restoring promises of a configuration with this JSON form. -/
structure Restores (c : ConfigFile) (j : Value) : Prop where
  /-- The document that was masked comes back. -/
  roundTrip : restoreMaskedFields (maskConfigJson j) c = j
  /-- Wherever an entry of the masked document is in another one, it gets its own secret. -/
  own : ∀ (list : SecretList) (doc : Value) (i k : ℕ) (item : Value),
    list.entryAt (maskConfigJson j) i = some item → list.entryAt doc k = some item →
      list.entryAt (restoreMaskedFields doc c) k = list.entryAt j i
  /-- The secret that an entry gets is one of its name. -/
  others : ∀ (list : SecretList) (doc : Value) (i : ℕ) (item item' : Value),
    list.entryAt doc i = some item → list.entryAt (restoreMaskedFields doc c) i = some item' →
      ∀ s, list.secretOf item' = some s → list.secretOf item ≠ some s →
        ∃ name, item.get? "name" = some (.str name) ∧ c.HasSecret list name s

/-! ### Entries on file -/

namespace ConfigFile

variable {c : ConfigFile}

/-- What is on file in place of a mask. -/
def onFile (c : ConfigFile) : SecretList → String → Option Value
  | .upstreams => apiKeyOnFile c
  | .proxies => passwordOnFile c

/-- The secret of an entry is what is on file under its name. -/
theorem DistinctNames.onFile_of_hasSecret (h : c.DistinctNames) {list : SecretList}
    {name s : String} (hsecret : c.HasSecret list name s) :
    c.onFile list name = some (.str s) := by
  cases list with
  | upstreams =>
    obtain ⟨it, hit, hname, hkey⟩ := hsecret
    have hfind : (c.upstreams.find? fun it ↦
        decide ((it.get "name").bind Yaml.Value.asStr = some name)) = some it := by
      refine find?_of_nodup h.upstreams hit fun it' hit' ↦ ?_
      rw [decide_eq_true_iff, h.asStr_iff hit', hname]
    show (((c.upstreams.find? _).bind _).map _ : Option Value) = _
    rw [hfind, Option.bind_some, hkey]
    rfl
  | proxies =>
    obtain ⟨p, hp, hname, hpassword⟩ := hsecret
    have hfind : (c.proxies.find? fun p ↦ decide (p.name = name)) = some p :=
      find?_of_nodup h.proxies hp fun p' _ ↦ by rw [decide_eq_true_iff, hname]
    show some (Value.str (((c.proxies.find? _).bind _).getD "")) = _
    rw [hfind, Option.bind_some, hpassword]
    rfl

/-- A secret on file is that of an entry with the name. -/
theorem DistinctNames.hasSecret_of_onFile (h : c.DistinctNames) {list : SecretList}
    {name s : String} (hfile : c.onFile list name = some (.str s)) (hs : s ≠ "") :
    c.HasSecret list name s := by
  cases list with
  | upstreams =>
    obtain ⟨key, hkey, hjson⟩ := Option.map_eq_some_iff.1 hfile
    obtain ⟨it, hfind, hget⟩ := Option.bind_eq_some_iff.1 hkey
    have hit := List.mem_of_find?_eq_some hfind
    have hname : (it.get "name").bind Yaml.Value.asStr = some name := by
      simpa only [decide_eq_true_iff] using List.find?_some hfind
    refine ⟨it, hit, (h.asStr_iff hit).1 hname, ?_⟩
    rw [yamlValueToJson] at hjson
    cases htext : Yaml.toJson key with
    | none =>
      rw [htext] at hjson
      exact nomatch hjson
    | some v =>
      rw [htext, Option.getD_some] at hjson
      rw [hjson, Yaml.toJson_eq_str_iff] at htext
      rw [hget, htext]
  | proxies =>
    have htext := Value.str.inj (Option.some.inj hfile)
    cases hpassword : (c.proxies.find? fun p ↦ decide (p.name = name)).bind ProxySeed.password with
    | none =>
      rw [hpassword] at htext
      exact absurd htext.symm hs
    | some pw =>
      obtain ⟨p, hfind, hp⟩ := Option.bind_eq_some_iff.1 hpassword
      rw [hpassword, Option.getD_some] at htext
      rw [htext] at hp
      have hname : p.name = name := by
        simpa only [decide_eq_true_iff] using List.find?_some hfind
      exact ⟨p, List.mem_of_find?_eq_some hfind, hname, hp⟩

/-- The secret in the JSON form of an entry is on file under the name there. -/
theorem DistinctNames.hasSecret_of_hasEntry (h : c.DistinctNames) {list : SecretList} {json : Value}
    (hentry : c.HasEntry list json) {s : String}
    (hget : json.get? list.field = some (.str s)) : c.HasSecret list (nameOf json) s := by
  cases list with
  | upstreams =>
    obtain ⟨it, hit, hjson⟩ := hentry
    obtain ⟨name, hname⟩ := Option.isSome_iff_exists.1 (h.named it hit)
    have hkey := Yaml.get?_toJson isWord_apiKey hjson
    have htext := Yaml.get?_toJson isWord_name hjson
    cases htag : it.isTagged with
    | true =>
      rw [htag, if_pos rfl] at hkey
      rw [SecretList.field, hkey] at hget
      cases hget
    | false =>
      rw [htag, if_neg Bool.false_ne_true] at hkey htext
      rw [get_of_stringName hname, Option.bind_some, Yaml.toJson] at htext
      rw [SecretList.field, hkey, Option.bind_eq_some_iff] at hget
      obtain ⟨key, hfound, hkey⟩ := hget
      rw [Yaml.toJson_eq_str_iff] at hkey
      refine ⟨it, hit, ?_, by rw [hfound, hkey]⟩
      rw [hname, nameOf, htext]
      rfl
  | proxies =>
    obtain ⟨p, hp, rfl⟩ := hentry
    have hpassword : p.toValue.get? "password" = some (textOrNull p.password) := by
      simp [ProxySeed.toValue]
    have hname : p.toValue.get? "name" = some (.str p.name) := by simp [ProxySeed.toValue]
    rw [SecretList.field, hpassword] at hget
    refine ⟨p, hp, by rw [nameOf, hname]; rfl, ?_⟩
    cases hpw : p.password with
    | none =>
      rw [hpw] at hget
      cases Option.some.inj hget
    | some pw =>
      rw [hpw] at hget
      rw [Value.str.inj (Option.some.inj hget)]

theorem sorted_of_hasEntry {list : SecretList} {json : Value} (hentry : c.HasEntry list json)
    (m : Map) (hm : json = .obj m) : Map.Sorted m := by
  subst hm
  cases list with
  | upstreams =>
    obtain ⟨it, -, hjson⟩ := hentry
    exact Yaml.sorted_toJson hjson
  | proxies =>
    obtain ⟨p, -, hjson⟩ := hentry
    rw [← Value.obj.inj hjson]
    exact Map.sorted_ofList _

/-- What becomes of an entry of an edited document. -/
def restoreItem (c : ConfigFile) (list : SecretList) (item : Value) : Value :=
  restoreField list.field (c.onFile list) item

/-- An entry that stays gets its own secret. -/
theorem DistinctNames.restoreItem_mask (h : c.DistinctNames) {list : SecretList} {json : Value}
    (hentry : c.HasEntry list json) : c.restoreItem list (list.maskItem json) = json := by
  refine restoreField_mask ?_ (sorted_of_hasEntry hentry) fun s _ hget ↦ ?_
  · cases list <;> decide
  · exact h.onFile_of_hasSecret (h.hasSecret_of_hasEntry hentry hget)

/-- Where no entry without a name can be taken for another, what an entry gets is the secret of an
entry of its name. -/
theorem DistinctNames.hasSecret_of_restoreItem (h : c.DistinctNames) (hblank : NoBlankSecret c)
    {list : SecretList} {item : Value} {s : String}
    (hnew : list.secretOf (c.restoreItem list item) = some s) (hold : list.secretOf item ≠ some s) :
    ∃ name, item.get? "name" = some (.str name) ∧ c.HasSecret list name s := by
  rcases @restoreField_new list.field (c.onFile list) item with hsame | ⟨o, hmask, hfile, hgets⟩
  · rw [restoreItem, hsame] at hnew
    exact absurd hnew hold
  · obtain ⟨hget, hs⟩ := SecretList.secretOf_eq_some_iff.1 hnew
    rw [restoreItem, hgets] at hget
    rw [Option.some.inj hget] at hfile
    have hsecret := h.hasSecret_of_onFile hfile hs
    by_cases hname : ∃ name, item.get? "name" = some (.str name)
    · obtain ⟨name, hname⟩ := hname
      refine ⟨name, hname, ?_⟩
      rwa [nameOf, hname] at hsecret
    · -- an entry without a name has been looked up under the empty one
      have hempty : nameOf item = "" := by
        rw [nameOf]
        cases hget : item.get? "name" with
        | none => rfl
        | some v =>
          cases v with
          | str name => exact absurd ⟨name, hget⟩ hname
          | _ => rfl
      rw [hempty] at hsecret
      rcases hblank list s hsecret with rfl | rfl
      · exact absurd rfl hs
      · exact absurd (SecretList.secretOf_eq_some_iff.2 ⟨hmask, hs⟩) hold

/-! ### The whole document -/

theorem get?_restore (list : SecretList) (doc : Value) :
    (restoreMaskedFields doc c).get? list.member =
      (doc.get? list.member).map (·.mapItems (c.restoreItem list)) := by
  cases list with
  | upstreams =>
    simp only [restoreMaskedFields, SecretList.member, Value.get?_modify]
    rfl
  | proxies =>
    simp only [restoreMaskedFields, SecretList.member, Value.get?_modify]
    rfl

theorem entryAt_restore (list : SecretList) (doc : Value) (i : ℕ) :
    list.entryAt (restoreMaskedFields doc c) i =
      (list.entryAt doc i).map (c.restoreItem list) := by
  rw [SecretList.entryAt, get?_restore]
  exact Value.bind_mapItems _ _ i

/-- The entries of the document are those on file. -/
theorem hasEntry_of_entryAt {j : Value} (hj : c.toValue = some j) {list : SecretList} {i : ℕ}
    {json : Value} (h : list.entryAt j i = some json) : c.HasEntry list json := by
  simp only [toValue, Option.bind_eq_bind, Option.bind_eq_some_iff, Option.some.injEq] at hj
  obtain ⟨upstreams, hupstreams, modelRoutes, -, priceRules, -, rfl⟩ := hj
  cases list with
  | upstreams =>
    rw [SecretList.entryAt, Value.get?_object] at h
    exact Yaml.exists_of_toJsonItems hupstreams json (List.mem_of_getElem? h)
  | proxies =>
    rw [SecretList.entryAt, Value.get?_object] at h
    exact List.mem_map.1 (List.mem_of_getElem? h)

/-- The entries of a list come back. -/
theorem DistinctNames.listRestored (h : c.DistinctNames) {list : SecretList} {items : List Value}
    (hitems : ∀ item ∈ items, c.HasEntry list item) :
    ((Value.arr items).mapItems list.maskItem).mapItems (c.restoreItem list) = .arr items := by
  refine congrArg Value.arr ?_
  rw [List.map_map]
  refine (List.map_congr_left fun item hitem ↦ ?_).trans (List.map_id items)
  exact h.restoreItem_mask (hitems item hitem)

/-- Masking and restoring gives back the document. -/
theorem DistinctNames.restore_mask (h : c.DistinctNames) {j : Value} (hj : c.toValue = some j) :
    restoreMaskedFields (maskConfigJson j) c = j := by
  simp only [toValue, Option.bind_eq_bind, Option.bind_eq_some_iff, Option.some.injEq] at hj
  obtain ⟨upstreams, hupstreams, modelRoutes, -, priceRules, -, rfl⟩ := hj
  refine @Value.modifyAll_eq_self _ (sorted_object _) [
    ("server", (·.modify "admin_jwt_secret" maskStringField)),
    ("admin", fun admin ↦
      (admin.modify "password_hash" maskStringField).modify "initial_password" maskStringField),
    ("upstreams", (·.mapItems (SecretList.upstreams.maskItem ·))),
    ("proxies", (·.mapItems (SecretList.proxies.maskItem ·))),
    ("server", (·.modify "admin_jwt_secret" (restoreText c.server.adminJwtSecret))),
    ("admin", (·.modify "password_hash" (restoreText c.admin.passwordHash))),
    ("admin", (·.modify "initial_password" (restoreText c.admin.initialPassword))),
    ("upstreams", (·.mapItems (c.restoreItem .upstreams))),
    ("proxies", (·.mapItems (c.restoreItem .proxies)))] fun key w hw ↦ ?_
  rw [Value.get?_object] at hw
  by_cases hserver : "server" = key
  · subst hserver
    obtain rfl := Option.some.inj hw
    exact serverRestored c.server
  by_cases hadmin : "admin" = key
  · subst hadmin
    obtain rfl := Option.some.inj hw
    exact adminRestored c.admin
  by_cases hups : "upstreams" = key
  · subst hups
    obtain rfl := Option.some.inj hw
    exact h.listRestored (Yaml.exists_of_toJsonItems hupstreams)
  by_cases hproxies : "proxies" = key
  · subst hproxies
    obtain rfl := Option.some.inj hw
    exact h.listRestored fun item hitem ↦ List.mem_map.1 hitem
  simp [Value.edited, hserver, hadmin, hups, hproxies]

end ConfigFile

/-! ### The promise -/

open ConfigFile

/-- A masked entry with a number for its name. -/
def numbered (list : SecretList) : Value :=
  .object [("name", .int 7), (list.field, .str "***")]

theorem secretOf_restore_numbered {c : ConfigFile} (h : c.DistinctNames) {list : SecretList}
    {s : String} (hsecret : c.HasSecret list "" s) (hs : s ≠ "") :
    list.secretOf (c.restoreItem list (numbered list)) = some s := by
  have hfile := h.onFile_of_hasSecret hsecret
  have hname : nameOf (numbered list) = "" := by
    cases list <;> rfl
  have hget : (numbered list).get? list.field = some (.str "***") := by
    cases list <;> rfl
  have hmasked : isMasked list.field (numbered list) = true := isMasked_iff.2 hget
  have hitem : c.restoreItem list (numbered list) =
      (numbered list).modify list.field fun _ ↦ .str s := by
    rw [restoreItem, restoreField, if_pos hmasked, hname, hfile]
  rw [SecretList.secretOf_eq_some_iff, hitem, Value.get?_modify, if_pos rfl, hget]
  exact ⟨rfl, hs⟩

/-- The promise is kept exactly when no entry with the empty name has a secret. -/
theorem restores_iff {c : ConfigFile} {j : Value} (hj : c.toValue = some j) (h : c.DistinctNames) :
    Restores c j ↔ NoBlankSecret c := by
  constructor
  · intro hrestores list s hsecret
    by_contra hs
    obtain ⟨hempty, hmask⟩ := not_or.1 hs
    have hitem : list.entryAt (.object [(list.member, .arr [numbered list])]) 0 =
        some (numbered list) := by
      cases list <;> rfl
    have hnew := secretOf_restore_numbered h hsecret hempty
    have hold : list.secretOf (numbered list) = some "***" := by
      cases list <;> rfl
    obtain ⟨name, hname, -⟩ := hrestores.others list _ 0 _ _ hitem
      (by rw [entryAt_restore, hitem, Option.map_some]) s hnew
      (by rw [hold]; exact fun heq ↦ hmask (Option.some.inj heq).symm)
    cases list <;> exact nomatch hname
  · intro hblank
    refine ⟨h.restore_mask hj, fun list doc i k item hmask hitem ↦ ?_,
      fun list doc i item item' hitem hitem' s hnew hold ↦ ?_⟩
    · rw [SecretList.entryAt_mask, Option.map_eq_some_iff] at hmask
      obtain ⟨json, hjson, rfl⟩ := hmask
      rw [entryAt_restore, hitem, Option.map_some, hjson,
        h.restoreItem_mask (hasEntry_of_entryAt hj hjson)]
    · rw [entryAt_restore, hitem, Option.map_some] at hitem'
      obtain rfl := Option.some.inj hitem'
      exact h.hasSecret_of_restoreItem hblank hnew hold

end Documents

/-! ### Two files -/

local instance decimalKeys : Yaml.FloatKeys where
  text x := String.ofList (Compact.printFloat x)
  numeral x := by
    obtain ⟨c, rest, hprint, hc⟩ := Compact.printFloat_head x
    intro d hd
    rw [String.toList_ofList, hprint] at hd
    rwa [← Option.some.inj hd]

/-- An upstream and a proxy with their names. -/
def namedFile : ConfigFile where
  upstreams := [.mapping [(.str "name", .str "u1"), (.str "api_key", .str "sk-a")]]
  proxies := [{ name := "p1", password := some "pw" }]

theorem distinctNames_namedFile : namedFile.DistinctNames where
  named := by
    intro it hit
    obtain rfl := List.mem_singleton.1 hit
    rfl
  upstreams := List.nodup_singleton _
  proxies := List.nodup_singleton _

theorem noBlankSecret_namedFile : NoBlankSecret namedFile := by
  rintro (_ | _) s ⟨entry, hentry, hname, -⟩
  · obtain rfl := List.mem_singleton.1 hentry
    exact absurd hname (by decide)
  · obtain rfl := List.mem_singleton.1 hentry
    exact absurd hname (by decide)

theorem restores_namedFile : ∃ j, namedFile.toValue = some j ∧ Restores namedFile j :=
  ⟨_, rfl, (restores_iff rfl distinctNames_namedFile).2 noBlankSecret_namedFile⟩

/-- One upstream, whose name is empty. -/
def unnamedFile : ConfigFile where
  upstreams := [.mapping [(.str "name", .str ""), (.str "api_key", .str "sk-a")]]

theorem distinctNames_unnamedFile : unnamedFile.DistinctNames where
  named := by
    intro it hit
    obtain rfl := List.mem_singleton.1 hit
    rfl
  upstreams := List.nodup_singleton _
  proxies := List.nodup_nil

/-- An entry whose name is a number gets the secret of the upstream with the empty name. -/
theorem not_restores_unnamedFile : unnamedFile.DistinctNames ∧
    ∃ j, unnamedFile.toValue = some j ∧ ¬ Restores unnamedFile j := by
  refine ⟨distinctNames_unnamedFile, _, rfl, fun hrestores ↦ ?_⟩
  have hrestored : SecretList.upstreams.entryAt (restoreMaskedFields
      (.object [("upstreams", .arr [.object [("name", .int 7), ("api_key", .str "***")]])])
      unnamedFile) 0 = some (.object [("name", .int 7), ("api_key", .str "sk-a")]) := by
    decide +kernel
  obtain ⟨name, hname, -⟩ := hrestores.others .upstreams
    (.object [("upstreams", .arr [.object [("name", .int 7), ("api_key", .str "***")]])]) 0 _ _ rfl
    hrestored "sk-a" rfl (by decide)
  exact nomatch hname

end NextApi.Admin.SettingsApi
