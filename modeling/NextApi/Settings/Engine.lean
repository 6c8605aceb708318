import NextApi.Admin.Routes
import NextApi.Admin.UpdateUpstream
import NextApi.Json.Codec
import NextApi.Settings.Hot
import NextApi.Stream.Grouping
import NextApi.Stream.Session

/-!
# The settings engine

A setting is a row with a key, a value and a source: the configuration file, or the user interface.
What is in use is the configuration of the file with the values of the user interface written over
it (`mergeEffective`), where a value that does not fit its field is skipped. No two rows have the
same key, so the order in which they are read does not matter (`value_mergeEffective`).

Settings of the start-up are kept in the same table, but take effect with the next start only.
-/

set_option autoImplicit false

namespace NextApi.Settings

open Json
open Admin.Upstreams (Cipher)

/-! ### Files -/

/-- What the settings are made from of a configuration file. -/
structure ConfigFile where
  hot : HotConfig
  listen : String := ""
  databaseUrl : String := ""
  adminJwtSecret : String := ""
  maxConnections : UInt32 := 16

def restartRequiredKeys : List String :=
  ["server.listen", "database.url", "server.admin_jwt_secret", "database.max_connections"]

def startupYamlValue (cfg : ConfigFile) (key : String) : Option String :=
  match key with
  | "server.listen" => some cfg.listen
  | "database.url" => some cfg.databaseUrl
  | "server.admin_jwt_secret" => some cfg.adminJwtSecret
  | "database.max_connections" => some (toString cfg.maxConnections)
  | _ => none

/-! ### Rows -/

inductive Source
  | file
  | ui
  | env
  deriving DecidableEq

structure SettingRow where
  value : Value
  source : Source
  secret : Bool := false
  restartRequired : Bool := false
  deriving DecidableEq

abbrev SettingsTable := Table String SettingRow

namespace SettingsTable

/-- The value of a row that the user interface wrote. -/
def uiValue? (t : SettingsTable) (key : String) : Option Value :=
  ((t.lookup key).filter fun row ↦ decide (row.source = .ui)).map SettingRow.value

/-- `SELECT key, value … WHERE source = 'ui'`. -/
def uiRows (t : SettingsTable) : List (String × Value) :=
  (t.toList.filter fun entry ↦ decide (entry.2.source = .ui)).map fun entry ↦
    (entry.1, entry.2.value)

/-- `INSERT … ON CONFLICT (key) DO NOTHING`. -/
def insertMissing (t : SettingsTable) (key : String) (row : SettingRow) : SettingsTable :=
  if (t.lookup key).isSome then t else t.insert key row

/-- `UPDATE … WHERE key = … AND source = 'file'`, if it affects a row. -/
def updateFile? (t : SettingsTable) (key : String) (v : Value) : Option SettingsTable :=
  ((t.lookup key).filter fun row ↦ decide (row.source = .file)).map fun row ↦
    t.insert key { row with value := v }

theorem uiValue?_eq_some {t : SettingsTable} {key : String} {v : Value} :
    t.uiValue? key = some v ↔ ∃ row, t.lookup key = some row ∧ row.source = .ui ∧ row.value = v := by
  simp only [uiValue?, Option.map_eq_some_iff, Option.filter_eq_some_iff, decide_eq_true_eq,
    and_assoc]

theorem mem_uiRows {t : SettingsTable} {key : String} {v : Value} :
    (key, v) ∈ t.uiRows ↔ t.uiValue? key = some v := by
  rw [uiRows, List.mem_map, uiValue?_eq_some]
  constructor
  · rintro ⟨⟨k, row⟩, hmem, heq⟩
    obtain ⟨rfl, rfl⟩ := Prod.mk.inj heq
    obtain ⟨hmem, hsource⟩ := List.mem_filter.1 hmem
    exact ⟨row, Table.mem_toList.1 hmem, of_decide_eq_true hsource, rfl⟩
  · rintro ⟨row, hlookup, hsource, rfl⟩
    exact ⟨(key, row), List.mem_filter.2 ⟨Table.mem_toList.2 hlookup, decide_eq_true hsource⟩, rfl⟩

theorem nodup_keys_uiRows (t : SettingsTable) : (t.uiRows.map Prod.fst).Nodup := by
  rw [uiRows, List.map_map]
  exact (List.filter_sublist.map Prod.fst).nodup (Table.nodup_keys_toList t)

theorem uiValue?_insert (t : SettingsTable) (key : String) (row : SettingRow) (other : String) :
    uiValue? (t.insert key row) other =
      if key = other then (if row.source = .ui then some row.value else none)
      else t.uiValue? other := by
  rw [uiValue?, Table.lookup_insert]
  by_cases hkey : key = other
  · rw [if_pos hkey, if_pos hkey, Option.filter_some]
    by_cases hsource : row.source = .ui
    · rw [if_pos hsource, if_pos (decide_eq_true hsource), Option.map_some]
    · rw [if_neg hsource, if_neg (by simpa using hsource), Option.map_none]
  · rw [if_neg hkey, if_neg hkey, uiValue?]

/-- A row of the file in the place of none, or of one of the file, is none of the user
interface. -/
theorem uiValue?_insert_file {t : SettingsTable} {key : String} {row : SettingRow}
    (hrow : row.source = .file) (hold : t.uiValue? key = none) (other : String) :
    uiValue? (t.insert key row) other = t.uiValue? other := by
  rw [uiValue?_insert, hrow, if_neg (show Source.file ≠ .ui by decide)]
  split
  · next hkey => rw [← hkey, hold]
  · rfl

theorem uiValue?_insertMissing (t : SettingsTable) {key : String} {row : SettingRow}
    (hrow : row.source = .file) (other : String) :
    uiValue? (t.insertMissing key row) other = t.uiValue? other := by
  rw [insertMissing]
  split
  · rfl
  · next hnone =>
    refine uiValue?_insert_file hrow ?_ other
    rw [uiValue?, Option.not_isSome_iff_eq_none.1 hnone]
    rfl

theorem uiValue?_updateFile {t t' : SettingsTable} {key : String} {v : Value}
    (h : t.updateFile? key v = some t') (other : String) : t'.uiValue? other = t.uiValue? other := by
  obtain ⟨row, hrow, rfl⟩ := Option.map_eq_some_iff.1 h
  obtain ⟨hlookup, hsource⟩ := Option.filter_eq_some_iff.1 hrow
  have hfile : row.source = .file := of_decide_eq_true hsource
  have hupdated : ({ row with value := v } : SettingRow).source = .file := hfile
  refine uiValue?_insert_file hupdated ?_ other
  rw [uiValue?, hlookup, Option.filter_some, hfile]
  rfl

end SettingsTable

/-! ### What is in use -/

/-- Writes a row of the user interface over a configuration, unless its key is no hot one or its
value does not fit. -/
def overrideRow (merged : HotConfig) (row : String × Value) : HotConfig :=
  match HotKey.ofString? row.1 with
  | none => merged
  | some key => (merged.applyOverride key row.2).getD merged

/-- `merge_effective`, on the rows that it reads. -/
def mergeEffective (yaml : HotConfig) (rows : List (String × Value)) : HotConfig :=
  rows.foldl overrideRow yaml

theorem value_applyOverride (base : HotConfig) (key : HotKey) (v : Value) (other : HotKey) :
    ((base.applyOverride key v).getD base).value other =
      if key = other ∧ key.fits v = true then v else base.value other := by
  rw [HotConfig.applyOverride]
  split
  · next hfits =>
    rw [Option.getD_some, HotConfig.set]
    by_cases hkey : key = other
    · rw [if_pos ⟨hkey, hfits⟩, ← hkey]
      exact Function.update_self key v base.value
    · rw [if_neg fun h ↦ hkey h.1]
      exact Function.update_of_ne (Ne.symm hkey) v base.value
  · next hfits => rw [Option.getD_none, if_neg fun h ↦ hfits h.2]

theorem value_overrideRow (merged : HotConfig) (row : String × Value) (key : HotKey) :
    (overrideRow merged row).value key =
      if row.1 = key.name ∧ key.fits row.2 = true then row.2 else merged.value key := by
  rw [overrideRow]
  cases hrow : HotKey.ofString? row.1 with
  | none =>
    refine (if_neg ?_).symm
    rintro ⟨hname, -⟩
    rw [HotKey.ofString?_eq_some.2 hname.symm] at hrow
    exact absurd hrow (by simp)
  | some k =>
    have hk := HotKey.ofString?_eq_some.1 hrow
    dsimp only
    rw [value_applyOverride, ← hk]
    by_cases hkey : k = key
    · subst hkey
      simp
    · have hname : k.name ≠ key.name := fun h ↦ hkey (HotKey.ext h)
      rw [if_neg fun h ↦ hkey h.1, if_neg fun h ↦ hname h.1]

/-- A value in use is the one of the row with its key, if that fits, and else the one of the
file. -/
theorem value_foldl_overrideRow (yaml : HotConfig) {rows : List (String × Value)}
    (hnodup : (rows.map Prod.fst).Nodup) (key : HotKey) :
    (mergeEffective yaml rows).value key =
      (((rows.find? fun row ↦ decide (row.1 = key.name)).map Prod.snd).filter key.fits).getD
        (yaml.value key) := by
  induction rows generalizing yaml with
  | nil => rfl
  | cons row rest ih =>
    rw [List.map_cons, List.nodup_cons] at hnodup
    rw [mergeEffective, List.foldl_cons, ← mergeEffective, ih _ hnodup.2, value_overrideRow]
    by_cases hname : row.1 = key.name
    · have hrest : rest.find? (fun r ↦ decide (r.1 = key.name)) = none := by
        rw [List.find?_eq_none]
        intro r hr hkey
        refine hnodup.1 ?_
        rw [hname, ← of_decide_eq_true hkey]
        exact List.mem_map_of_mem hr
      have hfirst : (row :: rest).find? (fun r ↦ decide (r.1 = key.name)) = some row :=
        List.find?_cons_of_pos (decide_eq_true hname)
      rw [hrest, hfirst, Option.map_some, Option.filter_some]
      by_cases hfits : key.fits row.2 = true
      · rw [if_pos ⟨hname, hfits⟩, if_pos hfits]
        rfl
      · rw [if_neg fun h ↦ hfits h.2, if_neg hfits]
        rfl
    · rw [if_neg fun h ↦ hname h.1, List.find?_cons_of_neg (by simpa using hname)]

namespace SettingsTable

theorem find?_uiRows {t : SettingsTable} {rows : List (String × Value)}
    (hrows : rows.Perm t.uiRows) (key : String) :
    (rows.find? fun row ↦ decide (row.1 = key)).map Prod.snd = t.uiValue? key := by
  cases hfind : rows.find? fun row ↦ decide (row.1 = key) with
  | none =>
    rw [List.find?_eq_none] at hfind
    cases hvalue : t.uiValue? key with
    | none => rfl
    | some v =>
      exact absurd (decide_eq_true rfl) (hfind (key, v) (hrows.mem_iff.2 (mem_uiRows.2 hvalue)))
  | some row =>
    obtain ⟨name, v⟩ := row
    have hname := List.find?_some hfind
    obtain rfl : name = key := of_decide_eq_true hname
    exact (mem_uiRows.1 (hrows.mem_iff.1 (List.mem_of_find?_eq_some hfind))).symm

end SettingsTable

/-- What is in use does not depend on the order of the rows. -/
theorem value_mergeEffective (yaml : HotConfig) {t : SettingsTable} {rows : List (String × Value)}
    (hrows : rows.Perm t.uiRows) (key : HotKey) :
    (mergeEffective yaml rows).value key =
      ((t.uiValue? key.name).filter key.fits).getD (yaml.value key) := by
  have hnodup : (rows.map Prod.fst).Nodup :=
    (hrows.map Prod.fst).nodup_iff.2 (SettingsTable.nodup_keys_uiRows t)
  rw [value_foldl_overrideRow yaml hnodup, SettingsTable.find?_uiRows hrows]

/-! ### Secrets -/

def keyIsSecret (key : String) : Bool := decide (key = "server.admin_jwt_secret")

def keyIsRestart (key : String) : Bool := restartRequiredKeys.contains key

/-- `seal_secret_value`: a secret is encrypted, if that can be done. -/
def sealSecretValue (cipher : Cipher) (key v : String) : String :=
  if keyIsSecret key && !v.isEmpty then
    match cipher.encrypt v with
    | .ok enc => "enc1:" ++ enc
    | .error _ => v
  else v

/-! ### Starting up -/

/-- The row of a setting of the start-up. -/
def startupRow (cipher : Cipher) (cfg : ConfigFile) (key : String) : SettingRow where
  value := .str (sealSecretValue cipher key ((startupYamlValue cfg key).getD ""))
  source := .file
  secret := keyIsSecret key
  restartRequired := true

/-- The rows of a file. -/
def fileRows (cipher : Cipher) (cfg : ConfigFile) : List (String × SettingRow) :=
  (cfg.hot.hotFlat.map fun entry ↦ (entry.1, { value := entry.2, source := .file })) ++
    restartRequiredKeys.map fun key ↦ (key, startupRow cipher cfg key)

/-- The table after `init` has inserted what is missing. -/
def initTable (cipher : Cipher) (cfg : ConfigFile) (t : SettingsTable) : SettingsTable :=
  (fileRows cipher cfg).foldl (fun t entry ↦ t.insertMissing entry.1 entry.2) t

theorem source_fileRows {cipher : Cipher} {cfg : ConfigFile} {entry : String × SettingRow}
    (h : entry ∈ fileRows cipher cfg) : entry.2.source = .file := by
  rcases List.mem_append.1 h with h | h
  · obtain ⟨_, -, rfl⟩ := List.mem_map.1 h
    rfl
  · obtain ⟨_, -, rfl⟩ := List.mem_map.1 h
    rfl

theorem uiValue?_foldl_insertMissing {entries : List (String × SettingRow)}
    (h : ∀ entry ∈ entries, entry.2.source = .file) (t : SettingsTable) (key : String) :
    SettingsTable.uiValue? (entries.foldl (fun t entry ↦ t.insertMissing entry.1 entry.2) t) key =
      t.uiValue? key := by
  induction entries generalizing t with
  | nil => rfl
  | cons entry rest ih =>
    rw [List.forall_mem_cons] at h
    rw [List.foldl_cons, ih h.2, SettingsTable.uiValue?_insertMissing t h.1]

/-- A start-up leaves the values of the user interface alone. -/
theorem uiValue?_initTable (cipher : Cipher) (cfg : ConfigFile) (t : SettingsTable) (key : String) :
    (initTable cipher cfg t).uiValue? key = t.uiValue? key :=
  uiValue?_foldl_insertMissing (fun _ h ↦ source_fileRows h) t key

/-! ### Saving -/

/-- `parse::<u32>`. -/
def parseU32 (s : String) : Option ℕ :=
  let digits := match s.toList with
    | '+' :: rest => rest
    | chars => chars
  if digits.isEmpty || !digits.all Char.isDigit then none
  else
    let n := digits.foldl (fun n digit ↦ 10 * n + (digit.toNat - 48)) 0
    if n < 2 ^ 32 then some n else none

/-- The settings of the start-up that are numbers, with their bounds. -/
def numericStartupKeys : List (String × ℕ × ℕ) := [("database.max_connections", 1, 256)]

/-- The text that is stored for a setting of the start-up. -/
def normalizeStartupValue [SerdeJson] (key : String) (v : Value) : Except String String :=
  match numericStartupKeys.lookup key with
  | none =>
    match v with
    | .str s => .ok s
    | _ => .error s!"启动类配置键 {key} 的值必须是字符串"
  | some (least, most) => do
    let raw ← match v with
      | .str s => .ok s
      | .int i => .ok (SerdeJson.toText (.int i))
      | .float x => .ok (SerdeJson.toText (.float x))
      | _ => .error s!"启动类配置键 {key} 的值必须是整数或数字字符串"
    match parseU32 (Admin.trim raw) with
    | none => .error s!"{key} 必须是整数（{least}–{most}）"
    | some n =>
      if n < least ∨ most < n then .error s!"{key} 超出范围（{least}–{most}）" else .ok raw

/-- The masked value, which stands for the one that is there. -/
def isMaskSentinel (v : Value) : Bool := decide (v = .str "***")

def isWritableKey (key : String) : Bool :=
  if key = "database.url" then false
  else (HotKey.ofString? key).isSome || restartRequiredKeys.contains key

/-- A setting that has passed the checks. -/
structure ValidatedSetting where
  key : String
  value : Value
  secret : Bool
  restartRequired : Bool
  deriving DecidableEq

section Saving

variable [SerdeJson] (cipher : Cipher)

/-- The value of a setting as it is stored, before it is sealed. -/
def checkValue (key : String) (v : Value) : Except ApiError Value :=
  if keyIsRestart key then
    ((normalizeStartupValue key v).mapError ApiError.badRequest).map Value.str
  else if (HotKey.ofString? key).any fun k ↦ k.fits v then .ok v
  else .error (.badRequest
    s!"配置值类型不匹配: {key}: 配置值类型不匹配: {key} = {SerdeJson.toText v}")

/-- The checks of one setting. -/
def validateSetting (key : String) (v : Value) : Except ApiError ValidatedSetting :=
  if !isWritableKey key then .error (.badRequest s!"配置键不存在或不可写: {key}")
  else
    (checkValue key v).bind fun value ↦
      if keyIsSecret key && decide (value.strOrEmpty ≠ "") && !cipher.available then
        .error (.badRequest
          s!"保存 {key} 需要先配置环境变量 NEXTAPI_SECRET_KEY（敏感字段落库前强制加密）")
      else
        .ok { key, value, secret := keyIsSecret key, restartRequired := keyIsRestart key }

/-- The settings that are saved: all but the masked ones, when all of them pass the checks. -/
def validateUpdates (updates : List (String × Value)) : Except ApiError (List ValidatedSetting) :=
  (updates.filter fun entry ↦ !isMaskSentinel entry.2).mapM fun entry ↦
    validateSetting cipher entry.1 entry.2

omit [SerdeJson] in
/-- The value that a setting is stored with. -/
def ValidatedSetting.stored (setting : ValidatedSetting) : Value :=
  match setting.value with
  | .str s => .str (sealSecretValue cipher setting.key s)
  | other => other

/-- The row that a setting is stored as. -/
def ValidatedSetting.row (setting : ValidatedSetting) : SettingRow where
  value := setting.stored cipher
  source := .ui
  secret := setting.secret
  restartRequired := setting.restartRequired

/-- `INSERT … ON CONFLICT (key) DO UPDATE`. -/
def SettingsTable.save (t : SettingsTable) (setting : ValidatedSetting) : SettingsTable :=
  t.insert setting.key (setting.row cipher)

omit [SerdeJson] in
theorem uiValue?_save (t : SettingsTable) (setting : ValidatedSetting) (key : String) :
    (t.save cipher setting).uiValue? key =
      if setting.key = key then some (setting.stored cipher) else t.uiValue? key := by
  rw [SettingsTable.save, SettingsTable.uiValue?_insert]
  rfl

/-- `put`: what is in use after the settings are saved. -/
def put (yaml : HotConfig) (updates : List (String × Value)) :
    Sql.Request SettingsTable ApiError HotConfig := do
  let validated ← Sql.Request.ofExcept (validateUpdates cipher updates)
  validated.forM fun setting ↦ Sql.Request.execute fun t ↦ .ok (t.save cipher setting)
  let rows ← Sql.Request.select SettingsTable.uiRows
  return mergeEffective yaml rows

end Saving

end NextApi.Settings
