import Mathlib.Data.List.Sort
import Mathlib.Logic.Function.Basic
import NextApi.Json.Value

/-!
# The hot configuration

The parameters that change while the gateway runs are the fields of eight sections. Their keys are
the dotted paths of the fields, and every field is a number, a flag, a text or a list of texts, so
that its JSON form is what was read. A configuration gives every key a value that fits the field.

`apply_overrides` writes a value at the path of a key and reads the whole again. It is only used
with keys of the configuration, where it fails exactly when the value does not fit the field.
-/

set_option autoImplicit false

namespace NextApi.Settings

open Json

/-! ### Fields -/

inductive FieldType
  | bool
  | u32
  | u64
  | usize
  | string
  | strings
  deriving DecidableEq

/-- A number below the bound. -/
def isBelow (bound : ℕ) (v : Value) : Bool := v.asU64.any fun n ↦ decide (n < bound)

/-- The values that the derived reader of a field takes. -/
def FieldType.fits : FieldType → Value → Bool
  | .bool, v => v.asBool.isSome
  | .u32, v => isBelow (2 ^ 32) v
  | .u64, v => isBelow (2 ^ 64) v
  | .usize, v => isBelow (2 ^ 64) v
  | .string, v => v.isString
  | .strings, v => v.asArray.any fun items ↦ items.all Value.isString

/-- A value that fits: a zero, an empty text or list, or a flag that is off. -/
def FieldType.blank : FieldType → Value
  | .bool => .bool false
  | .u32 | .u64 | .usize => .int 0
  | .string => .str ""
  | .strings => .arr []

theorem FieldType.fits_blank (type : FieldType) : type.fits type.blank = true := by
  cases type <;> rfl

/-- `GatewayCfg`. -/
def gatewayCfg : List (String × FieldType) :=
  [("default_rate_limit_rpm", .u32), ("default_timeout_secs", .u64), ("stream_timeout_secs", .u64),
    ("billing_timezone", .string), ("display_currency", .string), ("display_precision", .u32),
    ("fx_stale_max_minutes", .u64), ("log_async", .bool), ("log_queue_capacity", .usize),
    ("log_wal_dir", .string), ("log_wal_file_max_mb", .u64), ("log_wal_archive_tail_mb", .u64),
    ("log_partition_days", .u32), ("log_detail_retention_days", .u32),
    ("log_aggregate_retention_days", .u32), ("log_debug_ttl_minutes", .u64),
    ("admin_login_rate_limit_per_min", .u32), ("admin_login_expire_minutes", .u64),
    ("anthropic_default_max_tokens", .u64), ("batch_insert_interval_ms", .u64),
    ("quota_check_cache_secs", .u64), ("quota_exceed_action", .string), ("sticky_routing", .bool),
    ("auto_disable_upstreams", .bool), ("max_body_mb", .u64), ("argon2_memory_kib", .u32)]

/-- `FxAutoFetchCfg`. -/
def fxAutoFetchCfg : List (String × FieldType) :=
  [("enabled", .bool), ("provider", .string), ("base", .string), ("symbols", .strings),
    ("refresh_interval_minutes", .u64), ("cache_ttl_minutes", .u64), ("timeout_secs", .u64),
    ("use_proxy", .bool), ("proxy_id", .string)]

/-- `PriceImportCfg`. -/
def priceImportCfg : List (String × FieldType) :=
  [("allow_url", .bool), ("max_size_mb", .u64), ("timeout_secs", .u64), ("use_proxy", .bool),
    ("proxy_id", .string)]

/-- `MediaDownloadCfg`. -/
def mediaDownloadCfg : List (String × FieldType) :=
  [("enabled", .bool), ("max_size_mb", .u64), ("timeout_secs", .u64), ("use_proxy", .bool),
    ("proxy_id", .string)]

/-- `ProxyCfg`. -/
def proxyCfg : List (String × FieldType) :=
  [("default_proxy_id", .string), ("no_proxy", .strings), ("probe_url", .string)]

/-- `UpdateCheckCfg`. -/
def updateCheckCfg : List (String × FieldType) :=
  [("enabled", .bool), ("repo", .string), ("interval_hours", .u64), ("use_proxy", .bool),
    ("proxy_id", .string)]

/-- `MediaPollerCfg`. -/
def mediaPollerCfg : List (String × FieldType) := [("interval_secs", .u64), ("max_age_hours", .u64)]

/-- `ModelSyncCfg`. -/
def modelSyncCfg : List (String × FieldType) := [("enabled", .bool), ("interval_minutes", .u64)]

/-- The sections of the hot configuration. -/
def hotSections : List (String × List (String × FieldType)) :=
  [("gateway", gatewayCfg), ("fx_auto_fetch", fxAutoFetchCfg), ("price_import", priceImportCfg),
    ("media_download", mediaDownloadCfg), ("proxy", proxyCfg), ("update_check", updateCheckCfg),
    ("media_poller", mediaPollerCfg), ("model_sync", modelSyncCfg)]

/-- The fields of all sections by their keys. -/
def hotFields : List (String × FieldType) :=
  hotSections.flatMap fun s ↦ s.2.map fun field ↦ (s.1 ++ "." ++ field.1, field.2)

def fieldType? (key : String) : Option FieldType := hotFields.lookup key

/-! ### Configurations -/

/-- The keys of the hot configuration. -/
@[ext]
structure HotKey where
  name : String
  isHot : (fieldType? name).isSome = true
  deriving DecidableEq

namespace HotKey

def ofString? (name : String) : Option HotKey :=
  if h : (fieldType? name).isSome = true then some ⟨name, h⟩ else none

def fieldType (key : HotKey) : FieldType := (fieldType? key.name).get key.isHot

/-- A value can be put at the key. -/
def fits (key : HotKey) (v : Value) : Bool := key.fieldType.fits v

@[simp] theorem ofString?_name (key : HotKey) : ofString? key.name = some key := by
  rw [ofString?, dif_pos key.isHot]

theorem ofString?_eq_some {name : String} {key : HotKey} :
    ofString? name = some key ↔ key.name = name := by
  constructor
  · intro h
    rw [ofString?] at h
    split at h
    · rw [← Option.some.inj h]
    · exact absurd h (by simp)
  · rintro rfl
    exact ofString?_name key

end HotKey

/-- A value for every key, which fits its field. -/
structure HotConfig where
  value : HotKey → Value
  fits : ∀ key : HotKey, key.fits (value key) = true

namespace HotConfig

@[ext] theorem ext {c d : HotConfig} (h : ∀ key, c.value key = d.value key) : c = d := by
  obtain ⟨v, hv⟩ := c
  obtain ⟨w, hw⟩ := d
  obtain rfl : v = w := funext h
  rfl

/-- Writes a value that fits. -/
def set (base : HotConfig) (key : HotKey) (v : Value) (h : key.fits v = true) : HotConfig where
  value := Function.update base.value key v
  fits other := by
    by_cases heq : other = key
    · subst heq
      rw [Function.update_self]
      exact h
    · rw [Function.update_of_ne heq]
      exact base.fits other

/-- `apply_overrides` with one key, which is one of the configuration. -/
def applyOverride (base : HotConfig) (key : HotKey) (v : Value) : Option HotConfig :=
  if h : key.fits v = true then some (base.set key v h) else none

/-- `hot_flat`, sorted by the keys. -/
def hotFlat (c : HotConfig) : List (String × Value) :=
  (hotFields.filterMap fun field ↦ (HotKey.ofString? field.1).map fun key ↦ (key.name, c.value key))
    |>.insertionSort fun first second ↦ first.1 ≤ second.1

end HotConfig

end NextApi.Settings
