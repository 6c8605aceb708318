import Mathlib.Data.Rat.Init
import NextApi.Json.Value

/-!
# Log events

A `LogEvent` is the accounting record of one request. It is stored as a row of `usage_logs` and,
when the database refuses it, as a line of the write-ahead log.

Its JSON form is the derived one: an object with a member for every field, an absent option being
`null`. Reading wants every field that is not an option; an option that is missing, or `null`, is
absent. Times and decimals are JSON strings, whose formats belong to third-party packages: a
`FieldText` instance gives them. The derived reader would also take the fields as an array, in
order; no line of the log has that form.

Times are counted in nanoseconds from the Unix epoch. Decimals are rational numbers: the 96 bits of
the package are not modelled.
-/

set_option autoImplicit false

namespace NextApi.Logging

open Json

/-- The 128 bits of an id. -/
abbrev Uuid := BitVec 128

structure LogEvent where
  requestId : String
  ts : ℤ
  keyId : Option Uuid
  model : String
  requestedModel : Option String
  upstreamModel : Option String
  upstreamId : Option Uuid
  protocolIn : String
  protocolOut : String
  convertMode : String
  stream : Bool
  status : ℤ
  error : Option String
  promptTokens : Option ℤ
  completionTokens : Option ℤ
  cacheWriteTokens : Option ℤ
  cacheReadTokens : Option ℤ
  images : Option ℤ
  imageSize : Option String
  videoSeconds : Option ℚ
  videoResolution : Option String
  videoTaskType : Option String
  latencyMs : Option ℤ
  retryCount : ℤ
  ttfbMs : Option ℤ
  degraded : Bool
  usageRaw : Option Value
  debugPayload : Option Value
  costCny : Option ℚ
  costUsd : Option ℚ
  pricingSource : Option String
  priceUsed : Option Value
  fxSnapshot : Option Value
  requestHeaders : Option Value
  deriving DecidableEq, Inhabited

/-- The text forms of times, ids and decimals. -/
class FieldText where
  formatTime : ℤ → String
  parseTime : String → Option ℤ
  formatUuid : Uuid → String
  parseUuid : String → Option Uuid
  formatDecimal : ℚ → String
  parseDecimal : String → Option ℚ

/-! ### Writing -/

/-- An option as JSON. -/
def optionToValue {α : Type} (toValue : α → Value) : Option α → Value
  | some a => toValue a
  | none => .null

section Fields

variable [FieldText]

def timeToValue (t : ℤ) : Value := .str (FieldText.formatTime t)

def uuidToValue (id : Uuid) : Value := .str (FieldText.formatUuid id)

def decimalToValue (d : ℚ) : Value := .str (FieldText.formatDecimal d)

/-- The derived JSON form of an event. -/
def LogEvent.toValue (ev : LogEvent) : Value :=
  .object
    [("request_id", .str ev.requestId),
      ("ts", timeToValue ev.ts),
      ("key_id", optionToValue uuidToValue ev.keyId),
      ("model", .str ev.model),
      ("requested_model", optionToValue .str ev.requestedModel),
      ("upstream_model", optionToValue .str ev.upstreamModel),
      ("upstream_id", optionToValue uuidToValue ev.upstreamId),
      ("protocol_in", .str ev.protocolIn),
      ("protocol_out", .str ev.protocolOut),
      ("convert_mode", .str ev.convertMode),
      ("stream", .bool ev.stream),
      ("status", .int ev.status),
      ("error", optionToValue .str ev.error),
      ("prompt_tokens", optionToValue .int ev.promptTokens),
      ("completion_tokens", optionToValue .int ev.completionTokens),
      ("cache_write_tokens", optionToValue .int ev.cacheWriteTokens),
      ("cache_read_tokens", optionToValue .int ev.cacheReadTokens),
      ("images", optionToValue .int ev.images),
      ("image_size", optionToValue .str ev.imageSize),
      ("video_seconds", optionToValue decimalToValue ev.videoSeconds),
      ("video_resolution", optionToValue .str ev.videoResolution),
      ("video_task_type", optionToValue .str ev.videoTaskType),
      ("latency_ms", optionToValue .int ev.latencyMs),
      ("retry_count", .int ev.retryCount),
      ("ttfb_ms", optionToValue .int ev.ttfbMs),
      ("degraded", .bool ev.degraded),
      ("usage_raw", optionToValue id ev.usageRaw),
      ("debug_payload", optionToValue id ev.debugPayload),
      ("cost_cny", optionToValue decimalToValue ev.costCny),
      ("cost_usd", optionToValue decimalToValue ev.costUsd),
      ("pricing_source", optionToValue .str ev.pricingSource),
      ("price_used", optionToValue id ev.priceUsed),
      ("fx_snapshot", optionToValue id ev.fxSnapshot),
      ("request_headers", optionToValue id ev.requestHeaders)]

/-! ### Reading -/

/-- A signed integer of a width. -/
def readInt (bits : ℕ) : Value → Option ℤ
  | .int i => if -2 ^ (bits - 1) ≤ i ∧ i < 2 ^ (bits - 1) then some i else none
  | _ => none

def readTime (v : Value) : Option ℤ := v.asStr.bind FieldText.parseTime

def readUuid (v : Value) : Option Uuid := v.asStr.bind FieldText.parseUuid

def readDecimal (v : Value) : Option ℚ := v.asStr.bind FieldText.parseDecimal

/-- A field that must be there. -/
def required {α : Type} (read : Value → Option α) (v : Value) (field : String) : Option α :=
  (v.get? field).bind read

/-- An option: absent when the field is missing or `null`. -/
def optional {α : Type} (read : Value → Option α) (v : Value) (field : String) :
    Option (Option α) :=
  match v.get? field with
  | none => some none
  | some .null => some none
  | some w => (read w).map some

/-- The derived reader of an event. -/
def LogEvent.ofValue (v : Value) : Option LogEvent := do
  guard v.isObject
  let requestId ← required Value.asStr v "request_id"
  let ts ← required readTime v "ts"
  let keyId ← optional readUuid v "key_id"
  let model ← required Value.asStr v "model"
  let requestedModel ← optional Value.asStr v "requested_model"
  let upstreamModel ← optional Value.asStr v "upstream_model"
  let upstreamId ← optional readUuid v "upstream_id"
  let protocolIn ← required Value.asStr v "protocol_in"
  let protocolOut ← required Value.asStr v "protocol_out"
  let convertMode ← required Value.asStr v "convert_mode"
  let stream ← required Value.asBool v "stream"
  let status ← required (readInt 32) v "status"
  let error ← optional Value.asStr v "error"
  let promptTokens ← optional (readInt 64) v "prompt_tokens"
  let completionTokens ← optional (readInt 64) v "completion_tokens"
  let cacheWriteTokens ← optional (readInt 64) v "cache_write_tokens"
  let cacheReadTokens ← optional (readInt 64) v "cache_read_tokens"
  let images ← optional (readInt 64) v "images"
  let imageSize ← optional Value.asStr v "image_size"
  let videoSeconds ← optional readDecimal v "video_seconds"
  let videoResolution ← optional Value.asStr v "video_resolution"
  let videoTaskType ← optional Value.asStr v "video_task_type"
  let latencyMs ← optional (readInt 32) v "latency_ms"
  let retryCount ← required (readInt 32) v "retry_count"
  let ttfbMs ← optional (readInt 32) v "ttfb_ms"
  let degraded ← required Value.asBool v "degraded"
  let usageRaw ← optional some v "usage_raw"
  let debugPayload ← optional some v "debug_payload"
  let costCny ← optional readDecimal v "cost_cny"
  let costUsd ← optional readDecimal v "cost_usd"
  let pricingSource ← optional Value.asStr v "pricing_source"
  let priceUsed ← optional some v "price_used"
  let fxSnapshot ← optional some v "fx_snapshot"
  let requestHeaders ← optional some v "request_headers"
  return {
    requestId, ts, keyId, model, requestedModel, upstreamModel, upstreamId, protocolIn,
    protocolOut, convertMode, stream, status, error, promptTokens, completionTokens,
    cacheWriteTokens, cacheReadTokens, images, imageSize, videoSeconds, videoResolution,
    videoTaskType, latencyMs, retryCount, ttfbMs, degraded, usageRaw, debugPayload, costCny,
    costUsd, pricingSource, priceUsed, fxSnapshot, requestHeaders }

end Fields

/-- An accounting record at a second. -/
def eventAt (seconds : ℕ) : LogEvent where
  requestId := "req"
  ts := seconds * 10 ^ 9
  keyId := none
  model := "m"
  requestedModel := none
  upstreamModel := none
  upstreamId := none
  protocolIn := "openai_chat"
  protocolOut := "openai_chat"
  convertMode := "passthrough"
  stream := false
  status := 200
  error := none
  promptTokens := some 10
  completionTokens := some 5
  cacheWriteTokens := none
  cacheReadTokens := none
  images := none
  imageSize := none
  videoSeconds := none
  videoResolution := none
  videoTaskType := none
  latencyMs := some 42
  retryCount := 0
  ttfbMs := none
  degraded := false
  usageRaw := none
  debugPayload := none
  costCny := none
  costUsd := none
  pricingSource := none
  priceUsed := none
  fxSnapshot := none
  requestHeaders := none

end NextApi.Logging
