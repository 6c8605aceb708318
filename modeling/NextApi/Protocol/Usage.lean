import NextApi.Json.Members
import NextApi.Protocol.Anthropic.Response

/-!
# Usage objects

Every protocol reports the tokens of a response in an object of its own. The representation counts
the input without the tokens read from the cache, as Anthropic does; the input counts of the other
three include them, so that reading subtracts and writing adds. Gemini alone counts the tokens of
the reasoning apart from the output.

Members without a reader are carried in `extra`, and written into the object of the other protocol.
-/

set_option autoImplicit false

namespace NextApi

open Json Ir

/-- `saturating_add` on `u64`. -/
def addU64 (x y : ℕ) : ℕ := min (x + y) (2 ^ 64 - 1)

/-- The members of a usage object that have no reader, added to what is carried already. -/
def carriedUsage (known : List String) (u : Value) (extra : Map) : Map :=
  Map.orInsertAll extra (Map.without (u.asObject.getD []) known)

/-! ### Chat Completions -/

namespace Chat

def knownUsageFields : List String :=
  ["prompt_tokens", "completion_tokens", "total_tokens", "prompt_tokens_details",
    "completion_tokens_details"]

def parseUsage (u : Value) : IrUsage :=
  let cacheRead := (u.get? "prompt_tokens_details").bind fun details ↦
    details["cached_tokens"].asU64
  let details := u.get? "completion_tokens_details"
  let reasoning := details.bind fun details ↦ details["reasoning_tokens"].asU64
  { completionTokens := u["completion_tokens"].asU64.getD 0
    totalTokens := u["total_tokens"].asU64
    cacheReadTokens := cacheRead
    promptTokens := u["prompt_tokens"].asU64.getD 0 - cacheRead.getD 0
    extra := carriedUsage knownUsageFields u (Map.insertPresent []
      [("reasoning_tokens", reasoning.map .ofNat), ("completion_tokens_details", details)]) }

def usageToJson (u : IrUsage) : Value × ConvCtx :=
  let rt := Map.get? u.extra "reasoning_tokens"
  let hasOutputDetails := (Map.get? u.extra "output_tokens_details").isSome
  -- the second details object is only looked for, and removed, when the first one is missing
  let out := Map.without u.extra
    (if hasOutputDetails then ["reasoning_tokens", "output_tokens_details"]
    else ["reasoning_tokens", "input_tokens_details"])
  let out := Map.insertPresent out
    [("prompt_tokens", some (.ofNat (addU64 u.promptTokens (u.cacheReadTokens.getD 0)))),
      ("completion_tokens", some (.ofNat u.completionTokens)),
      ("total_tokens", u.totalTokens.map .ofNat),
      ("prompt_tokens_details", u.cacheReadTokens.map fun c ↦
        .object [("cached_tokens", .ofNat c)])]
  let out := Map.insertOpt out "completion_tokens_details" (rt.map fun rt ↦
    .obj (Map.insert (((Map.get? out "completion_tokens_details").bind Value.asObject).getD [])
      "reasoning_tokens" rt))
  (.obj out,
    (if hasOutputDetails || (Map.get? u.extra "input_tokens_details").isSome then
      degrade "usage.details" "Responses 专属 usage details 已按 Chat 形状归一" else []) ++
    (if u.cacheWriteTokens.isSome then
      degrade "usage.cache_write_tokens" "OpenAI Chat 无 cache_write_tokens" else []))

end Chat

/-! ### Responses -/

namespace Responses

def knownUsageFields : List String :=
  ["input_tokens", "output_tokens", "total_tokens", "input_tokens_details",
    "output_tokens_details"]

/-- The members of a details object but one, unless there are none. -/
def restOfDetails (details : Option Map) (name : String) : Option Value :=
  details.bind fun details ↦
    let rest := Map.insertAll [] (Map.without details [name])
    if rest.isEmpty then none else some (.obj rest)

def parseUsage (u : Value) : IrUsage :=
  let inputDetails := (u.get? "input_tokens_details").bind Value.asObject
  let outputDetails := (u.get? "output_tokens_details").bind Value.asObject
  let cacheRead := (inputDetails.bind fun d ↦ Map.get? d "cached_tokens").bind Value.asU64
  let reasoning := (outputDetails.bind fun d ↦ Map.get? d "reasoning_tokens").bind Value.asU64
  { completionTokens := u["output_tokens"].asU64.getD 0
    totalTokens := u["total_tokens"].asU64
    cacheReadTokens := cacheRead
    promptTokens := u["input_tokens"].asU64.getD 0 - cacheRead.getD 0
    extra := Map.insertAll (Map.insertPresent []
        [("input_tokens_details", restOfDetails inputDetails "cached_tokens"),
          ("reasoning_tokens", reasoning.map .ofNat),
          ("output_tokens_details", restOfDetails outputDetails "reasoning_tokens")])
      (Map.without (u.asObject.getD []) knownUsageFields) }

/-- A details object, unless it is empty. -/
def nonEmptyDetails (details : Map) : Option Value :=
  if details.isEmpty then none else some (.obj details)

def usageFromIr (u : IrUsage) : Value × ConvCtx :=
  let extraDetails (name : String) : Map :=
    ((Map.get? u.extra name).bind Value.asObject).getD []
  let inputDetails := Map.orInsertAll
    (Map.insertOpt [] "cached_tokens" (u.cacheReadTokens.map .ofNat))
    (extraDetails "input_tokens_details")
  let outputDetails := Map.orInsertAll
    (Map.orInsertAll
      (Map.insertOpt [] "reasoning_tokens" (Map.get? u.extra "reasoning_tokens"))
      (extraDetails "completion_tokens_details"))
    (extraDetails "output_tokens_details")
  let out := Map.insertPresent []
    [("input_tokens", some (.ofNat (addU64 u.promptTokens (u.cacheReadTokens.getD 0)))),
      ("output_tokens", some (.ofNat u.completionTokens)),
      ("total_tokens", u.totalTokens.map .ofNat),
      ("input_tokens_details", nonEmptyDetails inputDetails),
      ("output_tokens_details", nonEmptyDetails outputDetails)]
  -- here the carried members come last, and replace what was written before
  let out := Map.insertAll out (Map.without u.extra
    ["reasoning_tokens", "output_tokens_details", "input_tokens_details",
      "completion_tokens_details"])
  (.obj out,
    if u.cacheWriteTokens.isSome then
      degrade "usage.cache_write_tokens" "Responses 无 cache_write_tokens 映射" else [])

end Responses

/-! ### Gemini -/

namespace Gemini

def knownUsageFields : List String :=
  ["promptTokenCount", "candidatesTokenCount", "cachedContentTokenCount", "totalTokenCount",
    "thoughtsTokenCount"]

def parseUsageMetadata (u : Value) : IrUsage :=
  let candidates := u["candidatesTokenCount"].asU64.getD 0
  let thoughts := u["thoughtsTokenCount"].asU64.getD 0
  let cacheRead := u["cachedContentTokenCount"].asU64
  { completionTokens := addU64 candidates thoughts
    cacheReadTokens := cacheRead
    totalTokens := u["totalTokenCount"].asU64
    promptTokens := u["promptTokenCount"].asU64.getD 0 - cacheRead.getD 0
    extra := carriedUsage knownUsageFields u
      (if thoughts > 0 then
        Map.insertPresent []
          [("thoughtsTokenCount", some (.ofNat thoughts)),
            ("reasoning_tokens", some (.ofNat thoughts))]
      else []) }

def usageMetadataToJson (u : IrUsage) : Value × ConvCtx :=
  let reasoning := (Map.get? u.extra "reasoning_tokens").bind Value.asU64
  (.obj (Map.insertPresent (Map.remove u.extra "reasoning_tokens")
    [("promptTokenCount", some (.ofNat (addU64 u.promptTokens (u.cacheReadTokens.getD 0)))),
      ("candidatesTokenCount", some (.ofNat (u.completionTokens - reasoning.getD 0))),
      ("thoughtsTokenCount", reasoning.map .ofNat),
      ("totalTokenCount", u.totalTokens.map .ofNat),
      ("cachedContentTokenCount", u.cacheReadTokens.map .ofNat)]),
    if u.cacheWriteTokens.isSome then
      degrade "usage.cache_write_tokens" "Gemini 无 cache_write_tokens 对应字段" else [])

end Gemini

/-! ### All protocols -/

def Ir.Protocol.parseUsage : Protocol → Value → IrUsage
  | .openaiChat => Chat.parseUsage
  | .openaiResponses => Responses.parseUsage
  | .anthropic => Anthropic.parseUsage
  | .gemini => Gemini.parseUsageMetadata

def Ir.Protocol.writeUsage : Protocol → IrUsage → Value × ConvCtx
  | .openaiChat => Chat.usageToJson
  | .openaiResponses => Responses.usageFromIr
  | .anthropic => Anthropic.usageToAnthropic
  | .gemini => Gemini.usageMetadataToJson

/-- The members of a usage object that have a reader. -/
def Ir.Protocol.knownUsageFields : Protocol → List String
  | .openaiChat => Chat.knownUsageFields
  | .openaiResponses => Responses.knownUsageFields
  | .anthropic => Anthropic.knownUsageFields
  | .gemini => Gemini.knownUsageFields

end NextApi
