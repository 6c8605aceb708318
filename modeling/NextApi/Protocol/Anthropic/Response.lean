import NextApi.Protocol.Anthropic.Request

/-!
# Anthropic Messages responses

`responseToIr` reads a complete response: its blocks make one assistant message, its stop reason
becomes a normalised finish reason, and the raw stop reason is carried as `anthropic_stop_reason`.
`responseFromIr` writes one, preferring a carried raw stop reason to the finish reason.

Anthropic counts input tokens without the cached ones, as the representation does, so usage is
read and written without adding or subtracting.
-/

set_option autoImplicit false

namespace NextApi.Anthropic

open Json Ir

/-- The response members that have a reader; all others are carried as `extra`. -/
def knownResponseFields : List String :=
  ["id", "type", "role", "content", "model", "stop_reason", "stop_sequence", "usage"]

/-- The usage members that have a reader. -/
def knownUsageFields : List String :=
  ["input_tokens", "output_tokens", "prompt_tokens", "completion_tokens", "total_tokens",
    "cache_read_input_tokens", "cache_read_tokens", "cache_creation_input_tokens",
    "cache_creation_tokens"]

/-! ### Reading a response -/

def parseUsage (u : Value) : IrUsage where
  promptTokens := (u["input_tokens"].asU64.or u["prompt_tokens"].asU64).getD 0
  completionTokens := (u["output_tokens"].asU64.or u["completion_tokens"].asU64).getD 0
  cacheReadTokens := u["cache_read_input_tokens"].asU64.or u["cache_read_tokens"].asU64
  cacheWriteTokens := u["cache_creation_input_tokens"].asU64.or u["cache_creation_tokens"].asU64
  totalTokens := u["total_tokens"].asU64
  extra := ((u.asObject.getD []).filter fun member ↦
      decide (member.1 ∉ knownUsageFields)).foldl
    (fun extra member ↦ Map.orInsert extra member.1 member.2) []

/-- The running result of reading the blocks of a response. -/
structure ResponseAcc where
  parts : List IrPart := []
  toolCalls : List IrToolCall := []
  reasoning : Option String := none
  extra : Map := []
  ctx : ConvCtx := []

def parseResponseBlock [SerdeJson] (acc : ResponseAcc) (block : Value) : ResponseAcc :=
  if block.isObject then
    match block["type"].strOrEmpty with
    | "text" => { acc with parts := acc.parts ++ [.text block["text"].strOrEmpty] }
    | "tool_use" =>
      { acc with
        toolCalls := acc.toolCalls ++
          [{ id := block["id"].strOrEmpty
             name := block["name"].strOrEmpty
             arguments := inputToArguments block["input"] }] }
    | "thinking" =>
      let acc := { acc with reasoning := some block["thinking"].strOrEmpty }
      match block["signature"].asStr with
      | some sig => { acc with extra := Map.insert acc.extra "thinking_signature" (.str sig) }
      | none => acc
    | other =>
      { acc with ctx := acc.ctx ++ degrade "content.block.type" ("未知响应块类型: " ++ other) }
  else acc

/-- Reads the content of a response as one assistant message. Content that is not an array is an
empty message of the default role. -/
def parseResponseContent [SerdeJson] (content : Value) : IrMessage × Map × ConvCtx :=
  match content.asArray with
  | some blocks =>
    let acc := blocks.foldl parseResponseBlock {}
    ({ role := .assistant
       content := partsContent acc.parts
       toolCalls := acc.toolCalls
       reasoningContent := acc.reasoning }, acc.extra, acc.ctx)
  | none => ({}, [], degrade "content" "响应 content 解析失败，置空")

/-- Reads a response. The stop reason goes to the choice, if the response has content, and in its
raw form to the carried members. -/
def responseToIr [SerdeJson] (v : Value) : Except ConvertError (IrResponse × ConvCtx) := do
  let some obj := v.asObject | .error (.parse "响应体不是对象")
  let stopReason := v["stop_reason"].asStr
  let (choices, extra, ctx) : List IrChoice × Map × ConvCtx :=
    match v.get? "content" with
    | some content =>
      let (message, extra, ctx) := parseResponseContent content
      ([{ index := 0, message := message, finishReason := stopReason.map normalizeFinishReason }],
        extra, ctx)
    | none => ([], [], [])
  let extra :=
    match stopReason with
    | some sr => Map.insert extra "anthropic_stop_reason" (.str sr)
    | none => extra
  return (
    { id := v["id"].strOrEmpty
      model := v["model"].strOrEmpty
      created := v["created"].asI64.getD 0
      choices := choices
      usage := (v.get? "usage").map parseUsage
      extra := (obj.filter fun member ↦ decide (member.1 ∉ knownResponseFields)).foldl
        (fun extra member ↦ Map.insert extra member.1 member.2) extra },
    ctx)

/-! ### Writing a response -/

/-- The stop reason for a finish reason. -/
def reverseFinishReason (fr : String) : String :=
  match fr with
  | "stop" => "end_turn"
  | "length" => "max_tokens"
  | "tool_calls" => "tool_use"
  | other => other

def usageToAnthropic (u : IrUsage) : Value × ConvCtx :=
  (.obj (Map.insertPresent u.extra
    [("input_tokens", some (.ofNat u.promptTokens)),
      ("output_tokens", some (.ofNat u.completionTokens)),
      ("cache_read_input_tokens", u.cacheReadTokens.map .ofNat),
      ("cache_creation_input_tokens", u.cacheWriteTokens.map .ofNat)]),
    if u.totalTokens.isSome then
      degrade "usage.total_tokens" "Anthropic 无 total_tokens" else [])

/-- The content blocks of a message: thinking, content, tool uses. -/
def responseBlocks [SerdeJson] (msg : IrMessage) (resp : IrResponse) : List Value × ConvCtx :=
  let thinking := (msg.reasoningContent.map fun rc ↦
    let block := Value.object [("type", .str "thinking"), ("thinking", .str rc)]
    match (Map.get? resp.extra "thinking_signature").bind Value.asStr with
    | some sig => block.set "signature" (.str sig)
    | none => block).toList
  let (blocks, ctx) := (msg.content.map contentToAnthropicBlocks).getD ([], [])
  (thinking ++ blocks ++ msg.toolCalls.map toolUseBlock, ctx)

/-- The stop reason to write: a carried raw one that is not empty, else the one for the finish
reason, else none. -/
def stopReasonOf (resp : IrResponse) (finishReason : Option String) : Option String × ConvCtx :=
  let raw := ((Map.get? resp.extra "anthropic_stop_reason").bind Value.asStr).filter
    fun s ↦ decide (s ≠ "")
  match raw with
  | some raw =>
    (some raw,
      if raw = "stop_sequence" then
        degrade "stop_sequence" "stop_sequence 原始值未保留，stop_sequence 字段回写为 null"
      else [])
  | none => (finishReason.map reverseFinishReason, [])

/-- Writes a response. It cannot fail. -/
def responseFromIr [SerdeJson] (resp : IrResponse) : Value × ConvCtx :=
  let body := Map.remove (Map.remove resp.extra "anthropic_stop_reason") "thinking_signature"
  let (msg, finishReason) : IrMessage × Option String :=
    match resp.choices with
    | choice :: _ => (choice.message, choice.finishReason)
    | [] => ({}, none)
  let choicesCtx :=
    if 1 < resp.choices.length then
      degrade "choices" ("多候选（" ++ toString resp.choices.length ++ "）仅取首个，其余丢弃")
    else []
  let (blocks, blocksCtx) := responseBlocks msg resp
  let (stopReason, stopCtx) := stopReasonOf resp finishReason
  let usage := resp.usage.map usageToAnthropic
  (.obj (Map.insertPresent body
    [("id", some (.str resp.id)),
      ("type", some (.str "message")),
      ("role", some (.str "assistant")),
      ("content", some (.arr blocks)),
      ("model", some (.str resp.model)),
      ("stop_reason", some ((stopReason.map Value.str).getD .null)),
      ("stop_sequence", some .null),
      ("usage", usage.map Prod.fst)]),
    choicesCtx ++ blocksCtx ++ stopCtx ++ (usage.map Prod.snd).getD [])

end NextApi.Anthropic
