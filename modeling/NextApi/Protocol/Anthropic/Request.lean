import NextApi.Json.Codec
import NextApi.Protocol.Ir

/-!
# Anthropic Messages requests

`requestToIr` reads a Messages request. One message of the request may become several messages of
the representation: the text, images, thinking and tool calls of its blocks make one message, and
every `tool_result` block makes a message of role `tool` (`parseAnthMessage`).

`requestFromIr` writes one. `messagesToAnthropic` walks the messages with the results that wait
for a user message: a `tool` message joins them, a `user` message takes them as its first blocks,
and an `assistant` message, or the end, makes a user message of them.

What has no place on the other side is recorded as degraded.
-/

set_option autoImplicit false

namespace NextApi.Anthropic

open Json Ir

/-- The token limit of a request whose client gave none. -/
def defaultMaxTokens : ℕ := 65536

/-- The request members that have a reader; all others are carried as `extra`. -/
def knownRequestFields : List String :=
  ["model", "system", "messages", "tools", "tool_choice", "temperature", "top_p", "top_k",
    "stop_sequences", "max_tokens", "stream", "metadata", "thinking"]

def jsonObject : Value := .obj []

/-- No parts are no content, one text part is plain text. -/
def partsContent : List IrPart → Option IrContent
  | [] => none
  | [.text text] => some (.text text)
  | parts => some (.parts parts)

/-- The `input` of a tool use as JSON text: a string is taken as it is, `null` is empty. -/
def inputToArguments [SerdeJson] : Value → String
  | .str s => s
  | .null => ""
  | input => SerdeJson.toText input

/-- The content of a tool result as plain text. -/
def toolResultText : Option Value → String
  | some (.str s) => s
  | some (.arr items) => String.join (items.filterMap fun b ↦ b["text"].asStr)
  | _ => ""

/-! ### Reading a request -/

/-- What reading the `system` member adds to a request: a message and a cache control. -/
structure SystemAcc where
  buf : String := ""
  cacheControl : Option Value := none
  ctx : ConvCtx := []

def parseSystemBlock (acc : SystemAcc) (block : Value) : SystemAcc :=
  let acc :=
    match block["type"].strOrEmpty with
    | "text" => { acc with buf := acc.buf ++ block["text"].strOrEmpty }
    | other =>
      { acc with
        ctx := acc.ctx ++ degrade "system.block.type" ("未知 system block 类型: " ++ other) }
  match block.get? "cache_control", acc.cacheControl with
  | some cc, none => { acc with cacheControl := some cc }
  | _, _ => acc

/-- Reads `system` as one message; a cache control on one of its blocks goes to the extensions. -/
def parseSystem (sys : Value) (req : IrRequest) : IrRequest × ConvCtx :=
  let finish (text : String) (req : IrRequest) : IrRequest :=
    if text = "" ∧ req.ext.cacheControl = none then req
    else
      { req with
        messages := req.messages ++ [{ role := .system, content := some (.text text) }] }
  match sys with
  | .null => (req, [])
  | .str s => (finish s req, [])
  | .arr items =>
    let acc := items.foldl parseSystemBlock { cacheControl := req.ext.cacheControl }
    (finish acc.buf { req with ext := { req.ext with cacheControl := acc.cacheControl } }, acc.ctx)
  | _ => (req, degrade "system" "system 既非字符串也非数组，丢弃")

/-- The running result of reading the blocks of one message. -/
structure BlockAcc where
  parts : List IrPart := []
  toolCalls : List IrToolCall := []
  reasoning : Option String := none
  toolMsgs : List IrMessage := []
  ext : IrExt := {}
  ctx : ConvCtx := []

/-- Reads the `source` of an image block. -/
def parseImageSource (acc : BlockAcc) (src : Value) : BlockAcc :=
  match src["type"].strOrEmpty with
  | "base64" =>
    { acc with
      parts := acc.parts ++ [.imageInline src["media_type"].strOrEmpty src["data"].strOrEmpty] }
  | "url" => { acc with parts := acc.parts ++ [.imageUrl src["url"].strOrEmpty] }
  | other =>
    { acc with
      ctx := acc.ctx ++ degrade "content.block.image.source" ("未知图片源类型: " ++ other) }

/-- The message that a `tool_result` block becomes. -/
def toolResultMessage (block : Value) : IrMessage where
  role := .tool
  toolCallId := some block["tool_use_id"].strOrEmpty
  content := some (.text (toolResultText (block.get? "content")))

/-- What a `tool_result` block says that its message has no place for. -/
def toolResultDegraded (block : Value) : ConvCtx :=
  (if block["is_error"].asBool.getD false then
    degrade "tool_result.is_error" "is_error 标记无 IR 槽位，丢弃" else []) ++
  match (block.get? "content").bind Value.asArray with
  | some items =>
    if items.any fun b ↦ decide (b["type"].asStr ≠ some "text") then
      degrade "tool_result.content" "tool_result 仅抽取 text 块，其余类型丢弃" else []
  | none => []

/-- Reads one content block of a message. -/
def parseBlock [SerdeJson] (acc : BlockAcc) (block : Value) : BlockAcc :=
  if block.isObject then
    let acc :=
      if (block.get? "cache_control").isSome then
        { acc with
          ctx := acc.ctx ++
            degrade "content.cache_control" "非 system 位置的 cache_control 不支持，丢弃" }
      else acc
    match block["type"].strOrEmpty with
    | "text" => { acc with parts := acc.parts ++ [.text block["text"].strOrEmpty] }
    | "image" => parseImageSource acc block["source"]
    | "tool_use" =>
      { acc with
        toolCalls := acc.toolCalls ++
          [{ id := block["id"].strOrEmpty
             name := block["name"].strOrEmpty
             arguments := inputToArguments block["input"] }] }
    | "tool_result" =>
      { acc with
        toolMsgs := acc.toolMsgs ++ [toolResultMessage block]
        ctx := acc.ctx ++ toolResultDegraded block }
    | "thinking" =>
      let acc := { acc with reasoning := some block["thinking"].strOrEmpty }
      match block["signature"].asStr with
      | some sig =>
        { acc with
          ext := { acc.ext with
            extra := Map.insert acc.ext.extra "thinking_signature" (.str sig) } }
      | none => acc
    | other =>
      { acc with ctx := acc.ctx ++ degrade "content.block.type" ("未知块类型: " ++ other) }
  else acc

/-- The role of a message, with the degradation of an unknown one. -/
def parseRole (role : String) : IrRole × ConvCtx :=
  match role with
  | "user" => (.user, [])
  | "assistant" => (.assistant, [])
  | other => (.user, degrade "message.role" ("未知角色按 user 处理: " ++ other))

/-- The message made of the blocks that are not tool results. -/
def mainMessage (role : IrRole) (acc : BlockAcc) : IrMessage where
  role := role
  content := partsContent acc.parts
  toolCalls := acc.toolCalls
  reasoningContent := acc.reasoning

/-- The messages of a list of blocks: the main message, unless it is empty, and then the tool
results. -/
def blockMessages (role : IrRole) (acc : BlockAcc) : List IrMessage :=
  let main := mainMessage role acc
  (if main.content.isSome || !main.toolCalls.isEmpty || main.reasoningContent.isSome then [main]
    else []) ++ acc.toolMsgs

/-- Reads one message of the request. -/
def parseAnthMessage [SerdeJson] (msg : Value) (ext : IrExt) :
    Except ConvertError (List IrMessage × IrExt × ConvCtx) :=
  if msg.isObject then
    let (irRole, roleCtx) := parseRole msg["role"].strOrEmpty
    match msg.get? "content" with
    | some (.str s) => .ok ([{ role := irRole, content := some (.text s) }], ext, roleCtx)
    | some (.arr blocks) =>
      let acc := blocks.foldl parseBlock { ext := ext, ctx := roleCtx }
      .ok (blockMessages irRole acc, acc.ext, acc.ctx)
    | _ => .ok ([{ role := irRole }], ext, roleCtx)
  else .error (.parse "message 不是对象")

/-- Reads the messages in order, each with the extensions the ones before it left. -/
def parseMessages [SerdeJson] :
    List Value → IrExt → Except ConvertError (List IrMessage × IrExt × ConvCtx)
  | [], ext => .ok ([], ext, [])
  | msg :: rest, ext => do
    let (first, ext, ctx) ← parseAnthMessage msg ext
    let (others, ext, ctx') ← parseMessages rest ext
    return (first ++ others, ext, ctx ++ ctx')

/-- Reads a tool definition; one that is not an object is skipped. -/
def parseTool (t : Value) : Option IrTool × ConvCtx :=
  if t.isObject then
    (some
      { name := t["name"].strOrEmpty
        description := t["description"].asStr
        parameters := (t.get? "input_schema").getD jsonObject },
      if (t.get? "cache_control").isSome then
        degrade "tools.cache_control" "工具级 cache_control 不支持，丢弃" else [])
  else (none, [])

def parseTools (v : Value) : Except ConvertError (List IrTool × ConvCtx) :=
  match v.asArray with
  | some items => .ok (filterMapCtx parseTool items)
  | none => .error (.parse "tools 不是数组")

/-- Reads a tool choice into the form of Chat. -/
def parseToolChoice (tc : Value) : Option Value :=
  if tc.isNull then none
  else
    match tc["type"].strOrEmpty with
    | "auto" => some (.str "auto")
    | "any" => some (.str "required")
    | "none" => some (.str "none")
    | "tool" =>
      some (.object
        [("type", .str "function"),
          ("function", .object [("name", .str tc["name"].strOrEmpty)])])
    | _ => some tc

/-- The stop sequences: one string, or the strings of an array. -/
def parseStopSequences : Value → Option (List String)
  | .str s => some [s]
  | ss => ss.asArray.map fun items ↦ items.filterMap Value.asStr

/-- The members of `metadata` other than the user id have no place. -/
def metadataDegraded (v : Value) : ConvCtx :=
  match (v.get? "metadata").bind Value.asObject with
  | some md =>
    (Map.keys md).flatMap fun k ↦
      if k ≠ "user_id" then
        degrade ("metadata." ++ k) "metadata 仅 user_id 有 IR 槽位，其余键丢弃" else []
  | none => []

/-- The request with its model and what its `system` member says. -/
def readSystem (v : Value) : IrRequest × ConvCtx :=
  let req : IrRequest := { model := v["model"].strOrEmpty }
  match v.get? "system" with
  | some sys => parseSystem sys req
  | none => (req, [])

/-- The members that have no reader. -/
def carriedMembers (obj : Map) : Map :=
  (obj.filter fun member ↦ decide (member.1 ∉ knownRequestFields)).foldl
    (fun extra member ↦ Map.insert extra member.1 member.2) []

/-- Reads a Messages request. -/
def requestToIr [SerdeJson] (v : Value) : Except ConvertError (IrRequest × ConvCtx) := do
  let some obj := v.asObject | .error (.parse "请求体不是对象")
  let (req, sysCtx) := readSystem v
  let (messages, ext, msgCtx) ←
    match v.get? "messages" with
    | some msgs =>
      match msgs.asArray with
      | some items => parseMessages items req.ext
      | none => .error (.parse "messages 不是数组")
    | none => .ok ([], req.ext, [])
  let (topK, topKCtx) :=
    match v["top_k"].asU64 with
    | some k =>
      if k < 2 ^ 32 then (some (UInt32.ofNat k), [])
      else (none, degrade "top_k" "超出 u32 范围，丢弃")
    | none => (none, [])
  let (tools, toolCtx) ←
    match v.get? "tools" with
    | some tools => parseTools tools
    | none => .ok ([], [])
  return (
    { req with
      messages := req.messages ++ messages
      maxTokens := v["max_tokens"].asU64
      stop := (v.get? "stop_sequences").bind parseStopSequences
      temperature := v["temperature"].asF64
      topP := v["top_p"].asF64
      stream := v["stream"].asBool.getD false
      tools := tools
      toolChoice := (v.get? "tool_choice").bind parseToolChoice
      user := v["metadata"]["user_id"].asStr
      ext := { ext with topK := topK, thinking := v.get? "thinking" }
      extra := carriedMembers obj },
    sysCtx ++ msgCtx ++ topKCtx ++ toolCtx ++ metadataDegraded v)

/-! ### Writing a request -/

def numberF64 (x : Dyadic) : Value := .float x

def textBlock (text : String) : Value :=
  .object [("type", .str "text"), ("text", .str text)]

/-- One part as a content block; audio and files have none. -/
def partToAnthBlock : IrPart → Option Value × ConvCtx
  | .text text => (some (textBlock text), [])
  | .imageUrl url =>
    (some (.object
      [("type", .str "image"), ("source", .object [("type", .str "url"), ("url", .str url)])]), [])
  | .imageInline mediaType data =>
    (some (.object
      [("type", .str "image"),
        ("source", .object
          [("type", .str "base64"), ("media_type", .str mediaType), ("data", .str data)])]), [])
  | .inputAudio _ _ => (none, degrade "content.input_audio" "Anthropic 不支持音频")
  | .file _ _ _ => (none, degrade "content.file" "Anthropic 不支持文件")

def contentToAnthropicBlocks : IrContent → List Value × ConvCtx
  | .text s => ([textBlock s], [])
  | .parts ps => filterMapCtx partToAnthBlock ps

/-- A thinking block, with the signature that the request carried in its extensions. -/
def thinkingBlock (rc : String) (req : IrRequest) : Value :=
  let block := Value.object [("type", .str "thinking"), ("thinking", .str rc)]
  match (Map.get? req.ext.extra "thinking_signature").bind Value.asStr with
  | some sig => block.set "signature" (.str sig)
  | none => block

/-- A tool use; arguments that are not JSON are written as a string. -/
def toolUseBlock [SerdeJson] (tc : IrToolCall) : Value :=
  let input :=
    match SerdeJson.ofText tc.arguments with
    | .ok v => v
    | .error _ => .str tc.arguments
  .object [("type", .str "tool_use"), ("id", .str tc.id), ("name", .str tc.name), ("input", input)]

def toolResultBlock (m : IrMessage) : Value × ConvCtx :=
  let (content, ctx) : Value × ConvCtx :=
    match m.content with
    | some (.text s) => (.str s, [])
    | some (.parts ps) => (.arr (filterMapCtx partToAnthBlock ps).1,
        (filterMapCtx partToAnthBlock ps).2)
    | none => (.str "", [])
  (.object
    [("type", .str "tool_result"), ("tool_use_id", .str (m.toolCallId.getD "")),
      ("content", content)], ctx)

/-- The text pieces of one system message. -/
def systemPieces (m : IrMessage) : List String :=
  if m.role = .system then
    match m.content with
    | some (.text s) => [s]
    | some (.parts ps) => ps.filterMap fun p ↦
        match p with
        | .text text => some text
        | _ => none
    | none => []
  else []

/-- The `system` member: a string for one piece of text, blocks for several or for a cache
control. -/
def systemToAnthropic (req : IrRequest) : Option Value :=
  let pieces := req.messages.flatMap systemPieces
  match pieces, req.ext.cacheControl with
  | [], _ => none
  | pieces, some cc => some (.arr [(textBlock (String.join pieces)).set "cache_control" cc])
  | [piece], none => some (.str piece)
  | pieces, none => some (.arr (pieces.map textBlock))

/-- A message of the request. -/
def anthMessage (role : String) (blocks : List Value) : Value :=
  .object [("role", .str role), ("content", .arr blocks)]

/-- An assistant message: thinking, content, tool uses. -/
def messageToAnthropic [SerdeJson] (m : IrMessage) (req : IrRequest) : Value × ConvCtx :=
  let thinking := (m.reasoningContent.map fun rc ↦ thinkingBlock rc req).toList
  let (blocks, ctx) := (m.content.map contentToAnthropicBlocks).getD ([], [])
  (anthMessage "assistant" (thinking ++ blocks ++ m.toolCalls.map toolUseBlock), ctx)

/-- The messages written so far and the tool results that wait for a user message. -/
structure MessagesAcc where
  out : List Value := []
  pendingToolResults : List Value := []
  ctx : ConvCtx := []

/-- Makes a user message of the waiting tool results, if there are any. -/
def MessagesAcc.flush (acc : MessagesAcc) : MessagesAcc :=
  if acc.pendingToolResults.isEmpty then acc
  else
    { acc with
      out := acc.out ++ [anthMessage "user" acc.pendingToolResults]
      pendingToolResults := [] }

def writeMessage [SerdeJson] (req : IrRequest) (acc : MessagesAcc) (m : IrMessage) : MessagesAcc :=
  match m.role with
  | .system => acc
  | .user =>
    let (blocks, ctx) := (m.content.map contentToAnthropicBlocks).getD ([], [])
    { out := acc.out ++ [anthMessage "user" (acc.pendingToolResults ++ blocks)]
      pendingToolResults := []
      ctx := acc.ctx ++ ctx }
  | .assistant =>
    let acc := acc.flush
    let (message, ctx) := messageToAnthropic m req
    { acc with out := acc.out ++ [message], ctx := acc.ctx ++ ctx }
  | .tool =>
    let (block, ctx) := toolResultBlock m
    { acc with
      pendingToolResults := acc.pendingToolResults ++ [block]
      ctx := acc.ctx ++ ctx }

/-- The `messages` member. -/
def messagesToAnthropic [SerdeJson] (req : IrRequest) : Value × ConvCtx :=
  let acc := (req.messages.foldl (writeMessage req) {}).flush
  (.arr acc.out, acc.ctx)

/-- Members of the request that Anthropic has no place for. -/
def degradeRequestExt (req : IrRequest) : ConvCtx :=
  (if req.responseFormat.isSome then degrade "response_format" "Anthropic 无对应字段" else []) ++
  (if req.seed.isSome then degrade "seed" "Anthropic 无对应字段" else []) ++
  (if req.n.isSome then degrade "n" "Anthropic 无对应字段" else []) ++
  (if req.ext.webSearch.isSome then degrade "ext.web_search" "Anthropic 无对应字段" else []) ++
  (if req.ext.serviceTier.isSome then degrade "ext.service_tier" "Anthropic 无对应字段" else []) ++
  (Map.keys req.ext.extra).flatMap fun k ↦
    if k = "thinking_signature" then [] else degrade k "Anthropic 无对应字段"

/-- A tool choice in the form of Chat, written in the form of Anthropic. -/
def toolChoiceToAnthropic : Value → Value
  | .str "auto" => .object [("type", .str "auto")]
  | .str "required" => .object [("type", .str "any")]
  | .obj m =>
    if (Map.get? m "type").bind Value.asStr = some "function" then
      let name := ((Map.get? m "function").bind fun f ↦ f.get? "name").bind Value.asStr
      .object [("type", .str "tool"), ("name", .str (name.getD ""))]
    else .obj m
  | _ => .object [("type", .str "auto")]

def toolToJson (t : IrTool) : Value :=
  .object
    ([("name", .str t.name)] ++ (t.description.map fun d ↦ ("description", Value.str d)).toList ++
      [("input_schema", t.parameters)])

/-- The members that `requestFromIr` writes over the carried ones, in order; a member whose value
is absent is not written. -/
def requestMembers [SerdeJson] (req : IrRequest) (maxTokens : ℕ) :
    List (String × Option Value) :=
  [("model", some (.str req.model)),
    ("system", systemToAnthropic req),
    ("messages", some (messagesToAnthropic req).1),
    ("max_tokens", some (.ofNat maxTokens)),
    ("tools", if req.tools.isEmpty then none else some (.arr (req.tools.map toolToJson))),
    ("tool_choice", req.toolChoice.map toolChoiceToAnthropic),
    ("temperature", req.temperature.map numberF64),
    ("top_p", req.topP.map numberF64),
    ("top_k", req.ext.topK.map fun k ↦ .ofNat k.toNat),
    ("stop_sequences", req.stop.map fun stop ↦ .arr (stop.map .str)),
    ("stream", some (.bool req.stream)),
    ("metadata", req.user.map fun u ↦ .object [("user_id", .str u)]),
    ("thinking", req.ext.thinking)]

/-- Writes a Messages request. It cannot fail. -/
def requestFromIr [SerdeJson] (req : IrRequest) : Value × ConvCtx :=
  let (maxTokens, limitCtx) : ℕ × ConvCtx :=
    match req.maxTokens with
    | some n => (n, [])
    | none => (defaultMaxTokens, degrade "max_tokens" "入口未提供，填充默认 65536")
  (.obj (Map.insertPresent req.extra (requestMembers req maxTokens)),
    degradeRequestExt req ++ limitCtx ++ (messagesToAnthropic req).2)

end NextApi.Anthropic
