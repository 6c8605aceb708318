import NextApi.Protocol.Chat.Response

/-!
# Chat Completions requests

`requestToIr` reads a request: its messages as those of a response are read, its token limit under
either of two names, and its tool choice and response format as they are. `requestFromIr` writes
one, the limit under the name that it came with, and a tool choice in the flat form of Responses in
the form of Chat.
-/

set_option autoImplicit false

namespace NextApi.Chat

open Json Ir

/-- The request members that have a reader; all others are carried as `extra`. -/
def knownRequestFields : List String :=
  ["model", "messages", "tools", "tool_choice", "temperature", "top_p", "max_tokens",
    "max_completion_tokens", "stop", "stream", "stream_options", "response_format", "seed", "user",
    "n"]

def jsonObject : Value := .obj []

/-! ### Reading a request -/

/-- Reads a tool definition; only functions have a place. -/
def parseTool (t : Value) : Option IrTool × ConvCtx :=
  if t["type"].strOrEmpty = "function" then
    let f := t["function"]
    (some
      { name := f["name"].strOrEmpty
        description := f["description"].asStr
        parameters := (f.get? "parameters").getD jsonObject }, [])
  else (none, degrade "tools" ("非 function 类型工具定义，丢弃: " ++ t["type"].strOrEmpty))

def parseTools (v : Value) : Except ConvertError (List IrTool × ConvCtx) :=
  match v.asArray with
  | some items => .ok (filterMapCtx parseTool items)
  | none => .error (.parse "tools 不是数组")

def readTools (v : Value) : Except ConvertError (List IrTool × ConvCtx) :=
  match v.get? "tools" with
  | some tools => parseTools tools
  | none => .ok ([], [])

/-- The messages of a request; one that cannot be read fails the request. -/
def readMessages [SerdeJson] (v : Value) : Except ConvertError (List IrMessage × ConvCtx) :=
  match v.get? "messages" with
  | some msgs =>
    match msgs.asArray with
    | some items => (items.mapM parseMessage).map fun read ↦
        (read.map Prod.fst, read.flatMap Prod.snd)
    | none => .error (.parse "messages 不是数组")
  | none => .ok ([], [])

/-- The member is there and not `null`. -/
def given (v : Value) (key : String) : Bool := (v.get? key).any fun x ↦ !x.isNull

/-- The name under which the token limit is given; `max_completion_tokens` goes first. -/
def maxTokensField (v : Value) : Option MaxTokensField :=
  if given v "max_completion_tokens" then some .maxCompletionTokens
  else if given v "max_tokens" then some .maxTokens
  else none

def maxTokensKey : MaxTokensField → String
  | .maxCompletionTokens => "max_completion_tokens"
  | .maxTokens => "max_tokens"

/-- The token limit under the name that it is given. -/
def readMaxTokens (v : Value) : Option ℕ :=
  (maxTokensField v).bind fun field ↦ (v.get? (maxTokensKey field)).bind Value.asU64

/-- The stop sequences: one string, or the strings of an array. -/
def parseStop : Value → Option (List String)
  | .str s => some [s]
  | .arr items => some (items.filterMap Value.asStr)
  | _ => none

/-- Whether the stream is to end with its usage. -/
def readIncludeUsage (v : Value) : Bool :=
  (((v.get? "stream_options").bind Value.asObject).bind fun so ↦
    (Map.get? so "include_usage").bind Value.asBool).getD false

/-- Reads a request. -/
def requestToIr [SerdeJson] (v : Value) : Except ConvertError (IrRequest × ConvCtx) := do
  let some obj := v.asObject | .error (.parse "请求体不是对象")
  let (messages, messagesCtx) ← readMessages v
  let limitCtx :=
    if given v "max_tokens" && given v "max_completion_tokens" then
      degrade "max_tokens" "max_tokens 与 max_completion_tokens 并存，取 max_completion_tokens"
    else []
  let (tools, toolCtx) ← readTools v
  return (
    { model := v["model"].strOrEmpty
      messages := messages
      tools := tools
      toolChoice := v.get? "tool_choice"
      temperature := v["temperature"].asF64
      topP := v["top_p"].asF64
      maxTokens := readMaxTokens v
      maxTokensField := maxTokensField v
      stop := (v.get? "stop").bind parseStop
      stream := v["stream"].asBool.getD false
      streamIncludeUsage := readIncludeUsage v
      responseFormat := v.get? "response_format"
      seed := v["seed"].asI64
      user := v["user"].asStr
      n := v["n"].asU32
      extra := Map.insertAll [] (Map.without obj knownRequestFields) },
    messagesCtx ++ limitCtx ++ toolCtx)

/-! ### Writing a request -/

def toolToJson (t : IrTool) : Value :=
  .object
    [("function", .obj (Map.insertPresent []
        [("name", some (.str t.name)), ("description", t.description.map .str),
          ("parameters", some t.parameters)])),
      ("type", .str "function")]

/-- The extensions of a request have no place. -/
def degradeExt (req : IrRequest) : ConvCtx :=
  let noSlot := "OpenAI Chat 无对应字段"
  (if req.ext.thinking.isSome then degrade "ext.thinking" noSlot else []) ++
  (if req.ext.webSearch.isSome then degrade "ext.web_search" noSlot else []) ++
  (if req.ext.cacheControl.isSome then degrade "ext.cache_control" noSlot else []) ++
  (if req.ext.topK.isSome then degrade "ext.top_k" noSlot else []) ++
  (if req.ext.serviceTier.isSome then degrade "ext.service_tier" noSlot else []) ++
  (Map.keys req.ext.extra).flatMap fun k ↦ degrade k noSlot

/-- A named function in the form of Chat. -/
def namedChoice (name : Value) : Value :=
  .object [("type", .str "function"), ("function", .object [("name", name)])]

/-- A tool choice in the flat form of Responses gets the form of Chat. -/
def wrapToolChoice (tc : Value) : Value :=
  match tc with
  | .obj o =>
    if (Map.get? o "type").bind Value.asStr = some "function" ∧ Map.get? o "function" = none then
      match Map.get? o "name" with
      | some name => namedChoice name
      | none => tc
    else tc
  | _ => tc

/-- The members that `requestFromIr` writes over the carried ones, in order; a member whose value
is absent is not written. -/
def requestMembers (req : IrRequest) : List (String × Option Value) :=
  [("model", some (.str req.model)),
    ("messages", some (.arr (req.messages.map messageToJson))),
    ("tools", if req.tools.isEmpty then none else some (.arr (req.tools.map toolToJson))),
    ("tool_choice", req.toolChoice.map wrapToolChoice),
    ("temperature", req.temperature.map .float),
    ("top_p", req.topP.map .float),
    (maxTokensKey (req.maxTokensField.getD .maxTokens), req.maxTokens.map .ofNat),
    ("stop", req.stop.map fun stop ↦ .arr (stop.map .str)),
    ("stream", some (.bool req.stream)),
    ("stream_options",
      if req.streamIncludeUsage then some (.object [("include_usage", .bool true)]) else none),
    ("response_format", req.responseFormat),
    ("seed", req.seed.map .int),
    ("user", req.user.map .str),
    ("n", req.n.map fun n ↦ .ofNat n.toNat)]

/-- Writes a request. It cannot fail. -/
def requestFromIr (req : IrRequest) : Value × ConvCtx :=
  (.obj (Map.insertPresent req.extra (requestMembers req)), degradeExt req)

end NextApi.Chat
