import NextApi.Json.Value

/-!
# The intermediate representation

Every conversion between two of the four client protocols goes through one representation, shaped
after Chat Completions: a request is a list of messages, a response a list of choices, and a
stream a sequence of chunks whose deltas are appended by the reader. Tool-call arguments are JSON
text, and fragments of that text in a stream.

Conventions the adapters keep: `finishReason` is in the vocabulary `stop`, `length`, `tool_calls`,
`content_filter` (`normalizeFinishReason`), anything else passing through in lower case; the prompt
count of a usage record excludes the tokens read from the cache.

Counts of tokens are natural numbers; where the code adds them it saturates, and the adapters
write that out. Indices of choices, blocks and tools are `UInt32`, which wrap.
-/

set_option autoImplicit false

namespace NextApi.Ir

open Json

/-- The protocols the gateway speaks, to its clients and to its upstreams. -/
inductive Protocol where
  | openaiChat
  | openaiResponses
  | anthropic
  | gemini
  deriving DecidableEq, Inhabited

inductive IrRole where
  | system
  | user
  | assistant
  | tool
  deriving DecidableEq

instance : Inhabited IrRole := ⟨.user⟩

inductive IrPart where
  | text (text : String)
  | imageUrl (url : String)
  | imageInline (mediaType data : String)
  | inputAudio (data format : String)
  | file (name : String) (url data : Option String)
  deriving DecidableEq, Inhabited

/-- The content of a message: plain text or multimodal parts. -/
inductive IrContent where
  | text (s : String)
  | parts (ps : List IrPart)
  deriving DecidableEq, Inhabited

/-- A complete tool call; the arguments are JSON text. -/
structure IrToolCall where
  id : String := ""
  name : String := ""
  arguments : String := ""
  deriving DecidableEq, Inhabited

/-- A tool definition; the parameters are a JSON schema. -/
structure IrTool where
  name : String := ""
  description : Option String := none
  parameters : Value := .null
  deriving DecidableEq, Inhabited

structure IrMessage where
  role : IrRole := .user
  content : Option IrContent := none
  name : Option String := none
  toolCalls : List IrToolCall := []
  toolCallId : Option String := none
  reasoningContent : Option String := none
  deriving DecidableEq, Inhabited

/-- Extensions of a request that some protocols have a place for. -/
structure IrExt where
  thinking : Option Value := none
  webSearch : Option Value := none
  cacheControl : Option Value := none
  topK : Option UInt32 := none
  serviceTier : Option String := none
  extra : Map := []
  deriving DecidableEq, Inhabited

/-- The name under which a Chat request gave its token limit. -/
inductive MaxTokensField where
  | maxTokens
  | maxCompletionTokens
  deriving DecidableEq, Inhabited

structure IrRequest where
  model : String := ""
  messages : List IrMessage := []
  tools : List IrTool := []
  toolChoice : Option Value := none
  temperature : Option Dyadic := none
  topP : Option Dyadic := none
  maxTokens : Option ℕ := none
  maxTokensField : Option MaxTokensField := none
  stop : Option (List String) := none
  stream : Bool := false
  streamIncludeUsage : Bool := false
  responseFormat : Option Value := none
  seed : Option ℤ := none
  user : Option String := none
  n : Option UInt32 := none
  ext : IrExt := {}
  extra : Map := []
  deriving DecidableEq, Inhabited

/-- Token usage. The prompt count excludes the tokens read from the cache. -/
structure IrUsage where
  promptTokens : ℕ := 0
  completionTokens : ℕ := 0
  cacheReadTokens : Option ℕ := none
  cacheWriteTokens : Option ℕ := none
  totalTokens : Option ℕ := none
  extra : Map := []
  deriving DecidableEq, Inhabited

structure IrChoice where
  index : UInt32 := 0
  message : IrMessage := {}
  finishReason : Option String := none
  deriving DecidableEq, Inhabited

structure IrResponse where
  id : String := ""
  model : String := ""
  created : ℤ := 0
  choices : List IrChoice := []
  usage : Option IrUsage := none
  systemFingerprint : Option String := none
  extra : Map := []
  deriving DecidableEq, Inhabited

/-- One fragment of a tool call in a stream. -/
structure IrToolCallDelta where
  index : UInt32 := 0
  id : Option String := none
  name : Option String := none
  arguments : Option String := none
  deriving DecidableEq, Inhabited

structure IrDelta where
  role : Option IrRole := none
  content : Option String := none
  reasoningContent : Option String := none
  toolCalls : List IrToolCallDelta := []
  deriving DecidableEq, Inhabited

structure IrChunkChoice where
  index : UInt32 := 0
  delta : IrDelta := {}
  finishReason : Option String := none
  deriving DecidableEq, Inhabited

structure IrChunk where
  id : String := ""
  model : String := ""
  created : ℤ := 0
  choices : List IrChunkChoice := []
  usage : Option IrUsage := none
  extra : Map := []
  deriving DecidableEq, Inhabited

/-- The delta of the first choice, the only one the single-candidate encoders read; a chunk
without choices has an empty delta. -/
def IrChunk.delta (chunk : IrChunk) : IrDelta :=
  match chunk.choices with
  | [] => {}
  | choice :: _ => choice.delta

/-- The finish reason of the first choice. -/
def IrChunk.finishReason (chunk : IrChunk) : Option String :=
  match chunk.choices with
  | [] => none
  | choice :: _ => choice.finishReason

/-! ### Assembling the tool calls of a stream -/

/-- The calls assembled so far, by index. -/
structure ToolCallAggregator where
  calls : List IrToolCall := []
  deriving DecidableEq, Inhabited

namespace ToolCallAggregator

/-- Appends a fragment to the call it belongs to. -/
def append (call : IrToolCall) (delta : IrToolCallDelta) : IrToolCall where
  id := call.id ++ delta.id.getD ""
  name := call.name ++ delta.name.getD ""
  arguments := call.arguments ++ delta.arguments.getD ""

/-- Feeds one fragment, adding empty calls up to its index when there are too few. -/
def feed (agg : ToolCallAggregator) (delta : IrToolCallDelta) : ToolCallAggregator :=
  let idx := delta.index.toNat
  let calls := agg.calls ++ List.replicate (idx + 1 - agg.calls.length) ({} : IrToolCall)
  ⟨calls.modify idx fun call ↦ append call delta⟩

def feedAll (agg : ToolCallAggregator) (deltas : List IrToolCallDelta) : ToolCallAggregator :=
  deltas.foldl feed agg

def finish (agg : ToolCallAggregator) : List IrToolCall := agg.calls

end ToolCallAggregator

/-! ### Finish reasons -/

/-- `to_ascii_lowercase`. -/
def toAsciiLowercase (s : String) : String := String.ofList (s.toList.map Char.toLower)

/-- Maps the finish reasons of all protocols to one vocabulary; an unknown reason stays, in lower
case. -/
def normalizeFinishReason (raw : String) : String :=
  match toAsciiLowercase raw with
  | "stop" | "end_turn" | "stop_sequence" | "completed" | "finished" => "stop"
  | "length" | "max_tokens" | "max_output_tokens" | "incomplete" => "length"
  | "tool_calls" | "tool_use" | "function_call" => "tool_calls"
  | "content_filter" | "safety" | "blocked" | "recitation" => "content_filter"
  | other => other

example : normalizeFinishReason "MAX_TOKENS" = "length" := by decide

/-! ### Conversion context -/

/-- A field or capability that a conversion could not carry over. -/
structure DegradedItem where
  field : String
  reason : String
  deriving DecidableEq, Inhabited

/-- The degradations a conversion records, in order. A conversion only ever appends to its context,
so it is modelled as returning the items it appends. -/
abbrev ConvCtx := List DegradedItem

/-- One degradation. -/
def degrade (field reason : String) : ConvCtx := [⟨field, reason⟩]

inductive ConvertError where
  | parse (message : String)
  | unsupported (message : String)
  deriving DecidableEq, Inhabited

/-- `filter_map` with a converter that may record degradations. -/
def filterMapCtx {α β : Type} (f : α → Option β × ConvCtx) (xs : List α) : List β × ConvCtx :=
  (xs.filterMap fun x ↦ (f x).1, xs.flatMap fun x ↦ (f x).2)

end NextApi.Ir
