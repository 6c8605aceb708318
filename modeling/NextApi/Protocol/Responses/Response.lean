import NextApi.Protocol.Responses.Request
import NextApi.Protocol.Responses.Stream

/-!
# Responses

A response is a list of output items, and the representation one choice: `responseToIr` joins the
texts of the messages and of the summaries and collects the calls, and the status of the response
becomes the finish reason of the choice. `responseFromIr` writes the items of all choices, each
with an id of its own, and derives the status from the finish reason of the first choice.
-/

set_option autoImplicit false

namespace NextApi.Responses

open Json Ir

/-- The response members that have a reader; all others are carried as `extra`. -/
def knownResponseFields : List String :=
  ["id", "object", "created_at", "status", "model", "output", "usage"]

/-! ### Reading a response -/

/-- The last part is extended when it is a text. -/
def appendToParts (text : String) : List IrPart → List IrPart
  | [] => [.text text]
  | [.text t] => [.text (t ++ text)]
  | [p] => [p, .text text]
  | p :: rest => p :: appendToParts text rest

/-- Appends text to the content of a message. -/
def appendMessageText (msg : IrMessage) (text : String) : IrMessage :=
  if text = "" then msg
  else
    { msg with
      content := some
        (match msg.content with
        | some (.text s) => .text (s ++ text)
        | some (.parts ps) => .parts (appendToParts text ps)
        | none => .text text) }

/-- The text of a message item; parts without a text are degraded. -/
def messageItemText (content : List Value) : String × ConvCtx :=
  (String.join (content.filterMap fun part ↦ part["text"].asStr),
    (content.filter fun part ↦ part["text"].asStr.isNone).flatMap fun _ ↦
      degrade "output.message.content.part" "未知 message content part，忽略")

/-- The text of a reasoning item. -/
def summaryText (summary : List Value) : String :=
  String.join (summary.filterMap fun s ↦ s["text"].asStr)

/-- Reads an output item into the message. -/
def readOutputItem [SerdeJson] (acc : IrMessage × ConvCtx) (item : Value) : IrMessage × ConvCtx :=
  let (msg, ctx) := acc
  match item["type"].strOrEmpty with
  | "message" =>
    match (item.get? "content").bind Value.asArray with
    | some content =>
      let (text, partCtx) := messageItemText content
      (appendMessageText msg text, ctx ++ partCtx)
    | none => acc
  | "function_call" => ({ msg with toolCalls := msg.toolCalls ++ [parseFunctionCall item] }, ctx)
  | "reasoning" =>
    let text := summaryText (((item.get? "summary").bind Value.asArray).getD [])
    if text = "" then acc
    else ({ msg with reasoningContent := some (msg.reasoningContent.getD "" ++ text) }, ctx)
  | other => (msg, ctx ++ degrade "output.item.type" ("未知输出项类型: " ++ other))

/-- Reads a response. -/
def responseToIr [SerdeJson] (v : Value) : Except ConvertError (IrResponse × ConvCtx) := do
  let some obj := v.asObject | .error (.parse "响应体不是对象")
  let (message, ctx) :=
    (((v.get? "output").bind Value.asArray).getD []).foldl readOutputItem ({ role := .assistant }, [])
  let status := v["status"].asStr
  let details := if status = some "incomplete" then v.get? "incomplete_details" else none
  return (
    { id := v["id"].strOrEmpty
      model := v["model"].strOrEmpty
      created := v["created_at"].asI64.getD 0
      choices := [{ message := message, finishReason := status.map normalizeFinishReason }]
      usage := (v.get? "usage").map parseUsage
      extra := Map.insertAll (Map.insertOpt [] "incomplete_details" details)
        (Map.without obj knownResponseFields) },
    ctx)

/-! ### Writing a response -/

def roleToResponseStr : IrRole → String
  | .system => "system"
  | .user => "user"
  | .assistant => "assistant"
  | .tool => "tool"

def responseMessageItem (role : IrRole) (text id : String) : Value :=
  .object
    [("id", .str id), ("type", .str "message"), ("status", .str "completed"),
      ("role", .str (roleToResponseStr role)), ("content", textParts "output_text" text)]

def responseFunctionCallItem (tc : IrToolCall) (id : String) : Value :=
  .object
    [("id", .str id), ("type", .str "function_call"), ("status", .str "completed"),
      ("call_id", .str tc.id), ("name", .str tc.name), ("arguments", .str tc.arguments)]

/-- The items of a choice, each waiting for the suffix of its id. -/
def choiceItems (ch : IrChoice) : List (String → Value) :=
  (ch.message.content.map fun content suffix ↦
    responseMessageItem ch.message.role (contentAsText (some content)) ("msg_" ++ suffix)).toList ++
  (ch.message.toolCalls.map fun tc suffix ↦ responseFunctionCallItem tc ("fc_" ++ suffix)) ++
  (ch.message.reasoningContent.map fun rc suffix ↦ outputReasoningItem rc ("rs_" ++ suffix)).toList

/-- The status of a response, by the finish reason of its first choice. -/
def statusOf (resp : IrResponse) : String :=
  match resp.choices.head?.bind IrChoice.finishReason with
  | some "length" => "incomplete"
  | some "failed" => "failed"
  | _ => if (Map.get? resp.extra "incomplete_details").isSome then "incomplete" else "completed"

/-- Writes a response. It cannot fail. -/
def responseFromIr [RandSuffix] (resp : IrResponse) : Value × ConvCtx :=
  let status := statusOf resp
  let output := (resp.choices.flatMap choiceItems).mapIdx fun i item ↦ item (RandSuffix.suffix i)
  let usage := resp.usage.map usageFromIr
  (.obj (Map.insertPresent resp.extra
    [("id", some (.str resp.id)),
      ("object", some (.str "response")),
      ("created_at", some (.int resp.created)),
      ("model", some (.str resp.model)),
      ("status", some (.str status)),
      ("incomplete_details",
        (Map.get? resp.extra "incomplete_details").or
          (if status = "incomplete" then some (.object [("reason", .str "max_output_tokens")])
          else none)),
      ("error",
        if status = "failed" then
          some (.object [("code", .str "server_error"), ("message", .str "上游响应失败")])
        else none),
      ("output", some (.arr output)),
      ("usage", usage.map Prod.fst)]),
    (if 1 < resp.choices.length then
      degrade "choices"
        ("多候选（" ++ toString resp.choices.length ++ "）平铺为单个 response 的 output")
    else []) ++ (usage.map Prod.snd).getD [])

end NextApi.Responses
