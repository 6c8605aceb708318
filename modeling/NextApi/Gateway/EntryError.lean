import NextApi.Upstream.Codex
import NextApi.Upstream.Devin.Stream

/-!
# The error of a failed request

The body of an error has a form of its own in every protocol. `errorToIr` reads the error out of a
body, and `errorFromIr` writes it. A body that is no error object gives what can be had of it: for
Anthropic and Gemini a text is the message and any other value is printed; for OpenAI a text is the
message and any other value gives none.

When no candidate is left, the last error becomes the answer, in the protocol of the request
(`entryError`). The body of an upstream is read as an error of that protocol; a failure of the
credentials is not the client's, and is told in the words of the gateway.
-/

set_option autoImplicit false

namespace NextApi.Ir

open Json

structure IrError where
  status : ℕ := 0
  message : String := ""
  type : Option String := none
  code : Option String := none
  deriving DecidableEq, Inhabited

/-- `Protocol::as_str`. -/
def Protocol.asStr : Protocol → String
  | .openaiChat => "openai_chat"
  | .openaiResponses => "openai_responses"
  | .anthropic => "anthropic"
  | .gemini => "gemini"

section Reader

variable [SerdeJson]

/-- The message of a body that is no error object. -/
def fallbackBodyMessage (body : Value) : String :=
  match body.asStr with
  | some s => s
  | none => if body.isNull then "" else SerdeJson.toText body

/-- Reads the error out of a body. -/
def errorToIr (p : Protocol) (status : ℕ) (body : Value) : IrError :=
  let e := body["error"]
  match p with
  | .openaiChat | .openaiResponses =>
    { status := status
      message := e["message"].asStr.getD (body.asStr.getD "")
      type := e["type"].asStr
      code := e["code"].asStr.or (e["code"].asI64.map toString) }
  | .anthropic =>
    { status := status
      message := e["message"].asStr.getD (fallbackBodyMessage body)
      type := e["type"].asStr }
  | .gemini =>
    { status := status
      message := e["message"].asStr.getD (fallbackBodyMessage body)
      type := e["status"].asStr
      code := e["code"].asI64.map toString }

end Reader

/-- The gRPC status of an HTTP status. -/
def grpcStatus (status : ℕ) : String :=
  match status with
  | 400 => "INVALID_ARGUMENT"
  | 401 => "UNAUTHENTICATED"
  | 403 => "PERMISSION_DENIED"
  | 404 => "NOT_FOUND"
  | 408 | 504 => "DEADLINE_EXCEEDED"
  | 409 => "ABORTED"
  | 413 | 429 => "RESOURCE_EXHAUSTED"
  | 499 => "CANCELLED"
  | 501 => "UNIMPLEMENTED"
  | 503 | 529 => "UNAVAILABLE"
  | s => if 500 ≤ s then "INTERNAL" else "UNKNOWN"

/-- A type in the form of a gRPC status is kept, any other gives way to that of the HTTP status. -/
def geminiStatus (e : IrError) : String :=
  match e.type with
  | some t =>
    if t ≠ "" ∧ t.toList.all (fun c ↦ c.isUpper || c == '_') = true then t else grpcStatus e.status
  | none => grpcStatus e.status

/-- An optional text as JSON. -/
def textOrNull : Option String → Value
  | some s => .str s
  | none => .null

/-- Writes the body of an error. -/
def errorFromIr (p : Protocol) (e : IrError) : Value :=
  match p with
  | .openaiChat | .openaiResponses =>
    .object [("error", .object [("message", .str e.message),
      ("type", .str (e.type.getD "server_error")), ("code", textOrNull e.code)])]
  | .anthropic =>
    .object [("type", .str "error"), ("error", .object
      [("type", .str (e.type.getD "api_error")), ("message", .str e.message)])]
  | .gemini =>
    .object [("error", .object [("code", .ofNat e.status), ("message", .str e.message),
      ("status", .str (geminiStatus e))])]

/-- The message stands in the body in every protocol. -/
theorem message_errorFromIr (p : Protocol) (e : IrError) :
    (errorFromIr p e)["error"]["message"] = .str e.message := by
  cases p <;> simp [errorFromIr, Map.get?]

end NextApi.Ir

namespace NextApi.Gateway

open Json Ir

/-- Why a candidate has failed. -/
inductive Fail where
  | upstream (e : UpstreamError)
  | convert (e : ConvertError)
  deriving DecidableEq, Inhabited

/-- The text of an error of a conversion. -/
def convertErrorText : ConvertError → String
  | .parse message => "请求/响应解析失败: " ++ message
  | .unsupported message => "协议能力不支持: " ++ message

/-- The status, the code and the text of a failure of the credentials. -/
def UpstreamError.authFailure : UpstreamError → Option (ℕ × String × String)
  | .authFailed s message => some (s, (Devin.classify message).getD "unauthenticated", message)
  | .status s message =>
    if s = 401 ∨ s = 403 then
      some (s, (Devin.classify message).getD "unauthenticated", message)
    else (Devin.classify message).map fun code ↦ (s, code, message)
  | _ => none

/-- The message that is logged. -/
def failMessage : Fail → String
  | .upstream (.status _ body) => body
  | .upstream e => Codex.errorText e
  | .convert e => convertErrorText e

/-- The answer to a failure of the credentials. -/
def authError (code message : String) : IrError where
  status := 502
  message := "上游凭证失效（" ++ code ++ "）：" ++ message ++
    "（网关已临时跳过该上游，请在后台更新凭证）"
  type := some "upstream_auth_failed"
  code := some "upstream_auth_failed"

/-- An error that has no more than a message. -/
def plainError (status : ℕ) (message : String) : IrError where
  status := status
  message := message

section Writer

variable [SerdeJson]

/-- The error of an upstream that is not one of its credentials. -/
def statusError (entry : Protocol) (status : ℕ) (body : String) : IrError :=
  match SerdeJson.ofText body with
  | .ok j => errorToIr entry status j
  | .error _ => plainError status body

/-- The status of the answer when the body could not be converted. -/
def convertStatus : ConvertError → ℕ
  | .parse _ => 400
  | .unsupported _ => 502

/-- The status and the body of the answer. -/
def entryError (entry : Protocol) (fail : Fail) : ℕ × Value :=
  match fail with
  | .upstream e =>
    match e.authFailure with
    | some (_, code, message) => (502, errorFromIr entry (authError code message))
    | none =>
      match e with
      | .status s body => (s, errorFromIr entry (statusError entry s body))
      | other => (502, errorFromIr entry (plainError 502 (Codex.errorText other)))
  | .convert e =>
    (convertStatus e, errorFromIr entry (plainError (convertStatus e) (convertErrorText e)))

end Writer

end NextApi.Gateway
