import NextApi.Gateway.Attempts
import NextApi.Protocol.SseParser

/-!
# Consumers of a Codex stream

A Codex upstream answers with a stream of Responses events, over HTTP or over a WebSocket. Three
loops read it. For a request without streaming, one collects the HTTP events until it finds a
`response.completed`, whose response is the answer, and another does the same with the frames of a
WebSocket. For a request with streaming, the frames of the WebSocket are forwarded as server-sent
events until the connection ends.

Before the third loop starts, a first event is waited for a short time, so that an error can still
be answered by another attempt.

The HTTP events are the payloads that the parser of server-sent events finds in each chunk of the
body, and in the rest at its end. Messages of a WebSocket that are not text are only passed over.
Either connection may end, break, or stay open in silence; a timeout is a break.
-/

set_option autoImplicit false

namespace NextApi.Codex

open Json Gateway

/-- The message of an error. -/
def errorText : UpstreamError → String
  | .timeout => "上游超时"
  | .connect message => "连接失败: " ++ message
  | .status code body => "上游错误 " ++ toString code ++ ": " ++ body
  | .authFailed code message => "上游凭证失效(" ++ toString code ++ "): " ++ message
  | .bodyRead message => "响应读取失败: " ++ message

/-- An event of this type. -/
def hasType (type : String) (v : Value) : Bool := decide (v["type"].asStr = some type)

def isCompleted (v : Value) : Bool := hasType "response.completed" v

section Consumers

variable [SerdeJson]

/-- A JSON document, if the text is one. -/
def parse (text : String) : Option Value := (SerdeJson.ofText text).toOption

/-! ### HTTP -/

/-- How the body ends: with payloads that the parser has kept, with an error, or not at all. -/
inductive BodyEnd where
  | eof (rest : List String)
  | error (message : String)
  | silent

/-- Takes the response of a completed event. -/
def handle (completed : Option Value) (data : String) : Option Value :=
  if completed.isSome then completed
  else
    match parse data with
    | some v => if isCompleted v then v.get? "response" else none
    | none => none

/-- Collects the events until one is completed. There is no result while nothing comes. -/
def aggregateStreamToJson : List (List String) → BodyEnd → Option (Except UpstreamError Value)
  | chunk :: chunks, ending =>
    match chunk.foldl handle none with
    | some response => some (.ok response)
    | none => aggregateStreamToJson chunks ending
  | [], .eof rest =>
    match rest.foldl handle none with
    | some response => some (.ok response)
    | none => some (.error (.bodyRead "codex 流缺少 response.completed 帧"))
  | [], .error message => some (.error (.bodyRead message))
  | [], .silent => none

/-! ### Frames of a WebSocket -/

def isErrorFrame (v : Value) : Bool := hasType "error" v

/-- The HTTP status of an error frame. -/
def errorFrameStatus (v : Value) : ℕ :=
  (v["status"].asU64.filter fun s ↦ decide (100 ≤ s) && decide (s ≤ 599)).getD 502

def errorFrameCode (v : Value) : Option String :=
  (v["error"]["code"].asStr.or v["error"]["type"].asStr).or v["code"].asStr

def errorFrameMessage (v : Value) (raw : String) : String :=
  String.ofList (((v["error"]["message"].asStr.or v["message"].asStr).getD raw).toList.take 2048)

def errorFrameToUpstream (v : Value) (raw : String) : UpstreamError :=
  .status (errorFrameStatus v) (errorFrameMessage v raw)

/-- The data that is forwarded for a frame. -/
def frameData (v : Value) (text : String) : String :=
  if isErrorFrame v then
    SerdeJson.toText (.object ([("type", .str "error")] ++
      (errorFrameCode v).toList.map (fun code ↦ ("code", .str code)) ++
      [("message", .str (errorFrameMessage v text))]))
  else text

/-- A frame as a server-sent event, and whether it is the completed one. -/
def frameToSse (text : String) : Option (List Char × Bool) :=
  (parse text).map fun v ↦ (Sse.encodeTypedEvent (frameData v text), isCompleted v)

inductive Message where
  | text (raw : String)
  | other

/-- How the connection ends: closed by a frame, at its end, by an error, or not at all. -/
inductive WsEnd where
  | close
  | eof
  | error (e : UpstreamError)
  | silent
  deriving DecidableEq

/-- Reads frames until one is completed. -/
def executeNonstream : List Message → WsEnd → Option (Except UpstreamError Value)
  | .text raw :: rest, ending =>
    match parse raw with
    | none => executeNonstream rest ending
    | some v =>
      if isErrorFrame v then some (.error (errorFrameToUpstream v raw))
      else if isCompleted v then some (.ok ((v.get? "response").getD v))
      else executeNonstream rest ending
  | .other :: rest, ending => executeNonstream rest ending
  | [], .close => some (.error (.bodyRead "codex ws 在 response.completed 前关闭"))
  | [], .eof => some (.error (.bodyRead "codex ws 流缺少 response.completed 帧"))
  | [], .error e => some (.error e)
  | [], .silent => none

/-- The frames that are forwarded, and whether the stream ends. -/
structure Forwarded where
  items : List (Except String (List Char))
  ended : Bool
  deriving DecidableEq

/-- Forwards frames until the connection ends. -/
def wsStream (completed : Bool) : List Message → WsEnd → Forwarded
  | .text raw :: rest, ending =>
    match frameToSse raw with
    | some (bytes, last) =>
      let after := wsStream (completed || last) rest ending
      { after with items := .ok bytes :: after.items }
    | none => wsStream completed rest ending
  | .other :: rest, ending => wsStream completed rest ending
  | [], .close =>
    ⟨if completed then [] else [.error "codex ws 在 response.completed 前被关闭"], true⟩
  | [], .eof => ⟨if completed then [] else [.error "codex ws 连接已结束"], true⟩
  | [], .error e => ⟨[.error (errorText e)], true⟩
  | [], .silent => ⟨[], false⟩

/-- Waits for a first event, for as long as `window` messages take to come. -/
def awaitFirst : ℕ → List Message → WsEnd →
    Except UpstreamError (List (List Char) × List Message)
  | 0, messages, _ => .ok ([], messages)
  | window + 1, .text raw :: rest, ending =>
    match parse raw with
    | none => awaitFirst window rest ending
    | some v =>
      if isErrorFrame v then .error (errorFrameToUpstream v raw)
      else .ok ([Sse.encodeTypedEvent (frameData v raw)], rest)
  | window + 1, .other :: rest, ending => awaitFirst window rest ending
  | _ + 1, [], .close => .error (.connect "websocket 在首个事件前关闭")
  | _ + 1, [], .eof => .error (.connect "websocket 在首个事件前关闭")
  | _ + 1, [], .error e => .error e
  | _ + 1, [], .silent => .ok ([], [])

/-- The stream after its first event. -/
def resume (ending : WsEnd) (first : List (List Char) × List Message) : Forwarded :=
  let after := wsStream false first.2 ending
  { after with items := first.1.map .ok ++ after.items }

/-- Waits for the first event and forwards from there. -/
def executeStream (window : ℕ) (messages : List Message) (ending : WsEnd) :
    Except UpstreamError Forwarded :=
  (awaitFirst window messages ending).map (resume ending)

end Consumers

end NextApi.Codex
