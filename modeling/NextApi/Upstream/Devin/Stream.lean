import Mathlib.Data.List.Infix
import NextApi.Gateway.Attempts
import NextApi.Json.Codec
import NextApi.Upstream.Devin.Convert

/-!
# Answers of a Devin upstream

The chunks of the network are cut into frames, and the frames become Responses events. A frame has
a message, or it is the end frame, which may have an error. For a request with streaming the events
are sent as they come; when the stream breaks off after its first event, an event says so, and
before that the error itself is the answer. For a request without streaming the events are dropped
and the response is sent when the stream has ended.

An event is sent as `encode_typed_event` of its text; here it is the JSON value.
-/

set_option autoImplicit false

namespace NextApi.Devin

open Json Gateway

/-- What comes from the network: chunks, and an error unless the connection ends. -/
structure Source where
  chunks : List (List UInt8)
  failure : Option String := none

/-! ### Frames -/

def isEnd (frame : Frame) : Bool := decide (frame.1 &&& 2 ≠ 0)

def isCompressed (frame : Frame) : Bool := decide (frame.1 &&& 1 ≠ 0)

section Frames

variable [SerdeJson]

/-- The error of an end frame, if it has one. -/
def endFrameError (payload : List UInt8) : Option String :=
  if payload.isEmpty then none
  else
    ((Text.decodeUtf8 payload).bind fun text ↦
      (SerdeJson.ofText (String.ofList text)).toOption).bind fun v ↦
        if v = .obj [] then none
        else
          let member (key : String) : String :=
            (((v.get? key).or ((v.get? "error").bind fun e ↦ e.get? key)).bind Value.asStr).getD ""
          let code := member "code"
          let msg := member "message"
          if code = "" ∧ msg = "" ∧ (v.get? "error").isNone then none
          else if code = "" then some msg
          else if msg = "" then some code
          else some (code ++ ": " ++ msg)

variable [MadeUp]

/-- Takes in a frame. -/
def frameEvents (conv : StreamConv) (frame : Frame) : StreamConv × Except String (List Value) :=
  if isEnd frame then
    match endFrameError frame.2 with
    | some message => (conv, .error message)
    | none => (conv.finish.1, .ok conv.finish.2)
  else if isCompressed frame then (conv, .error "不支持压缩信封帧")
  else conv.feed frame.2

/-! ### Streaming -/

/-- What was made of the frames so far. -/
structure StreamState where
  buf : List UInt8 := []
  conv : StreamConv
  endSeen : Bool := false
  events : List Value := []
  failure : Option String := none

namespace StreamState

/-- Takes in a frame, unless there was an error. -/
def onFrame (st : StreamState) (frame : Frame) : StreamState :=
  if st.failure.isSome then st
  else
    let st := { st with endSeen := st.endSeen || isEnd frame }
    match frameEvents st.conv frame with
    | (conv, .ok events) => { st with conv, events := st.events ++ events }
    | (conv, .error message) => { st with conv, failure := some message }

/-- Takes in a chunk, unless there was an error. -/
def onChunk (st : StreamState) (chunk : List UInt8) : StreamState :=
  if st.failure.isSome then st
  else
    match feedFrames st.buf chunk with
    | .error message => { st with failure := some message }
    | .ok (frames, buf) => frames.foldl onFrame { st with buf }

/-- The answer when the stream breaks off: nothing but the error before the first event. -/
def breakOff (st : StreamState) (message : String) : List (Except String Value) :=
  (st.events.map .ok) ++
    if st.conv.created then (st.conv.fail message).2.map .ok else [.error message]

/-- The answer when the connection has ended or broken. -/
def close (st : StreamState) (failure : Option String) : List (Except String Value) :=
  match st.failure.or failure with
  | some message => st.breakOff message
  | none =>
    if st.endSeen then (st.events ++ st.conv.finish.2).map .ok
    else st.breakOff "连接中断：未收到结束帧"

end StreamState

/-- The answer to a request with streaming. -/
def frameSseStream (model : String) (src : Source) : List (Except String Value) :=
  (src.chunks.foldl StreamState.onChunk { conv := .new model }).close src.failure

/-! ### Without streaming -/

def authCodes : List String :=
  ["unauthenticated", "invalid_token", "invalid token", "invalid api key", "invalid_api_key",
    "invalid api-key", "incorrect api key", "token expired", "token has expired",
    "access token expired", "expired token", "authentication_error", "invalid credentials"]

/-- The code of an error of the credentials. -/
def classify (text : String) : Option String :=
  authCodes.find? fun code ↦ decide (code.toList <:+: text.toList.map Char.toLower)

def frameError (message : String) : UpstreamError :=
  match classify message with
  | some _ => .authFailed 200 message
  | none => .status 502 message

/-- Takes in frames; their events are dropped. -/
def collectFrames (conv : StreamConv) (endSeen : Bool) :
    List Frame → Except UpstreamError (StreamConv × Bool)
  | [] => .ok (conv, endSeen)
  | frame :: rest =>
    match frameEvents conv frame with
    | (_, .error message) => .error (frameError message)
    | (conv, .ok _) => collectFrames conv (endSeen || isEnd frame) rest

/-- Takes in chunks. -/
def collectChunks (buf : List UInt8) (conv : StreamConv) (endSeen : Bool) :
    List (List UInt8) → Except UpstreamError (StreamConv × Bool)
  | [] => .ok (conv, endSeen)
  | chunk :: rest =>
    match feedFrames buf chunk with
    | .error message => .error (.bodyRead message)
    | .ok (frames, buf) =>
      (collectFrames conv endSeen frames).bind fun collected ↦
        collectChunks buf collected.1 collected.2 rest

/-- The answer to a request without streaming. -/
def executeNonstream (model : String) (src : Source) : Except UpstreamError Value :=
  (collectChunks [] (.new model) false src.chunks).bind fun collected ↦
    match src.failure with
    | some message => .error (.bodyRead message)
    | none =>
      if !collected.2 then .error (.bodyRead "连接中断：未收到结束帧")
      else .ok collected.1.finish.1.finalJson

end Frames

end NextApi.Devin
