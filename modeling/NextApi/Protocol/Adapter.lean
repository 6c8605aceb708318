import NextApi.Protocol.Anthropic.Stream
import NextApi.Protocol.Chat.Stream
import NextApi.Protocol.Gemini.Stream
import NextApi.Protocol.Responses.Response

/-!
# The four adapters

A response is converted by reading it with the adapter of the upstream's protocol and writing it
with that of the client's. A stream is converted event by event: the reader gives at most one chunk
an event, and an event that it cannot read is left out; the writer gives any number of payloads a
chunk, and some at the end (`streamPayloads`).

The code pairs every call with a state of the same protocol. Here the type of the state is that of
the protocol, so that no other pair can be built.
-/

set_option autoImplicit false

namespace NextApi

open Json Ir

/-! ### Complete responses -/

section Complete

variable [SerdeJson]

def responseToIr : Protocol → Value → Except ConvertError (IrResponse × ConvCtx)
  | .openaiChat => Chat.responseToIr
  | .openaiResponses => Responses.responseToIr
  | .anthropic => Anthropic.responseToIr
  | .gemini => Gemini.responseToIr

def responseFromIr [Responses.RandSuffix] : Protocol → IrResponse → Value × ConvCtx
  | .openaiChat => Chat.responseFromIr
  | .openaiResponses => Responses.responseFromIr
  | .anthropic => Anthropic.responseFromIr
  | .gemini => Gemini.responseFromIr

end Complete

/-! ### Streams -/

/-- The state of a stream of this protocol, for both directions. -/
def StreamStateOf : Protocol → Type
  | .openaiChat => Chat.StreamState
  | .openaiResponses => Responses.StreamState
  | .anthropic => Anthropic.StreamState
  | .gemini => Gemini.StreamState

def newStream : (p : Protocol) → StreamStateOf p
  | .openaiChat => ({} : Chat.StreamState)
  | .openaiResponses => ({} : Responses.StreamState)
  | .anthropic => ({} : Anthropic.StreamState)
  | .gemini => ({} : Gemini.StreamState)

section Streams

variable [SerdeJson]

/-- Reads the payload of one event. -/
def chunkToIr : (p : Protocol) → String → StreamStateOf p → Decoding (StreamStateOf p)
  | .openaiChat => Chat.chunkToIrText
  | .openaiResponses => Responses.chunkToIrText
  | .anthropic => Anthropic.chunkToIrText
  | .gemini => Gemini.chunkToIrText

/-- The chunk of an event, if it was read and says something. -/
def chunkOf {σ : Type} (read : Decoding σ) : Option IrChunk :=
  match read.answer with
  | .ok chunk => chunk
  | .error _ => none

/-- The reader as a transducer from payloads to chunks. -/
def decodeStep (p : Protocol) (st : StreamStateOf p) (data : String) :
    StreamStateOf p × List IrChunk :=
  ((chunkToIr p data st).st, (chunkOf (chunkToIr p data st)).toList)

/-- The chunks of a stream. -/
def decodeStream (p : Protocol) (datas : List String) : List IrChunk :=
  (Stream.run (decodeStep p) (newStream p) datas).2

variable [Responses.RandSuffix] [Gemini.HashOrder]

/-- The events of one chunk. -/
def chunkFromIr : (p : Protocol) → IrChunk → StreamStateOf p → Emission (StreamStateOf p)
  | .openaiChat => Chat.chunkFromIr
  | .openaiResponses => Responses.chunkFromIr
  | .anthropic => Anthropic.chunkFromIr
  | .gemini => Gemini.chunkFromIr

/-- The events at the end of a stream, which the upstream may have broken off. -/
def streamEnd : (p : Protocol) → StreamStateOf p → Bool → List Value
  | .openaiChat, _, _ => []
  | .openaiResponses, st, failed =>
    (Responses.streamEnd (if failed then Responses.StreamState.markFailed st else st)).events
  | .anthropic, st, failed =>
    (Anthropic.streamEnd (if failed then Anthropic.StreamState.markFailed st else st)).events
  | .gemini, st, _ => (Gemini.streamEnd st).events

/-- The payloads after the last event. -/
def doneMarkers : Protocol → List String
  | .openaiChat => Chat.streamEnd
  | _ => []

/-- The writer as a transducer from chunks to events. -/
def encodeStep (p : Protocol) (st : StreamStateOf p) (chunk : IrChunk) :
    StreamStateOf p × List Value :=
  ((chunkFromIr p chunk st).st, (chunkFromIr p chunk st).events)

/-- The events of a stream, without the marker at the end. -/
def streamEvents (p : Protocol) (chunks : List IrChunk) (failed : Bool) : List Value :=
  (Stream.run (encodeStep p) (newStream p) chunks).2 ++
    streamEnd p (Stream.run (encodeStep p) (newStream p) chunks).1 failed

/-- What is sent to the client, payload by payload. -/
def streamPayloads (p : Protocol) (chunks : List IrChunk) (failed : Bool) : List String :=
  (streamEvents p chunks failed).map SerdeJson.toText ++ doneMarkers p

end Streams

end NextApi
