import NextApi.Json.Codec
import NextApi.Logging.Event
import NextApi.Stream.Table
import NextApi.Text.Lines

/-!
# The write-ahead log

Events that the database refused are appended to a file, one JSON line for an event: its checksum
and the event. `WalWriter.append` writes the lines of a batch at once, to the active file or, when
that is full or there is none, to a new one. A write may stop after any number of bytes, and the
sync after it may fail with all of them written; the writer then keeps its active file and the
length it knew.

`decodeFile` reads a file back: the file must be text, and a line that does not decode is skipped.
-/

set_option autoImplicit false

namespace NextApi.Logging

open Json Text

/-- The checksum of the lines. -/
class Crc32 where
  hash : List UInt8 → UInt32

section Lines

variable [SerdeJson] [FieldText] [Crc32]

/-- The checksum of a text. -/
def textCrc (text : String) : UInt32 := Crc32.hash (encodeUtf8 text.toList)

/-- One line of the log. -/
def encodeLine (ev : LogEvent) : String :=
  let eventJson := SerdeJson.toText ev.toValue
  "\x7b\"crc\":" ++ toString (textCrc eventJson).toNat ++ ",\"event\":" ++ eventJson ++ "\x7d"

/-- Reads a line; the checksum is taken over the event printed again. -/
def decodeLine (line : String) : Option LogEvent :=
  match SerdeJson.ofText line with
  | .error _ => none
  | .ok v => do
    let crc ← (v.get? "crc").bind Value.asU64
    let event ← v.get? "event"
    if textCrc (SerdeJson.toText event) ≠ UInt32.ofNat crc then none else LogEvent.ofValue event

/-- The events of a text: lines that do not decode are skipped. -/
def decodeText (text : List Char) : List LogEvent :=
  (lines text).filterMap fun line ↦ decodeLine (String.ofList line)

/-- Reads a file; it fails when the bytes are no text. -/
def decodeFile (bytes : List UInt8) : Option (List LogEvent) := (decodeUtf8 bytes).map decodeText

/-- The text that a batch is appended as. -/
def batchText (events : List LogEvent) : List Char :=
  events.flatMap fun ev ↦ (encodeLine ev).toList ++ ['\n']

end Lines

/-! ### The writer -/

/-- The name of a file: the time it was made at and its number. -/
structure WalPath where
  nanos : ℕ
  seq : ℕ
  deriving DecidableEq, Inhabited

/-- The files of the log and what the writer knows. -/
structure WalWriter where
  maxBytes : ℕ
  files : Table WalPath (List UInt8) := ∅
  curPath : Option WalPath := none
  curSize : ℕ := 0
  seq : ℕ := 0

/-- How an append ends: well, with no directory to write to, or after a number of bytes. -/
inductive WriteOutcome where
  | written
  | noDirectory
  | failedAfter (bytes : ℕ)
  deriving DecidableEq, Inhabited

/-- The active file would grow over the limit; without a limit it never does. -/
def shouldRoll (curSize incoming maxBytes : ℕ) : Bool :=
  decide (0 < maxBytes) && decide (maxBytes < min (curSize + incoming) (2 ^ 64 - 1))

namespace WalWriter

/-- The bytes of a file, none when it does not exist. -/
def contents (w : WalWriter) (path : WalPath) : List UInt8 := (w.files.lookup path).getD []

/-- `write_all`: appends to a file, making it if need be. -/
def writeAll (w : WalWriter) (path : WalPath) (data : List UInt8) : WriteOutcome → WalWriter × Bool
  | .written => ({ w with files := w.files.insert path (w.contents path ++ data) }, true)
  | .noDirectory => (w, false)
  | .failedAfter bytes =>
    ({ w with files := w.files.insert path (w.contents path ++ data.take bytes) }, false)

/-- An append goes to a new file: there is no active one, or it is full. -/
def needNew (w : WalWriter) (dataLen : ℕ) : Bool :=
  match w.curPath with
  | none => true
  | some _ => shouldRoll w.curSize dataLen w.maxBytes

/-- The file that an append goes to. -/
def appendPath (w : WalWriter) (dataLen nanos : ℕ) : WalPath :=
  match w.needNew dataLen, w.curPath with
  | false, some path => path
  | _, _ => ⟨nanos, w.seq + 1⟩

/-- Appends a batch at a time, and whether that was reported as done. -/
def append [SerdeJson] [FieldText] [Crc32] (w : WalWriter) (events : List LogEvent) (nanos : ℕ)
    (outcome : WriteOutcome) : WalWriter × Bool :=
  if events.isEmpty then (w, true)
  else
    let buf := encodeUtf8 (batchText events)
    if outcome = .noDirectory then (w, false)
    else
      match w.needNew buf.length, w.curPath with
      | false, some path =>
        let (w, ok) := w.writeAll path buf outcome
        (if ok then { w with curSize := w.curSize + buf.length } else w, ok)
      | _, _ =>
        let seq := w.seq + 1
        let path : WalPath := ⟨nanos, seq⟩
        let (w, ok) := { w with seq := seq }.writeAll path buf outcome
        (if ok then { w with curPath := some path, curSize := buf.length } else w, ok)

end WalWriter

end NextApi.Logging
