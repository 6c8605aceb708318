import NextApi.Protocol.Ir
import NextApi.Stream.Run
import NextApi.Stream.Table

/-!
# What one call of a stream converter does

A stream encoder updates its state, appends events to a list and degradations to its context.
`Emission` is that triple while one call runs: a stage of the encoder is a function from emissions
to emissions. An event is the JSON value that the code serialises with `event_str`; serialising a
`serde_json::Value` cannot fail, so neither can the encoders.

A stream decoder reads one event and answers with a chunk, with nothing, or with an error
(`Decoding`).

`Emission.Sees` is how a stage is verified: after the events so far, a reader of the events is in
a state that stands in a given relation to the encoder's state.

`transcript` is what a client holds that appends the deltas of a stream: the text, the reasoning,
and for every fragment of a tool call the id and the name of the call it belongs to. A fragment
belongs to the call of its index; an id or a name given later for an index replaces the earlier
one.
-/

set_option autoImplicit false

namespace NextApi.Ir

open Json

variable {σ τ : Type}

/-- The state, the events and the degradations of an encoder call so far. -/
structure Emission (σ : Type) where
  st : σ
  events : List Value := []
  degraded : ConvCtx := []

namespace Emission

def emit (e : Emission σ) (event : Value) : Emission σ :=
  { e with events := e.events ++ [event] }

def degrade (e : Emission σ) (field reason : String) : Emission σ :=
  { e with degraded := e.degraded ++ Ir.degrade field reason }

def withState (e : Emission σ) (st : σ) : Emission σ := { e with st := st }

@[simp] theorem emit_st (e : Emission σ) (event : Value) : (e.emit event).st = e.st := rfl

@[simp] theorem emit_events (e : Emission σ) (event : Value) :
    (e.emit event).events = e.events ++ [event] := rfl

@[simp] theorem degrade_st (e : Emission σ) (field reason : String) :
    (e.degrade field reason).st = e.st := rfl

@[simp] theorem degrade_events (e : Emission σ) (field reason : String) :
    (e.degrade field reason).events = e.events := rfl

@[simp] theorem withState_st (e : Emission σ) (st : σ) : (e.withState st).st = st := rfl

@[simp] theorem withState_events (e : Emission σ) (st : σ) :
    (e.withState st).events = e.events := rfl

/-- A reader that was at `t` before the call stands, after the events so far, in relation `R` to
the encoder's state. -/
def Sees (read : τ → Value → τ) (t : τ) (R : σ → τ → Prop) (e : Emission σ) : Prop :=
  R e.st (e.events.foldl read t)

/-- The step of the transducer that a stream encoder is. -/
def toStep (e : Emission σ) : σ × List Value := (e.st, e.events)

end Emission

/-- The state, the answer and the degradations of a decoder call. -/
structure Decoding (σ : Type) where
  st : σ
  answer : Except ConvertError (Option IrChunk)
  degraded : ConvCtx := []

/-! ### What a stream of chunks says -/

/-- A fragment of arguments with the id and the name of its call. -/
structure CallFragment where
  id : String
  name : String
  fragment : String
  deriving DecidableEq

structure Transcript where
  text : String := ""
  reasoning : String := ""
  announced : Table UInt32 (String × String) := ∅
  calls : List CallFragment := []

namespace Transcript

/-- Appends a fragment of a tool call. -/
def tool (t : Transcript) (tc : IrToolCallDelta) : Transcript :=
  let old := (t.announced.lookup tc.index).getD ("", "")
  let id := tc.id.getD old.1
  let name := tc.name.getD old.2
  { t with
    announced := t.announced.insert tc.index (id, name)
    calls := t.calls ++ [⟨id, name, tc.arguments.getD ""⟩] }

/-- Appends text. -/
def say (t : Transcript) (text : String) : Transcript := { t with text := t.text ++ text }

/-- Appends reasoning. -/
def think (t : Transcript) (reasoning : String) : Transcript :=
  { t with reasoning := t.reasoning ++ reasoning }

@[simp] theorem say_empty (t : Transcript) : t.say "" = t := by
  simp [say]

@[simp] theorem think_empty (t : Transcript) : t.think "" = t := by
  simp [think]

/-- Appends a delta. -/
def delta (t : Transcript) (d : IrDelta) : Transcript :=
  d.toolCalls.foldl tool ((t.say (d.content.getD "")).think (d.reasoningContent.getD ""))

/-- Appends the first choice of a chunk. -/
def chunk (t : Transcript) (c : IrChunk) : Transcript := t.delta c.delta

/-- A call of this id has this name. -/
def Called (t : Transcript) (id name : String) : Prop :=
  ∃ fragment, ⟨id, name, fragment⟩ ∈ t.calls

/-- The arguments of the calls of this id. -/
def arguments (t : Transcript) (id : String) : String :=
  String.join ((t.calls.filter fun c ↦ decide (c.id = id)).map CallFragment.fragment)

end Transcript

def transcript (chunks : List IrChunk) : Transcript := chunks.foldl Transcript.chunk {}

/-- The fragments that say something. -/
def Transcript.spoken (t : Transcript) : List CallFragment :=
  t.calls.filter fun c ↦ decide (c.fragment ≠ "")

/-- Empty fragments do not count: transcripts whose other fragments agree give every call the same
arguments. -/
theorem Transcript.arguments_eq_of_spoken {t t' : Transcript} (h : t.spoken = t'.spoken)
    (id : String) : t.arguments id = t'.arguments id := by
  have hjoin (calls : List CallFragment) :
      String.join ((calls.filter fun c ↦ decide (c.id = id)).map CallFragment.fragment) =
        String.join (((calls.filter fun c ↦ decide (c.fragment ≠ "")).filter
          fun c ↦ decide (c.id = id)).map CallFragment.fragment) := by
    induction calls with
    | nil => rfl
    | cons c rest ih =>
      by_cases hid : c.id = id
      · by_cases hempty : c.fragment = ""
        · simpa [hid, hempty, String.join_cons] using ih
        · simpa [hid, hempty, String.join_cons] using ih
      · by_cases hempty : c.fragment = ""
        · simpa [hid, hempty] using ih
        · simpa [hid, hempty] using ih
  unfold arguments
  rw [hjoin t.calls, hjoin t'.calls]
  exact congrArg (fun calls : List CallFragment ↦ String.join
    ((calls.filter fun c ↦ decide (c.id = id)).map CallFragment.fragment)) h

end NextApi.Ir
