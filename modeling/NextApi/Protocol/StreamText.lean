import NextApi.Protocol.Gemini.PartOrder
import NextApi.Protocol.ToolStop

/-!
# What the events of a stream tell

An event tells a piece of the text and a piece of the thoughts of the first choice, the one with
index 0 (`textIn`, `thoughtIn`), and it may say that the response ended as it should (`Succeeds`).

`Tells` is how the stages of an encoder are verified: the events that a stage adds tell this text
and these thoughts, and have a given property.
-/

set_option autoImplicit false

namespace NextApi

open Json Ir

/-! ### Texts and thoughts -/

/-- What an event tells of the first choice. -/
structure Told where
  text : String := ""
  thought : String := ""
  deriving DecidableEq, Inhabited

namespace Told

/-- One after the other. -/
def append (a b : Told) : Told := ⟨a.text ++ b.text, a.thought ++ b.thought⟩

instance : Append Told := ⟨append⟩

@[simp] theorem append_text (a b : Told) : (a ++ b).text = a.text ++ b.text := rfl

@[simp] theorem append_thought (a b : Told) : (a ++ b).thought = a.thought ++ b.thought := rfl

@[ext] theorem ext {a b : Told} (htext : a.text = b.text) (hthought : a.thought = b.thought) :
    a = b := by
  cases a
  cases b
  simp_all

theorem append_assoc (a b c : Told) : a ++ b ++ c = a ++ (b ++ c) :=
  ext (String.append_assoc ..) (String.append_assoc ..)

theorem empty_append (a : Told) : ({} : Told) ++ a = a :=
  ext String.empty_append String.empty_append

theorem append_empty (a : Told) : a ++ ({} : Told) = a :=
  ext String.append_empty String.append_empty

/-- A text and then a thought. -/
theorem text_append_thought (text thought : String) :
    (⟨text, ""⟩ : Told) ++ ⟨"", thought⟩ = ⟨text, thought⟩ :=
  ext String.append_empty String.empty_append

theorem append_right_inj (a : Told) {b c : Told} : a ++ b = a ++ c ↔ b = c := by
  constructor
  · intro h
    have htext := congrArg Told.text h
    have hthought := congrArg Told.thought h
    rw [append_text, append_text, String.append_right_inj] at htext
    rw [append_thought, append_thought, String.append_right_inj] at hthought
    exact ext htext hthought
  · intro h
    rw [h]

/-- All of it, in order. -/
def join : List Told → Told
  | [] => {}
  | t :: rest => t ++ join rest

@[simp] theorem join_nil : join [] = {} := rfl

@[simp] theorem join_cons (t : Told) (rest : List Told) : join (t :: rest) = t ++ join rest := rfl

theorem join_append (ts us : List Told) : join (ts ++ us) = join ts ++ join us := by
  induction ts with
  | nil => exact (empty_append _).symm
  | cons t rest ih => rw [List.cons_append, join_cons, ih, join_cons, append_assoc]

theorem join_singleton (t : Told) : join [t] = t := append_empty t

/-- Two accounts of the same things agree at all times when they agree on each thing. -/
theorem join_prefixes_iff {α : Type} {f g : α → Told} {xs : List α} :
    (∀ before, before <+: xs → join (before.map f) = join (before.map g)) ↔
      ∀ x ∈ xs, f x = g x := by
  constructor
  · intro h x hx
    obtain ⟨before, after, rfl⟩ := List.append_of_mem hx
    have hbefore := h before (List.prefix_append _ _)
    have hwith := h (before ++ [x]) ⟨after, (List.append_cons before x after).symm⟩
    rw [List.map_append, List.map_append, join_append, join_append, hbefore, append_right_inj,
      List.map_singleton, List.map_singleton, join_singleton, join_singleton] at hwith
    exact hwith
  · intro h before hbefore
    rw [List.map_congr_left fun x hx ↦ h x (hbefore.subset hx)]

end Told

/-! ### Events -/

/-- A choice or candidate is the first when its index is 0 or missing. -/
def isFirst (choice : Value) : Bool := choice["index"].asU64.getD 0 == 0

/-- What a Chat choice tells. -/
def toldByChoice (choice : Value) : Told :=
  ⟨choice["delta"]["content"].strOrEmpty, choice["delta"]["reasoning_content"].strOrEmpty⟩

/-- What a Gemini candidate tells: its texts, and its thoughts. -/
def toldByCandidate (c : Value) : Told :=
  let parts := ((c.get? "content").map Gemini.partsOf).getD []
  ⟨String.join (parts.filterMap Gemini.textOf), String.join (parts.filterMap Gemini.thoughtOf)⟩

/-- What an event tells of the first choice. -/
def toldIn : Protocol → Value → Told
  | .openaiChat, v => Told.join (((choicesOf v).filter isFirst).map toldByChoice)
  | .openaiResponses, v =>
    match v["type"].strOrEmpty with
    | "response.output_text.delta" => ⟨v["delta"].strOrEmpty, ""⟩
    | "response.reasoning_summary_text.delta" => ⟨"", v["delta"].strOrEmpty⟩
    | _ => {}
  | .anthropic, v =>
    match v["type"].strOrEmpty with
    | "content_block_delta" =>
      match v["delta"]["type"].strOrEmpty with
      | "text_delta" => ⟨v["delta"]["text"].strOrEmpty, ""⟩
      | "thinking_delta" => ⟨"", v["delta"]["thinking"].strOrEmpty⟩
      | _ => {}
    | _ => {}
  | .gemini, v => Told.join (((Gemini.candidatesIn v).filter isFirst).map toldByCandidate)

/-- What a list of events tells. -/
def told (p : Protocol) (events : List Value) : Told := Told.join (events.map (toldIn p))

theorem told_append (p : Protocol) (events more : List Value) :
    told p (events ++ more) = told p events ++ told p more := by
  rw [told, List.map_append, Told.join_append]
  rfl

@[simp] theorem told_nil (p : Protocol) : told p [] = {} := rfl

theorem told_singleton (p : Protocol) (event : Value) : told p [event] = toldIn p event :=
  Told.join_singleton _

/-! ### Success -/

/-- The event says that the response ended normally, at a limit or for a tool. -/
def Succeeds : Protocol → Value → Prop
  | .openaiChat, v => ∃ reason ∈ choiceReasons v, reason ∈ ["stop", "length", "tool_calls"]
  | .openaiResponses, v =>
    v["type"].strOrEmpty = "response.completed" ∨ v["type"].strOrEmpty = "response.incomplete"
  | .anthropic, v => v["delta"]["stop_reason"] ≠ .null ∨ v["message"]["stop_reason"] ≠ .null
  | .gemini, v =>
    ∃ cand ∈ Gemini.candidatesIn v, cand["finishReason"].strOrEmpty ∈ ["STOP", "MAX_TOKENS"]

/-- The finish reasons of a success. -/
def successReasons : List String := ["stop", "length", "tool_calls"]

/-! ### The stages of an encoder -/

section Stages

variable {σ : Type} {p : Protocol} {P Q : Value → Prop} {t u : Told} {e e' e'' : Emission σ}

/-- The events that are added tell this and have the property. -/
def Tells (p : Protocol) (P : Value → Prop) (t : Told) (e e' : Emission σ) : Prop :=
  ∃ new, e'.events = e.events ++ new ∧ (∀ event ∈ new, P event) ∧ told p new = t

theorem Tells.refl (e : Emission σ) : Tells p P {} e e :=
  ⟨[], (List.append_nil _).symm, fun _ h ↦ (List.not_mem_nil h).elim, rfl⟩

theorem Tells.trans (h : Tells p P t e e') (h' : Tells p P u e' e'') : Tells p P (t ++ u) e e'' := by
  obtain ⟨new, hevents, hall, htold⟩ := h
  obtain ⟨more, hmore, hall', htold'⟩ := h'
  refine ⟨new ++ more, ?_, ?_, ?_⟩
  · rw [hmore, hevents, List.append_assoc]
  · intro event hevent
    exact (List.mem_append.1 hevent).elim (hall event) (hall' event)
  · rw [told_append, htold, htold']

/-- A stage that tells nothing comes before another. -/
theorem Tells.silent_trans (h : Tells p P {} e e') (h' : Tells p P t e' e'') :
    Tells p P t e e'' := Told.empty_append t ▸ h.trans h'

theorem Tells.trans_silent (h : Tells p P t e e') (h' : Tells p P {} e' e'') :
    Tells p P t e e'' := Told.append_empty t ▸ h.trans h'

theorem Tells.mono (h : Tells p P t e e') (hPQ : ∀ event, P event → Q event) :
    Tells p Q t e e' := by
  obtain ⟨new, hevents, hall, htold⟩ := h
  exact ⟨new, hevents, fun event hevent ↦ hPQ event (hall event hevent), htold⟩

/-- One event. -/
theorem Tells.emit (e : Emission σ) (st : σ) {event : Value} (hP : P event)
    (htold : toldIn p event = t) : Tells p P t e ((e.withState st).emit event) :=
  ⟨[event], rfl, fun _ h ↦ List.mem_singleton.1 h ▸ hP, (told_singleton p event).trans htold⟩

/-- A change of the state. -/
theorem Tells.withState (e : Emission σ) (st : σ) : Tells p P {} e (e.withState st) :=
  Tells.refl e

end Stages

end NextApi
