import NextApi.Protocol.RequestReaders

/-!
# Why a request is refused

A request is refused by its reader when it has not the form of its protocol, and for no other
reason (`parseOnly_requestToIr`).
-/

set_option autoImplicit false

namespace NextApi

open Json Ir

section Computations

variable {α β : Type}

/-- The only errors are those of a parser. -/
def ParseOnly (x : Except ConvertError α) : Prop := ∀ e, x = .error e → ∃ message, e = .parse message

theorem parseOnly_ok (a : α) : ParseOnly (.ok a) := fun _ h ↦ nomatch h

theorem parseOnly_parse (message : String) : ParseOnly (.error (.parse message) : Except _ α) :=
  fun _ h ↦ ⟨message, (Except.error.inj h).symm⟩

theorem ParseOnly.bind {x : Except ConvertError α} {f : α → Except ConvertError β}
    (hx : ParseOnly x) (hf : ∀ a, ParseOnly (f a)) : ParseOnly (x.bind f) := by
  cases x with
  | error e =>
    intro e' h
    exact hx e' (congrArg Except.error (Except.error.inj h))
  | ok a => exact hf a

theorem ParseOnly.map {x : Except ConvertError α} (hx : ParseOnly x) (f : α → β) :
    ParseOnly (x.map f) := by
  cases x with
  | error e =>
    intro e' h
    exact hx e' (congrArg Except.error (Except.error.inj h))
  | ok a => exact parseOnly_ok (f a)

theorem parseOnly_mapM {f : α → Except ConvertError β} (hf : ∀ a, ParseOnly (f a)) (l : List α) :
    ParseOnly (l.mapM f) := by
  induction l with
  | nil =>
    rw [List.mapM_nil]
    exact parseOnly_ok []
  | cons a rest ih =>
    rw [List.mapM_cons]
    exact (hf a).bind fun b ↦ ih.bind fun bs ↦ parseOnly_ok (b :: bs)

theorem parseOnly_foldlM {f : β → α → Except ConvertError β} (hf : ∀ b a, ParseOnly (f b a)) (b : β)
    (l : List α) : ParseOnly (l.foldlM f b) := by
  induction l generalizing b with
  | nil => exact parseOnly_ok b
  | cons a rest ih =>
    rw [List.foldlM_cons]
    exact (hf b a).bind ih

end Computations

variable [SerdeJson]

theorem Chat.parseOnly_requestToIr (v : Value) : ParseOnly (Chat.requestToIr v) := by
  have hmessage (msg : Value) : ParseOnly (Chat.parseMessage msg) := by
    rw [Chat.parseMessage]
    split
    · exact parseOnly_ok _
    · exact parseOnly_parse _
  have hmessages : ParseOnly (Chat.readMessages v) := by
    rw [Chat.readMessages]
    split
    · split
      · exact (parseOnly_mapM hmessage _).map _
      · exact parseOnly_parse _
    · exact parseOnly_ok _
  have htools : ParseOnly (Chat.readTools v) := by
    rw [Chat.readTools]
    split
    · rw [Chat.parseTools]
      split
      · exact parseOnly_ok _
      · exact parseOnly_parse _
    · exact parseOnly_ok _
  rw [Chat.requestToIr]
  split
  · exact hmessages.bind fun messages ↦ htools.bind fun tools ↦ parseOnly_ok _
  · exact parseOnly_parse _

theorem Responses.parseOnly_requestToIr (v : Value) : ParseOnly (Responses.requestToIr v) := by
  have htools (tools : Value) : ParseOnly (Responses.parseResponseTools tools) := by
    rw [Responses.parseResponseTools]
    split
    · exact parseOnly_ok _
    · exact parseOnly_parse _
  rw [Responses.requestToIr]
  split
  · dsimp only
    cases v.get? "tools" with
    | some tools => exact (htools tools).bind fun read ↦ parseOnly_ok _
    | none => exact parseOnly_ok _
  · exact parseOnly_parse _

theorem Anthropic.parseOnly_requestToIr (v : Value) : ParseOnly (Anthropic.requestToIr v) := by
  have hmessage (msg : Value) (ext : IrExt) : ParseOnly (Anthropic.parseAnthMessage msg ext) := by
    rw [Anthropic.parseAnthMessage]
    split
    · dsimp only
      split
      · exact parseOnly_ok _
      · exact parseOnly_ok _
      · exact parseOnly_ok _
    · exact parseOnly_parse _
  have hmessages (items : List Value) (ext : IrExt) : ParseOnly (Anthropic.parseMessages items ext) := by
    induction items generalizing ext with
    | nil => exact parseOnly_ok _
    | cons msg rest ih =>
      rw [Anthropic.parseMessages]
      exact (hmessage msg ext).bind fun first ↦ (ih first.2.1).bind fun others ↦ parseOnly_ok _
  have htools : ParseOnly (Anthropic.readTools v) := by
    rw [Anthropic.readTools]
    split
    · rw [Anthropic.parseTools]
      split
      · exact parseOnly_ok _
      · exact parseOnly_parse _
    · exact parseOnly_ok _
  cases v with
  | obj m =>
    have hconversation : ParseOnly (Anthropic.readConversation m) := by
      rw [Anthropic.readConversation]
      split
      · split
        · exact hmessages _ _
        · exact parseOnly_parse _
      · exact parseOnly_ok _
    obtain ⟨ctx, hobj⟩ := Anthropic.requestToIr_obj m
    rw [hobj]
    exact hconversation.bind fun read ↦ htools.bind fun tools ↦ parseOnly_ok _
  | _ => exact parseOnly_parse _

theorem Gemini.parseOnly_requestToIr (v : Value) : ParseOnly (Gemini.requestToIr v) := by
  have hcontent (acc : Gemini.ContentsAcc) (c : Value) : ParseOnly (Gemini.parseContent acc c) := by
    rw [Gemini.parseContent]
    split
    · exact parseOnly_ok _
    · exact parseOnly_parse _
  have hcontents (acc : Gemini.ContentsAcc) (contents : Option Value) :
      ParseOnly (Gemini.parseContents acc contents) := by
    rw [Gemini.parseContents.eq_def]
    split
    · split
      · exact parseOnly_foldlM hcontent acc _
      · exact parseOnly_parse _
    · exact parseOnly_ok _
  have htools : ParseOnly (Gemini.readTools v) := by
    rw [Gemini.readTools]
    split
    · rw [Gemini.parseTools]
      split
      · exact parseOnly_ok _
      · exact parseOnly_parse _
    · exact parseOnly_ok _
  rw [Gemini.requestToIr]
  split
  · exact (hcontents _ _).bind fun read ↦ htools.bind fun tools ↦ parseOnly_ok _
  · exact parseOnly_parse _

/-- A request is refused only when it cannot be parsed. -/
theorem parseOnly_requestToIr (p : Protocol) (v : Value) : ParseOnly (requestToIr p v) := by
  cases p with
  | openaiChat => exact Chat.parseOnly_requestToIr v
  | openaiResponses => exact Responses.parseOnly_requestToIr v
  | anthropic => exact Anthropic.parseOnly_requestToIr v
  | gemini => exact Gemini.parseOnly_requestToIr v

end NextApi
