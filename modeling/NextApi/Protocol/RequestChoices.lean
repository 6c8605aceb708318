import NextApi.Json.Compact
import NextApi.Protocol.RequestReaders

/-!
# Tool choices and response schemas

A request can say which tool the model has to call, and ask for an answer that follows a schema.
Every protocol has its own form for either (`Expresses`, `AsksSchema`), and the representation keeps
both as JSON in the form that they came in, up to the tool choices of Anthropic, which become those
of Chat.

The tool choice reaches the other protocol unless that is Anthropic and the choice is `none`, or the
named function of a Responses request. A schema is carried between Chat and Gemini, and between no
other two protocols (`choices_and_schemas`).
-/

set_option autoImplicit false

namespace NextApi

open Json Ir

/-! ### Tool choices -/

inductive ToolChoice where
  | none
  | auto
  | required
  | named (name : String)
  deriving DecidableEq

/-- The value is this choice in the form of the protocol. -/
def Expresses : Protocol → ToolChoice → Value → Prop
  | .openaiChat, .named name, tc =>
    tc["type"].asStr = some "function" ∧ tc["function"]["name"].asStr = some name ∧
      tc.get? "name" = Option.none
  | .openaiResponses, .named name, tc =>
    tc["type"].asStr = some "function" ∧ tc["name"].asStr = some name ∧
      tc.get? "function" = Option.none
  | .anthropic, .none, tc => tc["type"].asStr = some "none"
  | .anthropic, .auto, tc => tc["type"].asStr = some "auto"
  | .anthropic, .required, tc => tc["type"].asStr = some "any"
  | .anthropic, .named name, tc =>
    tc["type"].asStr = some "tool" ∧ tc["name"].asStr = some name
  | .gemini, _, _ => False
  | _, .none, tc => tc = .str "none"
  | _, .auto, tc => tc = .str "auto"
  | _, .required, tc => tc = .str "required"

/-- The request makes this choice. -/
def Chooses (p : Protocol) (v : Value) (c : ToolChoice) : Prop :=
  ∃ tc, v.get? "tool_choice" = some tc ∧ Expresses p c tc

/-- A choice that the other protocol is told of. -/
def ChoiceSurvives (p q : Protocol) (c : ToolChoice) : Prop :=
  q = .anthropic →
    c ≠ .none ∧ (p = .openaiResponses → ∀ name, c = .named name → name = "")

/-- The tool choice of a request, as it is written. -/
def shapeChoice : Protocol → Value → Value
  | .openaiChat => Chat.wrapToolChoice
  | .openaiResponses => Responses.flattenToolChoice
  | .anthropic => Anthropic.toolChoiceToAnthropic
  | .gemini => id

theorem expresses_parseToolChoice {tc : Value} {c : ToolChoice} (h : Expresses .anthropic c tc) :
    ∃ tc', Anthropic.parseToolChoice tc = some tc' ∧ Expresses .openaiChat c tc' := by
  have hread (type : String) (htype : tc["type"].asStr = some type) :
      tc.isNull = false ∧ tc["type"].strOrEmpty = type := by
    obtain ⟨m, rfl, -⟩ := Value.eq_obj_of_asStr htype
    exact ⟨rfl, by rw [Value.strOrEmpty, htype, Option.getD_some]⟩
  cases c with
  | none =>
    obtain ⟨hnull, htype⟩ := hread _ h
    exact ⟨.str "none", by rw [Anthropic.parseToolChoice, hnull, htype]; rfl, rfl⟩
  | auto =>
    obtain ⟨hnull, htype⟩ := hread _ h
    exact ⟨.str "auto", by rw [Anthropic.parseToolChoice, hnull, htype]; rfl, rfl⟩
  | required =>
    obtain ⟨hnull, htype⟩ := hread _ h
    exact ⟨.str "required", by rw [Anthropic.parseToolChoice, hnull, htype]; rfl, rfl⟩
  | named name =>
    obtain ⟨hnull, htype⟩ := hread _ h.1
    refine ⟨Chat.namedChoice (.str name), ?_, ?_⟩
    · rw [Anthropic.parseToolChoice, hnull, htype, Value.strOrEmpty, h.2]
      rfl
    · exact ⟨rfl, rfl, rfl⟩

/-- A choice in the form of Chat is one for Responses when it is made flat. -/
theorem expresses_flattenToolChoice {tc : Value} {c : ToolChoice}
    (h : Expresses .openaiChat c tc) :
    Expresses .openaiResponses c (Responses.flattenToolChoice tc) := by
  cases c with
  | none => exact h ▸ rfl
  | auto => exact h ▸ rfl
  | required => exact h ▸ rfl
  | named name =>
    obtain ⟨htype, hname, hflat⟩ := h
    obtain ⟨o, rfl, hget⟩ := Value.eq_obj_of_asStr htype
    have hfunction := Value.bind_get?_of_asStr hname
    rw [Value.get?_obj] at hfunction hflat
    have hflatten : Responses.flattenToolChoice (.obj o) =
        .object [("type", .str "function"), ("name", .str name)] := by
      simp only [Responses.flattenToolChoice, hget, hfunction, hflat, Option.bind_some,
        Value.asStr_str, and_self, if_true]
    rw [hflatten]
    exact ⟨rfl, rfl, rfl⟩

/-- A choice in the form of Chat is written as it is. -/
theorem wrapToolChoice_of_expresses {tc : Value} {c : ToolChoice}
    (h : Expresses .openaiChat c tc) : Chat.wrapToolChoice tc = tc := by
  cases c with
  | none => exact h ▸ rfl
  | auto => exact h ▸ rfl
  | required => exact h ▸ rfl
  | named name =>
    obtain ⟨htype, -, hflat⟩ := h
    obtain ⟨o, rfl, -⟩ := Value.eq_obj_of_asStr htype
    rw [Value.get?_obj] at hflat
    rw [Chat.wrapToolChoice, hflat]
    split <;> rfl

/-- A choice in the flat form is one for Chat when it is wrapped. -/
theorem expresses_wrapToolChoice {tc : Value} {c : ToolChoice}
    (h : Expresses .openaiResponses c tc) : Expresses .openaiChat c (Chat.wrapToolChoice tc) := by
  cases c with
  | none => exact h ▸ rfl
  | auto => exact h ▸ rfl
  | required => exact h ▸ rfl
  | named name =>
    obtain ⟨htype, hname, hnested⟩ := h
    obtain ⟨o, rfl, hget⟩ := Value.eq_obj_of_asStr htype
    have hflat := Value.get?_of_asStr hname
    rw [Value.get?_obj] at hflat hnested
    have hwrap : Chat.wrapToolChoice (.obj o) = Chat.namedChoice (.str name) := by
      simp only [Chat.wrapToolChoice, hget, hnested, hflat, Option.bind_some, Value.asStr_str,
        and_self, if_true]
    rw [hwrap]
    exact ⟨rfl, rfl, rfl⟩

/-- Anthropic is told of every choice in the form of Chat, except `none`. -/
theorem expresses_toolChoiceToAnthropic {tc : Value} {c : ToolChoice}
    (h : Expresses .openaiChat c tc) :
    Expresses .anthropic c (Anthropic.toolChoiceToAnthropic tc) ↔ c ≠ .none := by
  cases c with
  | none =>
    refine iff_of_false (fun hsent ↦ ?_) fun hne ↦ hne rfl
    rw [show tc = .str "none" from h] at hsent
    exact absurd (Option.some.inj hsent) (by decide)
  | auto => exact iff_of_true (h ▸ rfl) ToolChoice.noConfusion
  | required => exact iff_of_true (h ▸ rfl) ToolChoice.noConfusion
  | named name =>
    obtain ⟨htype, hname, -⟩ := h
    obtain ⟨o, rfl, hget⟩ := Value.eq_obj_of_asStr htype
    have hfunction := Value.bind_get?_of_asStr hname
    rw [Value.get?_obj] at hfunction
    have hsent : Anthropic.toolChoiceToAnthropic (.obj o) =
        .object [("type", .str "tool"), ("name", .str name)] := by
      simp only [Anthropic.toolChoiceToAnthropic, hget, hfunction, Option.bind_some,
        Value.asStr_str, if_true, Option.getD_some]
    rw [hsent]
    exact iff_of_true ⟨rfl, rfl⟩ ToolChoice.noConfusion

/-- Of the choices in the flat form Anthropic is told of `auto` and `required`. -/
theorem expresses_toolChoiceToAnthropic_flat {tc : Value} {c : ToolChoice}
    (h : Expresses .openaiResponses c tc) :
    Expresses .anthropic c (Anthropic.toolChoiceToAnthropic tc) ↔
      c ≠ .none ∧ ∀ name, c = .named name → name = "" := by
  cases c with
  | none =>
    refine iff_of_false (fun hsent ↦ ?_) fun hand ↦ hand.1 rfl
    rw [show tc = .str "none" from h] at hsent
    exact absurd (Option.some.inj hsent) (by decide)
  | auto => exact iff_of_true (h ▸ rfl) ⟨ToolChoice.noConfusion, fun _ h ↦ nomatch h⟩
  | required => exact iff_of_true (h ▸ rfl) ⟨ToolChoice.noConfusion, fun _ h ↦ nomatch h⟩
  | named name =>
    obtain ⟨htype, -, hnested⟩ := h
    obtain ⟨o, rfl, hget⟩ := Value.eq_obj_of_asStr htype
    rw [Value.get?_obj] at hnested
    have hsent : Anthropic.toolChoiceToAnthropic (.obj o) =
        .object [("type", .str "tool"), ("name", .str "")] := by
      simp only [Anthropic.toolChoiceToAnthropic, hget, Option.bind_some, Value.asStr_str,
        if_true, hnested, Option.bind_none, Option.getD_none]
    rw [hsent]
    constructor
    · intro hname
      refine ⟨ToolChoice.noConfusion, fun other heq ↦ ?_⟩
      rw [← ToolChoice.named.inj heq]
      exact (Option.some.inj hname.2).symm
    · intro hempty
      rw [hempty.2 name rfl]
      exact ⟨rfl, rfl⟩

/-! ### Response schemas -/

/-- The response format of a Chat request for this schema. -/
def ChatFormat (s rf : Value) : Prop :=
  rf["type"].asStr = some "json_schema" ∧
    ((rf.get? "json_schema").bind fun w ↦ w.get? "schema") = some s ∧ rf.get? "schema" = none

/-- The text format of a Responses request for this schema. -/
def FlatFormat (s fmt : Value) : Prop :=
  fmt["type"].asStr = some "json_schema" ∧ fmt.get? "schema" = some s ∧
    fmt.get? "json_schema" = none

/-- The generation configuration of a Gemini request for this schema. -/
def ConfigFormat (s gc : Value) : Prop :=
  gc["responseMimeType"].asStr = some "application/json" ∧ gc.get? "responseSchema" = some s

/-- The request asks for JSON that follows this schema. -/
def AsksSchema : Protocol → Value → Value → Prop
  | .openaiChat, v, s => ∃ rf, v.get? "response_format" = some rf ∧ ChatFormat s rf
  | .openaiResponses, v, s =>
    ∃ text fmt, v.get? "text" = some text ∧ text.get? "format" = some fmt ∧ FlatFormat s fmt
  | .gemini, v, s => ∃ gc, v.get? "generationConfig" = some gc ∧ ConfigFormat s gc
  | .anthropic, _, _ => False

/-- A schema that the other protocol is told of. -/
def SchemaSurvives (p q : Protocol) : Prop := p ≠ .openaiResponses ∧ q ≠ .openaiResponses

theorem parseResponseFormat_of_config {s gc : Value} (h : ConfigFormat s gc) :
    ∃ rf, Gemini.parseResponseFormat gc = some rf ∧ ChatFormat s rf := by
  refine ⟨_, by rw [Gemini.parseResponseFormat, if_pos h.1, h.2], ?_⟩
  exact ⟨rfl, rfl, rfl⟩

section Requests

variable [SerdeJson]

/-- The schema that a request asks for is in the response format of the representation, in the form
of Chat or in the flat form. -/
theorem responseFormat_of_asksSchema {p : Protocol} {v s : Value} {req : IrRequest}
    {ctx : ConvCtx} (h : requestToIr p v = .ok (req, ctx)) (hasks : AsksSchema p v s) :
    ∃ rf, req.responseFormat = some rf ∧
      if p = .openaiResponses then FlatFormat s rf else ChatFormat s rf := by
  cases p with
  | openaiChat =>
    obtain ⟨m, messages, tools, rfl, -, -, rfl⟩ := Chat.requestToIr_eq_ok.1 ⟨ctx, h⟩
    exact hasks
  | openaiResponses =>
    obtain ⟨m, tools, rfl, -, rfl⟩ := Responses.requestToIr_eq_ok.1 ⟨ctx, h⟩
    obtain ⟨text, fmt, htext, hfmt, hformat⟩ := hasks
    refine ⟨fmt, ?_, hformat⟩
    cases text with
    | obj t =>
      show (((Value.obj m).get? "text").bind Value.asObject).bind _ = some fmt
      rw [htext]
      exact hfmt
    | _ => exact nomatch hfmt
  | gemini =>
    obtain ⟨m, messages, tools, rfl, -, -, rfl⟩ := Gemini.requestToIr_eq_ok.1 ⟨ctx, h⟩
    obtain ⟨gc, hgc, hconfig⟩ := hasks
    obtain ⟨rf, hrf, hformat⟩ := parseResponseFormat_of_config hconfig
    refine ⟨rf, ?_, hformat⟩
    obtain ⟨o, rfl, -⟩ := Value.eq_obj_of_asStr hconfig.1
    show (Gemini.readGenerationConfig (.obj m) { messages := messages }).1.responseFormat = some rf
    rw [Gemini.readGenerationConfig, hgc]
    exact hrf
  | anthropic => exact hasks.elim

/-- What a request in the representation is written as asks for its schema, if the writer finds it
in the response format. -/
theorem asksSchema_requestFromIr {q : Protocol} {req : IrRequest} {s rf : Value}
    (hq : q ≠ .anthropic) (hrf : req.responseFormat = some rf)
    (hformat : FlatFormat s rf ∨ ChatFormat s rf) :
    AsksSchema q (requestFromIr q req).1 s ↔
      if q = .openaiResponses then FlatFormat s rf else ChatFormat s rf := by
  have hclash (hflat : FlatFormat s rf) (hchat : ChatFormat s rf) : False := by
    have hnone := hflat.2.1.symm.trans hchat.2.2
    cases hnone
  cases q with
  | openaiChat =>
    have hget : (requestFromIr .openaiChat req).1.get? "response_format" = some rf := by
      rw [get?_requestFromIr, requestMembers, Chat.requestMembers, hrf]
      cases req.maxTokensField.getD .maxTokens <;> simp [Chat.maxTokensKey]
    constructor
    · rintro ⟨rf', hrf', h⟩
      rw [Option.some.inj (hget.symm.trans hrf')]
      exact h
    · intro h
      exact ⟨rf, hget, h⟩
  | openaiResponses =>
    have hget : (requestFromIr .openaiResponses req).1.get? "text" =
        some (.object [("format", rf)]) := by
      rw [get?_requestFromIr, requestMembers, Responses.requestMembers, hrf]
      simp
    constructor
    · rintro ⟨text, fmt, htext, hfmt, h⟩
      rw [← Option.some.inj (hget.symm.trans htext)] at hfmt
      rw [if_pos rfl, Option.some.inj (show some rf = some fmt from hfmt)]
      exact h
    · intro h
      exact ⟨_, rf, hget, rfl, h⟩
  | gemini =>
    have htype : rf["type"].asStr = some "json_schema" := hformat.elim And.left And.left
    have hmime : Gemini.responseMimeType rf = some (.str "application/json") := by
      rw [Gemini.responseMimeType, htype]
      rfl
    have hconfig (key : String) :
        Map.get? (Gemini.generationConfig req) key =
          Map.written (Gemini.configMembers req) key := by
      rw [Gemini.generationConfig, Map.get?_insertPresent (by simp [Gemini.configMembers]),
        Map.get?_nil, Option.or_none]
    have hmember : Map.get? (Gemini.generationConfig req) "responseMimeType" =
        some (.str "application/json") := by
      rw [hconfig, ← hmime]
      simp [Gemini.configMembers, hrf]
    have hschema : Map.get? (Gemini.generationConfig req) "responseSchema" =
        (rf.get? "json_schema").map fun w ↦ (w.get? "schema").getD w := by
      rw [hconfig]
      simp [Gemini.configMembers, hrf, Gemini.responseSchema, show
        ((rf.get? "type").getD Value.null).asStr = some "json_schema" from htype]
    have hget : (requestFromIr .gemini req).1.get? "generationConfig" =
        some (.obj (Gemini.generationConfig req)) := by
      have hne : (Gemini.generationConfig req).isEmpty = false := by
        cases hnil : Gemini.generationConfig req with
        | nil =>
          rw [hnil] at hmember
          cases hmember
        | cons member rest => rfl
      rw [get?_requestFromIr, requestMembers, Gemini.requestMembers]
      simp [hne]
    have hsent : AsksSchema .gemini (requestFromIr .gemini req).1 s ↔
        (rf.get? "json_schema").map (fun w ↦ (w.get? "schema").getD w) = some s := by
      constructor
      · rintro ⟨gc, hgc, h⟩
        rw [← Option.some.inj (hget.symm.trans hgc)] at h
        exact hschema.symm.trans h.2
      · intro h
        refine ⟨_, hget, ?_, hschema.trans h⟩
        rw [Value.getElem_eq, Value.get?_obj, hmember]
        rfl
    rw [hsent, if_neg Protocol.noConfusion]
    rcases hformat with hflat | hchat
    · refine iff_of_false (fun h ↦ ?_) (hclash hflat)
      rw [hflat.2.2] at h
      cases h
    · refine iff_of_true ?_ hchat
      obtain ⟨w, hw, hs⟩ := Option.bind_eq_some_iff.1 hchat.2.1
      rw [hw, Option.map_some, hs, Option.getD_some]
  | anthropic => exact absurd rfl hq

/-! ### The theorem -/

/-- The tool choice of a request in the representation has the form of Chat, or the flat form. -/
theorem toolChoice_of_chooses {p : Protocol} {v : Value} {c : ToolChoice} {req : IrRequest}
    {ctx : ConvCtx} (h : requestToIr p v = .ok (req, ctx)) (hchooses : Chooses p v c) :
    ∃ tc, req.toolChoice = some tc ∧
      Expresses (if p = .openaiResponses then .openaiResponses else .openaiChat) c tc := by
  obtain ⟨tc, htc, hc⟩ := hchooses
  cases p with
  | openaiChat =>
    obtain ⟨m, messages, tools, rfl, -, -, rfl⟩ := Chat.requestToIr_eq_ok.1 ⟨ctx, h⟩
    exact ⟨tc, htc, hc⟩
  | openaiResponses =>
    obtain ⟨m, tools, rfl, -, rfl⟩ := Responses.requestToIr_eq_ok.1 ⟨ctx, h⟩
    exact ⟨tc, htc, hc⟩
  | anthropic =>
    obtain ⟨m, messages, ext, tools, rfl, -, -, rfl⟩ := Anthropic.requestToIr_eq_ok.1 ⟨ctx, h⟩
    obtain ⟨tc', hparse, hchat⟩ := expresses_parseToolChoice hc
    refine ⟨tc', ?_, hchat⟩
    show ((Value.obj m).get? "tool_choice").bind Anthropic.parseToolChoice = some tc'
    rw [htc]
    exact hparse
  | gemini => exact hc.elim

theorem get?_tool_choice {q : Protocol} {req : IrRequest} {tc : Value} (hq : q ≠ .gemini)
    (htc : req.toolChoice = some tc) :
    (requestFromIr q req).1.get? "tool_choice" = some (shapeChoice q tc) := by
  cases q with
  | openaiChat =>
    rw [get?_requestFromIr, requestMembers, Chat.requestMembers, htc]
    cases req.maxTokensField.getD .maxTokens <;> simp [Chat.maxTokensKey, shapeChoice]
  | openaiResponses =>
    rw [get?_requestFromIr, requestMembers, Responses.requestMembers, htc]
    simp [shapeChoice]
  | anthropic =>
    rw [get?_requestFromIr, requestMembers, Anthropic.requestMembers, htc]
    simp [shapeChoice]
  | gemini => exact absurd rfl hq

/-- A tool choice is converted to the same choice in the form of the other protocol exactly when it
survives, and a schema exactly when both protocols keep it in the same place. -/
theorem choices_and_schemas :
    (∀ (p q : Protocol) (v : Value) (req : IrRequest) (ctx : ConvCtx) (c : ToolChoice), p ≠ q →
      q ≠ .gemini → requestToIr p v = .ok (req, ctx) → Chooses p v c →
        (Chooses q (requestFromIr q req).1 c ↔ ChoiceSurvives p q c)) ∧
    ∀ (p q : Protocol) (v : Value) (req : IrRequest) (ctx : ConvCtx) (s : Value), p ≠ q →
      q ≠ .anthropic → requestToIr p v = .ok (req, ctx) → AsksSchema p v s →
        (AsksSchema q (requestFromIr q req).1 s ↔ SchemaSurvives p q) := by
  constructor
  · intro p q v req ctx c hpq hq hread hchooses
    obtain ⟨tc, htc, hform⟩ := toolChoice_of_chooses hread hchooses
    have hchosen : Chooses q (requestFromIr q req).1 c ↔ Expresses q c (shapeChoice q tc) := by
      rw [Chooses, get?_tool_choice hq htc]
      simp only [Option.some.injEq, exists_eq_left']
    rw [hchosen]
    by_cases hp : p = .openaiResponses
    · subst hp
      rw [if_pos rfl] at hform
      cases q with
      | openaiChat => exact iff_of_true (expresses_wrapToolChoice hform) fun h ↦ nomatch h
      | openaiResponses => exact absurd rfl hpq
      | anthropic =>
        refine (expresses_toolChoiceToAnthropic_flat hform).trans ?_
        simp [ChoiceSurvives]
      | gemini => exact absurd rfl hq
    · rw [if_neg hp] at hform
      cases q with
      | openaiChat =>
        refine iff_of_true ?_ fun h ↦ nomatch h
        rw [shapeChoice, wrapToolChoice_of_expresses hform]
        exact hform
      | openaiResponses =>
        exact iff_of_true (expresses_flattenToolChoice hform) fun h ↦ nomatch h
      | anthropic =>
        refine (expresses_toolChoiceToAnthropic hform).trans ?_
        simp [ChoiceSurvives, hp]
      | gemini => exact absurd rfl hq
  · intro p q v req ctx s hpq hq hread hasks
    obtain ⟨rf, hrf, hformat⟩ := responseFormat_of_asksSchema hread hasks
    by_cases hp : p = .openaiResponses
    · rw [if_pos hp] at hformat
      have hq' : q ≠ .openaiResponses := fun h ↦ hpq (hp.trans h.symm)
      rw [asksSchema_requestFromIr hq hrf (Or.inl hformat), if_neg hq']
      refine iff_of_false (fun hchat ↦ ?_) fun h ↦ h.1 hp
      have hnone := hformat.2.1.symm.trans hchat.2.2
      exact nomatch hnone
    · rw [if_neg hp] at hformat
      rw [asksSchema_requestFromIr hq hrf (Or.inr hformat)]
      by_cases hq' : q = .openaiResponses
      · rw [if_pos hq']
        refine iff_of_false (fun hflat ↦ ?_) fun h ↦ h.2 hq'
        have hnone := hflat.2.1.symm.trans hformat.2.2
        exact nomatch hnone
      · rw [if_neg hq']
        exact iff_of_true hformat ⟨hp, hq'⟩

end Requests

section Concrete

local instance choiceCodec : SerdeJson := Compact.codec

/-- A Chat request that makes the model call `weather`. -/
def forcedWeather : Value := .object [("tool_choice", Chat.namedChoice (.str "weather"))]

/-- A Gemini request for a number. -/
def wantsNumber : Value :=
  .object [("generationConfig", .object
    [("responseMimeType", .str "application/json"),
      ("responseSchema", .object [("type", .str "number")])])]

/-- Anthropic is told to call `weather`, and Chat of the schema. -/
theorem choices_and_schemas_weather :
    (∃ req ctx, requestToIr .openaiChat forcedWeather = .ok (req, ctx) ∧
      Chooses .anthropic (requestFromIr .anthropic req).1 (.named "weather")) ∧
    ∃ req ctx, requestToIr .gemini wantsNumber = .ok (req, ctx) ∧
      AsksSchema .openaiChat (requestFromIr .openaiChat req).1
        (.object [("type", .str "number")]) := by
  constructor
  · refine ⟨_, _, rfl, (choices_and_schemas.1 .openaiChat .anthropic forcedWeather _ _
      (.named "weather") (by decide) (by decide) rfl ⟨_, rfl, rfl, rfl, rfl⟩).2 fun _ ↦ ?_⟩
    exact ⟨ToolChoice.noConfusion, fun h ↦ nomatch h⟩
  · exact ⟨_, _, rfl, (choices_and_schemas.2 .gemini .openaiChat wantsNumber _ _ _ (by decide)
      (by decide) rfl ⟨_, rfl, rfl, rfl⟩).2 ⟨by decide, by decide⟩⟩

/-- A Chat request that forbids tools and asks for a number. -/
def forbidsTools : Value :=
  .object
    [("tool_choice", .str "none"),
      ("response_format", .object
        [("type", .str "json_schema"),
          ("json_schema", .object
            [("name", .str "answer"), ("schema", .object [("type", .str "number")])])])]

/-- Anthropic is told that the model may call tools, and Responses gets a format without a
schema. -/
theorem choices_and_schemas_forbidsTools :
    ∃ req ctx, requestToIr .openaiChat forbidsTools = .ok (req, ctx) ∧
      (Chooses .openaiChat forbidsTools .none ∧
        Chooses .anthropic (requestFromIr .anthropic req).1 .auto ∧
        ¬ Chooses .anthropic (requestFromIr .anthropic req).1 .none) ∧
      AsksSchema .openaiChat forbidsTools (.object [("type", .str "number")]) ∧
        ¬ AsksSchema .openaiResponses (requestFromIr .openaiResponses req).1
          (.object [("type", .str "number")]) := by
  refine ⟨_, _, rfl, ⟨⟨_, rfl, rfl⟩, ⟨_, rfl, rfl⟩, ?_⟩, ⟨_, rfl, rfl, rfl, rfl⟩, ?_⟩
  · intro ⟨tc, htc, hnone⟩
    rw [← Option.some.inj htc] at hnone
    exact absurd (Option.some.inj hnone) (by decide)
  · intro ⟨text, fmt, htext, hfmt, _, hschema, _⟩
    rw [← Option.some.inj htext] at hfmt
    rw [← Option.some.inj hfmt] at hschema
    exact nomatch hschema

end Concrete

end NextApi
