import NextApi.Protocol.Chat.RequestFixpoint

/-!
# Additional members of a request

Members of a request that the client's protocol does not know are carried to the upstream. What the
readers read does not depend on them (`requestToIr_addsUnknown`), and a writer lays them down first,
so a member that the request has a value for is written over them.

A member that the upstream's protocol knows and for which the request has no value is another
matter: there the additional member goes through (`agree_iff`).
-/

set_option autoImplicit false

namespace NextApi

open Json Ir

/-- The members of a request that an adapter reads. -/
def knownRequestFields : Protocol → List String
  | .openaiChat => Chat.knownRequestFields
  | .openaiResponses => Responses.knownRequestFields
  | .anthropic => Anthropic.knownRequestFields
  | .gemini => Gemini.knownRequestFields

/-- An object has the members of another, and some that the protocol does not know. -/
structure AddsUnknown (p : Protocol) (m m' : Map) : Prop where
  known : ∀ key ∈ knownRequestFields p, Map.get? m' key = Map.get? m key
  kept : ∀ key v, Map.get? m key = some v → Map.get? m' key = some v

/-! ### Readers read the known members -/

/-- The members that a reader carries. -/
def carried (p : Protocol) (m : Map) : Map :=
  let first := if p = .gemini then
    Map.insertOpt [] "safetySettings" (Map.get? m "safetySettings") else []
  Map.insertAll first (Map.without m (knownRequestFields p))

/-- A member that the protocol does not know is carried. -/
theorem get?_carried_unknown {p : Protocol} {m : Map} (hm : Map.Sorted m) {key : String}
    (hkey : key ∉ knownRequestFields p) : Map.get? (carried p m) key = Map.get? m key := by
  rw [carried, Map.get?_insertAll (hm.without _), Map.get?_without, if_neg hkey]
  have hfirst : Map.get? (if p = .gemini then
      Map.insertOpt [] "safetySettings" (Map.get? m "safetySettings") else []) key = none := by
    split
    · rename_i hp
      have hne : "safetySettings" ≠ key := fun heq ↦ hkey (by rw [hp, ← heq]; decide)
      rw [Map.get?_insertOpt, if_neg hne, Map.get?_nil]
    · rfl
  rw [hfirst, Option.or_none]

/-- Two objects with the same known members carry the same of them. -/
theorem get?_carried_known {p : Protocol} {m m' : Map}
    (h : ∀ key ∈ knownRequestFields p, Map.get? m' key = Map.get? m key) {key : String}
    (hkey : key ∈ knownRequestFields p) :
    Map.get? (carried p m') key = Map.get? (carried p m) key := by
  rw [carried, carried, Map.get?_insertAll_of_notMem (Map.notMem_keys_without m' hkey),
    Map.get?_insertAll_of_notMem (Map.notMem_keys_without m hkey)]
  split
  · rename_i hp
    subst hp
    rw [h "safetySettings" (by decide)]
  · rfl

section Readers

variable [SerdeJson] {m m' : Map} {req : IrRequest}

theorem Chat.requestToIr_known
    (h : ∀ key ∈ Chat.knownRequestFields, Map.get? m' key = Map.get? m key)
    (hread : ∃ ctx, Chat.requestToIr (.obj m) = .ok (req, ctx)) :
    ∃ ctx, Chat.requestToIr (.obj m') = .ok ({ req with extra := carried .openaiChat m' }, ctx) := by
  obtain ⟨_, messages, tools, hm, hmessages, htools, rfl⟩ := Chat.requestToIr_eq_ok.1 hread
  obtain rfl := Value.obj.inj hm
  refine Chat.requestToIr_eq_ok.2 ⟨m', messages, tools, rfl, ?_, ?_, ?_⟩
  · rw [← hmessages, Chat.readMessages, Chat.readMessages, Value.get?_obj, Value.get?_obj,
      h "messages" (by decide)]
  · rw [← htools, Chat.readTools, Chat.readTools, Value.get?_obj, Value.get?_obj,
      h "tools" (by decide)]
  · have hlimit (field : MaxTokensField) :
        Map.get? m' (Chat.maxTokensKey field) = Map.get? m (Chat.maxTokensKey field) :=
      h _ (by cases field <;> decide)
    simp (disch := decide) only [Chat.requestOf, Chat.readMaxTokens, Chat.maxTokensField,
      Chat.given, Chat.readIncludeUsage, Value.getElem_eq, Value.get?_obj, hlimit, h]
    rfl

theorem Responses.requestToIr_known
    (h : ∀ key ∈ Responses.knownRequestFields, Map.get? m' key = Map.get? m key)
    (hread : ∃ ctx, Responses.requestToIr (.obj m) = .ok (req, ctx)) :
    ∃ ctx, Responses.requestToIr (.obj m') =
      .ok ({ req with extra := carried .openaiResponses m' }, ctx) := by
  obtain ⟨_, tools, hm, htools, rfl⟩ := Responses.requestToIr_eq_ok.1 hread
  obtain rfl := Value.obj.inj hm
  refine Responses.requestToIr_eq_ok.2 ⟨m', tools, rfl, ?_, ?_⟩
  · rw [← htools, Responses.readTools, Responses.readTools, Value.get?_obj, Value.get?_obj,
      h "tools" (by decide)]
  · have hmessages : Responses.messagesOf m' = Responses.messagesOf m := by
      have hinstructions : Responses.instructionMessages (.obj m') =
          Responses.instructionMessages (.obj m) := by
        rw [Responses.instructionMessages, Responses.instructionMessages, Value.get?_obj,
          Value.get?_obj, h "instructions" (by decide)]
      rw [Responses.messagesOf, Responses.messagesOf, hinstructions, h "input" (by decide)]
    simp (disch := decide) only [Responses.requestOf, hmessages, Value.getElem_eq, Value.get?_obj, h]
    rfl

theorem Anthropic.requestToIr_known
    (h : ∀ key ∈ Anthropic.knownRequestFields, Map.get? m' key = Map.get? m key)
    (hread : ∃ ctx, Anthropic.requestToIr (.obj m) = .ok (req, ctx)) :
    ∃ ctx, Anthropic.requestToIr (.obj m') =
      .ok ({ req with extra := carried .anthropic m' }, ctx) := by
  obtain ⟨_, messages, ext, tools, hm, hconversation, htools, rfl⟩ :=
    Anthropic.requestToIr_eq_ok.1 hread
  obtain rfl := Value.obj.inj hm
  have hsystem : (Anthropic.readSystem (.obj m')).1 = (Anthropic.readSystem (.obj m)).1 := by
    simp (disch := decide) only [Anthropic.readSystem, Value.getElem_eq, Value.get?_obj, h]
  refine Anthropic.requestToIr_eq_ok.2 ⟨m', messages, ext, tools, rfl, ?_, ?_, ?_⟩
  · rw [← hconversation, Anthropic.readConversation, Anthropic.readConversation, hsystem,
      h "messages" (by decide)]
  · rw [← htools, Anthropic.readTools, Anthropic.readTools, Value.get?_obj, Value.get?_obj,
      h "tools" (by decide)]
  · simp (disch := decide) only [Anthropic.requestOf, Anthropic.topKOf, hsystem, Value.getElem_eq,
      Value.get?_obj, h]
    rfl

theorem Gemini.requestToIr_known
    (h : ∀ key ∈ Gemini.knownRequestFields, Map.get? m' key = Map.get? m key)
    (hread : ∃ ctx, Gemini.requestToIr (.obj m) = .ok (req, ctx)) :
    ∃ ctx, Gemini.requestToIr (.obj m') = .ok ({ req with extra := carried .gemini m' }, ctx) := by
  obtain ⟨_, messages, tools, hm, hcontents, htools, rfl⟩ := Gemini.requestToIr_eq_ok.1 hread
  obtain rfl := Value.obj.inj hm
  refine Gemini.requestToIr_eq_ok.2 ⟨m', messages, tools, rfl, ?_, ?_, ?_⟩
  · rw [← hcontents, Gemini.readContents, Gemini.readContents, Gemini.systemMessages,
      Gemini.systemMessages, Value.get?_obj, Value.get?_obj, h "systemInstruction" (by decide),
      h "contents" (by decide)]
  · rw [← htools, Gemini.readTools, Gemini.readTools, Value.get?_obj, Value.get?_obj,
      h "tools" (by decide)]
  · have hcarried : carried .gemini m' =
        Map.insertAll (Map.insertOpt [] "safetySettings" (Map.get? m "safetySettings"))
          (Map.without m' Gemini.knownRequestFields) := by
      rw [carried, if_pos rfl, h "safetySettings" (by decide)]
      rfl
    simp (disch := decide) only [Gemini.requestOf, Gemini.readGenerationConfig, Value.get?_obj, h,
      hcarried]

/-- What is read is what the known members give. -/
theorem requestToIr_known {p : Protocol}
    (h : ∀ key ∈ knownRequestFields p, Map.get? m' key = Map.get? m key)
    (hread : ∃ ctx, requestToIr p (.obj m) = .ok (req, ctx)) :
    ∃ ctx, requestToIr p (.obj m') = .ok ({ req with extra := carried p m' }, ctx) := by
  cases p with
  | openaiChat => exact Chat.requestToIr_known h hread
  | openaiResponses => exact Responses.requestToIr_known h hread
  | anthropic => exact Anthropic.requestToIr_known h hread
  | gemini => exact Gemini.requestToIr_known h hread

/-- The other members are carried. -/
theorem extra_of_requestToIr {p : Protocol} {ctx : ConvCtx}
    (hread : requestToIr p (.obj m) = .ok (req, ctx)) : req.extra = carried p m := by
  obtain ⟨ctx', hctx'⟩ := requestToIr_known (fun _ _ ↦ rfl) ⟨ctx, hread⟩
  have heq := (Prod.mk.inj (Except.ok.inj (hread.symm.trans hctx'))).1
  rw [heq]

end Readers

/-! ### What a request has values for -/

/-- The texts of a content. -/
def textsOf : Option IrContent → List String
  | some (.text s) => [s]
  | some (.parts ps) => ps.filterMap fun p ↦
      match p with
      | .text text => some text
      | _ => none
  | none => []

/-- Some system message of a request has a text that is not empty. -/
def HasSystemText (req : IrRequest) : Prop :=
  ∃ m ∈ req.messages, m.role = .system ∧ ∃ text ∈ textsOf m.content, text ≠ ""

/-- A message has a part for Gemini: a tool message, or one with a text or media that Gemini has, a
thought or a call. -/
def HasGeminiPart (m : IrMessage) : Prop :=
  m.role = .tool ∨ (Gemini.contentToParts m.content).1 ≠ [] ∨ m.reasoningContent.isSome = true ∨
    m.toolCalls ≠ []

/-- A request has something for the generation configuration. -/
def HasConfig (req : IrRequest) : Prop :=
  req.maxTokens.isSome = true ∨ req.temperature.isSome = true ∨ req.topP.isSome = true ∨
    req.ext.topK.isSome = true ∨ req.stop.isSome = true ∨
    ∃ rf, req.responseFormat = some rf ∧
      (rf["type"].asStr = some "json_object" ∨ rf["type"].asStr = some "json_schema")

/-- A request has a value for a member of a protocol. -/
def Given : Protocol → IrRequest → String → Prop
  | .openaiChat, req, key =>
    match key with
    | "tools" => req.tools ≠ []
    | "tool_choice" => req.toolChoice.isSome = true
    | "temperature" => req.temperature.isSome = true
    | "top_p" => req.topP.isSome = true
    | "max_tokens" =>
      req.maxTokens.isSome = true ∧ req.maxTokensField ≠ some .maxCompletionTokens
    | "max_completion_tokens" =>
      req.maxTokens.isSome = true ∧ req.maxTokensField = some .maxCompletionTokens
    | "stop" => req.stop.isSome = true
    | "stream_options" => req.streamIncludeUsage = true
    | "response_format" => req.responseFormat.isSome = true
    | "seed" => req.seed.isSome = true
    | "user" => req.user.isSome = true
    | "n" => req.n.isSome = true
    | _ => True
  | .openaiResponses, req, key =>
    match key with
    | "instructions" => HasSystemText req
    | "tools" => req.tools ≠ []
    | "tool_choice" => req.toolChoice.isSome = true
    | "temperature" => req.temperature.isSome = true
    | "top_p" => req.topP.isSome = true
    | "max_output_tokens" => req.maxTokens.isSome = true
    | "text" => req.responseFormat.isSome = true
    | _ => True
  | .anthropic, req, key =>
    match key with
    | "system" => ∃ m ∈ req.messages, m.role = .system ∧ textsOf m.content ≠ []
    | "tools" => req.tools ≠ []
    | "tool_choice" => req.toolChoice.isSome = true
    | "temperature" => req.temperature.isSome = true
    | "top_p" => req.topP.isSome = true
    | "top_k" => req.ext.topK.isSome = true
    | "stop_sequences" => req.stop.isSome = true
    | "metadata" => req.user.isSome = true
    | "thinking" => req.ext.thinking.isSome = true
    | _ => True
  | .gemini, req, key =>
    match key with
    | "systemInstruction" => HasSystemText req
    | "contents" => ∃ m ∈ req.messages, m.role ≠ .system ∧ HasGeminiPart m
    | "generationConfig" => HasConfig req
    | "tools" => req.tools ≠ []
    | _ => False

section Writers

variable {req : IrRequest}

theorem isSome_map_iff {α β : Type} {f : α → β} {x : Option α} :
    (x.map f).isSome = true ↔ x.isSome = true := by
  rw [Option.isSome_map]

theorem isSome_ite_isEmpty {α β : Type} {l : List α} {b : β} :
    (if l.isEmpty then none else some b).isSome = true ↔ l ≠ [] := by
  cases l with
  | nil => exact iff_of_false (fun h ↦ nomatch h) fun h ↦ h rfl
  | cons x rest => exact iff_of_true rfl (List.cons_ne_nil x rest)

theorem isSome_ite_some {c : Prop} [Decidable c] {α : Type} {a : α} :
    (if c then some a else none).isSome = true ↔ c := by
  by_cases h : c
  · rw [if_pos h]
    exact iff_of_true rfl h
  · rw [if_neg h]
    exact iff_of_false (fun h ↦ nomatch h) h

theorem chat_maxTokens (req : IrRequest) (f : MaxTokensField) :
    (Map.written (Chat.requestMembers req) (Chat.maxTokensKey f)).isSome = true ↔
      req.maxTokens.isSome = true ∧ req.maxTokensField.getD .maxTokens = f := by
  rw [Chat.written_maxTokens]
  by_cases h : f = req.maxTokensField.getD .maxTokens
  · rw [if_pos h, Option.isSome_map]
    exact (and_iff_left h.symm).symm
  · rw [if_neg h]
    exact iff_of_false (fun h ↦ nomatch h) fun hand ↦ h hand.2.symm

theorem chat_writes {key : String} (hkey : key ∈ Chat.knownRequestFields) :
    (Map.written (Chat.requestMembers req) key).isSome = true ↔ Given .openaiChat req key := by
  have hother {key : String} (h₁ : "max_tokens" ≠ key) (h₂ : "max_completion_tokens" ≠ key) :=
    Chat.written_other req (Chat.maxTokensKey_ne h₁ h₂)
  simp only [Chat.knownRequestFields, List.mem_cons, List.not_mem_nil, or_false] at hkey
  rcases hkey with rfl | rfl | rfl | rfl | rfl | rfl | rfl | rfl | rfl | rfl | rfl | rfl | rfl | rfl |
    rfl
  · exact iff_of_true rfl trivial
  · exact iff_of_true rfl trivial
  · exact isSome_ite_isEmpty
  · exact isSome_map_iff
  · exact isSome_map_iff
  · exact isSome_map_iff
  · refine (chat_maxTokens req .maxTokens).trans (and_congr_right fun _ ↦ ?_)
    match req.maxTokensField with
    | none => exact iff_of_true rfl (fun h ↦ nomatch h)
    | some .maxTokens => exact iff_of_true rfl (fun h ↦ nomatch h)
    | some .maxCompletionTokens => exact iff_of_false (fun h ↦ nomatch h) fun h ↦ h rfl
  · refine (chat_maxTokens req .maxCompletionTokens).trans (and_congr_right fun _ ↦ ?_)
    match req.maxTokensField with
    | none => exact iff_of_false (fun h ↦ nomatch h) (fun h ↦ nomatch h)
    | some .maxTokens => exact iff_of_false (fun h ↦ nomatch h) (fun h ↦ nomatch h)
    | some .maxCompletionTokens => exact iff_of_true rfl rfl
  · rw [hother (by decide) (by decide)]
    exact isSome_map_iff
  · rw [hother (by decide) (by decide)]
    exact iff_of_true rfl trivial
  · rw [hother (by decide) (by decide)]
    exact isSome_ite_some
  · rw [hother (by decide) (by decide)]
    exact Iff.rfl
  · rw [hother (by decide) (by decide)]
    exact isSome_map_iff
  · rw [hother (by decide) (by decide)]
    exact isSome_map_iff
  · rw [hother (by decide) (by decide)]
    exact isSome_map_iff

/-! ### System texts -/

theorem join_ne_empty {texts : List String} : String.join texts ≠ "" ↔ ∃ t ∈ texts, t ≠ "" := by
  induction texts with
  | nil => exact iff_of_false (fun h ↦ h rfl) fun ⟨t, ht, _⟩ ↦ List.not_mem_nil ht
  | cons t rest ih =>
    rw [String.join_cons, List.exists_mem_cons_iff, ← ih, Ne, String.append_eq_empty_iff,
      Decidable.not_and_iff_or_not]

theorem contentAsText_eq (content : Option IrContent) :
    Responses.contentAsText content = String.join (textsOf content) := by
  match content with
  | none => rfl
  | some (.text s) =>
    rw [textsOf, String.join_cons, String.join_nil, String.append_empty]
    rfl
  | some (.parts ps) => rfl

/-- The instructions are not empty when some system text is not. -/
theorem instructionsOf_ne_empty {messages : List IrMessage} :
    Responses.instructionsOf messages ≠ "" ↔
      ∃ m ∈ messages, m.role = .system ∧ ∃ text ∈ textsOf m.content, text ≠ "" := by
  -- the induction is on the messages, for any instructions so far
  have hfold (instructions : String) (messages : List IrMessage) :
      messages.foldl (fun instructions m ↦
        if m.role = .system then
          let text := Responses.contentAsText m.content
          if text = "" then instructions
          else if instructions = "" then text else instructions ++ "\n" ++ text
        else instructions) instructions ≠ "" ↔
      instructions ≠ "" ∨
        ∃ m ∈ messages, m.role = .system ∧ ∃ text ∈ textsOf m.content, text ≠ "" := by
    induction messages generalizing instructions with
    | nil =>
      refine (or_iff_left ?_).symm
      exact fun ⟨m, hm, _⟩ ↦ List.not_mem_nil hm
    | cons m rest ih =>
      rw [List.foldl_cons, ih, List.exists_mem_cons_iff, ← or_assoc]
      refine or_congr_left ?_
      rw [← join_ne_empty, ← contentAsText_eq]
      by_cases hrole : m.role = .system
      · rw [if_pos hrole]
        dsimp only
        by_cases htext : Responses.contentAsText m.content = ""
        · rw [if_pos htext]
          exact (or_iff_left fun h ↦ h.2 htext).symm
        · rw [if_neg htext]
          refine iff_of_true ?_ (Or.inr ⟨hrole, htext⟩)
          split
          · exact htext
          · rw [Ne, String.append_eq_empty_iff]
            exact fun h ↦ htext h.2
      · rw [if_neg hrole]
        exact (or_iff_left fun h ↦ hrole h.1).symm
  rw [Responses.instructionsOf, hfold]
  exact or_iff_right fun h ↦ h rfl

theorem responses_writes {key : String} (hkey : key ∈ Responses.knownRequestFields) :
    (Map.written (Responses.requestMembers req) key).isSome = true ↔
      Given .openaiResponses req key := by
  simp only [Responses.knownRequestFields, List.mem_cons, List.not_mem_nil, or_false] at hkey
  rcases hkey with rfl | rfl | rfl | rfl | rfl | rfl | rfl | rfl | rfl | rfl
  · exact iff_of_true rfl trivial
  · show (if Responses.instructionsOf req.messages = "" then none else some _).isSome = true ↔ _
    rw [← ite_not, isSome_ite_some]
    exact instructionsOf_ne_empty
  · exact iff_of_true rfl trivial
  · exact isSome_map_iff
  · exact isSome_map_iff
  · exact isSome_map_iff
  · exact isSome_map_iff
  · exact isSome_ite_isEmpty
  · exact isSome_map_iff
  · exact iff_of_true rfl trivial

variable [SerdeJson]

theorem anthropic_writes {limit : ℕ} {key : String} (hkey : key ∈ Anthropic.knownRequestFields) :
    (Map.written (Anthropic.requestMembers req limit) key).isSome = true ↔
      Given .anthropic req key := by
  have hsystem : (Anthropic.systemToAnthropic req).isSome = true ↔
      ∃ m ∈ req.messages, m.role = .system ∧ textsOf m.content ≠ [] := by
    have hpieces : req.messages.flatMap Anthropic.systemPieces ≠ [] ↔
        ∃ m ∈ req.messages, m.role = .system ∧ textsOf m.content ≠ [] := by
      rw [Ne, List.flatMap_eq_nil_iff]
      push Not
      refine exists_congr fun m ↦ and_congr_right fun _ ↦ ?_
      rw [Anthropic.systemPieces]
      by_cases hrole : m.role = .system
      · rw [if_pos hrole]
        exact (and_iff_right hrole).symm
      · rw [if_neg hrole]
        exact iff_of_false (fun h ↦ h rfl) fun h ↦ hrole h.1
    rw [← hpieces, Anthropic.systemToAnthropic]
    cases req.messages.flatMap Anthropic.systemPieces with
    | nil => exact iff_of_false (fun h ↦ nomatch h) fun h ↦ h rfl
    | cons piece rest =>
      refine iff_of_true ?_ (List.cons_ne_nil piece rest)
      cases req.ext.cacheControl with
      | some cc => rfl
      | none => cases rest <;> rfl
  simp only [Anthropic.knownRequestFields, List.mem_cons, List.not_mem_nil, or_false] at hkey
  rcases hkey with rfl | rfl | rfl | rfl | rfl | rfl | rfl | rfl | rfl | rfl | rfl | rfl | rfl
  · exact iff_of_true rfl trivial
  · exact hsystem
  · exact iff_of_true rfl trivial
  · exact isSome_ite_isEmpty
  · exact isSome_map_iff
  · exact isSome_map_iff
  · exact isSome_map_iff
  · exact isSome_map_iff
  · exact isSome_map_iff
  · exact iff_of_true rfl trivial
  · exact iff_of_true rfl trivial
  · exact isSome_map_iff
  · exact Iff.rfl

omit [SerdeJson] in
/-- A system message makes a part when it has a text that is not empty. -/
theorem systemMsgToInstructionParts_ne_nil (m : IrMessage) :
    (Gemini.systemMsgToInstructionParts m).1 ≠ [] ↔ ∃ text ∈ textsOf m.content, text ≠ "" := by
  rw [Gemini.systemMsgToInstructionParts]
  match m.content with
  | none => exact iff_of_false (fun h ↦ h rfl) fun ⟨t, ht, _⟩ ↦ List.not_mem_nil ht
  | some (.text s) =>
    rw [textsOf, List.exists_mem_cons_iff]
    refine Iff.trans ?_ (or_iff_left fun ⟨t, ht, _⟩ ↦ List.not_mem_nil ht).symm
    show (if s = "" then [] else [Gemini.textPart s]) ≠ [] ↔ s ≠ ""
    by_cases hs : s = ""
    · exact iff_of_false (fun h ↦ h (if_pos hs)) fun h ↦ h hs
    · rw [if_neg hs]
      exact iff_of_true (List.cons_ne_nil _ _) hs
  | some (.parts ps) =>
    rw [textsOf, ← List.length_pos_iff, List.length_pos_iff_exists_mem]
    constructor
    · intro ⟨v, hv⟩
      obtain ⟨p, hp, hpart⟩ := List.mem_filterMap.1 hv
      cases p with
      | text text =>
        refine ⟨text, List.mem_filterMap.2 ⟨.text text, hp, rfl⟩, fun htext ↦ ?_⟩
        exact absurd (hpart.symm.trans (if_pos htext)) (Option.some_ne_none v)
      | _ => exact nomatch hpart
    · intro ⟨text, htext, hne⟩
      obtain ⟨p, hp, hpart⟩ := List.mem_filterMap.1 htext
      refine ⟨Gemini.textPart text, List.mem_filterMap.2 ⟨p, hp, ?_⟩⟩
      cases p with
      | text t =>
        obtain rfl := Option.some.inj hpart
        exact if_neg hne
      | _ => exact nomatch hpart

theorem messageToContent_isSome (m : IrMessage) :
    (Gemini.messageToContent m).1.isSome = true ↔ HasGeminiPart m := by
  rw [Gemini.messageToContent, HasGeminiPart]
  refine isSome_ite_isEmpty.trans ?_
  by_cases hrole : m.role = .tool
  · rw [if_pos hrole]
    exact iff_of_true (List.cons_ne_nil _ _) (Or.inl hrole)
  · rw [if_neg hrole, or_iff_right hrole, Gemini.messageToParts]
    simp only [Ne, List.append_eq_nil_iff, List.map_eq_nil_iff, Option.toList_eq_nil_iff,
      Option.map_eq_none_iff]
    rw [← Option.not_isSome_iff_eq_none]
    tauto

omit [SerdeJson] in
/-- A response format says something to Gemini when it asks for JSON. -/
theorem responseFormat_json (rf : Value) :
    (Gemini.responseMimeType rf).isSome = true ∨ (Gemini.responseSchema rf).isSome = true ↔
      rf["type"].asStr = some "json_object" ∨ rf["type"].asStr = some "json_schema" := by
  constructor
  · rintro (h | h)
    · unfold Gemini.responseMimeType at h
      split at h
      · exact Or.inl ‹_›
      · exact Or.inr ‹_›
      · exact nomatch h
    · rw [Gemini.responseSchema] at h
      split at h
      · exact Or.inr ‹_›
      · exact nomatch h
  · rintro (h | h)
    · rw [Gemini.responseMimeType, h]
      exact Or.inl rfl
    · rw [Gemini.responseMimeType, h]
      exact Or.inl rfl

omit [SerdeJson] in
theorem generationConfig_ne_nil : Gemini.generationConfig req ≠ [] ↔ HasConfig req := by
  rw [Gemini.generationConfig, Map.insertPresent_ne_nil, or_iff_right fun h ↦ h rfl, HasConfig,
    Gemini.configMembers]
  have hformat : (req.responseFormat.bind Gemini.responseMimeType).isSome = true ∨
      (req.responseFormat.bind Gemini.responseSchema).isSome = true ↔
        ∃ rf, req.responseFormat = some rf ∧
          (rf["type"].asStr = some "json_object" ∨ rf["type"].asStr = some "json_schema") := by
    cases req.responseFormat with
    | none =>
      refine iff_of_false (fun h ↦ ?_) fun ⟨rf, h, _⟩ ↦ nomatch h
      rcases h with h | h <;> exact nomatch h
    | some rf =>
      rw [Option.bind_some, Option.bind_some, responseFormat_json]
      constructor
      · intro h
        exact ⟨rf, rfl, h⟩
      · intro ⟨rf', hrf, h⟩
        rw [Option.some.inj hrf]
        exact h
  simp only [List.exists_mem_cons_iff, Option.isSome_map]
  rw [← hformat]
  refine or_congr_right (or_congr_right (or_congr_right (or_congr_right (or_congr_right
    (or_congr_right (or_iff_left ?_))))))
  exact fun ⟨x, hx, _⟩ ↦ List.not_mem_nil hx

theorem gemini_writes {key : String} (hkey : key ∈ Gemini.knownRequestFields) :
    (Map.written (Gemini.requestMembers req) key).isSome = true ↔ Given .gemini req key := by
  simp only [Gemini.knownRequestFields, List.mem_cons, List.not_mem_nil, or_false] at hkey
  rcases hkey with rfl | rfl | rfl | rfl | rfl
  · refine isSome_ite_isEmpty.trans ?_
    rw [Gemini.systemParts, Ne, List.flatMap_eq_nil_iff, List.forall_mem_map]
    push Not
    constructor
    · intro ⟨m, hm, hne⟩
      rw [List.mem_filter, decide_eq_true_eq] at hm
      exact ⟨m, hm.1, hm.2, (systemMsgToInstructionParts_ne_nil m).1 hne⟩
    · intro ⟨m, hm, hrole, htext⟩
      refine ⟨m, List.mem_filter.2 ⟨hm, by rw [decide_eq_true_eq]; exact hrole⟩, ?_⟩
      exact (systemMsgToInstructionParts_ne_nil m).2 htext
  · refine isSome_ite_isEmpty.trans ?_
    rw [Gemini.messagesToContents, filterMapCtx, ← List.length_pos_iff, List.length_pos_iff_exists_mem]
    constructor
    · intro ⟨v, hv⟩
      obtain ⟨m, hm, hcontent⟩ := List.mem_filterMap.1 hv
      rw [Gemini.contentMessages, List.mem_filter, decide_eq_true_eq] at hm
      exact ⟨m, hm.1, hm.2, (messageToContent_isSome m).1 (by rw [hcontent]; rfl)⟩
    · intro ⟨m, hm, hrole, hpart⟩
      obtain ⟨v, hv⟩ := Option.isSome_iff_exists.1 ((messageToContent_isSome m).2 hpart)
      refine ⟨v, List.mem_filterMap.2 ⟨m, List.mem_filter.2 ⟨hm, ?_⟩, hv⟩⟩
      rw [decide_eq_true_eq]
      exact hrole
  · exact isSome_ite_isEmpty.trans generationConfig_ne_nil
  · exact isSome_ite_isEmpty
  · exact iff_of_false (fun h ↦ nomatch h) fun h ↦ h

/-- A writer has a value for a member of its protocol when the request has one. -/
theorem isSome_written {q : Protocol} {key : String} (hkey : key ∈ knownRequestFields q) :
    (Map.written (requestMembers q req) key).isSome = true ↔ Given q req key := by
  cases q with
  | openaiChat => exact chat_writes hkey
  | openaiResponses => exact responses_writes hkey
  | anthropic => exact anthropic_writes hkey
  | gemini => exact gemini_writes hkey

end Writers

/-! ### The theorem -/

section Agreement

variable [SerdeJson] {p q : Protocol} {m m' : Map} {req : IrRequest} {ctx : ConvCtx}

/-- What is written over the carried members does not depend on them. -/
theorem requestMembers_extra (q : Protocol) (req : IrRequest) (extra : Map) :
    requestMembers q { req with extra := extra } = requestMembers q req := by
  cases q <;> rfl

omit [SerdeJson] in
/-- The carried members are laid down, under the names that the upstream's protocol knows. -/
theorem get?_laidDown {key : String} (hkey : key ∈ knownRequestFields q) (req : IrRequest) :
    Map.get? (laidDown q req) key = Map.get? req.extra key := by
  cases q with
  | gemini =>
    have hne : "model" ≠ key := by
      intro heq
      rw [← heq] at hkey
      exact absurd hkey (by decide)
    rw [laidDown, Map.get?_remove, if_neg hne]
  | _ => rfl

/-- A request with additional members that the client's protocol does not know is written with the
same members of the upstream's protocol exactly when the request has a value for each additional
member that the upstream's protocol knows. -/
theorem agree_iff (hm : Map.Sorted m) (hm' : Map.Sorted m') (hadds : AddsUnknown p m m')
    (hread : requestToIr p (.obj m) = .ok (req, ctx)) :
    (∃ req' ctx', requestToIr p (.obj m') = .ok (req', ctx') ∧
      ∀ key ∈ knownRequestFields q,
        (requestFromIr q req').1.get? key = (requestFromIr q req).1.get? key) ↔
      ∀ key ∈ knownRequestFields q, Map.get? m key = none → Map.get? m' key ≠ none →
        Given q req key := by
  obtain ⟨ctx', hread'⟩ := requestToIr_known hadds.known ⟨ctx, hread⟩
  have hextra := extra_of_requestToIr hread
  -- one member agrees when it is written, or when it is carried alike
  have hmember {key : String} (hkey : key ∈ knownRequestFields q) :
      (requestFromIr q { req with extra := carried p m' }).1.get? key =
          (requestFromIr q req).1.get? key ↔
        Given q req key ∨ Map.get? (carried p m') key = Map.get? (carried p m) key := by
    rw [get?_requestFromIr, get?_requestFromIr, requestMembers_extra, get?_laidDown hkey,
      get?_laidDown hkey, hextra, ← isSome_written hkey]
    cases Map.written (requestMembers q req) key with
    | none =>
      rw [Option.none_or, Option.none_or]
      exact (or_iff_right fun h ↦ nomatch h).symm
    | some v => exact iff_of_true rfl (Or.inl rfl)
  -- a member is carried alike unless it is additional
  have hcarried (key : String) : Map.get? (carried p m') key = Map.get? (carried p m) key ↔
      ¬ (Map.get? m key = none ∧ Map.get? m' key ≠ none) := by
    by_cases hknown : key ∈ knownRequestFields p
    · refine iff_of_true (get?_carried_known hadds.known hknown) fun hand ↦ hand.2 ?_
      rw [hadds.known key hknown, hand.1]
    · rw [get?_carried_unknown hm' hknown, get?_carried_unknown hm hknown]
      cases hget : Map.get? m key with
      | none => exact ⟨fun h hand ↦ hand.2 h, fun h ↦ not_not.1 fun hne ↦ h ⟨rfl, hne⟩⟩
      | some v => exact iff_of_true (hadds.kept key v hget) fun hand ↦ nomatch hand.1
  have hkeys : (∀ key ∈ knownRequestFields q,
      (requestFromIr q { req with extra := carried p m' }).1.get? key =
        (requestFromIr q req).1.get? key) ↔
      ∀ key ∈ knownRequestFields q, Map.get? m key = none → Map.get? m' key ≠ none →
        Given q req key := by
    refine forall₂_congr fun key hkey ↦ ?_
    rw [hmember hkey, hcarried]
    constructor
    · intro h hnone hsome
      exact h.resolve_right fun hnot ↦ hnot ⟨hnone, hsome⟩
    · intro h
      by_cases hadded : Map.get? m key = none ∧ Map.get? m' key ≠ none
      · exact Or.inl (h hadded.1 hadded.2)
      · exact Or.inr hadded
  rw [← hkeys]
  constructor
  · intro ⟨req', ctx'', hok, hagree⟩
    rw [(Prod.mk.inj (Except.ok.inj (hread'.symm.trans hok))).1]
    exact hagree
  · intro h
    exact ⟨_, ctx', hread', h⟩

end Agreement

/-- One more member that the protocol does not know. -/
theorem addsUnknown_insert {p : Protocol} {m : Map} {key : String}
    (hkey : key ∉ knownRequestFields p) (hnone : Map.get? m key = none) (v : Value) :
    AddsUnknown p m (Map.insert m key v) where
  known other hother := by
    have hne : key ≠ other := by
      rintro rfl
      exact hkey hother
    rw [Map.get?_insert, if_neg hne]
  kept other w hw := by
    have hne : key ≠ other := by
      rintro rfl
      exact nomatch hnone.symm.trans hw
    rw [Map.get?_insert, if_neg hne, hw]

section Concrete

local instance extrasCodec : SerdeJson := Compact.codec

/-- A short question, with a token limit or without one. -/
def shortQuestion (limit : Option ℕ) : Map :=
  Map.ofList ((limit.map fun n ↦ ("max_tokens", Value.ofNat n)).toList ++
    [("messages", .arr [.object [("role", .str "user"), ("content", .str "and now?")]])])

/-- A limit of the client is not lifted. -/
theorem agree_limited :
    ∃ req ctx, requestToIr .openaiChat (.obj (shortQuestion (some 64))) = .ok (req, ctx) ∧
      ∃ req' ctx', requestToIr .openaiChat
          (.obj (Map.insert (shortQuestion (some 64)) "max_output_tokens" (.int 1000000))) =
            .ok (req', ctx') ∧
        ∀ key ∈ knownRequestFields .openaiResponses,
          (requestFromIr .openaiResponses req').1.get? key =
            (requestFromIr .openaiResponses req).1.get? key := by
  obtain ⟨req, ctx, hread, hlimit⟩ : ∃ req ctx,
      requestToIr .openaiChat (.obj (shortQuestion (some 64))) = .ok (req, ctx) ∧
        req.maxTokens = some 64 := ⟨_, _, rfl, rfl⟩
  have hsorted : Map.Sorted (shortQuestion (some 64)) := Map.sorted_ofList _
  refine ⟨req, ctx, hread, (agree_iff hsorted (hsorted.insert _ _)
    (addsUnknown_insert (by decide) rfl _) hread).2 fun key hkey hnone hsome ↦ ?_⟩
  rw [Map.get?_insert, hnone] at hsome
  split at hsome
  · rename_i heq
    rw [← heq]
    show req.maxTokens.isSome = true
    rw [hlimit]
    rfl
  · exact absurd rfl hsome

/-- Without one, the limit of another protocol goes through. -/
theorem not_agree_unlimited :
    ∃ req ctx req' ctx',
      requestToIr .openaiChat (.obj (shortQuestion none)) = .ok (req, ctx) ∧
      AddsUnknown .openaiChat (shortQuestion none)
        (Map.insert (shortQuestion none) "max_output_tokens" (.int 1000000)) ∧
      requestToIr .openaiChat
          (.obj (Map.insert (shortQuestion none) "max_output_tokens" (.int 1000000))) =
        .ok (req', ctx') ∧
      (requestFromIr .openaiResponses req).1.get? "max_output_tokens" = none ∧
      (requestFromIr .openaiResponses req').1.get? "max_output_tokens" = some (.int 1000000) :=
  ⟨_, _, _, _, rfl, addsUnknown_insert (by decide) rfl _, rfl, rfl, rfl⟩

end Concrete

end NextApi
