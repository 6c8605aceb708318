import NextApi.Json.Compact
import NextApi.Protocol.Anthropic.RequestMessages
import NextApi.Protocol.RequestReaders

/-!
# A Messages request, read, written and read again

Everything that a request says beside its messages is read again from what it is written as
(`SameSettings`): the system message with its cache control, the tools, the thinking configuration,
the limits and the sampling options. The tool choice is the exception: `none` is written as `auto`
(`sameSettings_iff`).
-/

set_option autoImplicit false

namespace NextApi.Anthropic

open Json Ir

/-- The system messages of a request. -/
def systemMessages (req : IrRequest) : List IrMessage :=
  req.messages.filter fun m ↦ decide (m.role = .system)

/-- Two requests say the same beside their messages. -/
structure SameSettings (req req' : IrRequest) : Prop where
  model : req'.model = req.model
  system : systemMessages req' = systemMessages req
  cacheControl : req'.ext.cacheControl = req.ext.cacheControl
  tools : req'.tools = req.tools
  toolChoice : req'.toolChoice = req.toolChoice
  thinking : req'.ext.thinking = req.ext.thinking
  stop : req'.stop = req.stop
  maxTokens : req'.maxTokens = req.maxTokens
  temperature : req'.temperature = req.temperature
  topP : req'.topP = req.topP
  topK : req'.ext.topK = req.ext.topK
  stream : req'.stream = req.stream
  user : req'.user = req.user

/-! ### Tool choices -/

/-- The types of a tool choice that come back. -/
def keptTypes : List String := ["auto", "any", "tool"]

/-- A tool choice of no known type that has the form of Chat, or a type that the writer leaves
alone. -/
def Unchanged (tc : Value) : Prop :=
  tc = .str "auto" ∨ tc = .str "required" ∨
    (∃ name, tc = .object [("type", .str "function"), ("function", .object [("name", .str name)])]) ∨
    tc.isObject = true ∧ tc["type"].asStr ≠ some "function"

/-- A tool choice that is read again from what it is written as. -/
def ChoiceKept (tc : Value) : Prop :=
  tc.isNull = true ∨ tc["type"].strOrEmpty ∈ keptTypes ∨
    tc["type"].strOrEmpty ≠ "none" ∧ tc["type"].strOrEmpty ∉ keptTypes ∧ Unchanged tc

/-- A choice of another type is carried as it is. -/
theorem parseToolChoice_other {tc : Value} (hnull : tc.isNull = false)
    (hnone : tc["type"].strOrEmpty ≠ "none") (hkept : tc["type"].strOrEmpty ∉ keptTypes) :
    parseToolChoice tc = some tc := by
  rw [parseToolChoice, hnull]
  simp only [keptTypes, List.mem_cons, List.not_mem_nil, or_false, not_or] at hkept
  obtain ⟨hauto, hany, htool⟩ := hkept
  split
  · exact absurd ‹_› (by decide)
  · split
    · exact absurd ‹_› hauto
    · exact absurd ‹_› hany
    · exact absurd ‹_› hnone
    · exact absurd ‹_› htool
    · rfl

/-- A choice that is carried as it is comes back when it is unchanged. -/
theorem parse_written_other {tc : Value} (hnull : tc.isNull = false)
    (hnone : tc["type"].strOrEmpty ≠ "none") (hkept : tc["type"].strOrEmpty ∉ keptTypes) :
    parseToolChoice (toolChoiceToAnthropic tc) = some tc ↔ Unchanged tc := by
  have hauto : parseToolChoice (.object [("type", .str "auto")]) = some (.str "auto") := rfl
  have hother (h : toolChoiceToAnthropic tc = .object [("type", .str "auto")])
      (hne : tc ≠ .str "auto") (hne' : tc ≠ .str "required") (hobj : tc.isObject = false) :
      parseToolChoice (toolChoiceToAnthropic tc) = some tc ↔ Unchanged tc := by
    rw [h, hauto]
    refine iff_of_false (fun heq ↦ hne (Option.some.inj heq).symm) ?_
    rintro (heq | heq | ⟨name, heq⟩ | hand)
    · exact hne heq
    · exact hne' heq
    · rw [heq] at hobj
      exact nomatch hobj
    · rw [hobj] at hand
      exact nomatch hand.1
  cases tc with
  | str s =>
    by_cases hs : s = "auto"
    · subst hs
      exact iff_of_true rfl (Or.inl rfl)
    · by_cases hs' : s = "required"
      · subst hs'
        exact iff_of_true rfl (Or.inr (Or.inl rfl))
      · refine hother ?_ (fun h ↦ hs (Value.str.inj h)) (fun h ↦ hs' (Value.str.inj h)) rfl
        unfold toolChoiceToAnthropic
        split
        · exact absurd (Value.str.inj ‹_›) hs
        · exact absurd (Value.str.inj ‹_›) hs'
        · exact nomatch ‹Value.str s = Value.obj _›
        · rfl
  | obj m =>
    by_cases htype : (Map.get? m "type").bind Value.asStr = some "function"
    · have hwritten : toolChoiceToAnthropic (.obj m) =
          .object [("type", .str "tool"),
            ("name", .str ((((Map.get? m "function").bind fun f ↦ f.get? "name").bind
              Value.asStr).getD ""))] := by
        rw [toolChoiceToAnthropic, if_pos htype]
      rw [hwritten]
      constructor
      · intro h
        exact Or.inr (Or.inr (Or.inl ⟨_, (Option.some.inj h).symm⟩))
      · rintro (heq | heq | ⟨name, heq⟩ | ⟨-, hne⟩)
        · exact nomatch heq
        · exact nomatch heq
        · rw [Value.obj.inj heq]
          rfl
        · refine absurd ?_ hne
          obtain ⟨w, hw, hstr⟩ := Option.bind_eq_some_iff.1 htype
          rw [Value.getElem_eq, Value.get?_obj, hw]
          exact hstr
    · have hwritten : toolChoiceToAnthropic (.obj m) = .obj m := by
        rw [toolChoiceToAnthropic, if_neg htype]
      rw [hwritten, parseToolChoice_other hnull hnone hkept]
      refine iff_of_true rfl (Or.inr (Or.inr (Or.inr ⟨rfl, fun h ↦ htype ?_⟩)))
      rw [show Map.get? m "type" = some (.str "function") from Value.get?_of_asStr h]
      rfl
  | null => exact hother rfl Value.noConfusion Value.noConfusion rfl
  | bool b => exact hother rfl Value.noConfusion Value.noConfusion rfl
  | int i => exact hother rfl Value.noConfusion Value.noConfusion rfl
  | float x => exact hother rfl Value.noConfusion Value.noConfusion rfl
  | arr items => exact hother rfl Value.noConfusion Value.noConfusion rfl

/-- The choice of a request comes back when it is kept. -/
theorem toolChoice_back (tc : Value) :
    ((parseToolChoice tc).map toolChoiceToAnthropic).bind parseToolChoice = parseToolChoice tc ↔
      ChoiceKept tc := by
  cases hnull : tc.isNull with
  | true =>
    have hnone : parseToolChoice tc = none := by
      rw [parseToolChoice, hnull]
      rfl
    rw [hnone]
    exact iff_of_true rfl (Or.inl hnull)
  | false =>
    have hkept : ChoiceKept tc ↔ tc["type"].strOrEmpty ∈ keptTypes ∨
        tc["type"].strOrEmpty ≠ "none" ∧ tc["type"].strOrEmpty ∉ keptTypes ∧ Unchanged tc := by
      rw [ChoiceKept, hnull]
      simp only [Bool.false_eq_true, false_or]
    rw [hkept]
    by_cases hnone : tc["type"].strOrEmpty = "none"
    · have hparse : parseToolChoice tc = some (.str "none") := by
        rw [parseToolChoice, hnull, hnone]
        rfl
      rw [hparse]
      refine iff_of_false (fun h ↦ ?_) ?_
      · exact absurd (Value.str.inj (Option.some.inj h)) (by decide)
      · rintro (hmem | hand)
        · rw [hnone] at hmem
          exact absurd hmem (by decide)
        · exact hand.1 hnone
    · by_cases hmem : tc["type"].strOrEmpty ∈ keptTypes
      · refine iff_of_true ?_ (Or.inl hmem)
        simp only [keptTypes, List.mem_cons, List.not_mem_nil, or_false] at hmem
        rcases hmem with htype | htype | htype
        · have hparse : parseToolChoice tc = some (.str "auto") := by
            rw [parseToolChoice, hnull, htype]
            rfl
          rw [hparse]
          rfl
        · have hparse : parseToolChoice tc = some (.str "required") := by
            rw [parseToolChoice, hnull, htype]
            rfl
          rw [hparse]
          rfl
        · have hparse : parseToolChoice tc = some (.object [("type", .str "function"),
              ("function", .object [("name", .str tc["name"].strOrEmpty)])]) := by
            rw [parseToolChoice, hnull, htype]
            rfl
          rw [hparse]
          rfl
      · have hparse := parseToolChoice_other hnull hnone hmem
        rw [hparse, Option.map_some, Option.bind_some, parse_written_other hnull hnone hmem]
        exact ⟨fun h ↦ Or.inr ⟨hnone, hmem, h⟩, fun h ↦ (h.resolve_left hmem).2.2⟩

/-! ### Messages -/

section Requests

variable [SerdeJson]

/-- Messages are read from objects only. -/
theorem isObject_of_parseMessages {items : List Value} {ext : IrExt}
    {r : List IrMessage × IrExt × ConvCtx} (h : parseMessages items ext = .ok r) :
    ∀ msg ∈ items, msg.isObject = true := by
  induction items generalizing ext r with
  | nil => exact fun msg hmsg ↦ absurd hmsg List.not_mem_nil
  | cons msg rest ih =>
    obtain ⟨first, hfirst, h⟩ := bind_eq_ok.1 h
    obtain ⟨others, hothers, -⟩ := bind_eq_ok.1 h
    intro other hother
    rcases List.mem_cons.1 hother with rfl | hother
    · by_contra hobj
      rw [parseAnthMessage, if_neg hobj] at hfirst
      cases hfirst
    · exact ih hothers other hother

/-- No message of the conversation is a system message. -/
theorem role_of_mem_readMessages {msg : Value} {m : IrMessage} (h : m ∈ readMessages msg) :
    m.role ≠ .system := by
  have hrole : (parseRole msg["role"].strOrEmpty).1 ≠ .system := by
    unfold parseRole
    split <;> exact IrRole.noConfusion
  rw [readMessages] at h
  split at h
  · rw [List.mem_singleton.1 h]
    exact hrole
  · rcases List.mem_append.1 h with h | h
    · split at h
      · rw [List.mem_singleton.1 h]
        exact hrole
      · exact absurd h List.not_mem_nil
    · obtain ⟨block, -, hblock⟩ := List.mem_filterMap.1 h
      rw [blockResult] at hblock
      split at hblock
      · rw [← Option.some.inj hblock]
        exact IrRole.noConfusion
      · cases hblock
  · rw [List.mem_singleton.1 h]
    exact hrole

/-- What reading the conversation of an object gives beside the system message. -/
theorem readConversation_ok {m : Map} {messages : List IrMessage} {ext : IrExt}
    (h : (readConversation m).map (fun read ↦ (read.1, read.2.1)) = .ok (messages, ext)) :
    (∀ msg ∈ messages, msg.role ≠ .system) ∧
      ext.cacheControl = (readSystem (.obj m)).1.ext.cacheControl := by
  obtain ⟨read, hread, hpair⟩ := map_eq_ok.1 h
  obtain ⟨hmessages, hext⟩ := Prod.mk.inj hpair
  rw [← hmessages, ← hext]
  rw [readConversation] at hread
  split at hread
  · split at hread
    · rename_i items _
      obtain ⟨ext', ctx', hparse, hcc⟩ := parseMessages_reads (isObject_of_parseMessages hread)
        (readSystem (.obj m)).1.ext
      rw [← Except.ok.inj (hparse.symm.trans hread)]
      refine ⟨fun msg hmsg ↦ ?_, hcc⟩
      obtain ⟨item, -, hitem⟩ := List.mem_flatMap.1 hmsg
      exact role_of_mem_readMessages hitem
    · exact nomatch hread
  · rw [← Except.ok.inj hread]
    exact ⟨fun msg hmsg ↦ absurd hmsg List.not_mem_nil, rfl⟩

/-- Every message that is written is an object. -/
theorem isObject_messagesToAnthropic (req : IrRequest) :
    ∃ items, (messagesToAnthropic req).1 = .arr items ∧ ∀ msg ∈ items, msg.isObject = true := by
  have hconcat {out : List Value} (hout : ∀ msg ∈ out, msg.isObject = true) (role : String)
      (blocks : List Value) : ∀ msg ∈ out ++ [anthMessage role blocks], msg.isObject = true := by
    intro msg hmsg
    rcases List.mem_append.1 hmsg with hmsg | hmsg
    · exact hout msg hmsg
    · rw [List.mem_singleton.1 hmsg]
      exact isObject_anthMessage role blocks
  have hflush {acc : MessagesAcc} (h : ∀ msg ∈ acc.out, msg.isObject = true) :
      ∀ msg ∈ acc.flush.out, msg.isObject = true := by
    rw [MessagesAcc.flush]
    split
    · exact h
    · exact hconcat h _ _
  have hfold (messages : List IrMessage) (acc : MessagesAcc)
      (h : ∀ msg ∈ acc.out, msg.isObject = true) :
      ∀ msg ∈ (messages.foldl (writeMessage req) acc).out, msg.isObject = true := by
    induction messages generalizing acc with
    | nil => exact h
    | cons m rest ih =>
      refine ih _ ?_
      rw [writeMessage]
      split
      · exact h
      · exact hconcat h _ _
      · exact hconcat (hflush h) _ _
      · exact h
  exact ⟨_, rfl, hflush (hfold req.messages {} fun msg hmsg ↦ absurd hmsg List.not_mem_nil)⟩

/-! ### Tools -/

omit [SerdeJson] in
theorem parseTool_toolToJson (t : IrTool) : parseTool (toolToJson t) = (some t, []) := by
  obtain ⟨name, description, parameters⟩ := t
  cases description <;> rfl

omit [SerdeJson] in
theorem parseTools_map_toolToJson (tools : List IrTool) :
    parseTools (.arr (tools.map toolToJson)) = .ok (tools, []) := by
  have hread : filterMapCtx parseTool (tools.map toolToJson) = (tools, []) := by
    rw [filterMapCtx, List.filterMap_map, List.flatMap_map]
    simp only [Function.comp_def, parseTool_toolToJson]
    rw [List.filterMap_some, List.flatMap_eq_nil_iff.2 fun _ _ ↦ rfl]
  show Except.ok (filterMapCtx parseTool (tools.map toolToJson)) = _
  rw [hread]

/-! ### The theorem -/

/-- The members of an object that say everything but the tool choice and the messages are those of
the request. -/
structure WrittenAs (req : IrRequest) (limit : ℕ) (m : Map) : Prop where
  get : ∀ key ∈ knownRequestFields, Map.get? m key = Map.written (requestMembers req limit) key

variable {req : IrRequest} {limit : ℕ} {m : Map}

/-- What is written is read again member by member. -/
theorem WrittenAs.member (h : WrittenAs req limit m) {key : String}
    (hkey : key ∈ knownRequestFields) :
    (Value.obj m)[key] = (Map.written (requestMembers req limit) key).getD .null := by
  rw [Value.getElem_eq, Value.get?_obj, h.get key hkey]

theorem writtenAs_requestFromIr {original : Map} (hextra : req.extra = carriedMembers original)
    (hlimit : req.maxTokens = some limit) :
    ∃ m, (requestFromIr req).1 = .obj m ∧ WrittenAs req limit m := by
  refine ⟨_, requestFromIr_eq .anthropic req, ⟨fun key hkey ↦ ?_⟩⟩
  have hcarried : Map.get? (laidDown .anthropic req) key = none := by
    show Map.get? req.extra key = none
    rw [hextra]
    exact get?_carriedMembers original hkey
  have hget := get?_requestFromIr .anthropic req key
  rw [requestFromIr_eq, Value.get?_obj, hcarried, Option.or_none, NextApi.requestMembers, hlimit,
    Option.getD_some] at hget
  rw [NextApi.requestMembers, hlimit, Option.getD_some]
  exact hget

/-- The tools of what is written are read again. -/
theorem WrittenAs.readTools (h : WrittenAs req limit m) :
    (readTools (.obj m)).map Prod.fst = .ok req.tools := by
  have hget := h.get "tools" (by decide)
  simp only [requestMembers, Map.written_cons, String.reduceEq, if_false, if_true] at hget
  rw [Anthropic.readTools, Value.get?_obj, hget]
  cases htools : req.tools with
  | nil => rfl
  | cons t rest =>
    show (parseTools (.arr ((t :: rest).map toolToJson))).map Prod.fst = _
    rw [parseTools_map_toolToJson]
    rfl

/-- The messages of what is written are read again, with the system message of before. -/
theorem WrittenAs.readConversation (h : WrittenAs req limit m) :
    ∃ messages ext,
      (readConversation m).map (fun read ↦ (read.1, read.2.1)) = .ok (messages, ext) := by
  obtain ⟨items, hitems, hobjects⟩ := isObject_messagesToAnthropic req
  have hget := h.get "messages" (by decide)
  simp only [requestMembers, Map.written_cons, String.reduceEq, if_false, if_true] at hget
  obtain ⟨ext, ctx, hparse, -⟩ := parseMessages_reads hobjects (readSystem (.obj m)).1.ext
  refine ⟨items.flatMap readMessages, ext, ?_⟩
  rw [Anthropic.readConversation, hget, hitems]
  show (parseMessages items _).map _ = _
  rw [hparse]
  rfl

omit [SerdeJson] in
theorem model_readSystem (v : Value) : (readSystem v).1.model = v["model"].strOrEmpty := by
  unfold readSystem
  dsimp only
  split
  · unfold parseSystem
    dsimp only
    split
    · rfl
    · split <;> rfl
    · split <;> rfl
    · rfl
  · rfl

/-- The options of what is written are read again. -/
theorem WrittenAs.sameSettings (h : WrittenAs req limit m) (hlimit : req.maxTokens = some limit)
    {messages : List IrMessage} {ext : IrExt}
    (hsystem : systemMessages (requestOf m messages ext req.tools) = systemMessages req)
    (hcontrol : ext.cacheControl = req.ext.cacheControl)
    (hchoice : (requestOf m messages ext req.tools).toolChoice = req.toolChoice) :
    SameSettings req (requestOf m messages ext req.tools) where
  model := by
    show (readSystem (.obj m)).1.model = req.model
    rw [model_readSystem, h.member (by decide)]
    rfl
  system := hsystem
  cacheControl := hcontrol
  tools := rfl
  toolChoice := hchoice
  thinking := by
    show Map.get? m "thinking" = req.ext.thinking
    rw [h.get _ (by decide)]
    rfl
  stop := by
    show (Map.get? m "stop_sequences").bind parseStopSequences = req.stop
    rw [h.get _ (by decide)]
    show (req.stop.map fun stop ↦ Value.arr (stop.map .str)).bind parseStopSequences = req.stop
    cases req.stop with
    | none => rfl
    | some stop => exact congrArg some (filterMap_asStr stop)
  maxTokens := by
    show (Value.obj m)["max_tokens"].asU64 = req.maxTokens
    rw [h.member (by decide), hlimit]
    exact Value.asU64_ofNat limit
  temperature := by
    show (Value.obj m)["temperature"].asF64 = req.temperature
    rw [h.member (by decide)]
    exact asF64_map_float req.temperature
  topP := by
    show (Value.obj m)["top_p"].asF64 = req.topP
    rw [h.member (by decide)]
    exact asF64_map_float req.topP
  topK := by
    show (Value.obj m)["top_k"].asU32 = req.ext.topK
    rw [h.member (by decide)]
    exact asU32_map_ofNat req.ext.topK
  stream := by
    show (Value.obj m)["stream"].asBool.getD false = req.stream
    rw [h.member (by decide)]
    rfl
  user := by
    show (Value.obj m)["metadata"]["user_id"].asStr = req.user
    rw [h.member (show "metadata" ∈ knownRequestFields by decide)]
    show (((req.user.map fun u ↦ Value.object [("user_id", .str u)]).getD .null)["user_id"]).asStr =
      req.user
    cases req.user <;> rfl

/-- A request that was read, with a token limit, says the same when it is written and read again
exactly when its tool choice is kept. -/
theorem sameSettings_iff {v : Value} {ctx : ConvCtx} (hread : requestToIr v = .ok (req, ctx))
    (hlimit : v["max_tokens"].asU64.isSome = true) :
    (∃ req' ctx', requestToIr (requestFromIr req).1 = .ok (req', ctx') ∧ SameSettings req req') ↔
      ∀ tc, v.get? "tool_choice" = some tc → ChoiceKept tc := by
  obtain ⟨m₀, messages₀, ext₀, tools₀, rfl, hconversation, -, hreq⟩ :=
    requestToIr_eq_ok.1 ⟨ctx, hread⟩
  obtain ⟨hroles, hcontrol₀⟩ := readConversation_ok hconversation
  obtain ⟨limit, hlimit⟩ := Option.isSome_iff_exists.1 hlimit
  have hmax : req.maxTokens = some limit := by
    rw [hreq]
    exact hlimit
  obtain ⟨m, hobj, hwritten⟩ := writtenAs_requestFromIr (by rw [hreq]; rfl) hmax
  obtain ⟨messages, ext, hagain⟩ := hwritten.readConversation
  obtain ⟨hroles', hcontrol⟩ := readConversation_ok hagain
  -- the system message is written so that it is read again
  have hmessages : req.messages = (readSystem (.obj m₀)).1.messages ++ messages₀ := by
    rw [hreq]
    rfl
  have hext : req.ext.cacheControl = (readSystem (.obj m₀)).1.ext.cacheControl := by
    rw [← hcontrol₀, hreq]
    rfl
  have hleft := readSystem_left (.obj m₀)
  rw [← hext] at hleft
  obtain ⟨hsystem, hcc⟩ := readSystem_systemToAnthropic hmessages hleft hroles
    (hwritten.get "system" (by decide))
  have hfilter {sys rest : List IrMessage} (hrest : ∀ msg ∈ rest, msg.role ≠ .system) :
      (sys ++ rest).filter (fun msg ↦ decide (msg.role = .system)) =
        sys.filter fun msg ↦ decide (msg.role = .system) := by
    have hnil : rest.filter (fun msg ↦ decide (msg.role = .system)) = [] := by
      rw [List.filter_eq_nil_iff]
      intro msg hmsg
      simpa using hrest msg hmsg
    rw [List.filter_append, hnil, List.append_nil]
  have hsame : systemMessages (requestOf m messages ext req.tools) = systemMessages req := by
    show ((readSystem (.obj m)).1.messages ++ messages).filter _ = req.messages.filter _
    rw [hsystem, hmessages, hfilter hroles', hfilter hroles]
  -- what is read again, and its tool choice
  obtain ⟨ctx', hok⟩ := requestToIr_eq_ok.2 ⟨m, messages, ext, req.tools, rfl, hagain,
    hwritten.readTools, rfl⟩
  have hchoice : (requestOf m messages ext req.tools).toolChoice =
      (req.toolChoice.map toolChoiceToAnthropic).bind parseToolChoice := by
    show (Map.get? m "tool_choice").bind parseToolChoice = _
    rw [hwritten.get _ (by decide)]
    rfl
  have hkept : (requestOf m messages ext req.tools).toolChoice = req.toolChoice ↔
      ∀ tc, (Value.obj m₀).get? "tool_choice" = some tc → ChoiceKept tc := by
    have hraw : req.toolChoice = ((Value.obj m₀).get? "tool_choice").bind parseToolChoice := by
      rw [hreq]
      rfl
    rw [hchoice, hraw]
    cases (Value.obj m₀).get? "tool_choice" with
    | none => exact iff_of_true rfl fun tc h ↦ nomatch h
    | some tc =>
      rw [Option.bind_some, toolChoice_back]
      exact ⟨fun h tc' htc ↦ Option.some.inj htc ▸ h, fun h ↦ h tc rfl⟩
  rw [← hkept, hobj]
  constructor
  · intro ⟨req', ctx'', hread', hsettings⟩
    rw [(Prod.mk.inj (Except.ok.inj (hok.symm.trans hread'))).1]
    exact hsettings.toolChoice
  · intro h
    exact ⟨_, ctx', hok, hwritten.sameSettings hmax hsame (hcontrol.trans hcc) h⟩

end Requests

section Concrete

local instance fixpointCodec : SerdeJson := Compact.codec

/-- A question with a choice of tools. -/
def question (choice : Value) : Value :=
  .object
    [("max_tokens", .int 64), ("tool_choice", choice),
      ("messages", .arr [.object [("role", .str "user"), ("content", .str "and now?")]])]

/-- `any` is kept. -/
theorem sameSettings_any :
    ∃ req ctx, requestToIr (question (.object [("type", .str "any")])) = .ok (req, ctx) ∧
      ∃ req' ctx', requestToIr (requestFromIr req).1 = .ok (req', ctx') ∧
        SameSettings req req' := by
  have hlimit : (question (.object [("type", .str "any")]))["max_tokens"].asU64.isSome = true := by
    decide
  refine ⟨_, _, rfl, (sameSettings_iff rfl hlimit).2 fun tc htc ↦ Or.inr (Or.inl ?_)⟩
  rw [← Option.some.inj htc]
  decide

/-- `none` comes back as `auto`. -/
theorem not_sameSettings_none :
    ∃ req ctx, requestToIr (question (.object [("type", .str "none")])) = .ok (req, ctx) ∧
      req.toolChoice = some (.str "none") ∧
      ∃ req' ctx', requestToIr (requestFromIr req).1 = .ok (req', ctx') ∧
        req'.toolChoice = some (.str "auto") ∧ ¬ SameSettings req req' := by
  refine ⟨_, _, rfl, rfl, _, _, rfl, rfl, fun h ↦ ?_⟩
  exact absurd (Value.str.inj (Option.some.inj h.toolChoice)) (by decide)

end Concrete

end NextApi.Anthropic
