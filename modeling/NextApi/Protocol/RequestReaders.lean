import NextApi.Error
import NextApi.Protocol.Chat.Request
import NextApi.Protocol.Gemini.RequestWriter
import NextApi.Protocol.Responses.Request

/-!
# Reading and writing requests

A request is converted by reading it with the adapter of the client's protocol and writing it with
that of the upstream's. Reading may fail; writing never does.

A writer lays the carried members down first and writes its own over them (`requestMembers`), so a
member of the written request is one that the writer has a value for, or a carried one
(`get?_requestFromIr`).

A reader fails on what is no object, on messages or tools that are not read, and on nothing else.
The request that it gives is a function of the object, of its messages and of its tools
(`requestToIr_eq_ok`): `Chat.requestOf`, `Responses.requestOf`, `Anthropic.requestOf` and
`Gemini.requestOf`.
-/

set_option autoImplicit false

namespace NextApi

open Json Ir

/-! ### The four adapters -/

section Adapters

variable [SerdeJson]

/-- Reads a request. -/
def requestToIr : Protocol → Value → Except ConvertError (IrRequest × ConvCtx)
  | .openaiChat => Chat.requestToIr
  | .openaiResponses => Responses.requestToIr
  | .anthropic => Anthropic.requestToIr
  | .gemini => Gemini.requestToIr

/-- Writes a request. -/
def requestFromIr : Protocol → IrRequest → Value × ConvCtx
  | .openaiChat => Chat.requestFromIr
  | .openaiResponses => Responses.requestFromIr
  | .anthropic => Anthropic.requestFromIr
  | .gemini => Gemini.requestFromIr

/-! ### What is written -/

/-- The members that a writer has values for. -/
def requestMembers : Protocol → IrRequest → List (String × Option Value)
  | .openaiChat, req => Chat.requestMembers req
  | .openaiResponses, req => Responses.requestMembers req
  | .anthropic, req =>
    Anthropic.requestMembers req (req.maxTokens.getD Anthropic.defaultMaxTokens)
  | .gemini, req => Gemini.requestMembers req

/-- The members that a writer lays down first. -/
def laidDown : Protocol → IrRequest → Map
  | .gemini, req => Map.remove req.extra "model"
  | _, req => req.extra

theorem requestFromIr_eq (q : Protocol) (req : IrRequest) :
    (requestFromIr q req).1 = .obj (Map.insertPresent (laidDown q req) (requestMembers q req)) := by
  cases q with
  | openaiChat => rfl
  | openaiResponses => rfl
  | anthropic =>
    rw [requestFromIr, Anthropic.requestFromIr, requestMembers]
    cases req.maxTokens <;> rfl
  | gemini => rfl

/-- No writer writes a member twice. -/
theorem nodup_requestMembers (q : Protocol) (req : IrRequest) :
    ((requestMembers q req).map Prod.fst).Nodup := by
  cases q with
  | openaiChat =>
    rw [requestMembers, Chat.requestMembers]
    cases req.maxTokensField.getD .maxTokens <;> simp [Chat.maxTokensKey]
  | openaiResponses => simp [requestMembers, Responses.requestMembers]
  | anthropic => simp [requestMembers, Anthropic.requestMembers]
  | gemini => simp [requestMembers, Gemini.requestMembers]

/-- A member of a written request is written, or carried. -/
theorem get?_requestFromIr (q : Protocol) (req : IrRequest) (key : String) :
    (requestFromIr q req).1.get? key =
      (Map.written (requestMembers q req) key).or (Map.get? (laidDown q req) key) := by
  rw [requestFromIr_eq, Value.get?_obj, Map.get?_insertPresent (nodup_requestMembers q req)]

end Adapters

/-! ### Options read back -/

section Options

theorem asF64_map_float (x : Option Dyadic) : ((x.map Value.float).getD .null).asF64 = x := by
  cases x <;> rfl

theorem asStr_map_str (s : Option String) : ((s.map Value.str).getD .null).asStr = s := by
  cases s <;> rfl

theorem filterMap_asStr (ss : List String) : (ss.map Value.str).filterMap Value.asStr = ss := by
  rw [List.filterMap_map]
  exact List.filterMap_some

theorem asU32_ofNat (k : UInt32) : (Value.ofNat k.toNat).asU32 = some k := by
  rw [Value.asU32, Value.asU64_ofNat, Option.filter_some,
    if_pos (by simpa using UInt32.toNat_lt k), Option.map_some, UInt32.ofNat_toNat]

theorem asU32_map_ofNat (k : Option UInt32) :
    ((k.map fun k ↦ Value.ofNat k.toNat).getD .null).asU32 = k := by
  cases k with
  | none => rfl
  | some k => exact asU32_ofNat k

end Options

variable [SerdeJson]

/-! ### Chat -/

namespace Chat

/-- The request of an object with these messages and tools. -/
def requestOf (m : Map) (messages : List IrMessage) (tools : List IrTool) : IrRequest :=
  let v := Value.obj m
  { model := v["model"].strOrEmpty
    messages := messages
    tools := tools
    toolChoice := v.get? "tool_choice"
    temperature := v["temperature"].asF64
    topP := v["top_p"].asF64
    maxTokens := readMaxTokens v
    maxTokensField := maxTokensField v
    stop := (v.get? "stop").bind parseStop
    stream := v["stream"].asBool.getD false
    streamIncludeUsage := readIncludeUsage v
    responseFormat := v.get? "response_format"
    seed := v["seed"].asI64
    user := v["user"].asStr
    n := v["n"].asU32
    extra := Map.insertAll [] (Map.without m knownRequestFields) }

theorem requestToIr_eq_ok {v : Value} {req : IrRequest} :
    (∃ ctx, requestToIr v = .ok (req, ctx)) ↔
      ∃ m messages tools, v = .obj m ∧ (readMessages v).map Prod.fst = .ok messages ∧
        (readTools v).map Prod.fst = .ok tools ∧ req = requestOf m messages tools := by
  cases v with
  | obj m =>
    constructor
    · intro ⟨ctx, h⟩
      obtain ⟨messages, hmessages, h⟩ := bind_eq_ok.1 h
      obtain ⟨tools, htools, h⟩ := bind_eq_ok.1 h
      refine ⟨m, messages.1, tools.1, rfl, ?_, ?_, (Prod.mk.inj (Except.ok.inj h)).1.symm⟩
      · rw [hmessages]
        rfl
      · rw [htools]
        rfl
    · intro ⟨m', messages, tools, hm, hmessages, htools, hreq⟩
      obtain ⟨readMsgs, hmsgs, rfl⟩ := map_eq_ok.1 hmessages
      obtain ⟨readDefs, hdefs, rfl⟩ := map_eq_ok.1 htools
      rw [hreq, ← Value.obj.inj hm]
      exact ⟨_, bind_eq_ok.2 ⟨readMsgs, hmsgs, bind_eq_ok.2 ⟨readDefs, hdefs, rfl⟩⟩⟩
  | _ =>
    refine iff_of_false (fun ⟨ctx, h⟩ ↦ ?_) fun ⟨m, messages, tools, h, _⟩ ↦ ?_
    · exact absurd h (by simp [requestToIr, Value.asObject])
    · exact nomatch h

end Chat

/-! ### Responses -/

namespace Responses

/-- The messages of an object; they are always read. -/
def messagesOf (m : Map) : List IrMessage :=
  match Map.get? m "input" with
  | some input => (parseInput (instructionMessages (.obj m)) input).1
  | none => instructionMessages (.obj m)

def readTools (v : Value) : Except ConvertError (List IrTool × ConvCtx) :=
  match v.get? "tools" with
  | some tools => parseResponseTools tools
  | none => .ok ([], [])

/-- The verbosity of `text` has no place. -/
def textDegraded (m : Map) : ConvCtx :=
  if ((((Map.get? m "text").bind Value.asObject)).bind fun t ↦ Map.get? t "verbosity").isSome then
    degrade "text.verbosity" "Responses 专属字段，无法映射" else []

/-- The request of an object with these tools. -/
def requestOf (m : Map) (tools : List IrTool) : IrRequest :=
  let v := Value.obj m
  { model := v["model"].strOrEmpty
    stream := v["stream"].asBool.getD false
    messages := messagesOf m
    maxTokens := (v.get? "max_output_tokens").bind Value.asU64
    temperature := v["temperature"].asF64
    topP := v["top_p"].asF64
    responseFormat :=
      ((v.get? "text").bind Value.asObject).bind fun t ↦ Map.get? t "format"
    tools := tools
    toolChoice := v.get? "tool_choice"
    extra := Map.insertAll [] (Map.without m knownRequestFields) }

theorem requestToIr_obj (m : Map) :
    ∃ ctx : ConvCtx → ConvCtx, requestToIr (.obj m) =
      (readTools (.obj m)).bind fun tools ↦ .ok (requestOf m tools.1, ctx tools.2) := by
  unfold requestToIr requestOf messagesOf readTools
  simp only [Value.asObject, Value.get?_obj]
  cases Map.get? m "input" with
  | none =>
    refine ⟨fun toolCtx ↦ textDegraded m ++ toolCtx ++ statefulDegraded (.obj m), ?_⟩
    cases Map.get? m "tools" <;> rfl
  | some input =>
    refine ⟨fun toolCtx ↦ (parseInput (instructionMessages (.obj m)) input).2 ++ textDegraded m ++
      toolCtx ++ statefulDegraded (.obj m), ?_⟩
    cases Map.get? m "tools" <;> rfl

theorem requestToIr_eq_ok {v : Value} {req : IrRequest} :
    (∃ ctx, requestToIr v = .ok (req, ctx)) ↔
      ∃ m tools, v = .obj m ∧ (readTools v).map Prod.fst = .ok tools ∧
        req = requestOf m tools := by
  cases v with
  | obj m =>
    obtain ⟨degraded, hobj⟩ := requestToIr_obj m
    constructor
    · intro ⟨ctx, h⟩
      rw [hobj] at h
      obtain ⟨tools, htools, h⟩ := bind_eq_ok.1 h
      exact ⟨m, tools.1, rfl, map_eq_ok.2 ⟨tools, htools, rfl⟩,
        (Prod.mk.inj (Except.ok.inj h)).1.symm⟩
    · intro ⟨m', tools, hm, htools, hreq⟩
      obtain ⟨readDefs, hdefs, rfl⟩ := map_eq_ok.1 htools
      rw [hreq, ← Value.obj.inj hm, hobj]
      exact ⟨_, bind_eq_ok.2 ⟨readDefs, hdefs, rfl⟩⟩
  | _ =>
    refine iff_of_false (fun ⟨ctx, h⟩ ↦ ?_) fun ⟨m, tools, h, _⟩ ↦ ?_
    · exact absurd h (by simp [requestToIr, Value.asObject])
    · exact nomatch h

end Responses

/-! ### Anthropic -/

namespace Anthropic

/-- The messages of an object after those of its `system`, with the extensions. -/
def readConversation (m : Map) : Except ConvertError (List IrMessage × IrExt × ConvCtx) :=
  let req := (readSystem (.obj m)).1
  match Map.get? m "messages" with
  | some msgs =>
    match msgs.asArray with
    | some items => parseMessages items req.ext
    | none => .error (.parse "messages 不是数组")
  | none => .ok ([], req.ext, [])

def readTools (v : Value) : Except ConvertError (List IrTool × ConvCtx) :=
  match v.get? "tools" with
  | some tools => parseTools tools
  | none => .ok ([], [])

/-- `top_k`, unless it has more than 32 bits. -/
def topKOf (m : Map) : Option UInt32 := (Value.obj m)["top_k"].asU32

/-- The request of an object with these messages, extensions and tools. -/
def requestOf (m : Map) (messages : List IrMessage) (ext : IrExt) (tools : List IrTool) :
    IrRequest :=
  let v := Value.obj m
  let req := (readSystem v).1
  { req with
    messages := req.messages ++ messages
    maxTokens := v["max_tokens"].asU64
    stop := (v.get? "stop_sequences").bind parseStopSequences
    temperature := v["temperature"].asF64
    topP := v["top_p"].asF64
    stream := v["stream"].asBool.getD false
    tools := tools
    toolChoice := (v.get? "tool_choice").bind parseToolChoice
    user := v["metadata"]["user_id"].asStr
    ext := { ext with topK := topKOf m, thinking := v.get? "thinking" }
    extra := carriedMembers m }

omit [SerdeJson] in
theorem topKOf_eq (m : Map) :
    topKOf m =
      match (Value.obj m)["top_k"].asU64 with
      | some k => if k < 2 ^ 32 then some (UInt32.ofNat k) else none
      | none => none := by
  rw [topKOf, Value.asU32]
  cases (Value.obj m)["top_k"].asU64 with
  | none => rfl
  | some k =>
    dsimp only
    by_cases h : k < 2 ^ 32
    · rw [Option.filter_some, if_pos (by simpa using h), if_pos h]
      rfl
    · rw [Option.filter_some, if_neg (by simpa using h), if_neg h]
      rfl

theorem requestToIr_obj (m : Map) :
    ∃ ctx : ConvCtx → ConvCtx → ConvCtx, requestToIr (.obj m) =
      (readConversation m).bind fun read ↦
        (readTools (.obj m)).bind fun tools ↦
          .ok (requestOf m read.1 read.2.1 tools.1, ctx read.2.2 tools.2) := by
  let ctx (topKCtx msgCtx toolCtx : ConvCtx) : ConvCtx :=
    (readSystem (.obj m)).2 ++ msgCtx ++ topKCtx ++ toolCtx ++ metadataDegraded (.obj m)
  unfold requestToIr requestOf readConversation readTools
  simp only [topKOf_eq, Value.asObject, Value.get?_obj]
  cases (Value.obj m)["top_k"].asU64 with
  | none =>
    refine ⟨ctx [], ?_⟩
    cases Map.get? m "messages" with
    | none => cases Map.get? m "tools" <;> rfl
    | some msgs =>
      dsimp only
      cases msgs.asArray <;> cases Map.get? m "tools" <;> rfl
  | some k =>
    by_cases hk : k < 2 ^ 32
    · refine ⟨ctx [], ?_⟩
      simp only [if_pos hk]
      cases Map.get? m "messages" with
      | none => cases Map.get? m "tools" <;> rfl
      | some msgs =>
      dsimp only
      cases msgs.asArray <;> cases Map.get? m "tools" <;> rfl
    · refine ⟨ctx (degrade "top_k" "超出 u32 范围，丢弃"), ?_⟩
      simp only [if_neg hk]
      cases Map.get? m "messages" with
      | none => cases Map.get? m "tools" <;> rfl
      | some msgs =>
      dsimp only
      cases msgs.asArray <;> cases Map.get? m "tools" <;> rfl

theorem requestToIr_eq_ok {v : Value} {req : IrRequest} :
    (∃ ctx, requestToIr v = .ok (req, ctx)) ↔
      ∃ m messages ext tools, v = .obj m ∧
        (readConversation m).map (fun read ↦ (read.1, read.2.1)) = .ok (messages, ext) ∧
        (readTools v).map Prod.fst = .ok tools ∧ req = requestOf m messages ext tools := by
  cases v with
  | obj m =>
    obtain ⟨degraded, hobj⟩ := requestToIr_obj m
    constructor
    · intro ⟨ctx, h⟩
      rw [hobj] at h
      obtain ⟨read, hread, h⟩ := bind_eq_ok.1 h
      obtain ⟨tools, htools, h⟩ := bind_eq_ok.1 h
      exact ⟨m, read.1, read.2.1, tools.1, rfl, map_eq_ok.2 ⟨read, hread, rfl⟩,
        map_eq_ok.2 ⟨tools, htools, rfl⟩, (Prod.mk.inj (Except.ok.inj h)).1.symm⟩
    · intro ⟨m', messages, ext, tools, hm, hconversation, htools, hreq⟩
      obtain rfl := Value.obj.inj hm
      obtain ⟨read, hread, hpair⟩ := map_eq_ok.1 hconversation
      obtain ⟨readDefs, hdefs, rfl⟩ := map_eq_ok.1 htools
      rw [hreq, ← (Prod.mk.inj hpair).1, ← (Prod.mk.inj hpair).2, hobj]
      exact ⟨_, bind_eq_ok.2 ⟨read, hread, bind_eq_ok.2 ⟨readDefs, hdefs, rfl⟩⟩⟩
  | _ =>
    refine iff_of_false (fun ⟨ctx, h⟩ ↦ ?_) fun ⟨m, messages, ext, tools, h, _⟩ ↦ ?_
    · exact absurd h (by simp [requestToIr, Value.asObject])
    · exact nomatch h

end Anthropic

/-! ### Gemini -/

namespace Gemini

/-- The messages of an object. -/
def readContents (m : Map) : Except ConvertError ContentsAcc :=
  let system := systemMessages (.obj m)
  parseContents { messages := system.1, ctx := system.2 } (Map.get? m "contents")

/-- The request of an object with these messages and tools. -/
def requestOf (m : Map) (messages : List IrMessage) (tools : List IrTool) : IrRequest :=
  let v := Value.obj m
  { (readGenerationConfig v { messages := messages }).1 with
    tools := tools
    extra := Map.insertAll (Map.insertOpt [] "safetySettings" (v.get? "safetySettings"))
      (Map.without m knownRequestFields) }

theorem requestToIr_eq_ok {v : Value} {req : IrRequest} :
    (∃ ctx, requestToIr v = .ok (req, ctx)) ↔
      ∃ m messages tools, v = .obj m ∧
        (readContents m).map ContentsAcc.messages = .ok messages ∧
        (readTools v).map Prod.fst = .ok tools ∧ req = requestOf m messages tools := by
  cases v with
  | obj m =>
    constructor
    · intro ⟨ctx, h⟩
      obtain ⟨read, hread, h⟩ := bind_eq_ok.1 h
      obtain ⟨tools, htools, h⟩ := bind_eq_ok.1 h
      exact ⟨m, read.messages, tools.1, rfl, map_eq_ok.2 ⟨read, hread, rfl⟩,
        map_eq_ok.2 ⟨tools, htools, rfl⟩, (Prod.mk.inj (Except.ok.inj h)).1.symm⟩
    · intro ⟨m', messages, tools, hm, hread, htools, hreq⟩
      obtain rfl := Value.obj.inj hm
      obtain ⟨contents, hcontents, rfl⟩ := map_eq_ok.1 hread
      obtain ⟨readDefs, hdefs, rfl⟩ := map_eq_ok.1 htools
      rw [hreq]
      exact ⟨_, bind_eq_ok.2 ⟨contents, hcontents, bind_eq_ok.2 ⟨readDefs, hdefs, rfl⟩⟩⟩
  | _ =>
    refine iff_of_false (fun ⟨ctx, h⟩ ↦ ?_) fun ⟨m, messages, tools, h, _⟩ ↦ ?_
    · exact absurd h (by simp [requestToIr, Value.asObject])
    · exact nomatch h

end Gemini

end NextApi
