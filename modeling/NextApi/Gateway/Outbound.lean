import NextApi.Gateway.Capabilities
import NextApi.Upstream.RewriteBody

/-!
# The body that goes to an upstream

The model of a request is read (`extractModel`), its body is scanned for the capabilities that it
needs, and an upstream that has the protocol of the request gets the body as it is, any other gets
it converted (`decideMode`, `buildOutbound`). Either body is rewritten at the end.

A body that is passed through gets the model of the upstream, also from Gemini, whose model is in
the address and not in the body. For the other protocols the body is an object, or no model is
found; a Gemini body may be any JSON value, and one that is neither an object nor `null` panics.
That and indices without bound in the overrides are the only ways to a panic (`prepare_iff`).
-/

set_option autoImplicit false

namespace NextApi.Gateway

open Json Ir Upstream

/-! ### Mode -/

/-- Whether a body is passed through or converted. -/
inductive Mode where
  | passthrough
  | convert (target : Protocol)
  deriving DecidableEq, Inhabited

/-- What is read of the row of an upstream. -/
structure Channel where
  protocols : List String := []
  extra : Value := .null
  deriving DecidableEq, Inhabited

/-- `Protocol::from_str`. -/
def parseProtocol : String → Option Protocol
  | "openai_chat" | "openai" => some .openaiChat
  | "openai_responses" | "responses" => some .openaiResponses
  | "anthropic" => some .anthropic
  | "gemini" => some .gemini
  | _ => none

def defaultPriority : List Protocol := [.openaiChat, .anthropic, .gemini, .openaiResponses]

namespace Channel

/-- The protocols that the upstream has. -/
def protocolList (up : Channel) : List Protocol := up.protocols.filterMap parseProtocol

/-- The protocols to convert to, the best first. -/
def protocolPriority (up : Channel) : List Protocol :=
  let custom := ((((up.extra.get? "protocol_priority").bind Value.asArray).getD []).filterMap
    Value.asStr).filterMap parseProtocol
  if custom.isEmpty then defaultPriority else custom

/-- The mode for an upstream, if it can serve the request at all. -/
def decideMode (entry : Protocol) (up : Channel) : Option Mode :=
  if entry ∈ up.protocolList then some .passthrough
  else (up.protocolPriority.find? fun target ↦ decide (target ∈ up.protocolList)).map .convert

end Channel

/-! ### The model -/

/-- The model that a request names: Gemini in its address, the others in the body. -/
def extractModel (entry : Protocol) (body : Value) (geminiModel : Option String) :
    Except ApiError String :=
  match entry with
  | .gemini =>
    match geminiModel with
    | some m => if m ≠ "" then .ok m else .error (.badRequest "Gemini 模型缺失")
    | none => .error (.badRequest "Gemini 模型缺失")
  | _ =>
    match body["model"].asStr with
    | some m => if m ≠ "" then .ok m else .error (.badRequest "model 缺失")
    | none => .error (.badRequest "model 缺失")

/-! ### The body -/

/-- The fields that a conversion could not carry over, in one line. -/
def degradedHeader (ctx : ConvCtx) : Option String :=
  if ctx.isEmpty then none else some (String.intercalate "," (ctx.map DegradedItem.field))

/-- A request without messages is not sent. -/
def rejectEmptyMessages (ir : IrRequest) (ctx : ConvCtx) : Except ConvertError Unit :=
  if !ir.messages.isEmpty then .ok ()
  else
    let msg := "请求不含任何有效消息（Responses 需 input、Chat/Anthropic 需 messages、" ++
      "Gemini 需 contents）；若为 Responses 入口请检查 input item 是否带有正确的 type 字段"
    .error (.parse (msg ++
      match degradedHeader ctx with
      | some d => "；转换降级项: " ++ d
      | none => ""))

/-- A Chat stream is asked for its usage. -/
def injectStreamUsageOption (body : Value) (p : Protocol) (stream : Bool) : Value :=
  match body with
  | .obj m =>
    if stream && decide (p = .openaiChat) then
      let so := (Map.get? m "stream_options").getD (.obj [])
      .obj (Map.insert m "stream_options"
        (match so with
          | .obj options => .obj (Map.insert options "include_usage" (.bool true))
          | other => other))
    else body
  | _ => body

structure Outbound where
  body : Value
  protocol : Protocol
  mode : Mode
  reqDegraded : Option String
  deriving DecidableEq, Inhabited

section Builder

-- the items that an array has at most
variable [SerdeJson] (limit : ℕ)

/-- The request as the target gets it: with the model of the upstream, and a stream of OpenAI with
its usage. -/
def convertedRequest (ir : IrRequest) (target : Protocol) (stream : Bool) (upstreamModel : String) :
    IrRequest :=
  { ir with
    model := upstreamModel
    stream := stream
    streamIncludeUsage :=
      ir.streamIncludeUsage || (stream && decide (target ∈ [.openaiChat, .openaiResponses])) }

/-- The body for an upstream, or why it cannot be converted. -/
def buildOutbound (entry : Protocol) (mode : Mode) (body : Value) (stream : Bool)
    (upstreamModel : String) (up : Channel) : Except Panic (Except ConvertError Outbound) :=
  match mode with
  | .passthrough =>
    (rewriteBody limit body (some upstreamModel) (overrides up.extra)).map fun b ↦
      .ok ⟨injectStreamUsageOption b entry stream, entry, mode, none⟩
  | .convert target =>
    match requestToIr entry body with
    | .error e => .ok (.error e)
    | .ok (ir, ctx) =>
      match rejectEmptyMessages ir ctx with
      | .error e => .ok (.error e)
      | .ok () =>
        let (out, writeCtx) := requestFromIr target (convertedRequest ir target stream upstreamModel)
        (rewriteBody limit out none (overrides up.extra)).map fun b ↦
          .ok ⟨b, target, mode, degradedHeader (ctx ++ writeCtx)⟩

/-- Why a request does not get to an upstream. -/
inductive Refusal where
  | api (e : ApiError)
  | convert (e : ConvertError)
  /-- The upstream has no protocol that the request can be sent in. -/
  | noMode
  deriving DecidableEq, Inhabited

/-- The way of a request to the body for an upstream, with the capabilities it was scanned for. -/
def prepare (entry : Protocol) (body : Value) (geminiModel : Option String) (stream : Bool)
    (upstreamModel : String) (up : Channel) :
    Except Panic (Except Refusal (RequiredCaps × Outbound)) :=
  match extractModel entry body geminiModel with
  | .error e => .ok (.error (.api e))
  | .ok _ =>
    let caps := requiredCaps body stream
    match up.decideMode entry with
    | none => .ok (.error .noMode)
    | some mode =>
      (buildOutbound limit entry mode body stream upstreamModel up).map fun built ↦
        match built with
        | .error e => .error (.convert e)
        | .ok outbound => .ok (caps, outbound)

/-! ### Panics -/

/-- A Gemini body that is passed through has members, or is `null`. -/
def ModelFits (entry : Protocol) (body : Value) (up : Channel) : Prop :=
  entry = .gemini → up.decideMode entry = some .passthrough → body.isObject = true ∨ body = .null

/-- The overrides fit the body that they are applied to: the one that is passed through, with its
model, or the converted one. -/
def OverridesFit (entry : Protocol) (body : Value) (stream : Bool) (upstreamModel : String)
    (up : Channel) : Prop :=
  match up.decideMode entry with
  | none => True
  | some .passthrough => ∀ b, setModel body upstreamModel = .ok b →
      AllFit limit (overrideWrites (overrides up.extra)) b
  | some (.convert target) => ∀ ir ctx, requestToIr entry body = .ok (ir, ctx) → ir.messages ≠ [] →
      AllFit limit (overrideWrites (overrides up.extra))
        (requestFromIr target (convertedRequest ir target stream upstreamModel)).1

omit [SerdeJson] in
/-- A body whose model is found is an object, unless it is one of Gemini. -/
theorem isObject_of_extractModel {entry : Protocol} {body : Value} {geminiModel : Option String}
    {model : String} (hentry : entry ≠ .gemini)
    (h : extractModel entry body geminiModel = .ok model) : body.isObject = true := by
  have hmodel : ∃ m, body["model"].asStr = some m := by
    cases hstr : body["model"].asStr with
    | some m => exact ⟨m, rfl⟩
    | none =>
      rw [extractModel.eq_def] at h
      split at h
      · exact absurd rfl hentry
      · rw [hstr] at h
        exact nomatch h
  obtain ⟨m, hm⟩ := hmodel
  obtain ⟨members, rfl, -⟩ := Value.eq_obj_of_asStr hm
  rfl

theorem buildOutbound_convert_iff (entry target : Protocol) (body : Value) (stream : Bool)
    (upstreamModel : String) (up : Channel) :
    (∃ r, buildOutbound limit entry (.convert target) body stream upstreamModel up = .ok r) ↔
      ∀ ir ctx, requestToIr entry body = .ok (ir, ctx) → ir.messages ≠ [] →
        AllFit limit (overrideWrites (overrides up.extra))
          (requestFromIr target (convertedRequest ir target stream upstreamModel)).1 := by
  rw [buildOutbound]
  cases hread : requestToIr entry body with
  | error e => exact iff_of_true ⟨_, rfl⟩ fun ir ctx h ↦ nomatch h
  | ok read =>
    obtain ⟨ir, ctx⟩ := read
    dsimp only
    cases hmessages : ir.messages with
    | nil =>
      rw [rejectEmptyMessages, hmessages]
      refine iff_of_true ⟨_, rfl⟩ fun ir' ctx' h hne ↦ ?_
      rw [← (Prod.mk.inj (Except.ok.inj h)).1] at hne
      exact absurd hmessages hne
    | cons m rest =>
      rw [rejectEmptyMessages, hmessages]
      show (∃ r, (rewriteBody limit _ none _).map _ = .ok r) ↔ _
      rw [exists_map_ok_iff, rewriteBody_iff]
      constructor
      · intro h ir' ctx' heq _
        rw [← (Prod.mk.inj (Except.ok.inj heq)).1]
        exact h
      · intro h
        exact h ir ctx rfl (by rw [hmessages]; exact List.cons_ne_nil m rest)

theorem buildOutbound_passthrough_iff (entry : Protocol) (body : Value) (stream : Bool)
    (upstreamModel : String) (up : Channel) :
    (∃ r, buildOutbound limit entry .passthrough body stream upstreamModel up = .ok r) ↔
      (body.isObject = true ∨ body = .null) ∧ ∀ b, setModel body upstreamModel = .ok b →
        AllFit limit (overrideWrites (overrides up.extra)) b := by
  rw [buildOutbound, exists_map_ok_iff, rewriteBody_iff]
  exact Iff.rfl

/-- A request whose model is found is prepared without a panic exactly when the model can be written
into its body and the overrides need no array that is too long. -/
theorem prepare_iff {entry : Protocol} {body : Value} {geminiModel : Option String}
    (stream : Bool) (upstreamModel : String) (up : Channel) :
    (∃ r, prepare limit entry body geminiModel stream upstreamModel up = .ok r) ↔
      ((∃ model, extractModel entry body geminiModel = .ok model) →
        ModelFits entry body up ∧ OverridesFit limit entry body stream upstreamModel up) := by
  rw [prepare]
  cases hextract : extractModel entry body geminiModel with
  | error e => exact iff_of_true ⟨_, rfl⟩ fun ⟨model, h⟩ ↦ nomatch h
  | ok model =>
    have hfound {P : Prop} : ((∃ m, (Except.ok model : Except ApiError String) = .ok m) → P) ↔ P :=
      ⟨fun h ↦ h ⟨model, rfl⟩, fun h _ ↦ h⟩
    rw [hfound, OverridesFit, ModelFits]
    dsimp only
    cases hmode : up.decideMode entry with
    | none => exact iff_of_true ⟨_, rfl⟩ ⟨fun _ h ↦ (nomatch h), trivial⟩
    | some mode =>
      dsimp only
      rw [exists_map_ok_iff]
      cases mode with
      | convert target =>
        rw [buildOutbound_convert_iff]
        exact (and_iff_right fun _ h ↦ nomatch h).symm
      | passthrough =>
        rw [buildOutbound_passthrough_iff]
        refine and_congr_left fun _ ↦ ?_
        by_cases hentry : entry = .gemini
        · exact ⟨fun h _ _ ↦ h, fun h ↦ h hentry rfl⟩
        · refine iff_of_true (.inl (isObject_of_extractModel hentry hextract)) ?_
          exact fun h ↦ absurd h hentry

end Builder

/-! ### An array from Gemini -/

section Codec

local instance outboundCodec : SerdeJson := Compact.codec

/-- An upstream with the protocol of Gemini. -/
def geminiChannel : Channel := { protocols := ["gemini"] }

/-- The body `[]` for a model of Gemini panics, however long arrays may be. -/
theorem prepare_gemini_array :
    ¬ ∀ (limit : ℕ) (entry : Protocol) (body : Value) (geminiModel : Option String) (stream : Bool)
      (upstreamModel : String) (up : Channel),
      ∃ r, prepare limit entry body geminiModel stream upstreamModel up = .ok r := by
  intro h
  obtain ⟨r, hr⟩ := h 1000 .gemini (.arr []) (some "gemini-2.5-pro") false "gemini-2.5-pro"
    geminiChannel
  have hpanics : prepare 1000 .gemini (.arr []) (some "gemini-2.5-pro") false "gemini-2.5-pro"
      geminiChannel = .error (.cannotAccessKey "model") := rfl
  exact nomatch hpanics.symm.trans hr

end Codec

end NextApi.Gateway
