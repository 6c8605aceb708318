import NextApi.Json.Compact
import NextApi.Protocol.RequestReaders

/-!
# The token limit of a request

Three places read the number of tokens that a request asks for at most: the converter of its
protocol, the precheck against the tokens per minute of the key (`extractMaxTokens`), and the record
of its parameters (`requestParamsMeta`).

A Chat request may give it under two names. The converter takes `max_completion_tokens` when both
are there, the other two take `max_tokens`, also when it is `null`. They agree on all other
requests (`limitsAgree_iff`).
-/

set_option autoImplicit false

namespace NextApi.Gateway

open Json Ir

/-! ### The precheck -/

/-- The limit that the precheck sees. -/
def extractMaxTokens (p : Protocol) (body : Value) : Option ℕ :=
  match p with
  | .openaiChat =>
    ((body.get? "max_tokens").or (body.get? "max_completion_tokens")).bind Value.asU64
  | .openaiResponses => (body.get? "max_output_tokens").bind Value.asU64
  | .anthropic => (body.get? "max_tokens").bind Value.asU64
  | .gemini =>
    ((body.get? "generationConfig").bind fun g ↦ g.get? "maxOutputTokens").bind Value.asU64

/-- Refuses a request that asks for more tokens than its key has in a minute; a key without a
positive number has no limit. -/
def tpmPrecheck (tpm : Option ℤ) (maxTokens : Option ℕ) : Except ApiError Unit :=
  match tpm with
  | some t =>
    if t ≤ 0 then .ok ()
    else
      match maxTokens with
      | some m => if t.toNat < m then .error .rateLimited else .ok ()
      | none => .ok ()
  | none => .ok ()

/-! ### The record of the parameters -/

/-- The limit that is recorded. -/
def maxTokensField (p : Protocol) (v : Value) : Option ℕ :=
  match p with
  | .openaiChat => ((v.get? "max_tokens").or (v.get? "max_completion_tokens")).bind Value.asU64
  | .openaiResponses => (v.get? "max_output_tokens").bind Value.asU64
  | .anthropic => (v.get? "max_tokens").bind Value.asU64
  | .gemini => ((v.get? "generationConfig").bind fun g ↦ g.get? "maxOutputTokens").bind Value.asU64

/-- The names and the number of the tools. -/
def toolsSummary (v : Value) : Option Value :=
  match (v.get? "tools").bind Value.asArray with
  | none | some [] => none
  | some arr =>
    let names := arr.filterMap fun t ↦
      ((t.get? "name").or ((t.get? "function").bind fun f ↦ f.get? "name")).bind Value.asStr
    some (.object [("names", .arr (names.map .str)), ("count", .ofNat arr.length)])

/-- Whether a tool searches the web. -/
def searchesWeb (t : Value) : Bool :=
  match t.asObject with
  | some o =>
    (Map.get? o "web_search").isSome || (Map.get? o "google_search").isSome ||
      ((Map.get? o "type").bind Value.asStr).any fun ty ↦
        decide ("web_search".toList <+: ty.toList)
  | none => false

/-- Whether the web is searched, as far as the request says. -/
def webSearchFlag (v : Value) : Option Bool :=
  match (v.get? "web_search").bind Value.asBool with
  | some b => some b
  | none =>
    if (((v.get? "tools").bind Value.asArray).getD []).any searchesWeb then some true else none

/-- The parameters of a request, without its contents. -/
def requestParamsMeta (p : Protocol) (v : Value) : Value :=
  .obj (Map.insertPresent []
    [("model", ((v.get? "model").bind Value.asStr).map .str),
      ("stream", ((v.get? "stream").bind Value.asBool).map .bool),
      ("max_tokens", (maxTokensField p v).map .ofNat),
      ("temperature", ((v.get? "temperature").bind Value.asF64).map .float),
      ("tools", toolsSummary v),
      ("web_search", (webSearchFlag v).map .bool)])

/-! ### Agreement -/

/-- The three places read one limit, and no request that asks for more than the key has passes. -/
structure LimitsAgree (p : Protocol) (v : Value) (req : IrRequest) : Prop where
  precheck : extractMaxTokens p v = req.maxTokens
  recorded : (requestParamsMeta p v).get? "max_tokens" = req.maxTokens.map .ofNat
  enforced : ∀ tpm : ℤ, 0 < tpm → ∀ m, req.maxTokens = some m → tpm < m →
    tpmPrecheck (some tpm) (extractMaxTokens p v) = .error .rateLimited

/-- A Chat request gives its limit under one of the names, or the same count under both. -/
def OneLimit (p : Protocol) (v : Value) : Prop :=
  p = .openaiChat →
    v.get? "max_tokens" = none ∨ Chat.given v "max_completion_tokens" = false ∨
      (v.get? "max_tokens").bind Value.asU64 = (v.get? "max_completion_tokens").bind Value.asU64

theorem asU64_getElem (v : Value) (key : String) :
    v[key].asU64 = (v.get? key).bind Value.asU64 := by
  rw [Value.getElem_eq]
  cases v.get? key with
  | none => rfl
  | some w => rfl

theorem maxTokensField_eq (p : Protocol) (v : Value) :
    maxTokensField p v = extractMaxTokens p v := by
  cases p <;> rfl

theorem get?_requestParamsMeta (p : Protocol) (v : Value) :
    (requestParamsMeta p v).get? "max_tokens" = (maxTokensField p v).map .ofNat := by
  rw [requestParamsMeta, Value.get?_obj, Map.get?_insertPresent (by simp)]
  simp [Map.written]

theorem tpmPrecheck_eq_error {tpm : ℤ} (htpm : 0 < tpm) {m : ℕ} (hm : tpm < m) :
    tpmPrecheck (some tpm) (some m) = .error .rateLimited := by
  have hpositive : ¬ tpm ≤ 0 := by omega
  have hmore : tpm.toNat < m := by omega
  rw [tpmPrecheck, if_neg hpositive]
  exact if_pos hmore

/-- The record and the precheck follow the reading of the limit. -/
theorem limitsAgree_iff_precheck {p : Protocol} {v : Value} {req : IrRequest} :
    LimitsAgree p v req ↔ extractMaxTokens p v = req.maxTokens := by
  refine ⟨LimitsAgree.precheck, fun h ↦ ⟨h, ?_, ?_⟩⟩
  · rw [get?_requestParamsMeta, maxTokensField_eq, h]
  · intro tpm htpm m hm hlt
    rw [h, hm]
    exact tpmPrecheck_eq_error htpm hlt

/-- The two names of Chat. -/
theorem readMaxTokens_iff (v : Value) :
    extractMaxTokens .openaiChat v = Chat.readMaxTokens v ↔ OneLimit .openaiChat v := by
  rw [extractMaxTokens, Chat.readMaxTokens, Chat.maxTokensField, OneLimit]
  simp only [true_implies]
  by_cases hcompletion : Chat.given v "max_completion_tokens" = true
  · rw [if_pos hcompletion, Option.bind_some, Chat.maxTokensKey]
    have hgiven : Chat.given v "max_completion_tokens" ≠ false := by
      rw [hcompletion]
      exact Bool.noConfusion
    cases hmax : v.get? "max_tokens" with
    | none => exact iff_of_true rfl (.inl rfl)
    | some limit =>
      rw [Option.some_or]
      constructor
      · exact fun h ↦ .inr (.inr h)
      · rintro (h | h | h)
        · cases h
        · exact absurd h hgiven
        · exact h
  · refine iff_of_true ?_ (.inr (.inl (Bool.eq_false_iff.2 hcompletion)))
    rw [if_neg hcompletion]
    rw [Chat.given] at hcompletion ⊢
    have hnull : ∀ w, v.get? "max_completion_tokens" = some w → w = .null := by
      intro w hw
      rw [hw] at hcompletion
      cases w with
      | null => rfl
      | _ => exact absurd rfl hcompletion
    cases hmax : v.get? "max_tokens" with
    | none =>
      rw [Option.none_or]
      cases hother : v.get? "max_completion_tokens" with
      | none => rfl
      | some w =>
        rw [hnull w hother]
        rfl
    | some limit =>
      rw [Option.some_or]
      cases limit with
      | null => rfl
      | _ => simp [Value.isNull, Chat.maxTokensKey, hmax]

theorem maxTokens_readGenerationConfig (v : Value) (req : IrRequest) (h : req.maxTokens = none) :
    (Gemini.readGenerationConfig v req).1.maxTokens = extractMaxTokens .gemini v := by
  rw [Gemini.readGenerationConfig, extractMaxTokens]
  cases v.get? "generationConfig" with
  | none => exact h
  | some gc =>
    dsimp only
    rw [Option.bind_some, Gemini.parseGenerationConfig]
    cases gc with
    | obj m =>
      rw [if_pos (by rfl)]
      exact asU64_getElem (.obj m) "maxOutputTokens"
    | _ => exact h

/-- The places agree exactly on the requests that do not give two limits. -/
theorem limitsAgree_iff [SerdeJson] {p : Protocol} {v : Value} {req : IrRequest} {ctx : ConvCtx}
    (hread : requestToIr p v = .ok (req, ctx)) : LimitsAgree p v req ↔ OneLimit p v := by
  rw [limitsAgree_iff_precheck]
  cases p with
  | openaiChat =>
    obtain ⟨m, messages, tools, rfl, -, -, rfl⟩ := Chat.requestToIr_eq_ok.1 ⟨ctx, hread⟩
    exact readMaxTokens_iff (.obj m)
  | openaiResponses =>
    obtain ⟨m, tools, rfl, -, rfl⟩ := Responses.requestToIr_eq_ok.1 ⟨ctx, hread⟩
    exact iff_of_true rfl fun h ↦ nomatch h
  | anthropic =>
    obtain ⟨m, messages, ext, tools, rfl, -, -, rfl⟩ :=
      Anthropic.requestToIr_eq_ok.1 ⟨ctx, hread⟩
    exact iff_of_true (asU64_getElem (.obj m) "max_tokens").symm fun h ↦ nomatch h
  | gemini =>
    obtain ⟨m, messages, tools, rfl, -, -, rfl⟩ := Gemini.requestToIr_eq_ok.1 ⟨ctx, hread⟩
    refine iff_of_true ?_ fun h ↦ nomatch h
    exact (maxTokens_readGenerationConfig (.obj m) { messages := messages } rfl).symm

/-! ### Two limits -/

section Codec

local instance limitCodec : SerdeJson := Compact.codec

/-- A Chat request with these limits. -/
def limitedChat (limits : List (String × Value)) : Value :=
  .object
    ([("model", .str "gpt"),
      ("messages", .arr [.object [("role", .str "user"), ("content", .str "hi")]])] ++ limits)

/-- One token is asked for under one name and a hundred thousand under the other. -/
def twoLimits : Value :=
  limitedChat [("max_tokens", .int 1), ("max_completion_tokens", .int 100000)]

/-- The representation asks for a hundred thousand tokens, and a key with a thousand of them in a
minute is not asked. -/
theorem not_limitsAgree_twoLimits :
    ∃ req ctx, requestToIr .openaiChat twoLimits = .ok (req, ctx) ∧ req.maxTokens = some 100000 ∧
      tpmPrecheck (some 1000) (extractMaxTokens .openaiChat twoLimits) = .ok () ∧
      ¬ LimitsAgree .openaiChat twoLimits req := by
  have hasked : Chat.readMaxTokens twoLimits = some 100000 := by decide +kernel
  have hseen : extractMaxTokens .openaiChat twoLimits = some 1 := by decide +kernel
  refine ⟨_, _, rfl, hasked, by rw [hseen]; rfl, fun h ↦ ?_⟩
  have hsame : some 1 = some 100000 := hseen.symm.trans (h.precheck.trans hasked)
  exact absurd hsame (by decide)

/-- The limit under the new name alone is read by all. -/
theorem limitsAgree_oneLimit :
    ∃ req ctx, requestToIr .openaiChat (limitedChat [("max_completion_tokens", .int 500)]) =
      .ok (req, ctx) ∧
        LimitsAgree .openaiChat (limitedChat [("max_completion_tokens", .int 500)]) req :=
  ⟨_, _, rfl, (limitsAgree_iff rfl).2 fun _ ↦ .inl (by decide +kernel)⟩

end Codec

end NextApi.Gateway
