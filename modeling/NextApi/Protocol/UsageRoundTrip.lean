import NextApi.Protocol.Usage

/-!
# Usage through a conversion

The usage object of one protocol is read, written as that of another one, and read again by the
client. The prompt, completion and cache-read counts survive exactly when no member that was
carried along is read as one of them (`survives_iff_unshadowed`): Responses lets carried members
replace the counts it has written, and every protocol reads a carried member where it has written
none, because the source did not count the cache or the reasoning.
-/

set_option autoImplicit false

namespace NextApi

open Json Ir

/-! ### Counts on the wire -/

/-- The tokens of the input, as the protocol counts them. -/
def inputCount (p : Protocol) (o : Value) : ℕ :=
  match p with
  | .openaiChat => o["prompt_tokens"].asU64.getD 0
  | .openaiResponses => o["input_tokens"].asU64.getD 0
  | .anthropic => (o["input_tokens"].asU64.or o["prompt_tokens"].asU64).getD 0
  | .gemini => o["promptTokenCount"].asU64.getD 0

/-- The tokens of the output with those of the reasoning. -/
def outputCount (p : Protocol) (o : Value) : ℕ :=
  match p with
  | .openaiChat => o["completion_tokens"].asU64.getD 0
  | .openaiResponses => o["output_tokens"].asU64.getD 0
  | .anthropic => (o["output_tokens"].asU64.or o["completion_tokens"].asU64).getD 0
  | .gemini => addU64 (o["candidatesTokenCount"].asU64.getD 0) (o["thoughtsTokenCount"].asU64.getD 0)

/-- The tokens read from the cache, if the object has a count of them. -/
def cachedCount (p : Protocol) (o : Value) : Option ℕ :=
  match p with
  | .openaiChat => ((o.get? "prompt_tokens_details").bind (Value.get? · "cached_tokens")).bind
      Value.asU64
  | .openaiResponses => ((o.get? "input_tokens_details").bind (Value.get? · "cached_tokens")).bind
      Value.asU64
  | .anthropic => o["cache_read_input_tokens"].asU64.or o["cache_read_tokens"].asU64
  | .gemini => o["cachedContentTokenCount"].asU64

/-- The tokens of the input that were not read from the cache. -/
def uncachedCount (p : Protocol) (o : Value) : ℕ :=
  match p with
  | .anthropic => inputCount p o
  | _ => inputCount p o - (cachedCount p o).getD 0

/-- A member that the protocol has no reader for. -/
def vendor (p : Protocol) (o : Value) (key : String) : Option Value :=
  if key ∈ p.knownUsageFields then none else o.get? key

theorem asU64_getElem (v : Value) (key : String) : v[key].asU64 = (v.get? key).bind Value.asU64 := by
  rw [Value.getElem_eq]
  cases v.get? key <;> rfl

theorem get?_asObject (v : Value) (key : String) :
    Map.get? (v.asObject.getD []) key = v.get? key := by
  cases v <;> rfl

/-- A count in the details object under a name. -/
def detailCount (details : Option Value) (name : String) : Option ℕ :=
  (details.bind (Value.get? · name)).bind Value.asU64

/-- A count in a details object, read in two ways. -/
theorem bind_detail (details : Option Value) (name : String) :
    (details.bind fun d ↦ d[name].asU64) = detailCount details name := by
  cases details with
  | none => rfl
  | some d => exact asU64_getElem d name

theorem bind_objectDetail (details : Option Value) (name : String) :
    (((details.bind Value.asObject).bind fun d ↦ Map.get? d name).bind Value.asU64) =
      detailCount details name := by
  cases details with
  | none => rfl
  | some d => cases d <;> rfl

theorem parseUsage_counts (p : Protocol) (o : Value) :
    (p.parseUsage o).promptTokens = uncachedCount p o ∧
      (p.parseUsage o).completionTokens = outputCount p o ∧
      (p.parseUsage o).cacheReadTokens = cachedCount p o := by
  cases p with
  | openaiChat =>
    refine ⟨?_, rfl, bind_detail _ _⟩
    show _ - _ = _ - _
    rw [bind_detail]
    rfl
  | openaiResponses =>
    refine ⟨?_, rfl, bind_objectDetail _ _⟩
    show _ - _ = _ - _
    rw [bind_objectDetail]
    rfl
  | anthropic => exact ⟨rfl, rfl, rfl⟩
  | gemini => exact ⟨rfl, rfl, rfl⟩

/-! ### Carried members -/

theorem get?_carriedUsage (known : List String) (u : Value) (extra : Map) (key : String) :
    Map.get? (carriedUsage known u extra) key =
      (Map.get? extra key).or (if key ∈ known then none else u.get? key) := by
  rw [carriedUsage, Map.get?_orInsertAll, Map.get?_without, get?_asObject]

/-- What an object is read as carries its vendor members, except under three names. -/
theorem get?_extra_of_ne {p : Protocol} (hp : p ≠ .openaiResponses) (o : Value) {key : String}
    (hreasoning : key ≠ "reasoning_tokens") (hthoughts : key ≠ "thoughtsTokenCount")
    (hcompletion : key ≠ "completion_tokens_details") :
    Map.get? (p.parseUsage o).extra key = vendor p o key := by
  cases p with
  | openaiChat =>
    show Map.get? (carriedUsage _ _ _) key = _
    rw [get?_carriedUsage]
    simp only [Map.insertPresent_cons, Map.insertPresent_nil, Map.get?_insertOpt,
      if_neg (Ne.symm hreasoning), if_neg (Ne.symm hcompletion), Map.get?_nil, Option.none_or]
    rfl
  | openaiResponses => exact absurd rfl hp
  | anthropic =>
    show Map.get? (carriedUsage _ _ []) key = _
    rw [get?_carriedUsage]
    rfl
  | gemini =>
    show Map.get? (carriedUsage _ _ _) key = _
    rw [get?_carriedUsage]
    by_cases h : o["thoughtsTokenCount"].asU64.getD 0 > 0
    · rw [if_pos h]
      simp only [Map.insertPresent_cons, Map.insertPresent_nil, Map.get?_insertOpt,
        if_neg (Ne.symm hreasoning), if_neg (Ne.symm hthoughts), Map.get?_nil, Option.none_or]
      rfl
    · rw [if_neg h]
      rfl

theorem sorted_members {o : Value} (ho : o.Normal) : Map.Sorted (o.asObject.getD []) := by
  cases o with
  | obj m => exact ho.1
  | _ => exact Map.sorted_nil

/-- Responses takes the details objects apart. -/
theorem get?_extra_responses {o : Value} (ho : o.Normal) (key : String) :
    Map.get? (Responses.parseUsage o).extra key =
      (vendor .openaiResponses o key).or (Map.get? (Map.insertPresent []
        [("input_tokens_details", Responses.restOfDetails
            ((o.get? "input_tokens_details").bind Value.asObject) "cached_tokens"),
          ("reasoning_tokens", (detailCount (o.get? "output_tokens_details")
            "reasoning_tokens").map .ofNat),
          ("output_tokens_details", Responses.restOfDetails
            ((o.get? "output_tokens_details").bind Value.asObject) "reasoning_tokens")]) key) := by
  show Map.get? (Map.insertAll _ _) key = _
  rw [Map.get?_insertAll ((sorted_members ho).without _), Map.get?_without, get?_asObject,
    bind_objectDetail]
  rfl

/-- What an object is read as carries its vendor members, except under five names. -/
theorem get?_extra (p : Protocol) {o : Value} (ho : o.Normal) {key : String}
    (hreasoning : key ≠ "reasoning_tokens") (hthoughts : key ≠ "thoughtsTokenCount")
    (hcompletion : key ≠ "completion_tokens_details") (hin : key ≠ "input_tokens_details")
    (hout : key ≠ "output_tokens_details") :
    Map.get? (p.parseUsage o).extra key = vendor p o key := by
  by_cases hp : p = .openaiResponses
  · subst hp
    show Map.get? (Responses.parseUsage o).extra key = _
    rw [get?_extra_responses ho]
    simp only [Map.insertPresent_cons, Map.insertPresent_nil, Map.get?_insertOpt,
      if_neg (Ne.symm hreasoning), if_neg (Ne.symm hin), if_neg (Ne.symm hout), Map.get?_nil,
      Option.or_none]
  · exact get?_extra_of_ne hp o hreasoning hthoughts hcompletion

/-- The tokens of the reasoning that are carried, if there is a count of them. -/
def carriedReasoning (p : Protocol) (o : Value) : Option ℕ :=
  let detail (name : String) := ((o.get? name).bind (Value.get? · "reasoning_tokens")).bind
    Value.asU64
  match p with
  | .openaiChat => (detail "completion_tokens_details").or
      ((vendor p o "reasoning_tokens").bind Value.asU64)
  | .openaiResponses =>
    match vendor p o "reasoning_tokens" with
    | some v => v.asU64
    | none => detail "output_tokens_details"
  | .anthropic => (vendor p o "reasoning_tokens").bind Value.asU64
  | .gemini =>
    if o["thoughtsTokenCount"].asU64.getD 0 > 0 then o["thoughtsTokenCount"].asU64
    else (vendor p o "reasoning_tokens").bind Value.asU64

theorem bind_asU64_or (n : Option ℕ) (v : Option Value) :
    ((n.map Value.ofNat).or v).bind Value.asU64 = n.or (v.bind Value.asU64) := by
  cases n with
  | none => rfl
  | some n => exact Value.asU64_ofNat n

theorem extra_reasoning (p : Protocol) {o : Value} (ho : o.Normal) :
    (Map.get? (p.parseUsage o).extra "reasoning_tokens").bind Value.asU64 = carriedReasoning p o := by
  cases p with
  | openaiChat =>
    show (Map.get? (carriedUsage _ _ _) "reasoning_tokens").bind Value.asU64 = _
    rw [get?_carriedUsage]
    simp only [Map.insertPresent_cons, Map.insertPresent_nil, Map.get?_insertOpt]
    rw [if_neg (by decide), if_pos trivial, Map.get?_nil, Option.or_none, bind_asU64_or]
    rw [bind_detail]
    rfl
  | openaiResponses =>
    show (Map.get? (Responses.parseUsage o).extra "reasoning_tokens").bind Value.asU64 = _
    rw [get?_extra_responses ho, carriedReasoning]
    simp only [Map.insertPresent_cons, Map.insertPresent_nil, Map.get?_insertOpt]
    rw [if_neg (by decide : "output_tokens_details" ≠ "reasoning_tokens"), if_pos trivial,
      if_neg (by decide : "input_tokens_details" ≠ "reasoning_tokens"), Map.get?_nil,
      Option.or_none]
    cases vendor .openaiResponses o "reasoning_tokens" with
    | some v => rfl
    | none =>
      rw [Option.none_or]
      have hmap (n : Option ℕ) : (n.map Value.ofNat).bind Value.asU64 = n := by
        cases n with
        | none => rfl
        | some n => exact Value.asU64_ofNat n
      exact hmap _
  | anthropic =>
    show (Map.get? (carriedUsage _ _ []) "reasoning_tokens").bind Value.asU64 = _
    rw [get?_carriedUsage]
    rfl
  | gemini =>
    show (Map.get? (carriedUsage _ _ _) "reasoning_tokens").bind Value.asU64 = _
    rw [get?_carriedUsage, carriedReasoning]
    by_cases h : o["thoughtsTokenCount"].asU64.getD 0 > 0
    · rw [if_pos h, if_pos h]
      simp only [Map.insertPresent_cons, Map.insertPresent_nil, Map.get?_insertOpt]
      rw [if_pos trivial, Option.some_or, Option.some_or, Option.bind_some, Value.asU64_ofNat]
      cases hthoughts : o["thoughtsTokenCount"].asU64 with
      | none =>
        rw [hthoughts] at h
        exact absurd h (Nat.lt_irrefl 0)
      | some n => rfl
    · rw [if_neg h, if_neg h]
      rfl

/-! ### What is written -/

/-- The object that is written for a usage record. -/
def written (q : Protocol) (u : IrUsage) : Value := (q.writeUsage u).1

theorem written_chat (u : IrUsage) :
    inputCount .openaiChat (written .openaiChat u) =
        addU64 u.promptTokens (u.cacheReadTokens.getD 0) ∧
      outputCount .openaiChat (written .openaiChat u) = u.completionTokens ∧
      cachedCount .openaiChat (written .openaiChat u) = u.cacheReadTokens.or
        (detailCount (Map.get? u.extra "prompt_tokens_details") "cached_tokens") := by
  refine ⟨?_, ?_, ?_⟩
  · simp [written, Protocol.writeUsage, Chat.usageToJson, inputCount]
  · simp [written, Protocol.writeUsage, Chat.usageToJson, outputCount]
  · have hkept : "prompt_tokens_details" ∉
        (if (Map.get? u.extra "output_tokens_details").isSome then
          ["reasoning_tokens", "output_tokens_details"]
        else ["reasoning_tokens", "input_tokens_details"]) := by
      split <;> decide
    cases hcached : u.cacheReadTokens with
    | none =>
      simp [written, Protocol.writeUsage, Chat.usageToJson, cachedCount, detailCount, hcached, hkept]
    | some c => simp [written, Protocol.writeUsage, Chat.usageToJson, cachedCount, hcached]

theorem written_anthropic (u : IrUsage) :
    inputCount .anthropic (written .anthropic u) = u.promptTokens ∧
      outputCount .anthropic (written .anthropic u) = u.completionTokens ∧
      cachedCount .anthropic (written .anthropic u) =
        u.cacheReadTokens.or (((Map.get? u.extra "cache_read_input_tokens").bind Value.asU64).or
          ((Map.get? u.extra "cache_read_tokens").bind Value.asU64)) := by
  refine ⟨?_, ?_, ?_⟩
  · simp [written, Protocol.writeUsage, Anthropic.usageToAnthropic, inputCount]
  · simp [written, Protocol.writeUsage, Anthropic.usageToAnthropic, outputCount]
  · rw [cachedCount, asU64_getElem, asU64_getElem]
    cases hcached : u.cacheReadTokens <;>
      simp [written, Protocol.writeUsage, Anthropic.usageToAnthropic, hcached]

theorem written_gemini (u : IrUsage) :
    let reasoning := (Map.get? u.extra "reasoning_tokens").bind Value.asU64
    inputCount .gemini (written .gemini u) = addU64 u.promptTokens (u.cacheReadTokens.getD 0) ∧
      outputCount .gemini (written .gemini u) = addU64 (u.completionTokens - reasoning.getD 0)
        ((reasoning.or ((Map.get? u.extra "thoughtsTokenCount").bind Value.asU64)).getD 0) ∧
      cachedCount .gemini (written .gemini u) = u.cacheReadTokens.or
        ((Map.get? u.extra "cachedContentTokenCount").bind Value.asU64) := by
  refine ⟨?_, ?_, ?_⟩
  · simp [written, Protocol.writeUsage, Gemini.usageMetadataToJson, inputCount]
  · rw [outputCount, asU64_getElem, asU64_getElem]
    cases hreasoning : (Map.get? u.extra "reasoning_tokens").bind Value.asU64 <;>
      simp [written, Protocol.writeUsage, Gemini.usageMetadataToJson, hreasoning]
  · rw [cachedCount, asU64_getElem]
    cases hcached : u.cacheReadTokens <;>
      simp [written, Protocol.writeUsage, Gemini.usageMetadataToJson, hcached]

theorem get?_nonEmptyDetails (details : Map) (name : String) :
    (Responses.nonEmptyDetails details).bind (Value.get? · name) = Map.get? details name := by
  rw [Responses.nonEmptyDetails]
  cases details with
  | nil => rfl
  | cons member rest => rfl

theorem get?_detailsObject (details : Option Value) (name : String) :
    Map.get? ((details.bind Value.asObject).getD []) name = details.bind (Value.get? · name) := by
  cases details with
  | none => rfl
  | some d => exact get?_asObject d name

theorem written_responses {u : IrUsage} (hsorted : Map.Sorted u.extra) :
    inputCount .openaiResponses (written .openaiResponses u) =
        ((Map.get? u.extra "input_tokens").map fun v ↦ v.asU64.getD 0).getD
          (addU64 u.promptTokens (u.cacheReadTokens.getD 0)) ∧
      outputCount .openaiResponses (written .openaiResponses u) =
        ((Map.get? u.extra "output_tokens").map fun v ↦ v.asU64.getD 0).getD u.completionTokens ∧
      cachedCount .openaiResponses (written .openaiResponses u) = u.cacheReadTokens.or
        (detailCount (Map.get? u.extra "input_tokens_details") "cached_tokens") := by
  have hget (key : String) : (written .openaiResponses u).get? key =
      Map.get? (Map.insertAll _ _) key := rfl
  refine ⟨?_, ?_, ?_⟩
  · rw [inputCount, asU64_getElem, hget, Map.get?_insertAll (hsorted.without _)]
    cases hv : Map.get? u.extra "input_tokens" <;> simp [hv]
  · rw [outputCount, asU64_getElem, hget, Map.get?_insertAll (hsorted.without _)]
    cases hv : Map.get? u.extra "output_tokens" <;> simp [hv]
  · rw [cachedCount, hget, Map.get?_insertAll (hsorted.without _)]
    have hkept : Map.get? (Map.without u.extra ["reasoning_tokens", "output_tokens_details",
        "input_tokens_details", "completion_tokens_details"]) "input_tokens_details" = none := by
      simp
    rw [hkept, Option.none_or]
    simp only [Map.insertPresent_cons, Map.insertPresent_nil, Map.get?_insertOpt]
    rw [if_neg (by decide), if_pos trivial, if_neg (by decide), if_neg (by decide),
      if_neg (by decide), Map.get?_nil, Option.or_none, get?_nonEmptyDetails,
      Map.get?_orInsertAll, Map.get?_insertOpt, if_pos rfl, Map.get?_nil, Option.or_none,
      get?_detailsObject, bind_asU64_or]
    rfl

/-! ### Survival -/

/-- The client reads the counts that the source reported. -/
def Survives (p q : Protocol) (o : Value) : Prop :=
  let u := p.parseUsage o
  let back := q.parseUsage (written q u)
  back.promptTokens = u.promptTokens ∧ back.completionTokens = u.completionTokens ∧
    back.cacheReadTokens = u.cacheReadTokens

/-- A vendor member that is a count. -/
def vendorCount (p : Protocol) (o : Value) (key : String) : Option ℕ :=
  (vendor p o key).bind Value.asU64

/-- The carried reasoning is part of the output; without any, no other count is added to it. -/
def ReasoningFits (output : ℕ) (thoughts : Option ℕ) : Option ℕ → Prop
  | some reasoning => reasoning ≤ output
  | none => thoughts.getD 0 = 0 ∨ output = 2 ^ 64 - 1

/-- No vendor member is read as a count that differs, and the counts can be added. -/
def Unshadowed (p q : Protocol) (o : Value) : Prop :=
  let fits := uncachedCount p o + (cachedCount p o).getD 0 < 2 ^ 64
  match q with
  | .openaiChat =>
    fits ∧ (cachedCount p o = none →
      detailCount (vendor p o "prompt_tokens_details") "cached_tokens" = none)
  | .openaiResponses =>
    (match vendor p o "input_tokens" with
      | some v => v.asU64.getD 0 - (cachedCount p o).getD 0 = uncachedCount p o
      | none => fits) ∧
    (∀ v, vendor p o "output_tokens" = some v → v.asU64.getD 0 = outputCount p o) ∧
    (cachedCount p o = none →
      detailCount (vendor p o "input_tokens_details") "cached_tokens" = none)
  | .anthropic =>
    cachedCount p o = none → vendorCount p o "cache_read_input_tokens" = none ∧
      vendorCount p o "cache_read_tokens" = none
  | .gemini =>
    fits ∧ (cachedCount p o = none → vendorCount p o "cachedContentTokenCount" = none) ∧
      ReasoningFits (outputCount p o) (vendorCount p o "thoughtsTokenCount") (carriedReasoning p o)

/-- A count of the cache that was written is kept, and none stays none when no other is read. -/
theorem or_eq_self_iff {α : Type} (c other : Option α) :
    c.or other = c ↔ (c = none → other = none) := by
  cases c with
  | none => simp
  | some c => simp

/-- Adding the cached tokens and taking them off again. -/
theorem addU64_sub_iff {x c : ℕ} (hc : c < 2 ^ 64) : addU64 x c - c = x ↔ x + c < 2 ^ 64 := by
  rw [addU64]
  omega

/-! ### Counts have 64 bits -/

section Bounds

variable {o : Value}

theorem memberCount_lt (ho : o.WellFormed) {key : String} {n : ℕ}
    (h : (o.get? key).bind Value.asU64 = some n) : n < 2 ^ 64 :=
  Value.WellFormed.lt_of_bind_asU64 (fun _ hw ↦ ho.get? hw) h

theorem detailCount_lt (ho : o.WellFormed) {key name : String} {n : ℕ}
    (h : detailCount (o.get? key) name = some n) : n < 2 ^ 64 := by
  refine Value.WellFormed.lt_of_bind_asU64 (fun w hw ↦ ?_) h
  obtain ⟨d, hd, hw⟩ := Option.bind_eq_some_iff.1 hw
  exact (ho.get? hd).get? hw

theorem vendorCount_lt (ho : o.WellFormed) {p : Protocol} {key : String} {n : ℕ}
    (h : vendorCount p o key = some n) : n < 2 ^ 64 := by
  rw [vendorCount, vendor] at h
  split at h
  · exact absurd h (by simp)
  · exact memberCount_lt ho h

theorem getD_lt {n : Option ℕ} (h : ∀ m, n = some m → m < 2 ^ 64) : n.getD 0 < 2 ^ 64 := by
  cases n with
  | none => exact Nat.two_pow_pos 64
  | some m => exact h m rfl

theorem or_lt {m n : Option ℕ} (hm : ∀ k, m = some k → k < 2 ^ 64)
    (hn : ∀ k, n = some k → k < 2 ^ 64) : ∀ k, m.or n = some k → k < 2 ^ 64 := by
  cases m with
  | none => exact hn
  | some m => exact hm

theorem cachedCount_lt (p : Protocol) (ho : o.WellFormed) :
    ∀ c, cachedCount p o = some c → c < 2 ^ 64 := by
  cases p with
  | openaiChat => exact fun c h ↦ detailCount_lt ho h
  | openaiResponses => exact fun c h ↦ detailCount_lt ho h
  | anthropic =>
    rw [cachedCount, asU64_getElem, asU64_getElem]
    exact or_lt (fun _ h ↦ memberCount_lt ho h) fun _ h ↦ memberCount_lt ho h
  | gemini =>
    rw [cachedCount, asU64_getElem]
    exact fun c h ↦ memberCount_lt ho h

theorem outputCount_lt (p : Protocol) (ho : o.WellFormed) : outputCount p o < 2 ^ 64 := by
  cases p with
  | openaiChat =>
    rw [outputCount, asU64_getElem]
    exact getD_lt fun _ h ↦ memberCount_lt ho h
  | openaiResponses =>
    rw [outputCount, asU64_getElem]
    exact getD_lt fun _ h ↦ memberCount_lt ho h
  | anthropic =>
    rw [outputCount, asU64_getElem, asU64_getElem]
    exact getD_lt (or_lt (fun _ h ↦ memberCount_lt ho h) fun _ h ↦ memberCount_lt ho h)
  | gemini =>
    rw [outputCount, addU64]
    omega

theorem carriedReasoning_lt (p : Protocol) (ho : o.WellFormed) :
    ∀ r, carriedReasoning p o = some r → r < 2 ^ 64 := by
  cases p with
  | openaiChat => exact or_lt (fun _ h ↦ detailCount_lt ho h) fun _ h ↦ vendorCount_lt ho h
  | openaiResponses =>
    intro r h
    rw [carriedReasoning] at h
    cases hvendor : vendor .openaiResponses o "reasoning_tokens" with
    | some v =>
      rw [hvendor] at h
      have hcount : vendorCount .openaiResponses o "reasoning_tokens" = some r := by
        rw [vendorCount, hvendor]
        exact h
      exact vendorCount_lt ho hcount
    | none =>
      rw [hvendor] at h
      exact detailCount_lt ho h
  | anthropic => exact fun r h ↦ vendorCount_lt ho h
  | gemini =>
    intro r h
    rw [carriedReasoning] at h
    split at h
    · rw [asU64_getElem] at h
      exact memberCount_lt ho h
    · exact vendorCount_lt ho h

end Bounds

/-- The input that was not cached, once the cached tokens are added and taken off again. -/
theorem uncached_survives (p : Protocol) {o : Value} (ho : o.WellFormed) :
    addU64 (uncachedCount p o) ((cachedCount p o).getD 0) - (cachedCount p o).getD 0 =
        uncachedCount p o ↔
      uncachedCount p o + (cachedCount p o).getD 0 < 2 ^ 64 :=
  addU64_sub_iff (getD_lt (cachedCount_lt p ho))

/-- The output, once the reasoning is taken off and added again. -/
theorem output_survives {output : ℕ} {reasoning : Option ℕ} (thoughts : Option ℕ)
    (ho : output < 2 ^ 64) (hr : ∀ r, reasoning = some r → r < 2 ^ 64) :
    addU64 (output - reasoning.getD 0) ((reasoning.or thoughts).getD 0) = output ↔
      ReasoningFits output thoughts reasoning := by
  cases reasoning with
  | none =>
    rw [Option.none_or, Option.getD_none, addU64, ReasoningFits]
    omega
  | some r =>
    have hlt := hr r rfl
    rw [Option.some_or, Option.getD_some, addU64, ReasoningFits]
    omega

/-! ### The theorem -/

/-- The counts that the client reads, by those that it finds written. -/
theorem survives_iff (p q : Protocol) (o : Value) :
    Survives p q o ↔
      let o' := written q (p.parseUsage o)
      uncachedCount q o' = uncachedCount p o ∧ outputCount q o' = outputCount p o ∧
        cachedCount q o' = cachedCount p o := by
  obtain ⟨hprompt, hcompletion, hcached⟩ := parseUsage_counts p o
  obtain ⟨hprompt', hcompletion', hcached'⟩ := parseUsage_counts q (written q (p.parseUsage o))
  show (q.parseUsage _).promptTokens = _ ∧ (q.parseUsage _).completionTokens = _ ∧
    (q.parseUsage _).cacheReadTokens = _ ↔ _
  rw [hprompt, hcompletion, hcached, hprompt', hcompletion', hcached']

theorem sorted_extra (p : Protocol) (o : Value) : Map.Sorted (p.parseUsage o).extra := by
  have hpresent (l : List (String × Option Value)) {m : Map} (h : Map.Sorted m) :
      Map.Sorted (Map.insertPresent m l) := by
    induction l generalizing m with
    | nil => exact h
    | cons member rest ih => exact ih (h.insertOpt member.1 member.2)
  cases p with
  | openaiChat => exact (hpresent _ Map.sorted_nil).orInsertAll _
  | openaiResponses => exact (hpresent _ Map.sorted_nil).insertAll _
  | anthropic => exact Map.sorted_nil.orInsertAll _
  | gemini =>
    refine Map.Sorted.orInsertAll ?_ _
    split
    · exact hpresent _ Map.sorted_nil
    · exact Map.sorted_nil

/-- A member that no reader writes to is carried as the vendor member. -/
theorem get?_extra_count (p : Protocol) {o : Value} (ho : o.Normal) {key : String}
    (hkey : key ∈ ["prompt_tokens_details", "input_tokens", "output_tokens",
      "cache_read_input_tokens", "cache_read_tokens", "cachedContentTokenCount"]) :
    Map.get? (p.parseUsage o).extra key = vendor p o key := by
  refine get?_extra p ho ?_ ?_ ?_ ?_ ?_ <;>
  · rintro rfl
    exact absurd hkey (by decide)

/-- The member that is taken out of a details object is not found in the rest. -/
theorem detailCount_restOfDetails {details : Option Map} (name : String)
    (h : ∀ m, details = some m → Map.Sorted m) :
    detailCount (Responses.restOfDetails details name) name = none := by
  cases details with
  | none => rfl
  | some m =>
    have hnone : Map.get? (Map.insertAll [] (Map.without m [name])) name = none := by
      rw [Map.get?_insertAll ((h m rfl).without _), Map.get?_without, Map.get?_nil, Option.or_none]
      exact if_pos List.mem_cons_self
    show Option.bind (Option.bind (if _ then none else some (Value.obj _)) _) _ = none
    split
    · rfl
    · rw [Option.bind_some, Value.get?_obj, hnone]
      rfl

/-- Responses carries the details of the input without the count of the cache. -/
theorem extra_inputDetails (p : Protocol) {o : Value} (ho : o.WellFormed) :
    detailCount (Map.get? (p.parseUsage o).extra "input_tokens_details") "cached_tokens" =
      detailCount (vendor p o "input_tokens_details") "cached_tokens" := by
  by_cases hp : p = .openaiResponses
  · subst hp
    show detailCount (Map.get? (Responses.parseUsage o).extra _) _ = none
    rw [get?_extra_responses ho.normal]
    simp only [Map.insertPresent_cons, Map.insertPresent_nil, Map.get?_insertOpt]
    rw [if_neg (by decide : "output_tokens_details" ≠ "input_tokens_details"),
      if_neg (by decide : "reasoning_tokens" ≠ "input_tokens_details"), if_pos trivial,
      Map.get?_nil, Option.or_none]
    have hvendor : vendor .openaiResponses o "input_tokens_details" = none := rfl
    rw [hvendor, Option.none_or]
    refine detailCount_restOfDetails _ fun m hm ↦ ?_
    obtain ⟨d, hd, hobject⟩ := Option.bind_eq_some_iff.1 hm
    have hsorted := sorted_members (ho.get? hd).normal
    rw [hobject] at hsorted
    exact hsorted
  · rw [get?_extra_of_ne hp o (by decide) (by decide) (by decide)]

/-- Without a count of the reasoning, the carried thoughts are those of a vendor. -/
theorem extra_thoughts (p : Protocol) {o : Value} (ho : o.Normal)
    (h : carriedReasoning p o = none) :
    Map.get? (p.parseUsage o).extra "thoughtsTokenCount" = vendor p o "thoughtsTokenCount" := by
  cases p with
  | openaiChat =>
    show Map.get? (carriedUsage _ _ _) _ = _
    rw [get?_carriedUsage]
    simp only [Map.insertPresent_cons, Map.insertPresent_nil, Map.get?_insertOpt]
    rfl
  | openaiResponses =>
    show Map.get? (Responses.parseUsage o).extra _ = _
    rw [get?_extra_responses ho]
    simp only [Map.insertPresent_cons, Map.insertPresent_nil, Map.get?_insertOpt]
    rw [if_neg (by decide), if_neg (by decide), if_neg (by decide), Map.get?_nil, Option.or_none]
  | anthropic =>
    show Map.get? (carriedUsage _ _ []) _ = _
    rw [get?_carriedUsage]
    rfl
  | gemini =>
    have hthoughts : ¬ o["thoughtsTokenCount"].asU64.getD 0 > 0 := by
      intro hpos
      rw [carriedReasoning, if_pos hpos] at h
      rw [h] at hpos
      exact Nat.lt_irrefl 0 hpos
    show Map.get? (carriedUsage _ _ _) _ = _
    rw [get?_carriedUsage, if_neg hthoughts]
    rfl

/-- The counts survive exactly when no vendor member shadows one. -/
theorem survives_iff_unshadowed (p q : Protocol) (o : Value) (ho : o.WellFormed) :
    Survives p q o ↔ Unshadowed p q o := by
  obtain ⟨hprompt, hcompletion, hcached⟩ := parseUsage_counts p o
  have hextra {key : String} := @get?_extra_count p o ho.normal key
  rw [survives_iff]
  dsimp only
  cases q with
  | openaiChat =>
    obtain ⟨hin, hout, hread⟩ := written_chat (p.parseUsage o)
    show inputCount .openaiChat _ - _ = _ ∧ _ ↔ _ ∧ _
    rw [hin, hout, hread, hprompt, hcompletion, hcached, hextra (by decide)]
    constructor
    · rintro ⟨hsum, -, hkept⟩
      rw [hkept] at hsum
      exact ⟨(uncached_survives p ho).1 hsum, (or_eq_self_iff _ _).1 hkept⟩
    · rintro ⟨hsum, hkept⟩
      rw [(or_eq_self_iff _ _).2 hkept]
      exact ⟨(uncached_survives p ho).2 hsum, rfl, rfl⟩
  | openaiResponses =>
    obtain ⟨hin, hout, hread⟩ := written_responses (sorted_extra p o)
    show inputCount .openaiResponses _ - _ = _ ∧ _ ↔ _ ∧ _ ∧ _
    rw [hin, hout, hread, hprompt, hcompletion, hcached, extra_inputDetails p ho,
      @hextra "input_tokens" (by decide), @hextra "output_tokens" (by decide), or_eq_self_iff]
    have houtput : ((vendor p o "output_tokens").map fun v ↦ v.asU64.getD 0).getD
          (outputCount p o) = outputCount p o ↔
        ∀ v, vendor p o "output_tokens" = some v → v.asU64.getD 0 = outputCount p o := by
      cases vendor p o "output_tokens" with
      | none => simp
      | some v => simp
    rw [houtput]
    refine and_congr_left fun ⟨_, hkept⟩ ↦ ?_
    rw [(or_eq_self_iff _ _).2 hkept]
    cases vendor p o "input_tokens" with
    | none => exact uncached_survives p ho
    | some v => exact Iff.rfl
  | anthropic =>
    obtain ⟨hin, hout, hread⟩ := written_anthropic (p.parseUsage o)
    show inputCount .anthropic _ = _ ∧ _ ↔ (_ → _ ∧ _)
    rw [hin, hout, hread, hprompt, hcompletion, hcached, hextra (by decide), hextra (by decide),
      or_eq_self_iff, Option.or_eq_none_iff]
    exact ⟨fun h ↦ h.2.2, fun h ↦ ⟨rfl, rfl, h⟩⟩
  | gemini =>
    obtain ⟨hin, hout, hread⟩ := written_gemini (p.parseUsage o)
    show inputCount .gemini _ - _ = _ ∧ _ ↔ _ ∧ _ ∧ _
    rw [hin, hout, hread, hprompt, hcompletion, hcached, hextra (by decide),
      extra_reasoning p ho.normal, or_eq_self_iff, output_survives _ (outputCount_lt p ho)
      (carriedReasoning_lt p ho)]
    have hfits : ReasoningFits (outputCount p o)
          ((Map.get? (p.parseUsage o).extra "thoughtsTokenCount").bind Value.asU64)
          (carriedReasoning p o) ↔
        ReasoningFits (outputCount p o) (vendorCount p o "thoughtsTokenCount")
          (carriedReasoning p o) := by
      cases hreasoning : carriedReasoning p o with
      | none => rw [extra_thoughts p ho.normal hreasoning, vendorCount]
      | some r => exact Iff.rfl
    rw [hfits]
    constructor
    · rintro ⟨hsum, hreasoning, hkept⟩
      rw [(or_eq_self_iff _ _).2 hkept] at hsum
      exact ⟨(uncached_survives p ho).1 hsum, hkept, hreasoning⟩
    · rintro ⟨hsum, hkept, hreasoning⟩
      refine ⟨?_, hreasoning, hkept⟩
      rw [(or_eq_self_iff (cachedCount p o) (Option.bind _ _)).2 hkept]
      exact (uncached_survives p ho).2 hsum

/-- A hundred tokens of input, forty of them cached, and twenty of output. -/
def cachedUsage : Value :=
  .object [("completion_tokens", .int 20), ("prompt_tokens", .int 100),
    ("prompt_tokens_details", .object [("cached_tokens", .int 40)])]

theorem survives_cachedUsage :
    cachedUsage.WellFormed ∧ Unshadowed .openaiChat .gemini cachedUsage ∧
      Survives .openaiChat .gemini cachedUsage := by
  have hwell : cachedUsage.WellFormed := by decide +kernel
  have hfree : Unshadowed .openaiChat .gemini cachedUsage := by
    refine ⟨by decide +kernel, by decide +kernel, ?_⟩
    show _ ∨ _
    decide +kernel
  exact ⟨hwell, hfree, (survives_iff_unshadowed .openaiChat .gemini cachedUsage hwell).2 hfree⟩

/-- What is cached is part of the input, and the reasoning part of the output. -/
def Plausible (p : Protocol) (o : Value) : Prop :=
  (p = .anthropic ∨ (cachedCount p o).getD 0 ≤ inputCount p o) ∧
    (carriedReasoning p o).getD 0 ≤ outputCount p o

/-- Chat counts of a vendor that adds a member under the name Responses has for the input. -/
def shadowedUsage : Value :=
  .object [("completion_tokens", .int 20), ("input_tokens", .int 7), ("prompt_tokens", .int 100)]

/-- The client of Responses is told of seven tokens where the source counted a hundred. -/
theorem not_survives_shadowedUsage :
    shadowedUsage.WellFormed ∧ Plausible .openaiChat shadowedUsage ∧
      ¬ Survives .openaiChat .openaiResponses shadowedUsage := by
  refine ⟨by decide +kernel, ⟨Or.inr (by decide +kernel), by decide +kernel⟩, ?_⟩
  intro h
  have hprompt : uncachedCount .openaiResponses
      (written .openaiResponses (Protocol.parseUsage .openaiChat shadowedUsage)) = 100 :=
    ((survives_iff _ _ _).1 h).1
  exact absurd hprompt (by decide +kernel)

end NextApi
