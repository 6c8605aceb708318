import NextApi.Protocol.Responses.StreamText
import NextApi.Protocol.ToolStopRuns
import NextApi.Protocol.UsageRoundTrip
import NextApi.Upstream.UsageAgreement

/-!
# The bill of a converted stream

A stream that is converted is billed off the text that the client gets (`extractSseUsage`), and so
off what the encoder made of the usage that the upstream reported. `billedAs_iff` says when the bill
has the counts of the last usage that was reported.

A usage is written once in each chunk that has one by Chat and Gemini, so there the last one counts,
unless the vendor has a member of the same name later on. Responses writes the usage that is known
at its terminal event, and the bill is read from `response.completed` only. Anthropic writes the
input and the cache at the start, as the first chunk knows them, and the output at the deltas.
-/

set_option autoImplicit false

namespace NextApi.Upstream

open Json Ir Text Stream.Register

/-! ### One usage object -/

/-- The input that is written for a usage. -/
def writtenInput (p : Protocol) (w : IrUsage) : Value :=
  match p with
  | .anthropic => .ofNat w.promptTokens
  | .openaiResponses =>
    -- a vendor member of this name replaces what was written
    (Map.get? w.extra "input_tokens").getD
      (.ofNat (addU64 w.promptTokens (w.cacheReadTokens.getD 0)))
  | _ => .ofNat (addU64 w.promptTokens (w.cacheReadTokens.getD 0))

/-- The count of the cache that is written, or the vendor's if there is none to write. -/
def writtenCached (p : Protocol) (w : IrUsage) : Option Value :=
  (w.cacheReadTokens.map .ofNat).or
    (match p with
    | .openaiChat => (Map.get? w.extra "prompt_tokens_details").bind (Value.get? · "cached_tokens")
    | .openaiResponses =>
      (Map.get? w.extra "input_tokens_details").bind (Value.get? · "cached_tokens")
    | .anthropic => none
    | .gemini => Map.get? w.extra "cachedContentTokenCount")

/-- The output of Gemini, whose candidates are counted without the thoughts. -/
def sumOutput (candidates thoughts : Option Value) : Option ℤ :=
  if (candidates.bind token).isNone && (thoughts.bind token).isNone then none
  else some (saturateI64 ((candidates.bind token).getD 0 + (thoughts.bind token).getD 0))

/-- What the output is read as. -/
def toldOutput (p : Protocol) (w : IrUsage) : Option ℤ :=
  match p with
  | .openaiResponses => token ((Map.get? w.extra "output_tokens").getD (.ofNat w.completionTokens))
  | .gemini =>
    let reasoning := (Map.get? w.extra "reasoning_tokens").bind Value.asU64
    sumOutput (some (.ofNat (w.completionTokens - reasoning.getD 0)))
      ((reasoning.map .ofNat).or (Map.get? w.extra "thoughtsTokenCount"))
  | _ => token (.ofNat w.completionTokens)

/-- The count that the bill reads in the object written for a usage. -/
def toldCount (p : Protocol) (w : IrUsage) : Count → Option ℤ
  | .prompt =>
    if p = .anthropic then token (writtenInput p w)
    else uncachedPrompt (token (writtenInput p w)) ((writtenCached p w).bind token)
  | .completion => toldOutput p w
  | .cacheRead => (writtenCached p w).bind token
  | .cacheWrite => none

/-- The object written for `w` is read as the counts of `u`. -/
def Carries (p : Protocol) (w u : IrUsage) : Prop :=
  ∀ n, n ≠ .cacheWrite → charged (toldCount p w n) = irCount u n

theorem toldCount_completion (p : Protocol) (w : IrUsage) :
    toldCount p w .completion = toldOutput p w := rfl

theorem toldCount_cacheRead (p : Protocol) (w : IrUsage) :
    toldCount p w .cacheRead = (writtenCached p w).bind token := rfl

theorem toldCount_prompt {p : Protocol} (hp : p ≠ .anthropic) (w : IrUsage) :
    toldCount p w .prompt =
      uncachedPrompt (token (writtenInput p w)) ((writtenCached p w).bind token) := if_neg hp

theorem toldCount_start {p : Protocol} (hp : p = .anthropic) (w : IrUsage) :
    toldCount p w .prompt = token (writtenInput p w) := if_pos hp

theorem count_chat {v : Value} {w : IrUsage} (h : v.get? "usage" = some (written .openaiChat w))
    {n : Count} (hn : n ≠ .cacheWrite) :
    (extractJsonUsage .openaiChat v).count n = toldCount .openaiChat w n := by
  have hinput : (written .openaiChat w).get? "prompt_tokens" =
      some (writtenInput .openaiChat w) := by
    simp [written, Protocol.writeUsage, Chat.usageToJson, writtenInput]
  have houtput : (written .openaiChat w).get? "completion_tokens" =
      some (.ofNat w.completionTokens) := by
    simp [written, Protocol.writeUsage, Chat.usageToJson]
  have hcached : ((written .openaiChat w).get? "prompt_tokens_details").bind
      (Value.get? · "cached_tokens") = writtenCached .openaiChat w := by
    have hkept : "prompt_tokens_details" ∉
        (if (Map.get? w.extra "output_tokens_details").isSome then
          ["reasoning_tokens", "output_tokens_details"]
        else ["reasoning_tokens", "input_tokens_details"]) := by
      split <;> decide
    cases hread : w.cacheReadTokens with
    | none => simp [written, Protocol.writeUsage, Chat.usageToJson, writtenCached, hread, hkept]
    | some c => simp [written, Protocol.writeUsage, Chat.usageToJson, writtenCached, hread]
  have htold : toldOutput .openaiChat w = token (.ofNat w.completionTokens) := rfl
  cases n with
  | prompt =>
    rw [toldCount_prompt (by decide), ← hcached, ← Option.bind_some (f := token), ← hinput]
    simp only [extractJsonUsage, Usage.count, h, countAt, countIn, Option.bind_some]
  | completion =>
    rw [toldCount_completion, htold, ← Option.bind_some (f := token), ← houtput]
    simp only [extractJsonUsage, Usage.count, h, countAt, Option.bind_some]
  | cacheRead =>
    rw [toldCount_cacheRead, ← hcached]
    simp only [extractJsonUsage, Usage.count, h, countIn, Option.bind_some]
  | cacheWrite => exact absurd rfl hn

theorem count_gemini {v : Value} {w : IrUsage}
    (h : v.get? "usageMetadata" = some (written .gemini w)) {n : Count} (hn : n ≠ .cacheWrite) :
    (extractJsonUsage .gemini v).count n = toldCount .gemini w n := by
  have hinput : (written .gemini w).get? "promptTokenCount" = some (writtenInput .gemini w) := by
    simp [written, Protocol.writeUsage, Gemini.usageMetadataToJson, writtenInput]
  have hcached : (written .gemini w).get? "cachedContentTokenCount" = writtenCached .gemini w := by
    cases hread : w.cacheReadTokens <;>
      simp [written, Protocol.writeUsage, Gemini.usageMetadataToJson, writtenCached, hread]
  cases n with
  | prompt =>
    rw [toldCount_prompt (by decide), ← hcached, ← Option.bind_some (f := token), ← hinput]
    simp only [extractJsonUsage, Usage.count, h, countAt, Option.bind_some]
  | completion =>
    have hcandidates : (written .gemini w).get? "candidatesTokenCount" = some (.ofNat
        (w.completionTokens - ((Map.get? w.extra "reasoning_tokens").bind Value.asU64).getD 0)) := by
      simp [written, Protocol.writeUsage, Gemini.usageMetadataToJson]
    have hthoughts : (written .gemini w).get? "thoughtsTokenCount" =
        (((Map.get? w.extra "reasoning_tokens").bind Value.asU64).map .ofNat).or
          (Map.get? w.extra "thoughtsTokenCount") := by
      cases hreasoning : (Map.get? w.extra "reasoning_tokens").bind Value.asU64 <;>
        simp [written, Protocol.writeUsage, Gemini.usageMetadataToJson, hreasoning]
    have htold : toldOutput .gemini w = sumOutput ((written .gemini w).get? "candidatesTokenCount")
        ((written .gemini w).get? "thoughtsTokenCount") := by
      rw [hcandidates, hthoughts]
      rfl
    rw [toldCount_completion, htold, sumOutput]
    simp only [extractJsonUsage, Usage.count, h, countAt, Option.bind_some]
  | cacheRead =>
    rw [toldCount_cacheRead, ← hcached]
    simp only [extractJsonUsage, Usage.count, h, countAt, Option.bind_some]
  | cacheWrite => exact absurd rfl hn

theorem count_responses {v : Value} {w : IrUsage} (hsorted : Map.Sorted w.extra)
    (h : v.get? "usage" = some (written .openaiResponses w)) {n : Count} (hn : n ≠ .cacheWrite) :
    (extractJsonUsage .openaiResponses v).count n = toldCount .openaiResponses w n := by
  have hget (key : String) : (written .openaiResponses w).get? key =
      Map.get? (Map.insertAll _ _) key := rfl
  have hinput : (written .openaiResponses w).get? "input_tokens" =
      some (writtenInput .openaiResponses w) := by
    rw [hget, Map.get?_insertAll (hsorted.without _)]
    cases hv : Map.get? w.extra "input_tokens" <;> simp [hv, writtenInput]
  have houtput : (written .openaiResponses w).get? "output_tokens" =
      some ((Map.get? w.extra "output_tokens").getD (.ofNat w.completionTokens)) := by
    rw [hget, Map.get?_insertAll (hsorted.without _)]
    cases hv : Map.get? w.extra "output_tokens" <;> simp [hv]
  have hcached : ((written .openaiResponses w).get? "input_tokens_details").bind
      (Value.get? · "cached_tokens") = writtenCached .openaiResponses w := by
    rw [hget, Map.get?_insertAll (hsorted.without _)]
    have hkept : Map.get? (Map.without w.extra ["reasoning_tokens", "output_tokens_details",
        "input_tokens_details", "completion_tokens_details"]) "input_tokens_details" = none := by
      simp
    rw [hkept, Option.none_or]
    simp only [Map.insertPresent_cons, Map.insertPresent_nil, Map.get?_insertOpt]
    rw [if_neg (by decide), if_pos trivial, if_neg (by decide), if_neg (by decide),
      if_neg (by decide), Map.get?_nil, Option.or_none, get?_nonEmptyDetails,
      Map.get?_orInsertAll, Map.get?_insertOpt, if_pos rfl, Map.get?_nil, Option.or_none,
      get?_detailsObject]
    rfl
  have htold : toldOutput .openaiResponses w =
      token ((Map.get? w.extra "output_tokens").getD (.ofNat w.completionTokens)) := rfl
  cases n with
  | prompt =>
    rw [toldCount_prompt (by decide), ← hcached, ← Option.bind_some (f := token), ← hinput]
    simp only [extractJsonUsage, Usage.count, h, countAt, countIn, Option.bind_some]
  | completion =>
    rw [toldCount_completion, htold, ← Option.bind_some (f := token), ← houtput]
    simp only [extractJsonUsage, Usage.count, h, countAt, Option.bind_some]
  | cacheRead =>
    rw [toldCount_cacheRead, ← hcached]
    simp only [extractJsonUsage, Usage.count, h, countIn, Option.bind_some]
  | cacheWrite => exact absurd rfl hn

/-! ### What is sent -/

section Sent

variable [SerdeJson] [Responses.RandSuffix] [Gemini.HashOrder]

/-- The text that the client gets for the chunks. -/
def sentText (p : Protocol) (chunks : List IrChunk) : List Char :=
  (streamPayloads p chunks false).flatMap Sse.encodeTypedEvent

/-- The bill has the counts of a usage. -/
def BilledAs (p : Protocol) (chunks : List IrChunk) (u : IrUsage) : Prop :=
  ∀ n, n ≠ .cacheWrite →
    charged ((extractSseUsage p (sentText p chunks)).count n) = irCount u n

omit [SerdeJson] [Responses.RandSuffix] [Gemini.HashOrder] in
theorem endsLine_flatMap {α : Type} {write : α → List Char} (h : ∀ a, EndsLine (write a))
    (items : List α) : EndsLine (items.flatMap write) := by
  induction items with
  | nil => exact Or.inl rfl
  | cons a rest ih =>
    rw [List.flatMap_cons]
    rcases ih with hnil | hlast
    · rw [hnil, List.append_nil]
      exact h a
    · refine Or.inr ?_
      rw [List.getLast?_append, hlast, Option.some_or]

omit [Responses.RandSuffix] [Gemini.HashOrder] in
/-- The marker at the end says nothing of the usage. -/
theorem lastly_doneMarkers (hdone : ∃ e, SerdeJson.ofText Chat.doneMarker = .error e)
    (p : Protocol) (n : Count) :
    lastly (lineSets p n) (lines ((doneMarkers p).flatMap Sse.encodeTypedEvent)) = none := by
  obtain ⟨e, he⟩ := hdone
  have hmarker : Sse.encodeTypedEvent Chat.doneMarker = "data: [DONE]\n\n".toList := by
    rw [Sse.encodeTypedEvent, he]
    show Sse.encodeEvent Chat.doneMarker = _
    decide
  have hlines : lines "data: [DONE]\n\n".toList = ["data: [DONE]".toList, []] := by decide
  have hnone : parseSseData "data: [DONE]".toList = none := by
    rw [parseSseData]
    rfl
  cases p with
  | openaiChat =>
    show lastly _ (lines ([Chat.doneMarker].flatMap _)) = none
    rw [List.flatMap_singleton, hmarker, hlines, lastly_cons, lastly_cons, lastly_nil, lineSets,
      lineSets, hnone, parseSseData_nil]
    rfl
  | openaiResponses => rfl
  | anthropic => rfl
  | gemini => rfl

/-- A count of the bill is what the last event that sets it sets it to. -/
theorem count_sentText [LawfulSerdeJson]
    (hdone : ∃ e, SerdeJson.ofText Chat.doneMarker = .error e) {p : Protocol}
    {chunks : List IrChunk} (hsent : ∀ v ∈ streamEvents p chunks false, Sendable v) (n : Count) :
    (extractSseUsage p (sentText p chunks)).count n =
      (lastly (eventSets p n) (streamEvents p chunks false)).getD none := by
  have hends : EndsLine ((streamEvents p chunks false).flatMap fun v ↦
      Sse.encodeTypedEvent (SerdeJson.toText v)) :=
    endsLine_flatMap (fun v ↦ Sse.endsLine_encodeTypedEvent _) _
  rw [count_extractSseUsage, sentText, streamPayloads, List.flatMap_append, List.flatMap_map,
    lines_append _ hends, lastly_append, lastly_doneMarkers hdone, Option.none_or,
    lastly_lines_events p n hsent]

end Sent

/-! ### Chat and Gemini -/

section Standalone

/-- What a chunk sets a count to: its usage, or the vendor's member of that name. -/
def chunkSets (p : Protocol) (n : Count) (chunk : IrChunk) : Option (Option ℤ) :=
  match chunk.usage with
  | some w => some (toldCount p w n)
  | none => eventSets p n (.obj chunk.extra)

/-- The last chunk that sets counts. -/
def lastTeller (p : Protocol) (chunks : List IrChunk) : Option IrChunk :=
  (chunks.filter fun chunk ↦ (chunkSets p .prompt chunk).isSome).getLast?

theorem token_ofNat {k : ℕ} (h : k < 2 ^ 63) : token (.ofNat k) = some (k : ℤ) :=
  token_of_lt (by exact_mod_cast h)

theorem isSome_token_ofNat (k : ℕ) : (token (.ofNat k)).isSome = true := by
  rcases Nat.lt_or_ge k (2 ^ 63) with hlt | hge
  · rw [token_ofNat hlt]
    rfl
  · have hint : (2 ^ 63 : ℤ) ≤ k := by exact_mod_cast hge
    obtain ⟨t, ht, -⟩ := exists_token_of_le hint
    have h : token (.ofNat k) = some t := ht
    rw [h]
    rfl

/-- What an event sets depends on its usage alone. -/
theorem eventSets_congr {p : Protocol} (hp : p = .openaiChat ∨ p = .gemini) {v v' : Value}
    (h : v.get? (usageKey p) = v'.get? (usageKey p)) (n : Count) :
    eventSets p n v = eventSets p n v' := by
  rcases hp with rfl | rfl
  · have hget : v.get? "usage" = v'.get? "usage" := h
    have hread : extractJsonUsage .openaiChat v = extractJsonUsage .openaiChat v' := by
      simp only [extractJsonUsage, hget]
    rw [eventSets, eventSets, hget, hread]
  · have hget : v.get? "usageMetadata" = v'.get? "usageMetadata" := h
    have hread : extractJsonUsage .gemini v = extractJsonUsage .gemini v' := by
      simp only [extractJsonUsage, hget]
    rw [eventSets, eventSets, hget, hread]

theorem sets_chat (chunk : IrChunk) (st : Chat.StreamState) {n : Count} (hn : n ≠ .cacheWrite) :
    lastly (eventSets .openaiChat n) (Chat.chunkFromIr chunk st).events =
      chunkSets .openaiChat n chunk := by
  obtain ⟨event, hevents, hget⟩ : ∃ event, (Chat.chunkFromIr chunk st).events = [event] ∧
      event.get? "usage" =
        (chunk.usage.map (written .openaiChat)).or (Map.get? chunk.extra "usage") := by
    refine ⟨_, rfl, ?_⟩
    rw [Value.get?_obj, Map.get?_insertPresent (by simp)]
    cases chunk.usage <;> rfl
  rw [hevents, lastly_cons, lastly_nil, Option.none_or, chunkSets]
  cases husage : chunk.usage with
  | none =>
    rw [husage, Option.map_none, Option.none_or] at hget
    exact eventSets_congr (Or.inl rfl) hget n
  | some w =>
    rw [husage, Option.map_some, Option.some_or] at hget
    have hreported : (extractJsonUsage .openaiChat event).reported = true := by
      have hcount : (extractJsonUsage .openaiChat event).completionTokens =
          token (.ofNat w.completionTokens) := count_chat hget (n := .completion) (by decide)
      rw [Usage.reported, hcount, isSome_token_ofNat, Bool.or_true, Bool.true_or]
    rw [eventSets, hget, if_pos ⟨rfl, hreported⟩, count_chat hget hn]

theorem sets_gemini [SerdeJson] [Gemini.HashOrder] (chunk : IrChunk) (st : Gemini.StreamState)
    {n : Count} (hn : n ≠ .cacheWrite) :
    lastly (eventSets .gemini n) (Gemini.chunkFromIr chunk st).events =
      chunkSets .gemini n chunk := by
  obtain ⟨event, hevents, hget⟩ : ∃ event, (Gemini.chunkFromIr chunk st).events = [event] ∧
      event.get? "usageMetadata" =
        (chunk.usage.map (written .gemini)).or (Map.get? chunk.extra "usageMetadata") := by
    refine ⟨_, rfl, ?_⟩
    rw [Value.get?_obj, Map.get?_orInsertAll, Map.get?_insertPresent (by simp), Map.get?_without,
      if_neg (by decide)]
    cases chunk.usage <;> rfl
  rw [hevents, lastly_cons, lastly_nil, Option.none_or, chunkSets]
  cases husage : chunk.usage with
  | none =>
    rw [husage, Option.map_none, Option.none_or] at hget
    exact eventSets_congr (Or.inr rfl) hget n
  | some w =>
    rw [husage, Option.map_some, Option.some_or] at hget
    rw [eventSets, hget, if_pos Option.isSome_some, count_gemini hget hn]

/-- The end of a Gemini stream sets nothing. -/
theorem sets_geminiEnd [SerdeJson] [Gemini.HashOrder] (st : Gemini.StreamState) (n : Count) :
    lastly (eventSets .gemini n) (Gemini.streamEnd st).events = none := by
  refine lastly_eq_none _ fun v hv ↦ ?_
  unfold Gemini.streamEnd at hv
  dsimp only at hv
  split at hv
  · cases hv
  · rw [List.mem_singleton.1 hv]
    rfl

variable [SerdeJson] [Responses.RandSuffix] [Gemini.HashOrder]

/-- The events of a stream set what its chunks set. -/
theorem sets_standalone {p : Protocol} (hp : p = .openaiChat ∨ p = .gemini) (chunks : List IrChunk)
    {n : Count} (hn : n ≠ .cacheWrite) :
    lastly (eventSets p n) (streamEvents p chunks false) = lastly (chunkSets p n) chunks := by
  rcases hp with rfl | rfl
  · have hend : streamEvents .openaiChat chunks false =
        (Stream.run (encodeStep .openaiChat) (newStream .openaiChat) chunks).2 :=
      List.append_nil _
    rw [hend]
    exact lastly_run (fun st chunk ↦ sets_chat chunk st hn) _ _
  · have hend (st : StreamStateOf .gemini) :
        lastly (eventSets .gemini n) (streamEnd .gemini st false) = none := sets_geminiEnd st n
    rw [streamEvents, lastly_append, hend, Option.none_or]
    exact lastly_run (fun st chunk ↦ sets_gemini chunk st hn) _ _

end Standalone

/-! ### Responses -/

section Terminal

open Responses (headOf lastFinish hasUsage untilEnd Ends Due chunkBody eventsAfter)

/-- The usage that the bill finds: that of the terminal event, if it is `response.completed`. -/
def terminalUsage (chunks : List IrChunk) : Option IrUsage :=
  if lastFinish (headOf chunks) = some "failed" ∨ lastFinish (headOf chunks) = some "length" then
    none
  else lastly IrChunk.usage (headOf chunks)

/-- What a terminal event for this finish reason and usage sets a count to. -/
def terminalSets (n : Count) (finish : Option String) (usage : Option IrUsage) :
    Option (Option ℤ) :=
  if finish = some "failed" ∨ finish = some "length" then none
  else some (usage.bind (toldCount .openaiResponses · n))

theorem sets_unfinished (n : Count) {v : Value} (h : Responses.Unfinished v) :
    eventSets .openaiResponses n v = none := by
  rw [eventSets, if_neg]
  intro htype
  refine h (Or.inl ?_)
  rw [← eventType_eq, eventType, htype]
  rfl

theorem sets_responseEvent (type : String) (payload : Value) (n : Count) :
    eventSets .openaiResponses n (Responses.responseEvent type payload) =
      if type = "response.completed" then
        some ((extractJsonUsage .openaiResponses payload).count n)
      else none := by
  have htype : ((Responses.responseEvent type payload).get? "type").bind Value.asStr =
      some type := rfl
  have hresponse : (Responses.responseEvent type payload).get? "response" = some payload := rfl
  simp only [eventSets, htype, hresponse, Option.some.injEq, Option.map_some]

theorem count_finalResponse (st : Responses.StreamState) (status : String) {n : Count}
    (hn : n ≠ .cacheWrite) (hsorted : ∀ w, st.lastUsage = some w → Map.Sorted w.extra) :
    (extractJsonUsage .openaiResponses (Responses.buildFinalResponse st status).1).count n =
      st.lastUsage.bind (toldCount .openaiResponses · n) := by
  have hget : (Responses.buildFinalResponse st status).1.get? "usage" =
      some (((st.lastUsage.map (written .openaiResponses))).getD .null) := by
    rw [Responses.buildFinalResponse, Value.get?_obj, Map.get?_insertPresent (by simp)]
    cases st.lastUsage <;> rfl
  cases husage : st.lastUsage with
  | none =>
    rw [husage] at hget
    have hnull (key : String) : Value.null.get? key = none := rfl
    cases n <;>
      simp only [extractJsonUsage, Usage.count, hget, countAt, countIn, Option.map_none,
        Option.getD_none, Option.bind_some, hnull, Option.bind_none, uncachedPrompt]
  | some w =>
    rw [husage] at hget
    exact count_responses (hsorted w husage) hget hn

/-- What the terminal event sets. -/
theorem sets_terminal (finish : Option String) (st : Responses.StreamState) {n : Count}
    (hn : n ≠ .cacheWrite) (hsorted : ∀ w, st.lastUsage = some w → Map.Sorted w.extra) :
    eventSets .openaiResponses n (Responses.responseEvent (Responses.terminalOf finish).2
        (Responses.buildFinalResponse st (Responses.terminalOf finish).1).1) =
      terminalSets n finish st.lastUsage := by
  rw [sets_responseEvent, count_finalResponse st _ hn hsorted, terminalSets]
  by_cases hfailed : finish = some "failed"
  · rw [hfailed, if_neg (by decide), if_pos (Or.inl rfl)]
  · by_cases hlength : finish = some "length"
    · rw [hlength, if_neg (by decide), if_pos (Or.inr rfl)]
    · have htype : (Responses.terminalOf finish).2 = "response.completed" := by
        unfold Responses.terminalOf
        split
        · exact absurd rfl hfailed
        · exact absurd rfl hlength
        · rfl
      rw [if_pos htype, if_neg (not_or.2 ⟨hfailed, hlength⟩)]

variable [Responses.RandSuffix]

/-- What is known before the terminal event. -/
structure Collected (past : List IrChunk) (st : Responses.StreamState) : Prop where
  completed : st.completed = false
  lastUsage : st.lastUsage = lastly IrChunk.usage past
  pendingFinish : st.pendingFinish = lastFinish past

theorem Collected.body {past : List IrChunk} {st : Responses.StreamState} (h : Collected past st)
    (chunk : IrChunk) : Collected (past ++ [chunk]) (chunkBody chunk st).st := by
  have hbody := Responses.answered_chunkBody chunk st
  refine ⟨hbody.completed.trans h.completed, ?_, ?_⟩
  · rw [hbody.lastUsage, h.lastUsage, lastly_append, lastly_cons, lastly_nil, Option.none_or]
  · rw [hbody.pendingFinish, h.pendingFinish, lastFinish, lastFinish, List.filterMap_append]
    cases hfinish : chunk.finishReason <;> simp [hfinish]

omit [Responses.RandSuffix] in
theorem hasUsage_eq (chunks : List IrChunk) :
    hasUsage chunks = (lastly IrChunk.usage chunks).isSome := by
  rw [Bool.eq_iff_iff, lastly_isSome, hasUsage, List.any_eq_true]

omit [Responses.RandSuffix] in
/-- The terminal event is due when the chunks end the stream. -/
theorem Collected.due_iff {past : List IrChunk} {st : Responses.StreamState}
    (h : Collected past st) : Due st ↔ Ends past := by
  rw [Due, Ends, h.lastUsage, h.pendingFinish, hasUsage_eq]
  exact and_iff_right h.completed

omit [Responses.RandSuffix] in
theorem Collected.sets_terminal {past : List IrChunk} {st : Responses.StreamState}
    (h : Collected past st)
    (hsorted : ∀ chunk ∈ past, ∀ w, chunk.usage = some w → Map.Sorted w.extra) {n : Count}
    (hn : n ≠ .cacheWrite) (e : Emission Responses.StreamState) (he : e.st.lastUsage = st.lastUsage)
    (hsilent : lastly (eventSets .openaiResponses n) e.events = none) :
    lastly (eventSets .openaiResponses n) (Responses.sendTerminal st.pendingFinish e).events =
      terminalSets n (lastFinish past) (lastly IrChunk.usage past) := by
  have hevents : (Responses.sendTerminal st.pendingFinish e).events = e.events ++
      [Responses.responseEvent (Responses.terminalOf st.pendingFinish).2
        (Responses.buildFinalResponse e.st (Responses.terminalOf st.pendingFinish).1).1] := rfl
  have hlast : e.st.lastUsage = lastly IrChunk.usage past := he.trans h.lastUsage
  rw [hevents, lastly_append, hsilent, Option.or_none, lastly_cons, lastly_nil, Option.none_or,
    Upstream.sets_terminal _ e.st hn, hlast, h.pendingFinish]
  intro w hw
  obtain ⟨chunk, hchunk, husage⟩ := exists_of_lastly_eq_some IrChunk.usage (hlast.symm.trans hw)
  exact hsorted chunk hchunk w husage

/-- The events before the terminal one set nothing. -/
theorem sets_chunkBody (chunk : IrChunk) (st : Responses.StreamState) (n : Count) :
    lastly (eventSets .openaiResponses n) (chunkBody chunk st).events = none := by
  obtain ⟨new, hevents, hall, -⟩ := (Responses.answered_chunkBody chunk st).tells
  rw [hevents, List.nil_append]
  exact lastly_eq_none _ fun v hv ↦ sets_unfinished n (hall v hv)

/-- After the terminal event nothing is set. -/
theorem sets_eventsAfter_of_completed {st : Responses.StreamState} (h : st.completed = true)
    (chunks : List IrChunk) (n : Count) :
    lastly (eventSets .openaiResponses n) (eventsAfter st chunks false) = none := by
  induction chunks generalizing st with
  | nil =>
    have hevents : eventsAfter st [] false = (Responses.streamEnd st).events := rfl
    rw [hevents, Responses.streamEnd, if_pos h]
    rfl
  | cons chunk rest ih =>
    have hdone : (chunkBody chunk st).st.completed = true :=
      (Responses.answered_chunkBody chunk st).completed.trans h
    have hstep : Responses.chunkFromIr chunk st = chunkBody chunk st := by
      rw [Responses.chunkFromIr_eq, Responses.finishStage_of_not_due]
      intro hdue
      exact Bool.false_ne_true (hdue.1.symm.trans hdone)
    rw [Responses.eventsAfter_cons, lastly_append, hstep, ih hdone, sets_chunkBody]
    rfl

/-- The chunks up to the end decide what the terminal event sets. -/
theorem sets_eventsAfter {past : List IrChunk} {st : Responses.StreamState}
    (h : Collected past st) (chunks : List IrChunk)
    (hsorted : ∀ chunk ∈ past ++ chunks, ∀ w, chunk.usage = some w → Map.Sorted w.extra)
    {n : Count} (hn : n ≠ .cacheWrite) :
    lastly (eventSets .openaiResponses n) (eventsAfter st chunks false) =
      terminalSets n (lastFinish (untilEnd past chunks).1)
        (lastly IrChunk.usage (untilEnd past chunks).1) := by
  induction chunks generalizing past st with
  | nil =>
    rw [List.append_nil] at hsorted
    have hopen : ¬ st.completed = true := by
      rw [h.completed]
      exact Bool.false_ne_true
    have hevents : eventsAfter st [] false = (Responses.streamEnd st).events := rfl
    rw [hevents, Responses.streamEnd, if_neg hopen, untilEnd]
    exact h.sets_terminal hsorted hn _ rfl rfl
  | cons chunk rest ih =>
    have hbody := h.body chunk
    rw [Responses.eventsAfter_cons, lastly_append, untilEnd, Responses.chunkFromIr_eq]
    by_cases hends : Ends (past ++ [chunk])
    · rw [if_pos hends, Responses.finishStage_of_due (hbody.due_iff.2 hends),
        sets_eventsAfter_of_completed rfl, Option.none_or]
      refine hbody.sets_terminal (fun other hother ↦ hsorted other ?_) hn _ rfl
        (sets_chunkBody chunk st n)
      rw [List.mem_append, List.mem_singleton] at hother
      rw [List.mem_append, List.mem_cons]
      exact hother.imp_right Or.inl
    · rw [if_neg hends, Responses.finishStage_of_not_due fun hdue ↦ hends (hbody.due_iff.1 hdue),
        sets_chunkBody, Option.or_none]
      exact ih hbody fun other hother ↦ hsorted other (by simpa using hother)

end Terminal

/-! ### Anthropic -/

section Spread

open Anthropic (closeOpenBlock openNewBlock deltaInBlock textStage thinkingStage openToolBlock
  toolDelta updateUsage finishStage sendMessageDelta endDelta)

theorem sets_of_type {v : Value} (type : String) (h : eventType v = type)
    (hstart : type ≠ "message_start") (hdelta : type ≠ "message_delta") (n : Count) :
    eventSets .anthropic n v = none := by
  rw [eventSets, h, if_neg hstart, if_neg fun hboth ↦ hdelta hboth.1]

/-- The events that are added set nothing, and the usage is left alone. -/
structure Idle (e e' : Emission Anthropic.StreamState) : Prop where
  sets : ∀ n, lastly (eventSets .anthropic n) e'.events = lastly (eventSets .anthropic n) e.events
  usage : e'.st.usage = e.st.usage

theorem Idle.refl (e : Emission Anthropic.StreamState) : Idle e e := ⟨fun _ ↦ rfl, rfl⟩

theorem Idle.trans {e e' e'' : Emission Anthropic.StreamState} (h : Idle e e')
    (h' : Idle e' e'') : Idle e e'' :=
  ⟨fun n ↦ (h'.sets n).trans (h.sets n), h'.usage.trans h.usage⟩

theorem Idle.emit {e : Emission Anthropic.StreamState} {st : Anthropic.StreamState} {v : Value}
    (hv : ∀ n, eventSets .anthropic n v = none) (husage : st.usage = e.st.usage) :
    Idle e ((e.withState st).emit v) := by
  refine ⟨fun n ↦ ?_, husage⟩
  rw [Emission.emit_events, Emission.withState_events, lastly_append, lastly_cons, lastly_nil, hv]
  rfl

theorem sets_blockStart (idx : UInt32) (block : Value) (n : Count) :
    eventSets .anthropic n (Anthropic.contentBlockStart idx block) = none :=
  sets_of_type "content_block_start" rfl (by decide) (by decide) n

theorem sets_blockDelta (idx : UInt32) (delta : Value) (n : Count) :
    eventSets .anthropic n (Anthropic.contentBlockDelta idx delta) = none :=
  sets_of_type "content_block_delta" rfl (by decide) (by decide) n

theorem sets_blockStop (idx : UInt32) (n : Count) :
    eventSets .anthropic n (Anthropic.contentBlockStop idx) = none :=
  sets_of_type "content_block_stop" rfl (by decide) (by decide) n

theorem idle_closeOpenBlock (e : Emission Anthropic.StreamState) :
    Idle e (closeOpenBlock e) := by
  unfold closeOpenBlock
  split
  · exact Idle.emit (sets_blockStop _) rfl
  · exact Idle.refl e

theorem idle_openNewBlock (kind : Anthropic.BlockKind) {start : UInt32 → Value}
    (hstart : ∀ idx n, eventSets .anthropic n (start idx) = none)
    (e : Emission Anthropic.StreamState) : Idle e (openNewBlock kind start e) :=
  Idle.emit (hstart _) rfl

theorem idle_deltaInBlock (kind : Anthropic.BlockKind) {start delta : UInt32 → Value}
    (hstart : ∀ idx n, eventSets .anthropic n (start idx) = none)
    (hdelta : ∀ idx n, eventSets .anthropic n (delta idx) = none)
    (e : Emission Anthropic.StreamState) : Idle e (deltaInBlock kind start delta e) := by
  have hopen : Idle e (if e.st.openBlock.map Anthropic.OpenBlock.kind = some kind then e
      else openNewBlock kind start (closeOpenBlock e)) := by
    split
    · exact Idle.refl e
    · exact (idle_closeOpenBlock e).trans (idle_openNewBlock kind hstart _)
  unfold deltaInBlock
  dsimp only
  split
  · exact hopen.trans (Idle.emit (hdelta _) rfl)
  · exact hopen

theorem idle_textStage (content : Option String) (e : Emission Anthropic.StreamState) :
    Idle e (textStage content e) := by
  unfold textStage
  split
  · exact idle_deltaInBlock .text (fun _ ↦ sets_blockStart _ _) (fun _ ↦ sets_blockDelta _ _) e
  · exact Idle.refl e

theorem idle_thinkingStage (reasoning : Option String) (e : Emission Anthropic.StreamState) :
    Idle e (thinkingStage reasoning e) := by
  unfold thinkingStage
  split
  · exact idle_deltaInBlock .thinking (fun _ ↦ sets_blockStart _ _)
      (fun _ ↦ sets_blockDelta _ _) e
  · exact Idle.refl e

theorem idle_openToolBlock (tc : IrToolCallDelta) (e : Emission Anthropic.StreamState) :
    Idle e (openToolBlock tc e) := by
  unfold openToolBlock
  refine Idle.trans ?_ (idle_openNewBlock .tool (fun _ ↦ sets_blockStart _ _) _)
  refine (idle_closeOpenBlock e).trans ?_
  split <;> exact ⟨fun _ ↦ rfl, rfl⟩

theorem idle_toolDelta (e : Emission Anthropic.StreamState) (tc : IrToolCallDelta) :
    Idle e (toolDelta e tc) := by
  have hnote : Idle e (e.withState (Anthropic.noteToolMeta tc e.st)) := ⟨fun _ ↦ rfl, rfl⟩
  unfold toolDelta
  refine hnote.trans ?_
  dsimp only
  split
  · exact Idle.emit (sets_blockDelta _ _) rfl
  · exact (idle_openToolBlock tc _).trans (Idle.emit (sets_blockDelta _ _) rfl)

theorem idle_toolCalls (toolCalls : List IrToolCallDelta)
    (e : Emission Anthropic.StreamState) : Idle e (toolCalls.foldl toolDelta e) := by
  induction toolCalls generalizing e with
  | nil => exact Idle.refl e
  | cons tc rest ih => exact (idle_toolDelta e tc).trans (ih _)

/-! The start of a message sets the input and the cache, a delta of it the output. -/

theorem sets_messageStart (st : Anthropic.StreamState) (n : Count) (hn : n ≠ .cacheWrite) :
    eventSets .anthropic n (Anthropic.messageStartEvent st) =
      if n = .completion then none else some (toldCount .anthropic st.usage n) := by
  have htype : eventType (Anthropic.messageStartEvent st) = "message_start" := rfl
  have husage : (((Anthropic.messageStartEvent st).get? "message").bind fun m ↦ m.get? "usage") =
      some (Anthropic.usageCounts st.usage) := rfl
  have hinput : (Anthropic.usageCounts st.usage).get? "input_tokens" =
      some (writtenInput .anthropic st.usage) := by
    rw [Anthropic.usageCounts, Value.get?_obj, Map.get?_insertPresent (by simp)]
    rfl
  have hcached : (Anthropic.usageCounts st.usage).get? "cache_read_input_tokens" =
      writtenCached .anthropic st.usage := by
    rw [Anthropic.usageCounts, Value.get?_obj, Map.get?_insertPresent (by simp)]
    cases hread : st.usage.cacheReadTokens <;> simp [writtenCached, hread]
  rw [eventSets, htype, if_pos rfl, husage, Option.bind_some]
  cases n with
  | prompt =>
    rw [startSets, countAt, Option.bind_some, hinput, Option.bind_some, toldCount_start rfl,
      if_neg (by decide)]
  | completion => rfl
  | cacheRead =>
    rw [startSets, countAt, Option.bind_some, hcached, toldCount_cacheRead, if_neg (by decide)]
  | cacheWrite => exact absurd rfl hn

theorem sets_messageDelta (reason : Value) {usage : Value} {k : ℕ}
    (h : usage.get? "output_tokens" = some (.ofNat k)) (n : Count) :
    eventSets .anthropic n (Anthropic.messageDelta reason usage) =
      if n = .completion then some (token (.ofNat k)) else none := by
  have htype : eventType (Anthropic.messageDelta reason usage) = "message_delta" := rfl
  have husage : (Anthropic.messageDelta reason usage).get? "usage" = some usage := rfl
  rw [eventSets, htype, if_neg (by decide), husage, countAt, Option.bind_some, h, Option.bind_some]
  by_cases hn : n = .completion
  · obtain ⟨t, ht⟩ := Option.isSome_iff_exists.1 (isSome_token_ofNat k)
    rw [if_pos ⟨rfl, hn⟩, if_pos hn, ht]
    rfl
  · rw [if_neg fun hboth ↦ hn hboth.2, if_neg hn]

/-- A `message_delta` is sent, with the output so far. -/
structure Sends (e e' : Emission Anthropic.StreamState) : Prop where
  sets : ∀ n, lastly (eventSets .anthropic n) e'.events =
    (if n = .completion then some (token (.ofNat e.st.usage.completionTokens)) else none).or
      (lastly (eventSets .anthropic n) e.events)
  usage : e'.st.usage = e.st.usage
  emitted : e'.st.messageDeltaEmitted = true

theorem Idle.sends {e e' e'' : Emission Anthropic.StreamState} (h : Idle e e')
    (h' : Sends e' e'') : Sends e e'' :=
  ⟨fun n ↦ by rw [h'.sets, h.sets, h.usage], h'.usage.trans h.usage, h'.emitted⟩

theorem sends_messageDelta (fr : String) (e : Emission Anthropic.StreamState) :
    Sends e (sendMessageDelta (Anthropic.messageDeltaEvent fr) e) := by
  have houtput : (Anthropic.usageCounts e.st.usage).get? "output_tokens" =
      some (.ofNat e.st.usage.completionTokens) := by
    rw [Anthropic.usageCounts, Value.get?_obj, Map.get?_insertPresent (by simp)]
    rfl
  refine ⟨fun n ↦ ?_, rfl, rfl⟩
  rw [sendMessageDelta, Emission.emit_events, Emission.withState_events, lastly_append, lastly_cons,
    lastly_nil, Option.none_or, Anthropic.messageDeltaEvent, sets_messageDelta _ houtput]

theorem sends_messageDeltaEnd (e : Emission Anthropic.StreamState) :
    Sends e (sendMessageDelta Anthropic.messageDeltaEndEvent e) := by
  refine ⟨fun n ↦ ?_, rfl, rfl⟩
  rw [sendMessageDelta, Emission.emit_events, Emission.withState_events, lastly_append, lastly_cons,
    lastly_nil, Option.none_or, Anthropic.messageDeltaEndEvent, sets_messageDelta _ rfl]

/-- The largest output count so far, whether there was a finish reason, and the largest output
count when a `message_delta` was last sent. -/
structure OutputLog where
  largest : ℕ := 0
  finished : Bool := false
  sent : Option ℕ := none

namespace OutputLog

/-- A `message_delta` is sent at this chunk: at a failure, at a finish reason with a usage, and at
the first usage after a finish reason without one. -/
def due (log : OutputLog) (chunk : IrChunk) : Bool :=
  match chunk.finishReason with
  | some fr => decide (fr = "failed") || chunk.usage.isSome
  | none => chunk.usage.isSome && log.finished && log.sent.isNone

def step (log : OutputLog) (chunk : IrChunk) : OutputLog :=
  let largest := max log.largest ((chunk.usage.map IrUsage.completionTokens).getD 0)
  { largest := largest
    finished := log.finished || chunk.finishReason.isSome
    sent := if log.due chunk then some largest else log.sent }

end OutputLog

def outputLog (chunks : List IrChunk) : OutputLog := chunks.foldl OutputLog.step {}

/-- The usage that the bill finds: the input and the cache of the first chunk, and the output when a
`message_delta` was last sent, which is at the end if it was not sent before. -/
def spreadUsage (chunks : List IrChunk) : IrUsage :=
  { (chunks.head?.bind IrChunk.usage).getD {} with
    completionTokens := (outputLog chunks).sent.getD (outputLog chunks).largest }

/-- A usage without a finish reason is only sent if one waits for it. -/
theorem finishStage_quiet {usage : Option IrUsage} {e : Emission Anthropic.StreamState}
    (h : ¬ (usage.isSome = true ∧ e.st.messageDeltaEmitted = false ∧
      e.st.pendingFinish.isSome = true)) : finishStage none usage e = e := by
  unfold finishStage
  dsimp only
  split
  · next hcond =>
    rw [Bool.and_eq_true, Bool.not_eq_true'] at hcond
    split
    · next fr hwaits =>
      rw [hwaits] at h
      exact absurd ⟨hcond.1, hcond.2, rfl⟩ h
    · rfl
  · rfl

/-- The end of a chunk: a `message_delta` is sent, or the state waits for one as before. -/
theorem finishStage_cases {log : OutputLog} {chunk : IrChunk}
    {e e' : Emission Anthropic.StreamState}
    (hemitted : e.st.messageDeltaEmitted = log.sent.isSome)
    (hpending : log.sent = none → e.st.pendingFinish.isSome = log.finished)
    (he' : finishStage chunk.finishReason chunk.usage e = e') :
    (log.due chunk = true ∧ Sends e e') ∨
      (log.due chunk = false ∧ Idle e e' ∧ e'.st.messageDeltaEmitted = log.sent.isSome ∧
        (log.sent = none →
          e'.st.pendingFinish.isSome = (log.finished || chunk.finishReason.isSome))) := by
  unfold OutputLog.due
  cases hfinish : chunk.finishReason with
  | some fr =>
    have hclose := idle_closeOpenBlock e
    rw [hfinish, finishStage] at he'
    dsimp only at he' ⊢
    by_cases hfailed : fr = "failed"
    · rw [if_pos hfailed] at he'
      exact Or.inl ⟨by simp [hfailed], he' ▸ hclose.sends (sends_messageDeltaEnd _)⟩
    · rw [if_neg hfailed] at he'
      by_cases husage : chunk.usage.isSome = true
      · rw [if_pos husage] at he'
        exact Or.inl ⟨by simp [husage], he' ▸ hclose.sends (sends_messageDelta fr _)⟩
      · rw [if_neg husage] at he'
        rw [← he']
        refine Or.inr ⟨by simp [hfailed, husage], ⟨hclose.sets, hclose.usage⟩, ?_, fun _ ↦ ?_⟩
        · exact (unmarked_closeOpenBlock e).emitted.trans hemitted
        · rw [Option.isSome_some, Bool.or_true]
          rfl
  | none =>
    rw [hfinish] at he'
    dsimp only
    by_cases hdue : chunk.usage.isSome = true ∧ e.st.messageDeltaEmitted = false ∧
        e.st.pendingFinish.isSome = true
    · obtain ⟨husage, hfresh, hwaits⟩ := hdue
      obtain ⟨fr, hfr⟩ := Option.isSome_iff_exists.1 hwaits
      have hsent : log.sent = none := by
        rw [hemitted, Option.isSome_eq_false_iff] at hfresh
        exact Option.isNone_iff_eq_none.1 hfresh
      have hforget : Idle e (e.withState { e.st with pendingFinish := none }) :=
        ⟨fun _ ↦ rfl, rfl⟩
      refine Or.inl ⟨by rw [husage, ← hpending hsent, hwaits, hsent]; rfl, ?_⟩
      rw [finishStage, husage, hfresh, hfr] at he'
      exact he' ▸ hforget.sends (sends_messageDelta fr _)
    · rw [finishStage_quiet hdue] at he'
      rw [← he']
      refine Or.inr ⟨?_, Idle.refl e, hemitted, fun hsent ↦ ?_⟩
      · rw [Bool.eq_false_iff]
        intro hall
        rw [Bool.and_eq_true, Bool.and_eq_true, Option.isNone_iff_eq_none] at hall
        obtain ⟨⟨husage, hseen⟩, hsent⟩ := hall
        exact hdue ⟨husage, by rw [hemitted, hsent]; rfl, (hpending hsent).trans hseen⟩
      · rw [hpending hsent, Option.isSome_none, Bool.or_false]

/-- The counts of the start do not depend on the output. -/
theorem toldCount_anthropic_congr {w w' : IrUsage} (hprompt : w.promptTokens = w'.promptTokens)
    (hcached : w.cacheReadTokens = w'.cacheReadTokens) {n : Count} (hn : n ≠ .completion) :
    toldCount .anthropic w n = toldCount .anthropic w' n := by
  cases n with
  | prompt => rw [toldCount_start rfl, toldCount_start rfl, writtenInput, writtenInput, hprompt]
  | completion => exact absurd rfl hn
  | cacheRead =>
    rw [toldCount_cacheRead, toldCount_cacheRead, writtenCached, writtenCached, hcached]
  | cacheWrite => rfl

/-- The first chunk starts the message with its usage. -/
theorem sets_startMessage (chunk : IrChunk) {st : Anthropic.StreamState} {n : Count}
    (hn : n ≠ .cacheWrite) (hfresh : st.messageStartEmitted = false → st.usage = {}) :
    lastly (eventSets .anthropic n) (Anthropic.startMessage chunk { st := st }).events =
      if st.messageStartEmitted = true ∨ n = .completion then none
      else some (toldCount .anthropic (chunk.usage.getD {}) n) := by
  unfold Anthropic.startMessage
  by_cases hstarted : st.messageStartEmitted = true
  · rw [if_pos hstarted, if_pos (Or.inl hstarted)]
    rfl
  · have husage := hfresh (Bool.eq_false_iff.2 hstarted)
    rw [if_neg hstarted, Emission.emit_events, Emission.withState_events, List.nil_append,
      lastly_cons, lastly_nil, Option.none_or, sets_messageStart _ n hn]
    by_cases houtput : n = .completion
    · rw [if_pos houtput, if_pos (Or.inr houtput)]
    · rw [if_neg houtput, if_neg (not_or.2 ⟨hstarted, houtput⟩)]
      refine congrArg some (toldCount_anthropic_congr ?_ ?_ houtput)
      · cases chunk.usage with
        | none => exact congrArg IrUsage.promptTokens husage
        | some u => rfl
      · cases chunk.usage with
        | none => exact congrArg IrUsage.cacheReadTokens husage
        | some u => rfl

/-- The events of a chunk before its end set what the start of the message does, and the output of
its usage is taken over. -/
theorem answerBody_spec (chunk : IrChunk) {st : Anthropic.StreamState}
    (hfresh : st.messageStartEmitted = false → st.usage = {}) :
    (∀ n, n ≠ .cacheWrite → lastly (eventSets .anthropic n) (answerBody chunk st).events =
      if st.messageStartEmitted = true ∨ n = .completion then none
      else some (toldCount .anthropic (chunk.usage.getD {}) n)) ∧
      (answerBody chunk st).st.usage.completionTokens =
        max st.usage.completionTokens ((chunk.usage.map IrUsage.completionTokens).getD 0) := by
  have hcontent := ((idle_textStage chunk.delta.content
    (Anthropic.startMessage chunk { st := st })).trans
    (idle_thinkingStage chunk.delta.reasoningContent _)).trans
      (idle_toolCalls chunk.delta.toolCalls _)
  have houtput : (Anthropic.startMessage chunk { st := st }).st.usage.completionTokens =
      st.usage.completionTokens := by
    unfold Anthropic.startMessage
    split
    · rfl
    · cases chunk.usage <;> rfl
  unfold answerBody updateUsage
  dsimp only
  cases husage : chunk.usage with
  | none =>
    refine ⟨fun n hn ↦ ?_, ?_⟩
    · rw [hcontent.sets, sets_startMessage chunk hn hfresh, husage]
    · rw [hcontent.usage, houtput]
      exact (Nat.max_zero _).symm
  | some u =>
    refine ⟨fun n hn ↦ ?_, ?_⟩
    · rw [Emission.withState_events, hcontent.sets, sets_startMessage chunk hn hfresh, husage]
    · rw [Emission.withState_st]
      show max _ u.completionTokens = _
      rw [hcontent.usage, houtput]
      rfl

/-- What the events of the chunks so far have set, and the state after them. -/
structure Spread (past : List IrChunk) (st : Anthropic.StreamState) (events : List Value) : Prop
    where
  started : st.messageStartEmitted = !past.isEmpty
  fresh : past = [] → st.usage = {}
  emitted : st.messageDeltaEmitted = (outputLog past).sent.isSome
  pending : (outputLog past).sent = none → st.pendingFinish.isSome = (outputLog past).finished
  output : st.usage.completionTokens = (outputLog past).largest
  start : ∀ n, n ≠ .completion → n ≠ .cacheWrite → lastly (eventSets .anthropic n) events =
    past.head?.map fun chunk ↦ toldCount .anthropic (chunk.usage.getD {}) n
  delta : lastly (eventSets .anthropic .completion) events =
    (outputLog past).sent.map fun k ↦ token (.ofNat k)

theorem spread_nil : Spread [] {} [] :=
  ⟨rfl, fun _ ↦ rfl, rfl, fun _ ↦ rfl, rfl, fun _ _ _ ↦ rfl, rfl⟩

theorem outputLog_concat (past : List IrChunk) (chunk : IrChunk) :
    outputLog (past ++ [chunk]) = (outputLog past).step chunk := by
  rw [outputLog, List.foldl_append, List.foldl_cons, List.foldl_nil, outputLog]

/-- One more chunk. -/
theorem Spread.step {past : List IrChunk} {st : Anthropic.StreamState} {events : List Value}
    (h : Spread past st events) (chunk : IrChunk) :
    Spread (past ++ [chunk]) (Anthropic.chunkFromIr chunk st).st
      (events ++ (Anthropic.chunkFromIr chunk st).events) := by
  have hfresh (hnot : st.messageStartEmitted = false) : past = [] := by
    rw [h.started, Bool.not_eq_false', List.isEmpty_iff] at hnot
    exact hnot
  obtain ⟨hsets, houtput⟩ := answerBody_spec chunk fun hnot ↦ h.fresh (hfresh hnot)
  rw [h.output] at houtput
  have hbody := unmarked_answerBody chunk st
  -- what the end of the chunk adds to the events before it
  obtain ⟨husage, hemitted, hpending, hadds⟩ :
      (Anthropic.chunkFromIr chunk st).st.usage = (answerBody chunk st).st.usage ∧
        (Anthropic.chunkFromIr chunk st).st.messageDeltaEmitted =
          ((outputLog past).step chunk).sent.isSome ∧
        (((outputLog past).step chunk).sent = none →
          (Anthropic.chunkFromIr chunk st).st.pendingFinish.isSome =
            ((outputLog past).step chunk).finished) ∧
        ∀ n, lastly (eventSets .anthropic n) (Anthropic.chunkFromIr chunk st).events =
          (if n = .completion ∧ (outputLog past).due chunk = true then
            some (token (.ofNat ((outputLog past).step chunk).largest)) else none).or
            (lastly (eventSets .anthropic n) (answerBody chunk st).events) := by
    rcases finishStage_cases (hbody.emitted.trans h.emitted)
      (fun hsent ↦ (congrArg Option.isSome hbody.pendingFinish).trans (h.pending hsent))
      (chunkFromIr_anthropic chunk st).symm with ⟨hdue, hsends⟩ | ⟨hdue, hpasses, hsame, hwaits⟩
    · refine ⟨hsends.usage, ?_, fun hnone ↦ ?_, fun n ↦ ?_⟩
      · rw [hsends.emitted, OutputLog.step, if_pos hdue]
        rfl
      · rw [OutputLog.step, if_pos hdue] at hnone
        exact absurd hnone (Option.some_ne_none _)
      · rw [hsends.sets, houtput]
        simp only [hdue, and_true]
        rfl
    · have hkept : ((outputLog past).step chunk).sent = (outputLog past).sent := by
        rw [OutputLog.step, hdue]
        rfl
      refine ⟨hpasses.usage, ?_, fun hnone ↦ ?_, fun n ↦ ?_⟩
      · rw [hsame, hkept]
      · exact hwaits (hkept.symm.trans hnone)
      · rw [hpasses.sets, if_neg fun hboth ↦ Bool.false_ne_true (hdue.symm.trans hboth.2),
          Option.none_or]
  have hne : past ++ [chunk] ≠ [] := List.append_ne_nil_of_right_ne_nil _ (List.cons_ne_nil _ _)
  refine ⟨?_, fun hnil ↦ absurd hnil hne, ?_, ?_, ?_, fun n hn hn' ↦ ?_, ?_⟩
  · rw [started_chunkFromIr, List.isEmpty_eq_false_iff.2 hne]
    rfl
  · rw [outputLog_concat, hemitted]
  · rw [outputLog_concat]
    exact hpending
  · rw [outputLog_concat, husage, houtput]
    rfl
  · rw [lastly_append, hadds, if_neg fun hboth ↦ hn hboth.1, Option.none_or, hsets n hn',
      h.start n hn hn', h.started]
    cases past with
    | nil =>
      have hfirst : ¬ ((!([] : List IrChunk).isEmpty) = true ∨ n = .completion) :=
        not_or.2 ⟨Bool.false_ne_true, hn⟩
      rw [if_neg hfirst]
      rfl
    | cons first rest =>
      have hlater : (!(first :: rest).isEmpty) = true ∨ n = .completion := Or.inl rfl
      rw [if_pos hlater]
      rfl
  · rw [lastly_append, hadds, hsets .completion (by decide), if_pos (Or.inr rfl), Option.or_none,
      h.delta, outputLog_concat]
    cases hdue : (outputLog past).due chunk with
    | true =>
      rw [if_pos ⟨rfl, rfl⟩, Option.some_or, OutputLog.step, if_pos hdue]
      rfl
    | false =>
      rw [if_neg fun hboth ↦ Bool.false_ne_true hboth.2, Option.none_or, OutputLog.step, hdue]
      rfl

theorem spread_run (chunks : List IrChunk) :
    Spread chunks (Stream.run Anthropic.encodeStep {} chunks).1
      (Stream.run Anthropic.encodeStep {} chunks).2 := by
  induction chunks using List.reverseRecOn with
  | nil => exact spread_nil
  | append_singleton past chunk ih =>
    rw [Stream.run_append, Stream.run_cons, Stream.run_nil, List.append_nil]
    exact ih.step chunk

/-- The `message_delta` that is still due at the end. -/
theorem sends_endDelta {e : Emission Anthropic.StreamState}
    (hstarted : e.st.messageStartEmitted = true) (hemitted : e.st.messageDeltaEmitted = false) :
    Sends e (endDelta e) := by
  have hforget : Idle e (e.withState { e.st with pendingFinish := none }) := ⟨fun _ ↦ rfl, rfl⟩
  have hdue : (e.st.messageStartEmitted && !e.st.messageDeltaEmitted) = true := by
    rw [hstarted, hemitted]
    rfl
  unfold endDelta
  rw [if_pos hdue]
  dsimp only
  split
  · split
    · exact hforget.sends (sends_messageDeltaEnd _)
    · exact hforget.sends (sends_messageDelta _ _)
  · exact hforget.sends (sends_messageDeltaEnd _)

theorem endDelta_of_emitted {e : Emission Anthropic.StreamState}
    (hemitted : e.st.messageDeltaEmitted = true) : endDelta e = e := by
  rw [endDelta, hemitted, Bool.not_true, Bool.and_false]
  rfl

/-- The end of a stream sends the `message_delta` that was not sent before. -/
theorem sets_streamEnd {st : Anthropic.StreamState} (hstarted : st.messageStartEmitted = true)
    (n : Count) :
    lastly (eventSets .anthropic n) (Anthropic.streamEnd st).events =
      if st.messageDeltaEmitted = false ∧ n = .completion then
        some (token (.ofNat st.usage.completionTokens))
      else none := by
  have hclose := idle_closeOpenBlock { st := st }
  have hflags := unmarked_closeOpenBlock { st := st }
  have hstop (e : Emission Anthropic.StreamState) :
      lastly (eventSets .anthropic n)
          (if e.st.messageStartEmitted && !e.st.messageStopEmitted then
            (e.withState { e.st with messageStopEmitted := true }).emit Anthropic.messageStopEvent
          else e).events = lastly (eventSets .anthropic n) e.events := by
    split
    · exact (Idle.emit
        (fun n ↦ sets_of_type "message_stop" rfl (by decide) (by decide) n) rfl).sets n
    · rfl
  unfold Anthropic.streamEnd
  dsimp only
  rw [hstop]
  cases hemitted : st.messageDeltaEmitted with
  | true =>
    rw [endDelta_of_emitted (hflags.emitted.trans hemitted),
      if_neg fun hboth ↦ Bool.false_ne_true hboth.1.symm]
    exact hclose.sets n
  | false =>
    have hsends := sends_endDelta (hflags.started hstarted) (hflags.emitted.trans hemitted)
    rw [(hclose.sends hsends).sets n]
    simp only [true_and]
    exact Option.or_none

variable [SerdeJson] [Responses.RandSuffix] [Gemini.HashOrder]

/-- The counts that the events of a stream set. -/
theorem sets_anthropic {chunks : List IrChunk} (hne : chunks ≠ []) {n : Count}
    (hn : n ≠ .cacheWrite) :
    lastly (eventSets .anthropic n) (streamEvents .anthropic chunks false) =
      some (toldCount .anthropic (spreadUsage chunks) n) := by
  have hspread := spread_run chunks
  have hevents : streamEvents .anthropic chunks false =
      (Stream.run Anthropic.encodeStep {} chunks).2 ++
        (Anthropic.streamEnd (Stream.run Anthropic.encodeStep {} chunks).1).events := rfl
  have hstarted : (Stream.run Anthropic.encodeStep {} chunks).1.messageStartEmitted = true := by
    rw [hspread.started, List.isEmpty_eq_false_iff.2 hne]
    rfl
  rw [hevents, lastly_append, sets_streamEnd hstarted]
  by_cases houtput : n = .completion
  · subst houtput
    have htold : toldOutput .anthropic (spreadUsage chunks) =
        token (.ofNat (spreadUsage chunks).completionTokens) := rfl
    have hcount : (spreadUsage chunks).completionTokens =
        (outputLog chunks).sent.getD (outputLog chunks).largest := rfl
    rw [toldCount_completion, htold, hcount, hspread.delta, hspread.emitted, hspread.output]
    cases (outputLog chunks).sent with
    | none => rw [if_pos ⟨rfl, rfl⟩, Option.some_or, Option.getD_none]
    | some k =>
      rw [if_neg fun hboth ↦ Bool.false_ne_true hboth.1.symm, Option.none_or, Option.map_some,
        Option.getD_some]
  · rw [if_neg fun hboth ↦ houtput hboth.2, Option.none_or, hspread.start n houtput hn]
    obtain ⟨first, rest, rfl⟩ := List.exists_cons_of_ne_nil hne
    have hprompt : (first.usage.getD {}).promptTokens =
        (spreadUsage (first :: rest)).promptTokens := rfl
    have hcached : (first.usage.getD {}).cacheReadTokens =
        (spreadUsage (first :: rest)).cacheReadTokens := rfl
    rw [List.head?_cons, Option.map_some, toldCount_anthropic_congr hprompt hcached houtput]

end Spread

/-! ### The bill -/

/-- The vendor's members are read as the counts of `u`. -/
def VendorSays (p : Protocol) (extra : Map) (u : IrUsage) : Prop :=
  ∀ n, n ≠ .cacheWrite → charged ((extractJsonUsage p (.obj extra)).count n) = irCount u n

/-- What the bill finds in the stream has the counts of `u`. -/
def FoundAs (p : Protocol) (chunks : List IrChunk) (u : IrUsage) : Prop :=
  match p with
  | .openaiResponses =>
    match terminalUsage chunks with
    | some w => Carries .openaiResponses w u
    | none => ∀ n, n ≠ .cacheWrite → irCount u n = 0
  | .anthropic => Carries .anthropic (spreadUsage chunks) u
  | p =>
    ∀ chunk ∈ lastTeller p chunks,
      match chunk.usage with
      | some w => Carries p w u
      | none => VendorSays p chunk.extra u

section Bill

theorem isSome_chunkSets {p : Protocol} (hp : p ≠ .anthropic) (n : Count) (chunk : IrChunk) :
    (chunkSets p n chunk).isSome = (chunkSets p .prompt chunk).isSome := by
  rw [chunkSets, chunkSets]
  cases chunk.usage with
  | some w => rfl
  | none => exact isSome_eventSets hp n _

/-- The last chunk that sets counts sets them all. -/
theorem lastly_chunkSets {p : Protocol} (hp : p ≠ .anthropic) {chunks : List IrChunk} {u : IrUsage}
    (hu : lastly IrChunk.usage chunks = some u) :
    ∃ chunk, lastTeller p chunks = some chunk ∧ ∀ n, (chunkSets p n chunk).isSome = true ∧
      lastly (chunkSets p n) chunks = chunkSets p n chunk := by
  obtain ⟨teller, hteller, husage⟩ := exists_of_lastly_eq_some IrChunk.usage hu
  have htells : (chunkSets p .prompt teller).isSome = true := by
    rw [chunkSets, husage]
    rfl
  have hmem : teller ∈ chunks.filter fun c ↦ (chunkSets p .prompt c).isSome :=
    List.mem_filter.2 ⟨hteller, htells⟩
  rcases List.eq_nil_or_concat' (chunks.filter fun c ↦ (chunkSets p .prompt c).isSome) with
    hnil | ⟨front, chunk, hconcat⟩
  · rw [hnil] at hmem
    cases hmem
  · have hchunk : (chunkSets p .prompt chunk).isSome = true := by
      have hlast : chunk ∈ chunks.filter fun c ↦ (chunkSets p .prompt c).isSome := by
        rw [hconcat]
        exact List.mem_append_right _ (List.mem_singleton_self chunk)
      exact (List.mem_filter.1 hlast).2
    refine ⟨chunk, by rw [lastTeller, hconcat, List.getLast?_concat], fun n ↦ ?_⟩
    have hsome : (chunkSets p n chunk).isSome = true := (isSome_chunkSets hp n chunk).trans hchunk
    refine ⟨hsome, ?_⟩
    have hskip (c : IrChunk) (hc : (chunkSets p .prompt c).isSome = false) :
        chunkSets p n c = none := by
      rw [← isSome_chunkSets hp n, Option.isSome_eq_false_iff] at hc
      exact Option.isNone_iff_eq_none.1 hc
    rw [← lastly_filter _ hskip, hconcat, lastly_append, lastly_cons, lastly_nil, Option.none_or,
      Option.or_of_isSome hsome]

theorem eventSets_eq_some {p : Protocol} (hp : p = .openaiChat ∨ p = .gemini) {n : Count}
    {v : Value} (h : (eventSets p n v).isSome = true) :
    eventSets p n v = some ((extractJsonUsage p v).count n) := by
  rcases hp with rfl | rfl
  · rw [eventSets] at h ⊢
    split at h
    · next htold => exact if_pos htold
    · cases h
  · rw [eventSets] at h ⊢
    split at h
    · next htold => exact if_pos htold
    · cases h

/-- What a chunk that sets counts sets them to. -/
theorem foundAs_standalone {p : Protocol} (hp : p = .openaiChat ∨ p = .gemini)
    {chunks : List IrChunk} {u : IrUsage} (hu : lastly IrChunk.usage chunks = some u) :
    (∀ n, n ≠ .cacheWrite →
      charged ((lastly (chunkSets p n) chunks).getD none) = irCount u n) ↔
      ∀ chunk ∈ lastTeller p chunks,
        match chunk.usage with
        | some w => Carries p w u
        | none => VendorSays p chunk.extra u := by
  have hne : p ≠ .anthropic := by
    rcases hp with rfl | rfl <;> decide
  obtain ⟨chunk, hlast, hsets⟩ := lastly_chunkSets hne hu
  rw [hlast]
  simp only [(hsets _).2, Option.mem_some_iff, forall_eq']
  cases husage : chunk.usage with
  | some w =>
    simp only [chunkSets, husage, Option.getD_some]
    rfl
  | none =>
    have hvendor (n : Count) : (chunkSets p n chunk).getD none =
        (extractJsonUsage p (.obj chunk.extra)).count n := by
      have hsome := (hsets n).1
      simp only [chunkSets, husage] at hsome ⊢
      rw [eventSets_eq_some hp hsome, Option.getD_some]
    simp only [hvendor]
    rfl

/-- What the terminal event sets. -/
theorem foundAs_terminal (chunks : List IrChunk) (u : IrUsage) :
    (∀ n, n ≠ .cacheWrite →
      charged ((terminalSets n (Responses.lastFinish (Responses.headOf chunks))
        (lastly IrChunk.usage (Responses.headOf chunks))).getD none) = irCount u n) ↔
      FoundAs .openaiResponses chunks u := by
  have hnone (n : Count) : charged none = irCount u n ↔ irCount u n = 0 := by
    rw [charged, eq_comm]
    exact Int.natCast_eq_zero
  unfold FoundAs terminalUsage terminalSets
  split
  · simp only [Option.getD_none, hnone]
  · simp only [Option.getD_some]
    cases lastly IrChunk.usage (Responses.headOf chunks) with
    | none => simp only [Option.bind_none, hnone]
    | some w =>
      simp only [Option.bind_some]
      rfl

variable [SerdeJson] [Responses.RandSuffix] [Gemini.HashOrder]

/-- A converted stream is billed with the counts of the last usage that the upstream reported just
when the bill finds these counts in what is sent: Chat and Gemini in the last chunk with a usage,
or with a vendor's member of that name; Responses in the terminal event, if the response was
completed; and Anthropic in the first chunk and at the last `message_delta`. -/
theorem billedAs_iff [LawfulSerdeJson] (hdone : ∃ e, SerdeJson.ofText Chat.doneMarker = .error e)
    (p : Protocol) {chunks : List IrChunk}
    (hsorted : ∀ chunk ∈ chunks, ∀ w, chunk.usage = some w → Map.Sorted w.extra)
    (hsent : ∀ v ∈ streamEvents p chunks false, Sendable v) {u : IrUsage}
    (hu : lastly IrChunk.usage chunks = some u) : BilledAs p chunks u ↔ FoundAs p chunks u := by
  unfold BilledAs
  simp only [count_sentText hdone hsent]
  cases p with
  | openaiChat =>
    refine Iff.trans ?_ (foundAs_standalone (Or.inl rfl) hu)
    refine forall_congr' fun n ↦ forall_congr' fun hn ↦ ?_
    rw [sets_standalone (Or.inl rfl) chunks hn]
  | gemini =>
    refine Iff.trans ?_ (foundAs_standalone (Or.inr rfl) hu)
    refine forall_congr' fun n ↦ forall_congr' fun hn ↦ ?_
    rw [sets_standalone (Or.inr rfl) chunks hn]
  | anthropic =>
    have hne : chunks ≠ [] := by
      rintro rfl
      cases hu
    refine forall_congr' fun n ↦ forall_congr' fun hn ↦ ?_
    rw [sets_anthropic hne hn, Option.getD_some]
  | openaiResponses =>
    have hevents : streamEvents .openaiResponses chunks false =
        Responses.eventsAfter {} chunks false := rfl
    have hstart : Collected [] {} := ⟨rfl, rfl, rfl⟩
    have hsets {n : Count} (hn : n ≠ .cacheWrite) :=
      sets_eventsAfter hstart chunks (by simpa using hsorted) hn
    refine Iff.trans ?_ (foundAs_terminal chunks u)
    refine forall_congr' fun n ↦ forall_congr' fun hn ↦ ?_
    rw [hevents, hsets hn]
    rfl

end Bill

/-! ### Two streams of Anthropic -/

section Streams

local instance billCodec : SerdeJson := Compact.codec

local instance billCodec_lawful : LawfulSerdeJson := Compact.codec_lawful

local instance billSuffix : Responses.RandSuffix := plainSuffix

local instance billOrder : Gemini.HashOrder := keptOrder

/-- Ten input and five output tokens. -/
def billedUsage : IrUsage := { promptTokens := 10, completionTokens := 5 }

/-- Text, and then the end with this usage. -/
def billedChunks (first : Option IrUsage) : List IrChunk :=
  [{ choices := [{ delta := { content := some "Hi" } }], usage := first },
    { choices := [{ finishReason := some "stop" }], usage := some billedUsage }]

theorem token_ten : token (.ofNat 10) = some 10 := token_ofNat (by decide)

/-- The input is billed if the first chunk has it. -/
theorem billedAs_of_first :
    BilledAs .anthropic (billedChunks (some { promptTokens := 10 })) billedUsage := by
  refine (billedAs_iff ⟨_, rfl⟩ .anthropic ?_ (by decide +kernel) rfl).2 ?_
  · simp only [billedChunks, List.forall_mem_cons, Option.some.injEq, forall_eq']
    exact ⟨Map.sorted_nil, Map.sorted_nil, fun _ h ↦ absurd h List.not_mem_nil⟩
  · intro n hn
    cases n with
    | prompt =>
      rw [toldCount_start rfl]
      have hinput : writtenInput .anthropic (spreadUsage (billedChunks (some
        { promptTokens := 10 }))) = .ofNat 10 := rfl
      rw [hinput, token_ten]
      rfl
    | completion =>
      have houtput : toldOutput .anthropic (spreadUsage (billedChunks (some
        { promptTokens := 10 }))) = token (.ofNat 5) := by decide
      rw [toldCount_completion, houtput, token_ofNat (by decide)]
      rfl
    | cacheRead => rfl
    | cacheWrite => exact absurd rfl hn

/-- The input that is reported with the end only is not billed. -/
theorem not_billedAs_of_last :
    lastly IrChunk.usage (billedChunks none) = some billedUsage ∧
      ¬ BilledAs .anthropic (billedChunks none) billedUsage := by
  refine ⟨rfl, fun h ↦ ?_⟩
  have hprompt := h .prompt (by decide)
  have hinput : writtenInput .anthropic (spreadUsage (billedChunks none)) = .ofNat 0 := rfl
  rw [count_sentText ⟨_, rfl⟩ (by decide +kernel), sets_anthropic (by decide) (by decide),
    Option.getD_some, toldCount_start rfl, hinput, token_ofNat (by decide)] at hprompt
  revert hprompt
  decide

end Streams

end NextApi.Upstream
