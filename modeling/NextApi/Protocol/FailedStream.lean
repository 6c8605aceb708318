import NextApi.Protocol.ConvertStream
import NextApi.Protocol.PartsInOrder

/-!
# Streams of the first choice, and streams that fail

The readers take the choice that stands first in an event, whatever its index is, and the encoders
send it as the first choice. So the client is told what the first choice told, no more and no less,
exactly when in every event the choice that stands first tells what the first choice does
(`firstChoice_iff`).

A stream fails when an error comes in place of the rest of the answer, or when it breaks off
(`FailedStream`). The readers of Anthropic and Responses give an error the finish reason `failed`.
The readers of Chat and Gemini look at the finish reason only, so that a stream with an error object
ends like one that is complete.

A client of Chat or Gemini is never told of a success. A client of Anthropic or Responses is told of
one exactly when the failure does not reach it (`endsInFailure_iff`).
-/

set_option autoImplicit false

namespace NextApi

open Json Ir

section Streams

variable [SerdeJson] [Responses.RandSuffix] [Gemini.HashOrder]

/-- At every point of a stream the client was told the text and the thoughts of the first choice,
exactly when the reader takes from every frame what the first choice tells in it. -/
theorem firstChoice_iff {p q : Protocol} (hpq : p ≠ q) (gatewayModel : String)
    {datas : List String} (h : ∀ data ∈ datas, WellFormedFrame p data) :
    (∀ before, before <+: datas → ∀ broken,
      told q (sseConvertStream p q gatewayModel before broken) =
        Told.join (before.map (toldInFrame p))) ↔
      ∀ data ∈ datas, toldFirstInFrame p data = toldInFrame p data := by
  rw [← Told.join_prefixes_iff]
  have htold (before : List String) (hbefore : before <+: datas) (broken : Bool) :=
    told_sseConvertStream hpq gatewayModel (fun data hdata ↦ h data (hbefore.subset hdata)) broken
  constructor
  · intro hall before hbefore
    rw [← htold before hbefore false]
    exact hall before hbefore false
  · intro hall before hbefore broken
    rw [htold before hbefore broken]
    exact hall before hbefore

end Streams

section Concrete

local instance choicesCodec : SerdeJson := Compact.codec

local instance choicesSuffix : Responses.RandSuffix := plainSuffix

local instance choicesOrder : Gemini.HashOrder := keptOrder

/-- A frame with a delta of one choice. -/
def choiceFrame (index : ℤ) (text : String) : String :=
  SerdeJson.toText (.object [("choices", .arr [.object
    [("index", .int index), ("delta", .object [("content", .str text)])]])])

/-- A frame with one candidate. -/
def candidateFrame (parts : List Value) : String :=
  SerdeJson.toText (geminiAnswer parts)

/-- One choice, in two frames, then the end. -/
theorem firstChoice_single :
    told .anthropic (sseConvertStream .openaiChat .anthropic "m"
        [choiceFrame 0 "a", choiceFrame 0 "b", "[DONE]"] false) =
      Told.join ([choiceFrame 0 "a", choiceFrame 0 "b", "[DONE]"].map
        (toldInFrame .openaiChat)) := by
  have hobjects : ∀ data ∈ [choiceFrame 0 "a", choiceFrame 0 "b", "[DONE]"],
      (documentOf .openaiChat data).all fun v ↦ (choicesOf v).all Value.isObject := by
    decide +kernel
  refine (firstChoice_iff (by decide) "m" fun data hdata _ v hv ↦ ?_).2 (by decide +kernel)
    _ (List.prefix_refl _) false
  have hall := hobjects data hdata
  rw [hv] at hall
  exact hall

/-- The text of the second choice is sent as that of the first; of two thoughts the last is sent. -/
theorem not_firstChoice_mixed :
    (told .anthropic (sseConvertStream .openaiChat .anthropic "m"
        [choiceFrame 0 "yes", choiceFrame 1 "no"] false) = ⟨"yesno", ""⟩ ∧
      Told.join ([choiceFrame 0 "yes", choiceFrame 1 "no"].map (toldInFrame .openaiChat)) =
        ⟨"yes", ""⟩) ∧
    told .openaiChat (sseConvertStream .gemini .openaiChat "m"
        [candidateFrame [geminiThought "one", geminiThought "two"]] false) = ⟨"", "two"⟩ ∧
      Told.join ([candidateFrame [geminiThought "one", geminiThought "two"]].map
        (toldInFrame .gemini)) = ⟨"", "onetwo"⟩ := by
  refine ⟨⟨?_, ?_⟩, ?_, ?_⟩ <;> decide +kernel

end Concrete

/-! ### Encoders before the end -/

/-- An encoder that has not been told of the end. That of Responses knows whether there was a
usage. -/
def Waiting : (q : Protocol) → Bool → StreamStateOf q → Prop
  | .openaiResponses, usage, st =>
    Responses.StreamState.completed st = false ∧ Responses.StreamState.pendingFinish st = none ∧
      (Responses.StreamState.lastUsage st).isSome = usage
  | .anthropic, _, st =>
    Anthropic.StreamState.pendingFinish st = none ∧
      Anthropic.StreamState.messageDeltaEmitted st = false
  | _, _, _ => True

/-- Nothing in the stream says that the response succeeded, and a Responses stream ends with
`response.failed`. -/
structure EndsInFailure (q : Protocol) (events : List Value) : Prop where
  silent : ∀ event ∈ events, ¬ Succeeds q event
  last : q = .openaiResponses → ∃ event, events.getLast? = some event ∧
    event["type"].strOrEmpty = "response.failed"

/-- The failure reaches a client: the finish reason of the error is `failed`, or there is none that
was sent before the stream broke off. -/
def FailureReaches (q : Protocol) (reason : Option String) (usageInError usageSeen broken : Bool) :
    Prop :=
  match q with
  | .openaiChat => True
  | .openaiResponses =>
    reason = some "failed" ∨ (broken = true ∧ (reason = none ∨ usageSeen = false))
  | .anthropic =>
    reason = none ∨ reason = some "failed" ∨ (broken = true ∧ usageInError = false)
  | .gemini => True

/-- Events without a success come before. -/
theorem endsInFailure_append {q : Protocol} {events rest : List Value}
    (h : ∀ event ∈ events, ¬ Succeeds q event) (hrest : q = .openaiResponses → rest ≠ []) :
    EndsInFailure q (events ++ rest) ↔ EndsInFailure q rest := by
  have hlast (hq : q = .openaiResponses) : (events ++ rest).getLast? = rest.getLast? := by
    obtain ⟨event, hevent⟩ := Option.ne_none_iff_exists'.1
      (mt List.getLast?_eq_none_iff.1 (hrest hq))
    rw [List.getLast?_append, hevent, Option.some_or]
  constructor
  · intro hall
    refine ⟨fun event hevent ↦ hall.silent event (List.mem_append_right _ hevent), fun hq ↦ ?_⟩
    rw [← hlast hq]
    exact hall.last hq
  · intro hend
    refine ⟨fun event hevent ↦ ?_, fun hq ↦ ?_⟩
    · exact (List.mem_append.1 hevent).elim (h event) (hend.silent event)
    · rw [hlast hq]
      exact hend.last hq

/-! ### The Anthropic encoder -/

section AnthropicEncoder

open Anthropic (StopFree)

variable {chunk : IrChunk} {st : Anthropic.StreamState}

theorem Tells.all_events {σ : Type} {p : Protocol} {P : Value → Prop} {t : Told} {st : σ}
    {e : Emission σ} (h : Tells p P t { st := st } e) : ∀ event ∈ e.events, P event := by
  obtain ⟨new, hevents, hall, -⟩ := h
  rw [hevents]
  exact hall

theorem forall_mem_emit {σ : Type} {P : Value → Prop} {e : Emission σ} {event : Value}
    (h : ∀ x ∈ e.events, P x) (hevent : P event) : ∀ x ∈ (e.emit event).events, P x := by
  rw [Emission.emit_events]
  exact List.forall_mem_append.2 ⟨h, List.forall_mem_singleton.2 hevent⟩

theorem stopFree_answerBody (chunk : IrChunk) (st : Anthropic.StreamState) :
    ∀ event ∈ (answerBody chunk st).events, StopFree event :=
  (Anthropic.tells_answerBody chunk st).all_events

theorem stopFree_closeOpenBlock {e : Emission Anthropic.StreamState}
    (h : ∀ event ∈ e.events, StopFree event) :
    ∀ event ∈ (Anthropic.closeOpenBlock e).events, StopFree event := by
  obtain ⟨new, hevents, hall, -⟩ := Anthropic.tells_closeOpenBlock e
  rw [hevents]
  exact List.forall_mem_append.2 ⟨h, hall⟩

theorem succeeds_messageDelta (fr : String) (st : Anthropic.StreamState) :
    Succeeds .anthropic (Anthropic.messageDeltaEvent fr st) := Or.inl (fun h ↦ nomatch h)

theorem stopFree_endDelta (st : Anthropic.StreamState) :
    StopFree (Anthropic.messageDeltaEndEvent st) := Anthropic.stopFree_iff.2 ⟨rfl, rfl⟩

/-- The end has no stop reason when one was sent, or there is none but that of a failure. -/
theorem stopFree_streamEnd (h : st.messageDeltaEmitted = true ∨ st.pendingFinish = none ∨
    st.pendingFinish = some "failed") :
    ∀ event ∈ (Anthropic.streamEnd st).events, StopFree event := by
  have hclose := unmarked_closeOpenBlock { st := st }
  have hfree := stopFree_closeOpenBlock (e := { st := st }) fun _ h ↦ (List.not_mem_nil h).elim
  have hdelta : ∀ event ∈ (Anthropic.endDelta (Anthropic.closeOpenBlock { st := st })).events,
      StopFree event := by
    unfold Anthropic.endDelta
    split
    · rename_i hdue
      rw [Bool.and_eq_true, Bool.not_eq_true', hclose.emitted] at hdue
      rw [hclose.pendingFinish]
      rcases h with hemitted | hnone | hfailed
      · exact absurd (hemitted.symm.trans hdue.2) Bool.noConfusion
      · rw [hnone]
        exact forall_mem_emit hfree (stopFree_endDelta _)
      · rw [hfailed]
        exact forall_mem_emit hfree (stopFree_endDelta _)
    · exact hfree
  unfold Anthropic.streamEnd
  dsimp only
  split
  · exact forall_mem_emit hdelta (Anthropic.stopFree_iff.2 ⟨rfl, rfl⟩)
  · exact hdelta

/-- A finish reason that waits is sent at the end. -/
theorem endDelta_pending {e : Emission Anthropic.StreamState} {fr : String} (hfr : fr ≠ "failed")
    (hstarted : e.st.messageStartEmitted = true) (hemitted : e.st.messageDeltaEmitted = false)
    (hpending : e.st.pendingFinish = some fr) :
    ∃ sent, (Anthropic.endDelta e).events = e.events ++ [Anthropic.messageDeltaEvent fr sent] := by
  unfold Anthropic.endDelta
  rw [if_pos]
  · rw [hpending]
    dsimp only
    rw [if_neg hfr]
    exact ⟨_, rfl⟩
  · rw [hstarted, hemitted]
    rfl

theorem succeeds_streamEnd {fr : String} (hfr : fr ≠ "failed")
    (hstarted : st.messageStartEmitted = true) (hemitted : st.messageDeltaEmitted = false)
    (hpending : st.pendingFinish = some fr) :
    ∃ event ∈ (Anthropic.streamEnd st).events, Succeeds .anthropic event := by
  have hclose := unmarked_closeOpenBlock { st := st }
  obtain ⟨sent, hevents⟩ := endDelta_pending hfr (hclose.started hstarted)
    (hclose.emitted.trans hemitted) (hclose.pendingFinish.trans hpending)
  have hmem := List.mem_append_right (Anthropic.closeOpenBlock { st := st }).events
    (List.mem_singleton_self (Anthropic.messageDeltaEvent fr sent))
  rw [← hevents] at hmem
  refine ⟨_, ?_, succeeds_messageDelta fr sent⟩
  unfold Anthropic.streamEnd
  dsimp only
  split
  · exact List.mem_append_left _ hmem
  · exact hmem

/-- A chunk without a finish reason. -/
theorem chunkFromIr_anthropic_silent (hfinish : chunk.finishReason = none)
    (hpending : st.pendingFinish = none) :
    Anthropic.chunkFromIr chunk st = answerBody chunk st := by
  have hbody := unmarked_answerBody chunk st
  rw [chunkFromIr_anthropic, hfinish, Anthropic.finishStage, hbody.pendingFinish, hpending]
  exact ite_self _

/-- A failure has no stop reason, and nothing is due after it. -/
theorem chunkFromIr_anthropic_failed (hfinish : chunk.finishReason = some "failed") :
    (∀ event ∈ (Anthropic.chunkFromIr chunk st).events, StopFree event) ∧
      (Anthropic.chunkFromIr chunk st).st.messageDeltaEmitted = true := by
  rw [chunkFromIr_anthropic, hfinish, Anthropic.finishStage]
  dsimp only
  rw [if_pos rfl]
  exact ⟨forall_mem_emit (stopFree_closeOpenBlock (stopFree_answerBody chunk st))
    (stopFree_endDelta _), rfl⟩

/-- Another finish reason is sent together with the usage. -/
theorem chunkFromIr_anthropic_sent {fr : String} (hfinish : chunk.finishReason = some fr)
    (hfr : fr ≠ "failed") (husage : chunk.usage.isSome = true) :
    ∃ event ∈ (Anthropic.chunkFromIr chunk st).events, Succeeds .anthropic event := by
  rw [chunkFromIr_anthropic, hfinish, Anthropic.finishStage]
  dsimp only
  rw [if_neg hfr, if_pos husage]
  exact ⟨_, List.mem_append_right _ (List.mem_singleton_self _), succeeds_messageDelta fr _⟩

/-- Without a usage it waits. -/
theorem chunkFromIr_anthropic_waits {fr : String} (hfinish : chunk.finishReason = some fr)
    (hfr : fr ≠ "failed") (husage : chunk.usage.isSome = false)
    (hemitted : st.messageDeltaEmitted = false) :
    (∀ event ∈ (Anthropic.chunkFromIr chunk st).events, StopFree event) ∧
      (Anthropic.chunkFromIr chunk st).st.pendingFinish = some fr ∧
      (Anthropic.chunkFromIr chunk st).st.messageDeltaEmitted = false ∧
      (Anthropic.chunkFromIr chunk st).st.messageStartEmitted = true := by
  have hbody := unmarked_answerBody chunk st
  have hclose := unmarked_closeOpenBlock (answerBody chunk st)
  rw [chunkFromIr_anthropic, hfinish, Anthropic.finishStage]
  dsimp only
  rw [if_neg hfr, if_neg (Bool.eq_false_iff.1 husage)]
  exact ⟨stopFree_closeOpenBlock (stopFree_answerBody chunk st), rfl,
    (hclose.emitted.trans hbody.emitted).trans hemitted,
    hclose.started (started_answerBody chunk st)⟩

theorem stopFree_end (h : st.messageDeltaEmitted = true ∨ st.pendingFinish = none)
    (broken : Bool) :
    ∀ event ∈ (Anthropic.streamEnd (if broken then st.markFailed else st)).events,
      StopFree event := by
  refine stopFree_streamEnd ?_
  cases broken with
  | false => exact h.imp_right Or.inl
  | true =>
    rw [if_pos rfl, Anthropic.StreamState.markFailed]
    split
    · rename_i hemitted
      exact Or.inl hemitted
    · exact Or.inr (Or.inr rfl)

/-- What is sent when the stream fails with a chunk. -/
theorem stopFree_failure (hpending : st.pendingFinish = none)
    (hemitted : st.messageDeltaEmitted = false) (broken : Bool) :
    (∀ event ∈ (Anthropic.chunkFromIr chunk st).events ++
        (Anthropic.streamEnd (if broken then (Anthropic.chunkFromIr chunk st).st.markFailed
          else (Anthropic.chunkFromIr chunk st).st)).events, StopFree event) ↔
      chunk.finishReason = none ∨ chunk.finishReason = some "failed" ∨
        (broken = true ∧ chunk.usage.isSome = false) := by
  rw [List.forall_mem_append]
  cases hfinish : chunk.finishReason with
  | none =>
    refine iff_of_true ?_ (Or.inl rfl)
    rw [chunkFromIr_anthropic_silent hfinish hpending]
    exact ⟨stopFree_answerBody chunk st, stopFree_end (Or.inr
      ((unmarked_answerBody chunk st).pendingFinish.trans hpending)) broken⟩
  | some fr =>
    by_cases hfailed : fr = "failed"
    · subst hfailed
      obtain ⟨hfree, hsent⟩ := chunkFromIr_anthropic_failed hfinish
      exact iff_of_true ⟨hfree, stopFree_end (Or.inl hsent) broken⟩ (Or.inr (Or.inl rfl))
    · rw [or_iff_right (Option.some_ne_none fr), or_iff_right fun h ↦ hfailed (Option.some.inj h)]
      cases husage : chunk.usage.isSome with
      | true =>
        refine iff_of_false (fun h ↦ ?_) fun h ↦ Bool.noConfusion h.2
        obtain ⟨event, hevent, hsucceeds⟩ := chunkFromIr_anthropic_sent hfinish hfailed
          husage
        exact h.1 event hevent hsucceeds
      | false =>
        obtain ⟨hfree, hwaits, hsilent, hstarted⟩ := chunkFromIr_anthropic_waits hfinish hfailed
          husage hemitted
        rw [and_iff_right hfree, and_iff_left rfl]
        cases broken with
        | true =>
          refine iff_of_true (stopFree_streamEnd (Or.inr (Or.inr ?_))) rfl
          rw [if_pos rfl, Anthropic.StreamState.markFailed,
            if_neg (Bool.eq_false_iff.1 hsilent)]
        | false =>
          refine iff_of_false (fun h ↦ ?_) Bool.false_ne_true
          obtain ⟨event, hevent, hsucceeds⟩ := succeeds_streamEnd hfailed hstarted hsilent hwaits
          exact h event hevent hsucceeds

end AnthropicEncoder

/-! ### The Responses encoder -/

section ResponsesEncoder

open Responses (Unfinished Due chunkBody)

/-- The terminal event says that the response failed, or that it succeeded. -/
theorem terminal_event (finishReason : Option String) (e : Emission Responses.StreamState) :
    ∃ event, (Responses.sendTerminal finishReason e).events = e.events ++ [event] ∧
      if finishReason = some "failed" then event["type"].strOrEmpty = "response.failed"
      else Succeeds .openaiResponses event := by
  have hevents : (Responses.sendTerminal finishReason e).events = e.events ++
      [Responses.responseEvent (Responses.terminalOf finishReason).2
        (Responses.buildFinalResponse e.st (Responses.terminalOf finishReason).1).1] := rfl
  refine ⟨_, hevents, ?_⟩
  generalize (Responses.buildFinalResponse e.st (Responses.terminalOf finishReason).1).1 = response
  by_cases hfailed : finishReason = some "failed"
  · subst hfailed
    rfl
  · rw [if_neg hfailed]
    unfold Responses.terminalOf
    split
    · exact absurd rfl hfailed
    · exact Or.inr rfl
    · exact Or.inl rfl

/-- A terminal event after others. -/
theorem endsInFailure_terminal {e : Emission Responses.StreamState}
    (h : ∀ event ∈ e.events, Unfinished event) (finishReason : Option String) :
    EndsInFailure .openaiResponses (Responses.sendTerminal finishReason e).events ↔
      finishReason = some "failed" := by
  obtain ⟨event, hsent, htype⟩ := terminal_event finishReason e
  rw [hsent, endsInFailure_append h fun _ ↦ List.cons_ne_nil event []]
  by_cases hfailed : finishReason = some "failed"
  · rw [if_pos hfailed] at htype
    refine iff_of_true ⟨List.forall_mem_singleton.2 ?_, fun _ ↦ ⟨event, rfl, htype⟩⟩ hfailed
    exact Responses.unfinished_of_type _ htype (by decide) (by decide)
  · rw [if_neg hfailed] at htype
    refine iff_of_false (fun hends ↦ ?_) hfailed
    exact hends.silent event (List.mem_singleton_self event) htype

/-- The end of a stream that was not completed. -/
theorem endsInFailure_streamEnd {st : Responses.StreamState} (hcompleted : st.completed = false) :
    EndsInFailure .openaiResponses (Responses.streamEnd st).events ↔
      st.pendingFinish = some "failed" := by
  unfold Responses.streamEnd
  rw [if_neg (Bool.eq_false_iff.1 hcompleted)]
  exact endsInFailure_terminal (fun _ h ↦ (List.not_mem_nil h).elim) _

theorem streamEnd_ne_nil {st : Responses.StreamState} (hcompleted : st.completed = false)
    (broken : Bool) :
    (Responses.streamEnd (if broken then st.markFailed else st)).events ≠ [] := by
  rw [Responses.StreamState.markFailed, if_neg (Bool.eq_false_iff.1 hcompleted)]
  have hend (st : Responses.StreamState) (hst : st.completed = false) :
      (Responses.streamEnd st).events ≠ [] := by
    unfold Responses.streamEnd
    rw [if_neg (Bool.eq_false_iff.1 hst)]
    exact List.cons_ne_nil _ _
  split
  · exact hend _ hcompleted
  · exact hend _ hcompleted

/-- Before the terminal event the end fails when the stream broke off. -/
theorem endsInFailure_end {st : Responses.StreamState} (hcompleted : st.completed = false)
    (broken : Bool) :
    EndsInFailure .openaiResponses
        (Responses.streamEnd (if broken then st.markFailed else st)).events ↔
      broken = true ∨ st.pendingFinish = some "failed" := by
  cases broken with
  | false =>
    rw [or_iff_right Bool.false_ne_true]
    exact endsInFailure_streamEnd hcompleted
  | true =>
    refine iff_of_true ?_ (Or.inl rfl)
    have hmarked : ({ st with pendingFinish := some "failed" } : Responses.StreamState).completed =
        false := hcompleted
    rw [if_pos rfl, Responses.StreamState.markFailed, if_neg (Bool.eq_false_iff.1 hcompleted)]
    exact (endsInFailure_streamEnd hmarked).2 rfl

variable [Responses.RandSuffix] {chunk : IrChunk} {st : Responses.StreamState}

/-- A chunk without a finish reason. -/
theorem chunkFromIr_responses_silent (hfinish : chunk.finishReason = none)
    (hpending : st.pendingFinish = none) :
    Responses.chunkFromIr chunk st = chunkBody chunk st := by
  have hbody := Responses.answered_chunkBody chunk st
  have hnone : (chunkBody chunk st).st.pendingFinish = none := by
    rw [hbody.pendingFinish, hfinish, hpending, Option.or_none]
  rw [Responses.chunkFromIr_eq, Responses.finishStage_of_not_due]
  intro hdue
  rw [Due, hnone] at hdue
  exact Bool.false_ne_true hdue.2.1

/-- What is sent when the stream fails with a chunk. -/
theorem endsInFailure_responses (hcompleted : st.completed = false)
    (hpending : st.pendingFinish = none) (broken : Bool) :
    EndsInFailure .openaiResponses ((Responses.chunkFromIr chunk st).events ++
        (Responses.streamEnd (if broken then (Responses.chunkFromIr chunk st).st.markFailed
          else (Responses.chunkFromIr chunk st).st)).events) ↔
      chunk.finishReason = some "failed" ∨ (broken = true ∧
        (chunk.finishReason = none ∨ (chunk.usage.or st.lastUsage).isSome = false)) := by
  have hbody := Responses.answered_chunkBody chunk st
  have hquiet : ∀ event ∈ (chunkBody chunk st).events, Unfinished event := hbody.tells.all_events
  have hopen : (chunkBody chunk st).st.completed = false := hbody.completed.trans hcompleted
  have hfinish : (chunkBody chunk st).st.pendingFinish = chunk.finishReason := by
    rw [hbody.pendingFinish, hpending, Option.or_none]
  rw [Responses.chunkFromIr_eq]
  have hdue : Due (chunkBody chunk st).st ↔ chunk.finishReason.isSome = true ∧
      (chunk.finishReason = some "failed" ∨ (chunk.usage.or st.lastUsage).isSome = true) := by
    rw [Due, hfinish, hbody.lastUsage]
    exact and_iff_right hopen
  by_cases h : Due (chunkBody chunk st).st
  · -- the terminal event is sent with the chunk
    have hend (st : Responses.StreamState) (hdone : st.completed = true) :
        (Responses.streamEnd (if broken then st.markFailed else st)).events = [] := by
      rw [Responses.StreamState.markFailed, if_pos hdone, ite_self, Responses.streamEnd,
        if_pos hdone]
    have hsent : EndsInFailure .openaiResponses (Responses.sendTerminal chunk.finishReason
        ((chunkBody chunk st).withState
          { (chunkBody chunk st).st with completed := true, pendingFinish := none })).events ↔
          chunk.finishReason = some "failed" := endsInFailure_terminal hquiet _
    rw [Responses.finishStage_of_due h, hend _ rfl, List.append_nil, hfinish, hsent]
    refine ⟨Or.inl, fun hreaches ↦ ?_⟩
    obtain ⟨hsome, hfailed | husage⟩ := hdue.1 h
    · exact hfailed
    · refine hreaches.resolve_right ?_
      rintro ⟨-, hwaits⟩
      rcases hwaits with hnone | hunseen
      · rw [hnone] at hsome
        exact Bool.false_ne_true hsome
      · exact Bool.false_ne_true (hunseen.symm.trans husage)
  · -- it is sent at the end
    have hother : chunk.finishReason ≠ some "failed" := by
      intro hfailed
      exact h (hdue.2 ⟨hfailed ▸ rfl, Or.inl hfailed⟩)
    have hwaits : chunk.finishReason = none ∨ (chunk.usage.or st.lastUsage).isSome = false := by
      by_cases hsome : chunk.finishReason.isSome = true
      · refine Or.inr (Bool.eq_false_iff.2 fun husage ↦ h (hdue.2 ⟨hsome, Or.inr husage⟩))
      · exact Or.inl (Option.not_isSome_iff_eq_none.1 hsome)
    rw [Responses.finishStage_of_not_due h, endsInFailure_append hquiet
      fun _ ↦ streamEnd_ne_nil hopen broken, endsInFailure_end hopen, hfinish, or_iff_left hother,
      or_iff_right hother, and_iff_left hwaits]

/-- There are events at the end, or the terminal event came before. -/
theorem responses_ne_nil (hcompleted : st.completed = false) (broken : Bool) :
    (Responses.chunkFromIr chunk st).events ++
      (Responses.streamEnd (if broken then (Responses.chunkFromIr chunk st).st.markFailed
        else (Responses.chunkFromIr chunk st).st)).events ≠ [] := by
  have hopen := (Responses.answered_chunkBody chunk st).completed.trans hcompleted
  rw [Responses.chunkFromIr_eq]
  by_cases h : Due (chunkBody chunk st).st
  · rw [Responses.finishStage_of_due h]
    exact List.append_ne_nil_of_left_ne_nil (List.append_ne_nil_of_right_ne_nil _
      (List.cons_ne_nil _ _)) _
  · rw [Responses.finishStage_of_not_due h]
    exact List.append_ne_nil_of_right_ne_nil _ (streamEnd_ne_nil hopen broken)

end ResponsesEncoder

/-! ### The other encoders -/

/-- The finish reasons of a chunk are no successes, and are normalised. -/
def Fruitless (chunk : IrChunk) : Prop :=
  ∀ fr ∈ chunk.choices.filterMap IrChunkChoice.finishReason,
    fr ∉ successReasons ∧ ∃ raw, fr = normalizeFinishReason raw

theorem finishReason_mem {chunk : IrChunk} {fr : String} (h : chunk.finishReason = some fr) :
    fr ∈ chunk.choices.filterMap IrChunkChoice.finishReason := by
  rw [finishReason_eq, Option.bind_eq_some_iff] at h
  obtain ⟨choice, hchoice, hfr⟩ := h
  exact List.mem_filterMap.2 ⟨choice, List.mem_of_mem_head? hchoice, hfr⟩

theorem not_succeeds_chat {chunk : IrChunk} (h : Fruitless chunk) (st : Chat.StreamState) :
    ∀ event ∈ (Chat.chunkFromIr chunk st).events, ¬ Succeeds .openaiChat event := by
  obtain ⟨event, hevents, hreasons⟩ := choiceReasons_chunkFromIr chunk st
  rw [hevents, List.forall_mem_singleton, Succeeds, hreasons]
  rintro ⟨reason, hreason, hsuccess⟩
  exact (h reason hreason).1 hsuccess

section GeminiEncoder

/-- An event with one candidate succeeds by the finish reason of that. -/
theorem succeeds_candidate {event : Value} {parts : List Value} {finishReason : Option String}
    (h : event.get? "candidates" =
      some (.arr [Gemini.candidateToJson parts 0 finishReason])) :
    Succeeds .gemini event ↔
      ((finishReason.map Gemini.reverseFinishReason).getD "") ∈ ["STOP", "MAX_TOKENS"] := by
  have hcandidates : Gemini.candidatesIn event = [Gemini.candidateToJson parts 0 finishReason] := by
    rw [Gemini.candidatesIn, h]
    rfl
  have hfinish : (Gemini.candidateToJson parts 0 finishReason)["finishReason"].strOrEmpty =
      (finishReason.map Gemini.reverseFinishReason).getD "" := by
    rw [Value.getElem_eq, Gemini.candidateToJson, Value.get?_obj, Map.get?_insertPresent (by simp)]
    cases finishReason <;> rfl
  rw [Succeeds, hcandidates]
  simp only [List.mem_singleton, exists_eq_left]
  rw [hfinish]

variable [SerdeJson] [Gemini.HashOrder]

theorem not_succeeds_gemini {chunk : IrChunk} (h : Fruitless chunk) (st : Gemini.StreamState) :
    ∀ event ∈ (Gemini.chunkFromIr chunk st).events, ¬ Succeeds .gemini event := by
  obtain ⟨-, event, hevents, hcandidates⟩ := Gemini.chunkFromIr_event chunk st
  rw [hevents, List.forall_mem_singleton, succeeds_candidate hcandidates]
  cases hfinish : chunk.finishReason with
  | none => exact (by decide : ("" : String) ∉ ["STOP", "MAX_TOKENS"])
  | some fr =>
    obtain ⟨hfr, raw, rfl⟩ := h fr (finishReason_mem hfinish)
    exact Gemini.reverseFinishReason_failed hfr

theorem not_succeeds_geminiEnd (st : Gemini.StreamState) :
    ∀ event ∈ (Gemini.streamEnd st).events, ¬ Succeeds .gemini event := by
  rw [Gemini.streamEnd]
  dsimp only
  split
  · exact fun _ h ↦ (List.not_mem_nil h).elim
  · rw [List.forall_mem_singleton, succeeds_candidate rfl]
    exact (by decide : ("" : String) ∉ ["STOP", "MAX_TOKENS"])

end GeminiEncoder

/-! ### All encoders -/

section Encoders

variable [SerdeJson] [Responses.RandSuffix] [Gemini.HashOrder] {q : Protocol}

/-- A chunk that says nothing about the end. -/
def Silent (chunk : IrChunk) : Prop := chunk.choices.filterMap IrChunkChoice.finishReason = []

omit [SerdeJson] [Responses.RandSuffix] [Gemini.HashOrder] in
theorem Silent.fruitless {chunk : IrChunk} (h : Silent chunk) : Fruitless chunk := by
  intro fr hfr
  rw [h] at hfr
  exact (List.not_mem_nil hfr).elim

omit [SerdeJson] [Responses.RandSuffix] [Gemini.HashOrder] in
theorem Silent.finishReason {chunk : IrChunk} (h : Silent chunk) : chunk.finishReason = none := by
  refine Option.eq_none_iff_forall_ne_some.2 fun fr hfr ↦ ?_
  have hmem := finishReason_mem hfr
  rw [h] at hmem
  exact List.not_mem_nil hmem

/-- The encoder waits after a chunk that says nothing about the end. -/
theorem waiting_chunkFromIr {chunk : IrChunk} (h : Silent chunk) {usage : Bool}
    {st : StreamStateOf q} (hst : Waiting q usage st) :
    Waiting q (chunk.usage.isSome || usage) (chunkFromIr q chunk st).st ∧
      ∀ event ∈ (chunkFromIr q chunk st).events, ¬ Succeeds q event := by
  cases q with
  | openaiChat => exact ⟨trivial, not_succeeds_chat h.fruitless st⟩
  | openaiResponses =>
    obtain ⟨hcompleted, hpending, husage⟩ := hst
    have hbody := Responses.answered_chunkBody chunk st
    have hsent : Responses.chunkFromIr chunk st = Responses.chunkBody chunk st :=
      chunkFromIr_responses_silent h.finishReason hpending
    refine ⟨?_, ?_⟩
    · show Waiting .openaiResponses _ (Responses.chunkFromIr chunk st).st
      rw [hsent]
      refine ⟨hbody.completed.trans hcompleted, ?_, ?_⟩
      · rw [hbody.pendingFinish, h.finishReason, hpending, Option.or_none]
      · rw [hbody.lastUsage, Option.isSome_or, husage]
    · show ∀ event ∈ (Responses.chunkFromIr chunk st).events, _
      rw [hsent]
      exact hbody.tells.all_events
  | anthropic =>
    obtain ⟨hpending, hemitted⟩ := hst
    have hbody := unmarked_answerBody chunk st
    have hsent : Anthropic.chunkFromIr chunk st = answerBody chunk st :=
      chunkFromIr_anthropic_silent h.finishReason hpending
    refine ⟨?_, ?_⟩
    · show Waiting .anthropic _ (Anthropic.chunkFromIr chunk st).st
      rw [hsent]
      exact ⟨hbody.pendingFinish.trans hpending, hbody.emitted.trans hemitted⟩
    · show ∀ event ∈ (Anthropic.chunkFromIr chunk st).events, _
      rw [hsent]
      exact stopFree_answerBody chunk st
  | gemini => exact ⟨trivial, not_succeeds_gemini h.fruitless st⟩

omit [SerdeJson] [Responses.RandSuffix] [Gemini.HashOrder] in
/-- Only a Responses stream has to end with a failure. -/
theorem endsInFailure_iff_forall (hq : q ≠ .openaiResponses) {events : List Value} :
    EndsInFailure q events ↔ ∀ event ∈ events, ¬ Succeeds q event :=
  ⟨fun h ↦ h.silent, fun h ↦ ⟨h, fun heq ↦ absurd heq hq⟩⟩

/-- What is sent when the stream fails with a chunk. -/
theorem endsInFailure_chunk {chunk : IrChunk} (h : Fruitless chunk) {usage : Bool}
    {st : StreamStateOf q} (hst : Waiting q usage st) (broken : Bool) :
    EndsInFailure q ((chunkFromIr q chunk st).events ++
        streamEnd q (chunkFromIr q chunk st).st broken) ↔
      FailureReaches q chunk.finishReason chunk.usage.isSome (chunk.usage.isSome || usage)
        broken := by
  cases q with
  | openaiChat =>
    refine iff_of_true ((endsInFailure_iff_forall (by decide)).2 ?_) trivial
    exact List.forall_mem_append.2 ⟨not_succeeds_chat h st, fun _ h ↦ (List.not_mem_nil h).elim⟩
  | openaiResponses =>
    obtain ⟨hcompleted, hpending, husage⟩ := hst
    rw [FailureReaches, ← husage, ← Option.isSome_or]
    exact endsInFailure_responses hcompleted hpending broken
  | anthropic =>
    rw [endsInFailure_iff_forall (by decide)]
    exact stopFree_failure hst.1 hst.2 broken
  | gemini =>
    refine iff_of_true ((endsInFailure_iff_forall (by decide)).2 ?_) trivial
    exact List.forall_mem_append.2 ⟨not_succeeds_gemini h st, not_succeeds_geminiEnd _⟩

omit [Responses.RandSuffix] in
/-- What is sent when the stream ends before a chunk said anything about the end. -/
theorem endsInFailure_nothing {usage : Bool} {st : StreamStateOf q} (hst : Waiting q usage st)
    (broken : Bool) :
    EndsInFailure q (streamEnd q st broken) ↔ FailureReaches q none false usage broken := by
  cases q with
  | openaiChat =>
    refine iff_of_true ((endsInFailure_iff_forall (by decide)).2 ?_) trivial
    exact fun _ h ↦ (List.not_mem_nil h).elim
  | openaiResponses =>
    obtain ⟨hcompleted, hpending, husage⟩ := hst
    refine (endsInFailure_end hcompleted broken).trans ?_
    rw [hpending, FailureReaches]
    simp
  | anthropic =>
    rw [endsInFailure_iff_forall (by decide)]
    exact iff_of_true (stopFree_end (Or.inr hst.1) broken) (Or.inl rfl)
  | gemini =>
    exact iff_of_true ((endsInFailure_iff_forall (by decide)).2 (not_succeeds_geminiEnd st)) trivial

omit [Responses.RandSuffix] in
/-- A Responses stream that was not completed has an event at the end. -/
theorem streamEnd_ne_nil_of_waiting {usage : Bool} {st : StreamStateOf q}
    (hst : Waiting q usage st) (broken : Bool) (hq : q = .openaiResponses) :
    streamEnd q st broken ≠ [] := by
  subst hq
  exact streamEnd_ne_nil hst.1 broken

theorem chunkEvents_ne_nil {chunk : IrChunk} {usage : Bool} {st : StreamStateOf q}
    (hst : Waiting q usage st) (broken : Bool) (hq : q = .openaiResponses) :
    (chunkFromIr q chunk st).events ++ streamEnd q (chunkFromIr q chunk st).st broken ≠ [] := by
  subst hq
  exact responses_ne_nil hst.1 broken

end Encoders

/-! ### Frames -/

section Frames

variable [SerdeJson] {p q : Protocol}

/-- The document reports an error. -/
def Fails : Protocol → Value → Prop
  | .openaiChat, v => v["error"].isObject = true
  | .openaiResponses, v =>
    v["type"].strOrEmpty = "error" ∨ v["type"].strOrEmpty = "response.failed"
  | .anthropic, v => v["type"].strOrEmpty = "error"
  | .gemini, v => v["error"].isObject = true

/-- A frame with an error, that does not say besides that the response ended normally, at a limit or
for a tool. -/
def ErrorFrame (p : Protocol) (data : String) : Prop :=
  (∃ v, documentOf p data = some v ∧ Fails p v) ∧
    ∀ raw ∈ (reportOf p data).all, normalizeFinishReason raw ∉ successReasons

/-- A frame that may follow an error. -/
def ClosingFrame (p : Protocol) (data : String) : Prop :=
  match p with
  | .openaiChat => Text.trim data.toList = Chat.doneMarker.toList
  | .anthropic => ∃ v, documentOf .anthropic data = some v ∧
    (v["type"].strOrEmpty = "message_stop" ∨ v["type"].strOrEmpty = "ping")
  | _ => False

/-- A stream that fails: frames that say nothing about the end, then a frame with an error, or the
stream breaks off. -/
structure FailedStream (p : Protocol) where
  content : List String
  error : Option String
  closing : List String
  broken : Bool
  unfinished : ∀ data ∈ content, (reportOf p data).all = []
  failed : ∀ data, error = some data → ErrorFrame p data
  closed : ∀ data ∈ closing, ClosingFrame p data
  cut : error = none → closing = [] ∧ broken = true

namespace FailedStream

def datas (s : FailedStream p) : List String := s.content ++ s.error.toList ++ s.closing

/-- What the frame with the error says about the end. -/
def report (s : FailedStream p) : EventReport := (s.error.map (reportOf p)).getD {}

/-- The finish reason that comes with the error. -/
def reason (s : FailedStream p) : Option String := s.report.first.map normalizeFinishReason

/-- There was a usage in some frame. -/
def usageSeen (s : FailedStream p) : Bool :=
  s.report.usage || s.content.any fun data ↦ (reportOf p data).usage

end FailedStream

omit [SerdeJson] in
theorem chunkOf_closingEvent {v : Value}
    (h : v["type"].strOrEmpty = "message_stop" ∨ v["type"].strOrEmpty = "ping")
    (st : Anthropic.StreamState) : chunkOf (Anthropic.chunkToIr v st) = none := by
  unfold Anthropic.chunkToIr
  split
  · rcases h with htype | htype
    · rw [htype]
      rfl
    · rw [htype]
      rfl
  · rfl

/-- A frame that may follow an error says nothing. -/
theorem chunkOf_closing {data : String} (h : ClosingFrame p data) (st : StreamStateOf p) :
    chunkOf (chunkToIr p data st) = none := by
  cases p with
  | openaiChat =>
    have hdone : Text.trim data.toList = Chat.doneMarker.toList := h
    rw [chunkToIr]
    unfold Chat.chunkToIrText
    rw [if_pos hdone]
    rfl
  | openaiResponses => exact h.elim
  | anthropic =>
    obtain ⟨v, hdoc, htype⟩ := h
    unfold documentOf at hdoc
    rw [if_neg fun h ↦ absurd h.1 (by decide)] at hdoc
    rw [chunkToIr]
    unfold Anthropic.chunkToIrText
    cases hread : SerdeJson.ofText data with
    | ok w =>
      rw [hread] at hdoc
      rw [← Option.some.inj hdoc] at htype
      exact chunkOf_closingEvent htype st
    | error e =>
      rw [hread] at hdoc
      cases hdoc
  | gemini => exact h.elim

variable [Responses.RandSuffix] [Gemini.HashOrder] (gatewayModel : String)

theorem run_closing {datas : List String} (h : ∀ data ∈ datas, ClosingFrame p data)
    (st : ConvertState p q) :
    (Stream.run (processConvertFrame p q gatewayModel) st datas).1.toState = st.toState ∧
      (Stream.run (processConvertFrame p q gatewayModel) st datas).2 = [] := by
  induction datas generalizing st with
  | nil => exact ⟨rfl, rfl⟩
  | cons data rest ih =>
    rw [List.forall_mem_cons] at h
    have hstep : processConvertFrame p q gatewayModel st data =
        (⟨(chunkToIr p data st.fromState).st, st.toState⟩, []) := by
      rw [processConvertFrame]
      dsimp only
      rw [chunkOf_closing h.1]
    rw [Stream.run_cons, hstep]
    exact ih h.2 _

/-- The encoder waits after a frame that says nothing about the end. -/
theorem waiting_processConvertFrame {data : String} (h : (reportOf p data).all = [])
    {usage : Bool} {st : ConvertState p q} (hst : Waiting q usage st.toState) :
    Waiting q ((reportOf p data).usage || usage)
        (processConvertFrame p q gatewayModel st data).1.toState ∧
      ∀ event ∈ (processConvertFrame p q gatewayModel st data).2, ¬ Succeeds q event := by
  have hreads := reads_chunkToIr p data st.fromState
  rw [processConvertFrame, ← hreads.usage]
  cases hchunk : chunkOf (chunkToIr p data st.fromState) with
  | none => exact ⟨hst, fun _ h ↦ (List.not_mem_nil h).elim⟩
  | some chunk =>
    have hsilent : Silent { chunk with model := gatewayModel } := by
      have hall := hreads.all
      rw [hchunk, h] at hall
      exact hall
    exact waiting_chunkFromIr hsilent hst

theorem waiting_run {datas : List String} (h : ∀ data ∈ datas, (reportOf p data).all = [])
    {usage : Bool} {st : ConvertState p q} (hst : Waiting q usage st.toState) :
    Waiting q (usage || datas.any fun data ↦ (reportOf p data).usage)
        (Stream.run (processConvertFrame p q gatewayModel) st datas).1.toState ∧
      ∀ event ∈ (Stream.run (processConvertFrame p q gatewayModel) st datas).2,
        ¬ Succeeds q event := by
  induction datas generalizing st usage with
  | nil =>
    rw [List.any_nil, Bool.or_false]
    exact ⟨hst, fun _ h ↦ (List.not_mem_nil h).elim⟩
  | cons data rest ih =>
    rw [List.forall_mem_cons] at h
    obtain ⟨hnext, hquiet⟩ := waiting_processConvertFrame gatewayModel h.1 hst
    obtain ⟨hend, hrest⟩ := ih h.2 hnext
    rw [Stream.run_cons, List.any_cons, ← Bool.or_assoc, Bool.or_comm usage]
    exact ⟨hend, List.forall_mem_append.2 ⟨hquiet, hrest⟩⟩

/-- What is sent when the stream fails with a frame. -/
theorem endsInFailure_frame {data : String} (h : ErrorFrame p data) {usage : Bool}
    {st : ConvertState p q} (hst : Waiting q usage st.toState) (broken : Bool) :
    EndsInFailure q ((processConvertFrame p q gatewayModel st data).2 ++
        streamEnd q (processConvertFrame p q gatewayModel st data).1.toState broken) ↔
      FailureReaches q ((reportOf p data).first.map normalizeFinishReason)
        (reportOf p data).usage ((reportOf p data).usage || usage) broken := by
  have hreads := reads_chunkToIr p data st.fromState
  rw [processConvertFrame, ← hreads.usage, ← hreads.first]
  cases hchunk : chunkOf (chunkToIr p data st.fromState) with
  | none => exact endsInFailure_nothing hst broken
  | some chunk =>
    have hfruitless : Fruitless { chunk with model := gatewayModel } := by
      intro fr hfr
      have hall := hreads.all
      rw [hchunk] at hall
      have hmem : fr ∈ (reportOf p data).all.map normalizeFinishReason := hall ▸ hfr
      obtain ⟨raw, hraw, rfl⟩ := List.mem_map.1 hmem
      exact ⟨h.2 raw hraw, raw, rfl⟩
    exact endsInFailure_chunk hfruitless hst broken

theorem frameEvents_ne_nil (data : String) {usage : Bool} {st : ConvertState p q}
    (hst : Waiting q usage st.toState) (broken : Bool) (hq : q = .openaiResponses) :
    (processConvertFrame p q gatewayModel st data).2 ++
      streamEnd q (processConvertFrame p q gatewayModel st data).1.toState broken ≠ [] := by
  rw [processConvertFrame]
  cases chunkOf (chunkToIr p data st.fromState) with
  | none => exact streamEnd_ne_nil_of_waiting hst broken hq
  | some chunk => exact chunkEvents_ne_nil hst broken hq

omit [SerdeJson] [Responses.RandSuffix] [Gemini.HashOrder] in
theorem waiting_newStream (q : Protocol) : Waiting q false (newStream q) := by
  cases q with
  | openaiChat => trivial
  | openaiResponses => exact ⟨rfl, rfl, rfl⟩
  | anthropic => exact ⟨rfl, rfl⟩
  | gemini => trivial

/-- The client of a stream that fails is told of no success, and of the failure in Responses,
exactly when the failure reaches it. -/
theorem endsInFailure_iff (p q : Protocol) (gatewayModel : String) (s : FailedStream p) :
    EndsInFailure q (sseConvertStream p q gatewayModel s.datas s.broken) ↔
      FailureReaches q s.reason s.report.usage s.usageSeen s.broken := by
  have hstart : Waiting q false (newConvert p q).toState := waiting_newStream q
  obtain ⟨hwaiting, hquiet⟩ := waiting_run gatewayModel s.unfinished hstart
  rw [Bool.false_or] at hwaiting
  rw [sseConvertStream, FailedStream.datas, FailedStream.reason, FailedStream.usageSeen,
    FailedStream.report]
  dsimp only
  cases herror : s.error with
  | none =>
    obtain ⟨hclosing, -⟩ := s.cut herror
    rw [hclosing, Option.toList_none, List.append_nil, List.append_nil, endsInFailure_append hquiet]
    · exact endsInFailure_nothing hwaiting s.broken
    · exact streamEnd_ne_nil_of_waiting hwaiting s.broken
  | some data =>
    obtain ⟨hstate, hnothing⟩ := run_closing gatewayModel s.closed
      (processConvertFrame p q gatewayModel
        (Stream.run (processConvertFrame p q gatewayModel) (newConvert p q) s.content).1 data).1
    rw [Option.toList_some, Stream.run_append, Stream.run_append, Stream.run_cons, Stream.run_nil]
    dsimp only
    rw [hstate, hnothing, List.append_nil, List.append_nil, List.append_assoc,
      endsInFailure_append hquiet]
    · exact endsInFailure_frame gatewayModel (s.failed data herror) hwaiting s.broken
    · exact frameEvents_ne_nil gatewayModel data hwaiting s.broken

end Frames

section Concrete

local instance failedCodec : SerdeJson := Compact.codec

local instance failedSuffix : Responses.RandSuffix := plainSuffix

local instance failedOrder : Gemini.HashOrder := keptOrder

/-- A document with an error object: an error event of Anthropic, and what a Chat upstream sends. -/
def errorEvent : Value :=
  .object [("type", .str "error"), ("error", .object [("message", .str "overloaded")])]

/-- An error of a Chat upstream with a finish reason of its own. -/
def errorChoice : Value :=
  .object
    [("error", .object [("message", .str "overloaded")]),
      ("choices", .arr [.object [("index", .int 0), ("finish_reason", .str "error")]])]

/-- An Anthropic stream with an error event. -/
def anthropicFailure : FailedStream .anthropic where
  content := []
  error := some (SerdeJson.toText errorEvent)
  closing := []
  broken := false
  unfinished := fun _ h ↦ (List.not_mem_nil h).elim
  failed := by
    rintro data ⟨⟩
    exact ⟨⟨errorEvent, by decide +kernel, rfl⟩, by decide +kernel⟩
  closed := fun _ h ↦ (List.not_mem_nil h).elim
  cut := fun h ↦ nomatch h

/-- A Chat stream with an error of this kind after some text. -/
def chatFailure (error : Value) (h : ErrorFrame .openaiChat (SerdeJson.toText error)) :
    FailedStream .openaiChat where
  content := [choiceFrame 0 "a"]
  error := some (SerdeJson.toText error)
  closing := ["[DONE]"]
  broken := false
  unfinished := by decide +kernel
  failed := by
    rintro data ⟨⟩
    exact h
  closed := List.forall_mem_singleton.2 rfl
  cut := fun h ↦ nomatch h

theorem errorFrame_errorEvent : ErrorFrame .openaiChat (SerdeJson.toText errorEvent) :=
  ⟨⟨errorEvent, by decide +kernel, rfl⟩, by decide +kernel⟩

theorem errorFrame_errorChoice : ErrorFrame .openaiChat (SerdeJson.toText errorChoice) :=
  ⟨⟨errorChoice, by decide +kernel, rfl⟩, by decide +kernel⟩

/-- A Responses client is told of the failure. -/
theorem endsInFailure_anthropicFailure :
    EndsInFailure .openaiResponses (sseConvertStream .anthropic .openaiResponses "m"
      anthropicFailure.datas anthropicFailure.broken) :=
  (endsInFailure_iff .anthropic .openaiResponses "m" anthropicFailure).2
    (Or.inl (by decide +kernel))

/-- An error object of a Chat upstream ends the stream of a Responses client like an answer that is
complete, and its finish reason reaches an Anthropic client as a stop reason. -/
theorem not_endsInFailure_chatFailure :
    ¬ EndsInFailure .openaiResponses (sseConvertStream .openaiChat .openaiResponses "m"
        (chatFailure errorEvent errorFrame_errorEvent).datas false) ∧
      ¬ EndsInFailure .anthropic (sseConvertStream .openaiChat .anthropic "m"
        (chatFailure errorChoice errorFrame_errorChoice).datas false) := by
  constructor
  · have hsent : ∃ event ∈ sseConvertStream .openaiChat .openaiResponses "m"
        (chatFailure errorEvent errorFrame_errorEvent).datas false,
          event["type"].strOrEmpty = "response.completed" := by
      decide +kernel
    intro hends
    obtain ⟨event, hevent, htype⟩ := hsent
    exact hends.silent event hevent (Or.inl htype)
  · have hsent : ∃ event ∈ sseConvertStream .openaiChat .anthropic "m"
        (chatFailure errorChoice errorFrame_errorChoice).datas false,
          event["delta"]["stop_reason"] ≠ .null := by
      decide +kernel
    intro hends
    obtain ⟨event, hevent, hstop⟩ := hsent
    exact hends.silent event hevent (Or.inl hstop)

end Concrete

end NextApi
