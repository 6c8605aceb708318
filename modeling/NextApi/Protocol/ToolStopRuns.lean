import NextApi.Json.Compact
import NextApi.Protocol.ToolStopStream

/-!
# Stopping for tools, for the client

The Anthropic encoder sends a stop reason once a finish reason and a usage have come, or at the end
of the stream (`marked_anthropic`).

`carriesMarker_iff` puts complete responses and streams together: a client of Chat or Anthropic gets
the marker when the upstream itself said that it stopped for tools, whatever calls the response has.
-/

set_option autoImplicit false

namespace NextApi

open Json Ir

/-! ### The stages of the Anthropic encoder -/

/-- One of the events so far carries the marker. -/
def Marked (e : Emission Anthropic.StreamState) : Prop := ∃ x ∈ e.events, MarksEvent .anthropic x

/-- The emission goes on without a marker, and without touching what the end depends on. -/
structure Unmarked (e e' : Emission Anthropic.StreamState) : Prop where
  marked : Marked e' ↔ Marked e
  pendingFinish : e'.st.pendingFinish = e.st.pendingFinish
  emitted : e'.st.messageDeltaEmitted = e.st.messageDeltaEmitted
  started : e.st.messageStartEmitted = true → e'.st.messageStartEmitted = true

theorem Unmarked.refl (e : Emission Anthropic.StreamState) : Unmarked e e :=
  ⟨Iff.rfl, rfl, rfl, id⟩

theorem Unmarked.trans {e e' e'' : Emission Anthropic.StreamState} (h : Unmarked e e')
    (h' : Unmarked e' e'') : Unmarked e e'' :=
  ⟨h'.marked.trans h.marked, h'.pendingFinish.trans h.pendingFinish, h'.emitted.trans h.emitted,
    fun hstart ↦ h'.started (h.started hstart)⟩

theorem marked_emit (e : Emission Anthropic.StreamState) (x : Value) :
    Marked (e.emit x) ↔ Marked e ∨ MarksEvent .anthropic x := by
  rw [Marked, Emission.emit_events]
  simp only [List.mem_append, or_and_right, exists_or, List.mem_singleton, exists_eq_left]
  rfl

/-- An event of another type. -/
theorem Unmarked.emit {e : Emission Anthropic.StreamState} {st : Anthropic.StreamState} {x : Value}
    (hx : ¬ MarksEvent .anthropic x) (hpending : st.pendingFinish = e.st.pendingFinish)
    (hemitted : st.messageDeltaEmitted = e.st.messageDeltaEmitted)
    (hstarted : e.st.messageStartEmitted = true → st.messageStartEmitted = true) :
    Unmarked e ((e.withState st).emit x) :=
  ⟨(marked_emit _ x).trans (or_iff_left hx), hpending, hemitted, hstarted⟩

theorem not_marks_of_type (type : String) {x : Value} (h : x["type"].asStr = some type)
    (hne : type ≠ "message_delta") : ¬ MarksEvent .anthropic x :=
  fun hmarks ↦ hne (Option.some.inj (h.symm.trans hmarks.1))

theorem not_marks_messageStart (st : Anthropic.StreamState) :
    ¬ MarksEvent .anthropic (Anthropic.messageStartEvent st) :=
  not_marks_of_type "message_start" (by simp [Anthropic.messageStartEvent]) (by decide)

theorem not_marks_blockStart (idx : UInt32) (block : Value) :
    ¬ MarksEvent .anthropic (Anthropic.contentBlockStart idx block) :=
  not_marks_of_type "content_block_start" (by simp [Anthropic.contentBlockStart]) (by decide)

theorem not_marks_blockDelta (idx : UInt32) (delta : Value) :
    ¬ MarksEvent .anthropic (Anthropic.contentBlockDelta idx delta) :=
  not_marks_of_type "content_block_delta" (by simp [Anthropic.contentBlockDelta]) (by decide)

theorem not_marks_blockStop (idx : UInt32) :
    ¬ MarksEvent .anthropic (Anthropic.contentBlockStop idx) :=
  not_marks_of_type "content_block_stop" (by simp [Anthropic.contentBlockStop]) (by decide)

theorem not_marks_messageStop : ¬ MarksEvent .anthropic Anthropic.messageStopEvent :=
  not_marks_of_type "message_stop" (by simp [Anthropic.messageStopEvent]) (by decide)

theorem not_marks_endDelta (st : Anthropic.StreamState) :
    ¬ MarksEvent .anthropic (Anthropic.messageDeltaEndEvent st) := by
  intro hmarks
  have hstop := hmarks.2
  simp [Anthropic.messageDeltaEndEvent, Anthropic.messageDelta] at hstop

/-- A stop reason is the marker when it stands for the finish reason `tool_calls`. -/
theorem marks_messageDelta {fr : String} (h : fr ≠ "tool_use") (st : Anthropic.StreamState) :
    MarksEvent .anthropic (Anthropic.messageDeltaEvent fr st) ↔ fr = "tool_calls" := by
  rw [← reverseFinishReason_eq_toolUse h]
  simp [MarksEvent, Anthropic.messageDeltaEvent, Anthropic.messageDelta]

theorem unmarked_closeOpenBlock (e : Emission Anthropic.StreamState) :
    Unmarked e (Anthropic.closeOpenBlock e) := by
  unfold Anthropic.closeOpenBlock
  split
  · exact Unmarked.emit (not_marks_blockStop _) rfl rfl id
  · exact Unmarked.refl e

theorem unmarked_openNewBlock (kind : Anthropic.BlockKind) {start : UInt32 → Value}
    (hstart : ∀ idx, ¬ MarksEvent .anthropic (start idx)) (e : Emission Anthropic.StreamState) :
    Unmarked e (Anthropic.openNewBlock kind start e) :=
  Unmarked.emit (hstart _) rfl rfl id

theorem unmarked_startMessage (chunk : IrChunk) (e : Emission Anthropic.StreamState) :
    Unmarked e (Anthropic.startMessage chunk e) := by
  unfold Anthropic.startMessage
  split
  · exact Unmarked.refl e
  · exact Unmarked.emit (not_marks_messageStart _) rfl rfl fun _ ↦ rfl

theorem unmarked_deltaInBlock (kind : Anthropic.BlockKind) {start delta : UInt32 → Value}
    (hstart : ∀ idx, ¬ MarksEvent .anthropic (start idx))
    (hdelta : ∀ idx, ¬ MarksEvent .anthropic (delta idx)) (e : Emission Anthropic.StreamState) :
    Unmarked e (Anthropic.deltaInBlock kind start delta e) := by
  unfold Anthropic.deltaInBlock
  generalize hopened : (if e.st.openBlock.map Anthropic.OpenBlock.kind = some kind then e
    else Anthropic.openNewBlock kind start (Anthropic.closeOpenBlock e)) = opened
  have hquiet : Unmarked e opened := by
    rw [← hopened]
    split
    · exact Unmarked.refl e
    · exact (unmarked_closeOpenBlock e).trans (unmarked_openNewBlock kind hstart _)
  dsimp only
  split
  · exact hquiet.trans (Unmarked.emit (hdelta _) rfl rfl id)
  · exact hquiet

theorem unmarked_textStage (content : Option String) (e : Emission Anthropic.StreamState) :
    Unmarked e (Anthropic.textStage content e) := by
  unfold Anthropic.textStage
  split
  · exact unmarked_deltaInBlock .text (fun _ ↦ not_marks_blockStart _ _)
      (fun _ ↦ not_marks_blockDelta _ _) e
  · exact Unmarked.refl e

theorem unmarked_thinkingStage (reasoning : Option String) (e : Emission Anthropic.StreamState) :
    Unmarked e (Anthropic.thinkingStage reasoning e) := by
  unfold Anthropic.thinkingStage
  split
  · exact unmarked_deltaInBlock .thinking (fun _ ↦ not_marks_blockStart _ _)
      (fun _ ↦ not_marks_blockDelta _ _) e
  · exact Unmarked.refl e

/-- A change of other parts of the state. -/
theorem Unmarked.withState {e : Emission Anthropic.StreamState} {st : Anthropic.StreamState}
    (hpending : st.pendingFinish = e.st.pendingFinish)
    (hemitted : st.messageDeltaEmitted = e.st.messageDeltaEmitted)
    (hstarted : st.messageStartEmitted = e.st.messageStartEmitted) :
    Unmarked e (e.withState st) :=
  ⟨Iff.rfl, hpending, hemitted, fun h ↦ hstarted.trans h⟩

theorem unmarked_openToolBlock (tc : IrToolCallDelta) (e : Emission Anthropic.StreamState) :
    Unmarked e (Anthropic.openToolBlock tc e) := by
  unfold Anthropic.openToolBlock
  refine Unmarked.trans ?_ (unmarked_openNewBlock .tool (fun _ ↦ not_marks_blockStart _ _) _)
  refine (unmarked_closeOpenBlock e).trans ?_
  split
  · exact ⟨Iff.rfl, rfl, rfl, id⟩
  · exact ⟨Iff.rfl, rfl, rfl, id⟩

theorem unmarked_toolDelta (e : Emission Anthropic.StreamState) (tc : IrToolCallDelta) :
    Unmarked e (Anthropic.toolDelta e tc) := by
  have hnote : Unmarked e (e.withState (Anthropic.noteToolMeta tc e.st)) :=
    Unmarked.withState rfl rfl rfl
  unfold Anthropic.toolDelta
  refine hnote.trans ?_
  dsimp only
  split
  · exact Unmarked.emit (not_marks_blockDelta _ _) rfl rfl id
  · exact (unmarked_openToolBlock tc _).trans
      (Unmarked.emit (not_marks_blockDelta _ _) rfl rfl id)

theorem unmarked_toolCalls (toolCalls : List IrToolCallDelta)
    (e : Emission Anthropic.StreamState) :
    Unmarked e (toolCalls.foldl Anthropic.toolDelta e) := by
  induction toolCalls generalizing e with
  | nil => exact Unmarked.refl e
  | cons tc rest ih => exact (unmarked_toolDelta e tc).trans (ih _)

theorem unmarked_updateUsage (usage : Option IrUsage) (e : Emission Anthropic.StreamState) :
    Unmarked e (Anthropic.updateUsage usage e) := by
  unfold Anthropic.updateUsage
  split
  · exact Unmarked.withState rfl rfl rfl
  · exact Unmarked.refl e

/-- The events of a chunk before the end is looked at. -/
def answerBody (chunk : IrChunk) (st : Anthropic.StreamState) : Emission Anthropic.StreamState :=
  let e := Anthropic.startMessage chunk { st := st }
  let e := Anthropic.textStage chunk.delta.content e
  let e := Anthropic.thinkingStage chunk.delta.reasoningContent e
  Anthropic.updateUsage chunk.usage (chunk.delta.toolCalls.foldl Anthropic.toolDelta e)

theorem chunkFromIr_anthropic (chunk : IrChunk) (st : Anthropic.StreamState) :
    Anthropic.chunkFromIr chunk st =
      Anthropic.finishStage chunk.finishReason chunk.usage (answerBody chunk st) := rfl

theorem unmarked_answerBody (chunk : IrChunk) (st : Anthropic.StreamState) :
    Unmarked { st := st } (answerBody chunk st) :=
  (unmarked_startMessage chunk _).trans ((unmarked_textStage _ _).trans
    ((unmarked_thinkingStage _ _).trans ((unmarked_toolCalls _ _).trans
      (unmarked_updateUsage _ _))))

theorem started_answerBody (chunk : IrChunk) (st : Anthropic.StreamState) :
    (answerBody chunk st).st.messageStartEmitted = true := by
  have hstart : (Anthropic.startMessage chunk { st := st }).st.messageStartEmitted = true := by
    unfold Anthropic.startMessage
    split
    · assumption
    · rfl
  exact ((unmarked_textStage _ _).trans ((unmarked_thinkingStage _ _).trans
    ((unmarked_toolCalls _ _).trans (unmarked_updateUsage _ _)))).started hstart

/-! ### The end of a chunk -/

/-- A finish reason of a stream that ended normally. -/
def EndsNormally (fr : String) : Prop := fr = "stop" ∨ fr = "tool_calls"

instance : DecidablePred EndsNormally := fun _ ↦ inferInstanceAs (Decidable (_ ∨ _))

theorem EndsNormally.ne_toolUse {fr : String} (h : EndsNormally fr) : fr ≠ "tool_use" := by
  rcases h with rfl | rfl <;> decide

theorem EndsNormally.ne_failed {fr : String} (h : EndsNormally fr) : fr ≠ "failed" := by
  rcases h with rfl | rfl <;> decide

/-- The stop reason is sent with the event. -/
theorem marked_sendMessageDelta {e : Emission Anthropic.StreamState} (hsilent : ¬ Marked e)
    {fr : String} (hfr : EndsNormally fr) :
    Marked (Anthropic.sendMessageDelta (Anthropic.messageDeltaEvent fr) e) ↔
      some fr = some "tool_calls" := by
  rw [Anthropic.sendMessageDelta, marked_emit, marks_messageDelta hfr.ne_toolUse,
    Option.some_inj]
  exact or_iff_right hsilent

theorem not_marked_nil (st : Anthropic.StreamState) : ¬ Marked { st := st } := by
  rintro ⟨x, hx, -⟩
  exact List.not_mem_nil hx

/-- Before the `message_delta`: it is sent when a finish reason is known and the chunk has a usage,
and the finish reason waits otherwise. -/
theorem chunkFromIr_pending {chunk : IrChunk} {st : Anthropic.StreamState}
    (hemitted : st.messageDeltaEmitted = false)
    (hfinish : ∀ fr, chunk.finishReason = some fr → EndsNormally fr)
    (hpending : ∀ fr, st.pendingFinish = some fr → EndsNormally fr) :
    if chunk.usage.isSome = true ∧ (chunk.finishReason.or st.pendingFinish).isSome = true then
      (Marked (Anthropic.chunkFromIr chunk st) ↔
          chunk.finishReason.or st.pendingFinish = some "tool_calls") ∧
        (Anthropic.chunkFromIr chunk st).st.messageDeltaEmitted = true
    else
      ¬ Marked (Anthropic.chunkFromIr chunk st) ∧
        (Anthropic.chunkFromIr chunk st).st.messageDeltaEmitted = false ∧
        (Anthropic.chunkFromIr chunk st).st.pendingFinish =
          chunk.finishReason.or st.pendingFinish := by
  have hbody := unmarked_answerBody chunk st
  have hsilent : ¬ Marked (answerBody chunk st) := fun h ↦ not_marked_nil st (hbody.marked.1 h)
  rw [chunkFromIr_anthropic]
  cases hfr : chunk.finishReason with
  | some fr =>
    have hclose := unmarked_closeOpenBlock (answerBody chunk st)
    have hclosed : ¬ Marked (Anthropic.closeOpenBlock (answerBody chunk st)) :=
      fun h ↦ hsilent (hclose.marked.1 h)
    unfold Anthropic.finishStage
    dsimp only
    rw [if_neg (hfinish fr hfr).ne_failed, Option.some_or]
    by_cases husage : chunk.usage.isSome = true
    · rw [if_pos husage, if_pos ⟨husage, rfl⟩]
      exact ⟨marked_sendMessageDelta hclosed (hfinish fr hfr), rfl⟩
    · rw [if_neg husage, if_neg fun h ↦ husage h.1]
      exact ⟨hclosed, (hclose.emitted.trans hbody.emitted).trans hemitted, rfl⟩
  | none =>
    rw [Option.none_or, ← hbody.pendingFinish]
    have hwait : ¬ Marked (answerBody chunk st) ∧
        (answerBody chunk st).st.messageDeltaEmitted = false ∧
        (answerBody chunk st).st.pendingFinish = (answerBody chunk st).st.pendingFinish :=
      ⟨hsilent, hbody.emitted.trans hemitted, rfl⟩
    unfold Anthropic.finishStage
    dsimp only
    rw [hbody.emitted, hemitted, Bool.not_false, Bool.and_true]
    by_cases husage : chunk.usage.isSome = true
    · rw [if_pos husage]
      cases hwaiting : (answerBody chunk st).st.pendingFinish with
      | none =>
        rw [hwaiting] at hwait
        rw [if_neg fun h ↦ Bool.false_ne_true h.2]
        exact ⟨hwait.1, hwait.2.1, hwaiting⟩
      | some fr =>
        rw [if_pos ⟨husage, rfl⟩]
        exact ⟨marked_sendMessageDelta hsilent
          (hpending fr (hbody.pendingFinish.symm.trans hwaiting)), rfl⟩
    · rw [if_neg husage, if_neg fun h ↦ husage h.1]
      exact hwait

/-- After it, only a finish reason with a usage sends another. -/
theorem chunkFromIr_emitted {chunk : IrChunk} {st : Anthropic.StreamState}
    (hemitted : st.messageDeltaEmitted = true)
    (hfinish : ∀ fr, chunk.finishReason = some fr → EndsNormally fr) :
    (Marked (Anthropic.chunkFromIr chunk st) ↔ chunkSignal chunk = (some "tool_calls", true)) ∧
      (Anthropic.chunkFromIr chunk st).st.messageDeltaEmitted = true := by
  have hbody := unmarked_answerBody chunk st
  have hsilent : ¬ Marked (answerBody chunk st) := fun h ↦ not_marked_nil st (hbody.marked.1 h)
  rw [chunkFromIr_anthropic, chunkSignal, Prod.mk.injEq]
  cases hfr : chunk.finishReason with
  | some fr =>
    have hclose := unmarked_closeOpenBlock (answerBody chunk st)
    have hclosed : ¬ Marked (Anthropic.closeOpenBlock (answerBody chunk st)) :=
      fun h ↦ hsilent (hclose.marked.1 h)
    unfold Anthropic.finishStage
    dsimp only
    rw [if_neg (hfinish fr hfr).ne_failed]
    by_cases husage : chunk.usage.isSome = true
    · rw [if_pos husage, and_iff_left husage]
      exact ⟨marked_sendMessageDelta hclosed (hfinish fr hfr), rfl⟩
    · rw [if_neg husage]
      exact ⟨iff_of_false hclosed fun h ↦ husage h.2,
        (hclose.emitted.trans hbody.emitted).trans hemitted⟩
  | none =>
    unfold Anthropic.finishStage
    dsimp only
    rw [hbody.emitted, hemitted, Bool.not_true, Bool.and_false, if_neg Bool.false_ne_true]
    exact ⟨iff_of_false hsilent fun h ↦ Option.some_ne_none _ h.1.symm, hbody.emitted.trans hemitted⟩

theorem started_chunkFromIr (chunk : IrChunk) (st : Anthropic.StreamState) :
    (Anthropic.chunkFromIr chunk st).st.messageStartEmitted = true := by
  have hbody := started_answerBody chunk st
  have hclose := (unmarked_closeOpenBlock (answerBody chunk st)).started hbody
  rw [chunkFromIr_anthropic]
  unfold Anthropic.finishStage
  split
  · dsimp only
    split
    · exact hclose
    · split
      · exact hclose
      · exact hclose
  · split
    · split
      · exact hbody
      · exact hbody
    · exact hbody

theorem marked_streamEnd_iff (st : Anthropic.StreamState) :
    Marked (Anthropic.streamEnd st) ↔
      Marked (Anthropic.endDelta (Anthropic.closeOpenBlock { st := st })) := by
  rw [Anthropic.streamEnd]
  dsimp only
  split
  · exact (marked_emit _ _).trans (or_iff_left not_marks_messageStop)
  · exact Iff.rfl

theorem not_marked_closed (st : Anthropic.StreamState) :
    ¬ Marked (Anthropic.closeOpenBlock { st := st }) :=
  fun h ↦ not_marked_nil st ((unmarked_closeOpenBlock { st := st }).marked.1 h)

/-- After the `message_delta` the end sends no other one. -/
theorem not_marked_streamEnd {st : Anthropic.StreamState}
    (hemitted : st.messageDeltaEmitted = true) : ¬ Marked (Anthropic.streamEnd st) := by
  rw [marked_streamEnd_iff, Anthropic.endDelta, (unmarked_closeOpenBlock _).emitted, hemitted,
    Bool.not_true, Bool.and_false, if_neg Bool.false_ne_true]
  exact not_marked_closed st

/-- At the end the finish reason that waits is sent. -/
theorem marked_streamEnd {st : Anthropic.StreamState} (hemitted : st.messageDeltaEmitted = false)
    (hstarted : st.messageStartEmitted = true ∨ st.pendingFinish = none)
    (hpending : ∀ fr, st.pendingFinish = some fr → EndsNormally fr) :
    Marked (Anthropic.streamEnd st) ↔ st.pendingFinish = some "tool_calls" := by
  have hclose := unmarked_closeOpenBlock { st := st }
  have hclosed := not_marked_closed st
  rw [marked_streamEnd_iff, Anthropic.endDelta, hclose.emitted, hemitted, Bool.not_false,
    Bool.and_true, hclose.pendingFinish]
  cases hwaiting : st.pendingFinish with
  | none =>
    refine iff_of_false ?_ (Option.some_ne_none _).symm
    dsimp only
    split
    · rw [Anthropic.sendMessageDelta, marked_emit]
      exact not_or_intro hclosed (not_marks_endDelta _)
    · exact hclosed
  | some fr =>
    have hstart : st.messageStartEmitted = true := by
      refine hstarted.resolve_right ?_
      rw [hwaiting]
      exact Option.some_ne_none fr
    rw [if_pos (hclose.started hstart)]
    dsimp only
    rw [if_neg (hpending fr hwaiting).ne_failed]
    exact marked_sendMessageDelta hclosed (hpending fr hwaiting)

/-! ### Runs -/

/-- The marker is among the events of the chunks and of the end. -/
def MarkedRun (st : Anthropic.StreamState) (chunks : List IrChunk) : Prop :=
  ∃ x ∈ (Stream.run Anthropic.encodeStep st chunks).2 ++
    (Anthropic.streamEnd (Stream.run Anthropic.encodeStep st chunks).1).events,
      MarksEvent .anthropic x

theorem markedRun_nil (st : Anthropic.StreamState) :
    MarkedRun st [] ↔ Marked (Anthropic.streamEnd st) := Iff.rfl

theorem markedRun_cons (st : Anthropic.StreamState) (chunk : IrChunk) (rest : List IrChunk) :
    MarkedRun st (chunk :: rest) ↔ Marked (Anthropic.chunkFromIr chunk st) ∨
      MarkedRun (Anthropic.chunkFromIr chunk st).st rest := by
  rw [MarkedRun, Stream.run_cons, List.append_assoc]
  simp only [List.mem_append, or_and_right, exists_or]
  rw [MarkedRun]
  simp only [List.mem_append, or_and_right, exists_or]
  exact Iff.rfl

/-- All finish reasons of the chunks. -/
def AllEndNormally (chunks : List IrChunk) : Prop :=
  ∀ chunk ∈ chunks, ∀ fr, chunk.finishReason = some fr → EndsNormally fr

theorem markedRun_emitted {st : Anthropic.StreamState} (hemitted : st.messageDeltaEmitted = true)
    {chunks : List IrChunk} (hfinish : AllEndNormally chunks) :
    MarkedRun st chunks ↔ (some "tool_calls", true) ∈ chunks.map chunkSignal := by
  induction chunks generalizing st with
  | nil => exact iff_of_false (not_marked_streamEnd hemitted) List.not_mem_nil
  | cons chunk rest ih =>
    obtain ⟨hchunk, hrest⟩ := List.forall_mem_cons.1 hfinish
    obtain ⟨hmarked, hemitted'⟩ := chunkFromIr_emitted hemitted hchunk
    rw [markedRun_cons, hmarked, ih hemitted' hrest, List.map_cons, List.mem_cons, eq_comm]

/-- The Anthropic encoder sends the marker when the stream settles on a stop for tools. -/
theorem markedRun_pending {st : Anthropic.StreamState} (hemitted : st.messageDeltaEmitted = false)
    {chunks : List IrChunk} (hfinish : AllEndNormally chunks)
    (hpending : ∀ fr, st.pendingFinish = some fr → EndsNormally fr)
    (hstarted : st.messageStartEmitted = true ∨ st.pendingFinish = none) :
    MarkedRun st chunks ↔ SettlesOnTools st.pendingFinish (chunks.map chunkSignal) := by
  induction chunks generalizing st with
  | nil =>
    rw [markedRun_nil, marked_streamEnd hemitted hstarted hpending]
    rfl
  | cons chunk rest ih =>
    obtain ⟨hchunk, hrest⟩ := List.forall_mem_cons.1 hfinish
    have hlast : ∀ fr, chunk.finishReason.or st.pendingFinish = some fr → EndsNormally fr := by
      intro fr hfr
      rcases Option.or_eq_some_iff.1 hfr with h | ⟨-, h⟩
      · exact hchunk fr h
      · exact hpending fr h
    have hstart := started_chunkFromIr chunk st
    have hstep := chunkFromIr_pending hemitted hchunk hpending
    rw [markedRun_cons, List.map_cons, chunkSignal, SettlesOnTools]
    by_cases hsettled : chunk.usage.isSome = true ∧
        (chunk.finishReason.or st.pendingFinish).isSome = true
    · rw [if_pos hsettled] at hstep ⊢
      rw [hstep.1, markedRun_emitted hstep.2 hrest]
    · rw [if_neg hsettled] at hstep ⊢
      obtain ⟨hsilent, hemitted', hpending'⟩ := hstep
      rw [or_iff_right hsilent, ih hemitted' hrest (hpending' ▸ hlast) (Or.inl hstart), hpending']

/-! ### Bodies -/

/-- What the upstream answers: a complete response, or the payloads of its events. -/
inductive UpstreamBody where
  | whole (v : Value)
  | stream (datas : List String)

/-- What the client gets. -/
inductive ClientBody where
  | whole (v : Value)
  | stream (events : List Value)

section Convert

variable [SerdeJson] [Responses.RandSuffix] [Gemini.HashOrder]

/-- Reads the answer of an upstream of protocol `p` and writes it for a client of protocol `q`. -/
def convert (p q : Protocol) : UpstreamBody → Except ConvertError ClientBody
  | .whole v => (responseToIr p v).map fun read ↦ .whole (responseFromIr q read.1).1
  | .stream datas => .ok (.stream (streamEvents q (decodeStream p datas) false))

end Convert

/-- The body carries the marker of its protocol. -/
def CarriesMarker (q : Protocol) : ClientBody → Prop
  | .whole v => MarksResponse q v
  | .stream events => ∃ e ∈ events, MarksEvent q e

/-- A complete response with a tool call. -/
def HasToolCall : Protocol → Value → Prop
  | .openaiChat, v => ∃ choice ∈ choicesOf v, ∃ tc ∈ ((choice["message"].get? "tool_calls").bind
      Value.asArray).getD [], tc.isObject = true
  | .openaiResponses, v => ∃ item ∈ ((v.get? "output").bind Value.asArray).getD [],
      item["type"].asStr = some "function_call"
  | .anthropic, v => ∃ block ∈ ((v.get? "content").bind Value.asArray).getD [],
      block["type"].asStr = some "tool_use"
  | .gemini, v => ∃ cand ∈ candidatesOf v, ∃ part ∈ ((cand["content"].get? "parts").bind
      Value.asArray).getD [], (part.get? "functionCall").isSome = true

/-- An event with a tool call. -/
def EventHasToolCall : Protocol → Value → Prop
  | .openaiChat, v => ∃ choice ∈ choicesOf v, ∃ tc ∈ ((choice["delta"].get? "tool_calls").bind
      Value.asArray).getD [], tc.isObject = true
  | .openaiResponses, v => v["type"].asStr = some "response.output_item.added" ∧
      v["item"]["type"].asStr = some "function_call"
  | .anthropic, v => v["type"].asStr = some "content_block_start" ∧
      v["content_block"]["type"].asStr = some "tool_use"
  | .gemini, v => ∃ cand ∈ candidatesOf v, ∃ part ∈ ((cand["content"].get? "parts").bind
      Value.asArray).getD [], (part.get? "functionCall").isSome = true

section Bodies

variable [SerdeJson]

/-- The answer has a tool call. -/
def ContainsToolCall (p : Protocol) : UpstreamBody → Prop
  | .whole v => HasToolCall p v
  | .stream datas => ∃ data ∈ datas, ∃ v, documentOf p data = some v ∧ EventHasToolCall p v

/-- What the answer says about its end, in all choices. -/
def stopsOf (p : Protocol) : UpstreamBody → List String
  | .whole v => (stopReport p v).all
  | .stream datas => datas.flatMap fun data ↦ (reportOf p data).all

/-- The answer ended, and neither with a failure nor at a limit or a filter. -/
def EndedNormally (p : Protocol) (body : UpstreamBody) : Prop :=
  stopsOf p body ≠ [] ∧ ∀ raw ∈ stopsOf p body, EndsNormally (normalizeFinishReason raw)

/-- The upstream itself said that it stopped for tools, in a place that reaches the client. -/
def UpstreamSaysToolStop (p q : Protocol) : UpstreamBody → Prop
  | .whole v => SaysToolStop q (stopReport p v)
  | .stream datas =>
    match q with
    | .openaiChat => ∃ raw ∈ stopsOf p (.stream datas), normalizeFinishReason raw = "tool_calls"
    | .anthropic => SettlesOnTools none (datas.map fun data ↦ (reportOf p data).signal)
    | _ => False

/-- What the adapters read: complete responses have no name twice in an object. -/
def UpstreamBody.Normal : UpstreamBody → Prop
  | .whole v => v.Normal
  | .stream _ => True

/-- The signals of the chunks are among those of the events. -/
theorem signals_run_subset (p : Protocol) (st : StreamStateOf p) (datas : List String) :
    (Stream.run (decodeStep p) st datas).2.map chunkSignal ⊆
      datas.map fun data ↦ (reportOf p data).signal := by
  induction datas generalizing st with
  | nil => exact List.Subset.refl _
  | cons data rest ih =>
    rw [Stream.run_cons, List.map_append, List.map_cons]
    refine List.append_subset.2 ⟨?_, fun signal hsignal ↦ List.mem_cons_of_mem _ (ih _ hsignal)⟩
    rcases signals_decodeStep p st data with h | ⟨h, -⟩
    · rw [h]
      exact List.cons_subset.2 ⟨List.mem_cons_self, List.nil_subset _⟩
    · rw [h]
      exact List.nil_subset _

omit [SerdeJson] in
theorem first_mem_all_stop {raw : Option String} {usage : Bool} {s : String}
    (h : (EventReport.stop raw usage).first = some s) : s ∈ (EventReport.stop raw usage).all :=
  Option.mem_toList.2 h

omit [SerdeJson] in
theorem first_mem_all_silent {s : String} (h : ({} : EventReport).first = some s) :
    s ∈ ({} : EventReport).all := absurd h.symm (Option.some_ne_none s)

omit [SerdeJson] in
/-- The stop of the first choice is one of the stops. -/
theorem first_mem_all (p : Protocol) (v : Value) {s : String}
    (h : (eventReport p v).first = some s) : s ∈ (eventReport p v).all := by
  unfold eventReport at h ⊢
  cases p with
  | openaiChat =>
    dsimp only at h ⊢
    split at h
    · next hall =>
      obtain ⟨c, hc, hs⟩ := Option.bind_eq_some_iff.1 h
      rw [if_pos hall]
      exact List.mem_filterMap.2 ⟨c, List.mem_of_mem_head? hc, hs⟩
    · next hall =>
      rw [if_neg hall]
      exact first_mem_all_silent h
  | openaiResponses =>
    dsimp only at h ⊢
    generalize v["type"].strOrEmpty = type at h ⊢
    split at h <;> exact first_mem_all_stop h
  | anthropic =>
    dsimp only at h ⊢
    generalize v["type"].strOrEmpty = type at h ⊢
    split at h <;> exact first_mem_all_stop h
  | gemini => exact first_mem_all_stop h

/-- The chunks of an answer that ended normally end normally. -/
theorem allEndNormally_decodeStream {p : Protocol} {datas : List String}
    (h : EndedNormally p (.stream datas)) : AllEndNormally (decodeStream p datas) := by
  intro chunk hchunk fr hfr
  have hsignal := signals_run_subset p (newStream p) datas
    (List.mem_map_of_mem (f := chunkSignal) hchunk)
  obtain ⟨data, hdata, heq⟩ := List.mem_map.1 hsignal
  have hfirst : (reportOf p data).first.map normalizeFinishReason = some fr :=
    (Prod.mk.inj heq).1.trans hfr
  obtain ⟨raw, hraw, rfl⟩ := Option.map_eq_some_iff.1 hfirst
  refine h.2 raw (List.mem_flatMap.2 ⟨data, hdata, ?_⟩)
  unfold reportOf at hraw ⊢
  cases hdoc : documentOf p data with
  | none =>
    rw [hdoc] at hraw
    exact first_mem_all_silent hraw
  | some v =>
    rw [hdoc] at hraw
    exact first_mem_all p v hraw

/-! ### The marker -/

/-- Protocols with a word for a stop for tools. -/
def HasToolMarker (q : Protocol) : Prop := q = .openaiChat ∨ q = .anthropic

variable [Responses.RandSuffix] [Gemini.HashOrder]

theorem carriesMarker_whole {p q : Protocol} (hq : HasToolMarker q) {v : Value} (hv : v.Normal)
    {out : ClientBody} (h : convert p q (.whole v) = .ok out) :
    CarriesMarker q out ↔ SaysToolStop q (stopReport p v) := by
  rw [convert] at h
  cases hread : responseToIr p v with
  | error e =>
    rw [hread] at h
    exact absurd h error_ne_ok
  | ok read =>
    rw [hread] at h
    rw [← Except.ok.inj h]
    have hreports := reports_responseToIr p hv hread
    rcases hq with rfl | rfl
    · exact marksResponse_chat hreports
    · exact marksResponse_anthropic hreports

theorem carriesMarker_stream {p q : Protocol} (hq : HasToolMarker q) {datas : List String}
    (hend : EndedNormally p (.stream datas)) :
    CarriesMarker q (.stream (streamEvents q (decodeStream p datas) false)) ↔
      UpstreamSaysToolStop p q (.stream datas) := by
  rcases hq with rfl | rfl
  · have hevents : streamEvents .openaiChat (decodeStream p datas) false =
        (Stream.run (fun st chunk ↦ (Chat.chunkFromIr chunk st).toStep) {}
          (decodeStream p datas)).2 := List.append_nil _
    rw [CarriesMarker, hevents, marked_chat, decodeStream, mem_reasons_run, UpstreamSaysToolStop,
      stopsOf]
    simp only [List.mem_flatMap]
    constructor
    · rintro ⟨data, hdata, raw, hraw, hreason⟩
      exact ⟨raw, ⟨data, hdata, hraw⟩, hreason⟩
    · rintro ⟨raw, ⟨data, hdata, hraw⟩, hreason⟩
      exact ⟨data, hdata, raw, hraw, hreason⟩
  · have hrun : CarriesMarker .anthropic
        (.stream (streamEvents .anthropic (decodeStream p datas) false)) ↔
          MarkedRun {} (decodeStream p datas) := Iff.rfl
    rw [hrun, markedRun_pending rfl (allEndNormally_decodeStream hend)
      (fun fr hfr ↦ absurd hfr.symm (Option.some_ne_none fr)) (Or.inr rfl)]
    exact settlesOnTools_run p (newStream p) datas none

/-- A client of Chat or Anthropic is told to run the tools of an answer when the upstream itself said
that it stopped for tools. -/
theorem carriesMarker_iff (p q : Protocol) (hq : HasToolMarker q) (body : UpstreamBody)
    (hbody : body.Normal) (out : ClientBody) (h : convert p q body = .ok out) :
    (ContainsToolCall p body → EndedNormally p body → CarriesMarker q out) ↔
      (ContainsToolCall p body → EndedNormally p body → UpstreamSaysToolStop p q body) := by
  refine forall_congr' fun _ ↦ forall_congr' fun hend ↦ ?_
  cases body with
  | whole v => exact carriesMarker_whole hq hbody h
  | stream datas =>
    rw [← Except.ok.inj h]
    exact carriesMarker_stream hq hend

end Bodies

/-! ### Calls to look up the weather -/

/-- An order of iteration. -/
@[reducible] def keptOrder : Gemini.HashOrder := ⟨id, fun keys ↦ List.Perm.refl keys⟩

/-- Suffixes that do not matter. -/
@[reducible] def plainSuffix : Responses.RandSuffix := ⟨fun _ ↦ ""⟩

section Weather

local instance : SerdeJson := Compact.codec

local instance : Responses.RandSuffix := plainSuffix

local instance : Gemini.HashOrder := keptOrder

/-- Anthropic says that it stopped for a tool. -/
def anthropicCall : Value :=
  .object
    [("content", .arr [.object
      [("type", .str "tool_use"), ("id", .str "toolu_1"), ("name", .str "get_weather"),
        ("input", .obj [])]]),
      ("stop_reason", .str "tool_use")]

theorem carriesMarker_anthropicCall :
    ∃ out, convert .anthropic .openaiChat (.whole anthropicCall) = .ok out ∧
      CarriesMarker .openaiChat out := by
  refine ⟨_, rfl, ?_⟩
  refine (carriesMarker_iff .anthropic .openaiChat (Or.inl rfl) (.whole anthropicCall)
    (show anthropicCall.Normal by decide +kernel) _ rfl).2 (fun _ _ ↦ ?_) ?_ ?_
  · exact ⟨"tool_use", by decide +kernel, by decide +kernel⟩
  · exact ⟨_, List.mem_cons_self, rfl⟩
  · exact ⟨by decide +kernel, by decide +kernel⟩

/-- The same call of a Responses upstream, which is `completed`. -/
def responsesCall : Value :=
  .object
    [("status", .str "completed"),
      ("output", .arr [.object
        [("type", .str "function_call"), ("call_id", .str "call_1"), ("name", .str "get_weather"),
          ("arguments", .str "{}")]])]

/-- The Chat client is told that the answer is complete. -/
theorem not_carriesMarker_responsesCall :
    ContainsToolCall .openaiResponses (.whole responsesCall) ∧
      EndedNormally .openaiResponses (.whole responsesCall) ∧
      ∃ out, convert .openaiResponses .openaiChat (.whole responsesCall) = .ok out ∧
        ¬ CarriesMarker .openaiChat out := by
  refine ⟨⟨_, List.mem_cons_self, rfl⟩, ⟨by decide +kernel, by decide +kernel⟩, _, rfl, ?_⟩
  show "tool_calls" ∉ choiceReasons _
  decide +kernel

end Weather

end NextApi
