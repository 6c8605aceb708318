import NextApi.Protocol.StreamText
import NextApi.Protocol.ToolStopRuns

/-!
# What the Anthropic encoder tells

The stages of a chunk tell its text and its thoughts, and no stop reason (`tells_answerBody`); the
stop reason comes with the `message_delta` (`finishStage`).
-/

set_option autoImplicit false

namespace NextApi.Anthropic

open Json Ir

/-- An event without a stop reason. -/
def StopFree (event : Value) : Prop := ¬ Succeeds .anthropic event

theorem stopFree_iff {event : Value} : StopFree event ↔
    event["delta"]["stop_reason"] = .null ∧ event["message"]["stop_reason"] = .null := by
  rw [StopFree, Succeeds, not_or, not_not, not_not]

/-- The events that are added tell this and have no stop reason. -/
abbrev Quietly := Tells (σ := StreamState) .anthropic StopFree

section Events

variable (idx : UInt32)

theorem stopFree_messageStart (st : StreamState) : StopFree (messageStartEvent st) :=
  stopFree_iff.2 ⟨rfl, rfl⟩

theorem stopFree_blockStart (block : Value) : StopFree (contentBlockStart idx block) :=
  stopFree_iff.2 ⟨rfl, rfl⟩

theorem stopFree_blockStop : StopFree (contentBlockStop idx) := stopFree_iff.2 ⟨rfl, rfl⟩

theorem stopFree_deltaText (text : String) : StopFree (contentBlockDeltaText idx text) :=
  stopFree_iff.2 ⟨rfl, rfl⟩

theorem stopFree_deltaThinking (thinking : String) :
    StopFree (contentBlockDeltaThinking idx thinking) := stopFree_iff.2 ⟨rfl, rfl⟩

theorem stopFree_deltaInputJson (tc : IrToolCallDelta) :
    StopFree (contentBlockDeltaInputJson idx tc) := stopFree_iff.2 ⟨rfl, rfl⟩

end Events

theorem tells_closeOpenBlock (e : Emission StreamState) : Quietly {} e (closeOpenBlock e) := by
  unfold closeOpenBlock
  split
  · exact Tells.emit e _ (stopFree_blockStop _) rfl
  · exact Tells.refl e

theorem tells_openNewBlock (kind : BlockKind) {start : UInt32 → Value}
    (hfree : ∀ idx, StopFree (start idx)) (htold : ∀ idx, toldIn .anthropic (start idx) = {})
    (e : Emission StreamState) : Quietly {} e (openNewBlock kind start e) :=
  Tells.emit e _ (hfree _) (htold _)

theorem tells_startMessage (chunk : IrChunk) (e : Emission StreamState) :
    Quietly {} e (startMessage chunk e) := by
  unfold startMessage
  split
  · exact Tells.refl e
  · exact Tells.emit e _ (stopFree_messageStart _) rfl

/-- A delta is sent in an open block, whichever it is. -/
theorem tells_deltaInBlock (kind : BlockKind) (start delta : UInt32 → Value) {t : Told}
    (hfree : ∀ idx, StopFree (start idx)) (htold : ∀ idx, toldIn .anthropic (start idx) = {})
    (hfree' : ∀ idx, StopFree (delta idx)) (htold' : ∀ idx, toldIn .anthropic (delta idx) = t)
    (e : Emission StreamState) : Quietly t e (deltaInBlock kind start delta e) := by
  unfold deltaInBlock
  generalize hopened : (if e.st.openBlock.map OpenBlock.kind = some kind then e
    else openNewBlock kind start (closeOpenBlock e)) = opened
  have hquiet : Quietly {} e opened := by
    rw [← hopened]
    split
    · exact Tells.refl e
    · exact (tells_closeOpenBlock e).silent_trans (tells_openNewBlock kind hfree htold _)
  have hopen : opened.st.openBlock.isSome = true := by
    rw [← hopened]
    split
    · rename_i hkind
      rw [← Option.isSome_map (f := OpenBlock.kind), hkind]
      rfl
    · rfl
  obtain ⟨b, hb⟩ := Option.isSome_iff_exists.1 hopen
  dsimp only
  rw [hb]
  exact hquiet.silent_trans (Tells.emit opened opened.st (hfree' _) (htold' _))

theorem tells_textStage (content : Option String) (e : Emission StreamState) :
    Quietly ⟨content.getD "", ""⟩ e (textStage content e) := by
  unfold textStage
  split
  · rename_i text
    exact tells_deltaInBlock .text contentBlockStartText (contentBlockDeltaText · text)
      (fun _ ↦ stopFree_blockStart _ _) (fun _ ↦ rfl) (fun _ ↦ stopFree_deltaText _ _)
      (fun _ ↦ rfl) e
  · exact Tells.refl e

theorem tells_thinkingStage (reasoning : Option String) (e : Emission StreamState) :
    Quietly ⟨"", reasoning.getD ""⟩ e (thinkingStage reasoning e) := by
  unfold thinkingStage
  split
  · rename_i rc
    exact tells_deltaInBlock .thinking contentBlockStartThinking (contentBlockDeltaThinking · rc)
      (fun _ ↦ stopFree_blockStart _ _) (fun _ ↦ rfl) (fun _ ↦ stopFree_deltaThinking _ _)
      (fun _ ↦ rfl) e
  · exact Tells.refl e

theorem tells_openToolBlock (tc : IrToolCallDelta) (e : Emission StreamState) :
    Quietly {} e (openToolBlock tc e) := by
  have hopen (e : Emission StreamState) (tc : IrToolCallDelta) :
      Quietly {} e (openNewBlock .tool (contentBlockStartToolUse · tc) e) :=
    tells_openNewBlock .tool (fun _ ↦ stopFree_blockStart _ _) (fun _ ↦ rfl) e
  unfold openToolBlock
  refine (tells_closeOpenBlock e).silent_trans ?_
  dsimp only
  split
  · exact hopen _ _
  · exact hopen _ _

theorem tells_toolDelta (e : Emission StreamState) (tc : IrToolCallDelta) :
    Quietly {} e (toolDelta e tc) := by
  have hnote : Quietly {} e (e.withState (noteToolMeta tc e.st)) := Tells.withState e _
  have hsend (e : Emission StreamState) (b : UInt32) :
      Quietly {} e (e.emit (contentBlockDeltaInputJson b tc)) :=
    Tells.emit e e.st (stopFree_deltaInputJson _ tc) rfl
  unfold toolDelta
  refine hnote.silent_trans ?_
  dsimp only
  split
  · exact hsend _ _
  · exact (tells_openToolBlock tc _).silent_trans (hsend _ _)

theorem tells_toolCalls (toolCalls : List IrToolCallDelta) (e : Emission StreamState) :
    Quietly {} e (toolCalls.foldl toolDelta e) := by
  induction toolCalls generalizing e with
  | nil => exact Tells.refl e
  | cons tc rest ih => exact (tells_toolDelta e tc).silent_trans (ih _)

theorem tells_updateUsage (usage : Option IrUsage) (e : Emission StreamState) :
    Quietly {} e (updateUsage usage e) := by
  unfold updateUsage
  split
  · exact Tells.withState e _
  · exact Tells.refl e

/-- The events of a chunk before the end is looked at tell its text and its thoughts. -/
theorem tells_answerBody (chunk : IrChunk) (st : StreamState) :
    Quietly ⟨chunk.delta.content.getD "", chunk.delta.reasoningContent.getD ""⟩ { st := st }
      (answerBody chunk st) := by
  have htext := (tells_startMessage chunk { st := st }).silent_trans
    (tells_textStage chunk.delta.content _)
  have hboth := htext.trans (tells_thinkingStage chunk.delta.reasoningContent _)
  rw [Told.text_append_thought] at hboth
  exact (hboth.trans_silent (tells_toolCalls _ _)).trans_silent (tells_updateUsage _ _)

/-- A `message_delta` tells nothing, whatever stop reason it has. -/
theorem tells_sendMessageDelta {event : StreamState → Value}
    (htold : ∀ st, toldIn .anthropic (event st) = {}) (e : Emission StreamState) :
    Tells .anthropic (fun _ ↦ True) {} e (sendMessageDelta event e) :=
  Tells.emit e _ trivial (htold _)

theorem tells_finishStage (finishReason : Option String) (usage : Option IrUsage)
    (e : Emission StreamState) :
    Tells .anthropic (fun _ ↦ True) {} e (finishStage finishReason usage e) := by
  have hdelta (fr : String) (e : Emission StreamState) :
      Tells .anthropic (fun _ ↦ True) {} e (sendMessageDelta (messageDeltaEvent fr) e) :=
    tells_sendMessageDelta (fun _ ↦ rfl) e
  unfold finishStage
  split
  · refine ((tells_closeOpenBlock e).mono fun _ _ ↦ trivial).silent_trans ?_
    dsimp only
    split
    · exact tells_sendMessageDelta (fun _ ↦ rfl) _
    · split
      · exact hdelta _ _
      · exact Tells.withState _ _
  · split
    · split
      · exact (Tells.withState e _).silent_trans (hdelta _ _)
      · exact Tells.refl e
    · exact Tells.refl e

/-- The events of a chunk tell its text and its thoughts. -/
theorem tells_chunkFromIr (chunk : IrChunk) (st : StreamState) :
    Tells .anthropic (fun _ ↦ True)
      ⟨chunk.delta.content.getD "", chunk.delta.reasoningContent.getD ""⟩ { st := st }
      (chunkFromIr chunk st) :=
  ((tells_answerBody chunk st).mono fun _ _ ↦ trivial).trans_silent (tells_finishStage _ _ _)

/-- The end of a stream tells nothing. -/
theorem tells_streamEnd (st : StreamState) :
    Tells .anthropic (fun _ ↦ True) {} { st := st } (streamEnd st) := by
  have hend (e : Emission StreamState) : Tells .anthropic (fun _ ↦ True) {} e (endDelta e) := by
    unfold endDelta
    split
    · refine (Tells.withState e { e.st with pendingFinish := none }).silent_trans ?_
      dsimp only
      split
      · split
        · exact tells_sendMessageDelta (fun _ ↦ rfl) _
        · exact tells_sendMessageDelta (fun _ ↦ rfl) _
      · exact tells_sendMessageDelta (fun _ ↦ rfl) _
    · exact Tells.refl e
  have hclosed := ((tells_closeOpenBlock { st := st }).mono fun _ _ ↦ trivial).silent_trans
    (hend (closeOpenBlock { st := st }))
  unfold streamEnd
  dsimp only
  split
  · exact hclosed.silent_trans (Tells.emit _ _ trivial rfl)
  · exact hclosed

end NextApi.Anthropic
