import NextApi.Protocol.Responses.StreamTrace
import NextApi.Protocol.StreamText

/-!
# What the Responses encoder tells

The stages of a chunk tell its text and its thoughts, and leave alone what the end depends on
(`tells_chunkBody`). Whether the response succeeded is said by the terminal event only.
-/

set_option autoImplicit false

namespace NextApi.Responses

open Json Ir

/-- An event that is not a terminal one of success. -/
def Unfinished (event : Value) : Prop := ¬ Succeeds .openaiResponses event

theorem unfinished_of_type (type : String) {event : Value}
    (h : event["type"].strOrEmpty = type) (hcompleted : type ≠ "response.completed")
    (hincomplete : type ≠ "response.incomplete") : Unfinished event := by
  rw [Unfinished, Succeeds, h]
  exact not_or_intro hcompleted hincomplete

theorem unfinished_itemAdded (index : UInt32) (item : Value) :
    Unfinished (itemAddedEvent index item) :=
  unfinished_of_type "response.output_item.added" rfl (by decide) (by decide)

/-- The events that are added tell this and are no terminal ones, and the end is left alone. -/
structure Quietly (t : Told) (e e' : Emission StreamState) : Prop where
  tells : Tells .openaiResponses Unfinished t e e'
  same : SameEnd e.st e'.st

theorem Quietly.refl (e : Emission StreamState) : Quietly {} e e := ⟨Tells.refl e, SameEnd.refl _⟩

theorem Quietly.trans {t u : Told} {e e' e'' : Emission StreamState} (h : Quietly t e e')
    (h' : Quietly u e' e'') : Quietly (t ++ u) e e'' :=
  ⟨h.tells.trans h'.tells, h.same.trans h'.same⟩

theorem Quietly.silent_trans {t : Told} {e e' e'' : Emission StreamState} (h : Quietly {} e e')
    (h' : Quietly t e' e'') : Quietly t e e'' :=
  ⟨h.tells.silent_trans h'.tells, h.same.trans h'.same⟩

theorem Quietly.trans_silent {t : Told} {e e' e'' : Emission StreamState} (h : Quietly t e e')
    (h' : Quietly {} e' e'') : Quietly t e e'' :=
  ⟨h.tells.trans_silent h'.tells, h.same.trans h'.same⟩

section Stages

variable [RandSuffix]

theorem quietly_addMessage (e : Emission StreamState) : Quietly {} e (addMessage e) := by
  unfold addMessage
  split
  · exact Quietly.refl e
  · exact ⟨Tells.emit e _ (unfinished_itemAdded _ _) rfl, ⟨rfl, rfl, rfl, rfl⟩⟩

theorem quietly_addReasoning (e : Emission StreamState) : Quietly {} e (addReasoning e) := by
  unfold addReasoning
  split
  · exact Quietly.refl e
  · exact ⟨Tells.emit e _ (unfinished_itemAdded _ _) rfl, ⟨rfl, rfl, rfl, rfl⟩⟩

theorem quietly_addTool (tc : IrToolCallDelta) (e : Emission StreamState) :
    Quietly {} e (addTool tc e) := by
  unfold addTool
  split
  · exact Quietly.refl e
  · exact ⟨Tells.emit e _ (unfinished_itemAdded _ _) rfl, ⟨rfl, rfl, rfl, rfl⟩⟩

theorem quietly_contentStage (content : Option String) (e : Emission StreamState) :
    Quietly ⟨content.getD "", ""⟩ e (contentStage content e) := by
  unfold contentStage
  split
  · rename_i text
    split
    · rename_i hempty
      rw [hempty]
      exact Quietly.refl e
    · refine (quietly_addMessage e).silent_trans ⟨Tells.emit _ _ ?_ rfl, ⟨rfl, rfl, rfl, rfl⟩⟩
      exact unfinished_of_type "response.output_text.delta" rfl (by decide) (by decide)
  · exact Quietly.refl e

theorem quietly_reasoningStage (reasoning : Option String) (e : Emission StreamState) :
    Quietly ⟨"", reasoning.getD ""⟩ e (reasoningStage reasoning e) := by
  unfold reasoningStage
  split
  · rename_i text
    split
    · rename_i hempty
      rw [hempty]
      exact Quietly.refl e
    · refine (quietly_addReasoning e).silent_trans ⟨Tells.emit _ _ ?_ rfl, ⟨rfl, rfl, rfl, rfl⟩⟩
      exact unfinished_of_type "response.reasoning_summary_text.delta" rfl (by decide) (by decide)
  · exact Quietly.refl e

theorem quietly_toolStage (e : Emission StreamState) (tc : IrToolCallDelta) :
    Quietly {} e (toolStage e tc) := by
  unfold toolStage
  refine (quietly_addTool tc e).silent_trans ?_
  dsimp only
  split
  · refine ⟨Tells.emit _ _ ?_ rfl, ⟨rfl, rfl, rfl, rfl⟩⟩
    exact unfinished_of_type "response.function_call_arguments.delta" rfl (by decide) (by decide)
  · exact Quietly.refl _

theorem quietly_toolCalls (toolCalls : List IrToolCallDelta) (e : Emission StreamState) :
    Quietly {} e (toolCalls.foldl toolStage e) := by
  induction toolCalls generalizing e with
  | nil => exact Quietly.refl e
  | cons tc rest ih => exact (quietly_toolStage e tc).silent_trans (ih _)

/-- The answer to a chunk up to the terminal event. -/
structure Answered (chunk : IrChunk) (st : StreamState) (e : Emission StreamState) : Prop where
  tells : Tells .openaiResponses Unfinished
    ⟨chunk.delta.content.getD "", chunk.delta.reasoningContent.getD ""⟩ { st := st } e
  completed : e.st.completed = st.completed
  lastUsage : e.st.lastUsage = chunk.usage.or st.lastUsage
  pendingFinish : e.st.pendingFinish = chunk.finishReason.or st.pendingFinish

theorem answered_chunkBody (chunk : IrChunk) (st : StreamState) :
    Answered chunk st (chunkBody chunk st) := by
  have hstart : Tells .openaiResponses Unfinished {} { st := st }
      (startResponse chunk { st := st }) := by
    unfold startResponse
    split
    · exact Tells.refl _
    · exact Tells.emit _ _ (unfinished_of_type "response.created" rfl (by decide) (by decide)) rfl
  have hsame : (startResponse chunk { st := st }).st.completed = st.completed ∧
      (startResponse chunk { st := st }).st.lastUsage = st.lastUsage ∧
      (startResponse chunk { st := st }).st.pendingFinish = st.pendingFinish := by
    unfold startResponse
    split <;> exact ⟨rfl, rfl, rfl⟩
  have hboth := (quietly_contentStage chunk.delta.content
    (startResponse chunk { st := st })).trans
      (quietly_reasoningStage chunk.delta.reasoningContent _)
  rw [Told.text_append_thought] at hboth
  have hall := hboth.trans_silent (quietly_toolCalls chunk.delta.toolCalls _)
  refine ⟨(hstart.silent_trans hall.tells).trans_silent (Tells.withState _ _), ?_, ?_, ?_⟩
  · exact hall.same.completed.trans hsame.1
  · exact congrArg (chunk.usage.or ·) (hall.same.lastUsage.trans hsame.2.1)
  · exact congrArg (chunk.finishReason.or ·) (hall.same.pendingFinish.trans hsame.2.2)

omit [RandSuffix] in
/-- The terminal event tells nothing. -/
theorem tells_sendTerminal (finishReason : Option String) (e : Emission StreamState) :
    Tells .openaiResponses (fun _ ↦ True) {} e (sendTerminal finishReason e) := by
  have hevents : (sendTerminal finishReason e).events = e.events ++
      [responseEvent (terminalOf finishReason).2
        (buildFinalResponse e.st (terminalOf finishReason).1).1] := rfl
  refine ⟨_, hevents, fun _ _ ↦ trivial, (told_singleton _ _).trans ?_⟩
  generalize (buildFinalResponse e.st (terminalOf finishReason).1).1 = response
  unfold terminalOf
  split <;> rfl

/-- The events of a chunk tell its text and its thoughts. -/
theorem tells_chunkFromIr (chunk : IrChunk) (st : StreamState) :
    Tells .openaiResponses (fun _ ↦ True)
      ⟨chunk.delta.content.getD "", chunk.delta.reasoningContent.getD ""⟩ { st := st }
      (chunkFromIr chunk st) := by
  have hbody := (answered_chunkBody chunk st).tells.mono (Q := fun _ ↦ True) fun _ _ ↦ trivial
  rw [chunkFromIr_eq]
  by_cases hdue : Due (chunkBody chunk st).st
  · rw [finishStage_of_due hdue]
    exact (hbody.trans_silent (Tells.withState _ _)).trans_silent (tells_sendTerminal _ _)
  · rw [finishStage_of_not_due hdue]
    exact hbody

omit [RandSuffix] in
/-- The end of a stream tells nothing. -/
theorem tells_streamEnd (st : StreamState) :
    Tells .openaiResponses (fun _ ↦ True) {} { st := st } (streamEnd st) := by
  unfold streamEnd
  split
  · exact Tells.refl _
  · obtain ⟨new, hnew, hall, htold⟩ := tells_sendTerminal st.pendingFinish
      { st := { st with completed := true, pendingFinish := none } }
    exact ⟨new, hnew, hall, htold⟩

end Stages

end NextApi.Responses
