import NextApi.Protocol.ToolStop

/-!
# Stopping for tools in a stream

The events of a stream say how it ends (`eventReport`), and the chunks they are read into say the
same (`reads_chunkToIr`). The Chat encoder writes every finish reason as it comes (`marked_chat`).
The Anthropic encoder sends one stop reason, of the time when the stream settles
(`SettlesOnTools`).
-/

set_option autoImplicit false

namespace NextApi

open Json Ir

/-! ### What the events say -/

/-- What an event says about the end of its stream, and whether it has a usage. -/
structure EventReport where
  all : List String := []
  first : Option String := none
  usage : Bool := false

/-- An event with one stop. -/
def EventReport.stop (raw : Option String) (usage : Bool) : EventReport where
  all := raw.toList
  first := raw
  usage := usage

def eventReport : Protocol → Value → EventReport
  | .openaiChat, v =>
    -- an event with a choice that is no object cannot be read
    if (choicesOf v).all Value.isObject then
      { all := (choicesOf v).filterMap fun choice ↦ choice["finish_reason"].asStr
        first := (choicesOf v).head?.bind fun choice ↦ choice["finish_reason"].asStr
        usage := ((v.get? "usage").filter fun u ↦ !u.isNull).isSome }
    else {}
  | .openaiResponses, v =>
    match v["type"].strOrEmpty with
    | "response.completed" => .stop (some "completed") (v["response"].get? "usage").isSome
    | "response.incomplete" => .stop (some "incomplete") (v["response"].get? "usage").isSome
    | "response.failed" => .stop (some "failed") (v["response"].get? "usage").isSome
    | "error" => .stop (some "failed") false
    | _ => {}
  | .anthropic, v =>
    match v["type"].strOrEmpty with
    | "message_delta" => .stop v["delta"]["stop_reason"].asStr true
    | "error" => .stop (some "failed") true
    | _ => {}
  | .gemini, v => .stop (Gemini.rawFinish v) (v.get? "usageMetadata").isSome

/-- The finish reason of the first choice, normalised, and whether there is a usage. -/
def EventReport.signal (r : EventReport) : Option String × Bool :=
  (r.first.map normalizeFinishReason, r.usage)

/-- The same of a chunk. -/
def chunkSignal (chunk : IrChunk) : Option String × Bool :=
  (chunk.finishReason, chunk.usage.isSome)

/-- The last finish reason was a stop for tools when the first usage came at or after a finish
reason, or at the end when none came; or a stop for tools came later, together with a usage. -/
def SettlesOnTools : Option String → List (Option String × Bool) → Prop
  | last, [] => last = some "tool_calls"
  | last, (finish, usage) :: rest =>
    if usage = true ∧ (finish.or last).isSome = true then
      finish.or last = some "tool_calls" ∨ (some "tool_calls", true) ∈ rest
    else SettlesOnTools (finish.or last) rest

theorem finishReason_eq (chunk : IrChunk) :
    chunk.finishReason = chunk.choices.head?.bind IrChunkChoice.finishReason := by
  unfold IrChunk.finishReason
  cases chunk.choices <;> rfl

/-- The chunk says what the report says. -/
structure Reads (o : Option IrChunk) (r : EventReport) : Prop where
  all : ((o.map IrChunk.choices).getD []).filterMap IrChunkChoice.finishReason =
    r.all.map normalizeFinishReason
  first : o.bind IrChunk.finishReason = r.first.map normalizeFinishReason
  usage : (o.bind IrChunk.usage).isSome = r.usage

theorem reads_none : Reads none {} := ⟨rfl, rfl, rfl⟩

/-- A chunk with one choice. -/
theorem reads_stop {chunk : IrChunk} {choice : IrChunkChoice} (raw : Option String)
    (usage : Bool) (hchoices : chunk.choices = [choice])
    (hfinish : choice.finishReason = raw.map normalizeFinishReason)
    (husage : chunk.usage.isSome = usage) : Reads (some chunk) (.stop raw usage) := by
  refine ⟨?_, ?_, husage⟩
  · rw [Option.map_some, Option.getD_some, hchoices, List.filterMap_cons, hfinish]
    cases raw <;> rfl
  · rw [Option.bind_some, IrChunk.finishReason, hchoices]
    exact hfinish

/-- A chunk that says nothing about the end. -/
theorem reads_silent {chunk : IrChunk} {choice : IrChunkChoice} (hchoices : chunk.choices = [choice])
    (hfinish : choice.finishReason = none) (husage : chunk.usage = none) :
    Reads (some chunk) {} := by
  refine reads_stop none false hchoices hfinish ?_
  rw [husage]
  rfl

section Reading

variable [SerdeJson]

omit [SerdeJson] in
theorem reads_responses (v : Value) (st : Responses.StreamState) :
    Reads (chunkOf (Responses.chunkToIr v st)) (eventReport .openaiResponses v) := by
  unfold Responses.chunkToIr eventReport
  by_cases hobj : v.isObject = true
  · rw [if_pos hobj]
    have husage : ∀ fr, (Responses.finishChunk v st fr).usage.isSome =
        (v["response"].get? "usage").isSome := fun fr ↦ Option.isSome_map
    dsimp only
    generalize v["type"].strOrEmpty = type
    split
    · exact reads_none
    · unfold Responses.readItemAdded
      dsimp only
      split <;> exact reads_none
    · unfold Responses.readItemDone
      dsimp only
      split
      · split <;> exact reads_none
      · exact reads_none
    · unfold Responses.readTextDelta
      dsimp only
      split
      · exact reads_none
      · exact reads_silent rfl rfl rfl
    · unfold Responses.readReasoningDelta
      dsimp only
      split
      · exact reads_none
      · exact reads_silent rfl rfl rfl
    · unfold Responses.readArgumentsDelta
      dsimp only
      split
      · exact reads_none
      · split
        · exact reads_none
        · exact reads_silent rfl rfl rfl
    · exact reads_stop _ _ rfl rfl (husage _)
    · exact reads_stop _ _ rfl rfl (husage _)
    · exact reads_stop _ _ rfl rfl (husage _)
    · exact reads_stop _ _ rfl rfl rfl
    · show Reads none _
      split <;> first | contradiction | exact reads_none
  · cases v with
    | obj members => exact absurd rfl hobj
    | _ => exact reads_none

omit [SerdeJson] in
theorem reads_anthropic (v : Value) (st : Anthropic.StreamState) :
    Reads (chunkOf (Anthropic.chunkToIr v st)) (eventReport .anthropic v) := by
  unfold Anthropic.chunkToIr eventReport
  by_cases hobj : v.isObject = true
  · rw [if_pos hobj]
    dsimp only
    generalize v["type"].strOrEmpty = type
    split
    · exact reads_silent rfl rfl rfl
    · unfold Anthropic.readBlockStart
      dsimp only
      split
      · exact reads_none
      · exact reads_none
      · exact reads_silent rfl rfl rfl
      · exact reads_none
    · unfold Anthropic.readBlockDelta
      dsimp only
      split
      · exact reads_silent rfl rfl rfl
      · exact reads_silent rfl rfl rfl
      · split
        · exact reads_silent rfl rfl rfl
        · exact reads_none
      · exact reads_none
    · unfold Anthropic.readBlockStop
      split <;> exact reads_none
    · exact reads_stop _ _ rfl rfl rfl
    · exact reads_none
    · exact reads_none
    · exact reads_stop _ _ rfl rfl rfl
    · show Reads none _
      split <;> first | contradiction | exact reads_none
  · cases v with
    | obj members => exact absurd rfl hobj
    | _ => exact reads_none

theorem reads_gemini (v : Value) (st : Gemini.StreamState) :
    Reads (chunkOf (Gemini.chunkToIr v st)) (eventReport .gemini v) := by
  unfold Gemini.chunkToIr eventReport
  cases v with
  | obj obj =>
    dsimp only [Value.asObject, chunkOf]
    split
    · next hsilent =>
      rw [Bool.and_eq_true, Bool.and_eq_true, Option.isNone_iff_eq_none, Option.isNone_map,
        Option.isNone_iff_eq_none] at hsilent
      rw [hsilent.1.1, hsilent.1.2]
      exact reads_none
    · exact reads_stop _ _ rfl rfl Option.isSome_map
  | _ => exact reads_none

omit [SerdeJson] in
theorem isObject_of_parseChunkChoice (choice : Value) (read : IrChunkChoice × ConvCtx)
    (h : Chat.parseChunkChoice choice = .ok read) :
    choice.isObject = true ∧
      read.1.finishReason = choice["finish_reason"].asStr.map normalizeFinishReason := by
  unfold Chat.parseChunkChoice at h
  split at h
  · next hobj =>
    rw [← Except.ok.inj h]
    exact ⟨hobj, rfl⟩
  · exact absurd h error_ne_ok

omit [SerdeJson] in
theorem mapM_parseChunkChoice {items : List Value} (h : items.all Value.isObject = true) :
    ∃ read, items.mapM Chat.parseChunkChoice = .ok read := by
  induction items with
  | nil => exact ⟨[], rfl⟩
  | cons c rest ih =>
    rw [List.all_cons, Bool.and_eq_true] at h
    obtain ⟨read, hread⟩ := ih h.2
    rw [List.mapM_cons, hread, Chat.parseChunkChoice, if_pos h.1]
    exact ⟨_, rfl⟩

omit [SerdeJson] in
/-- All choices of a chunk that is read are objects. -/
theorem all_isObject_of_mapM {items : List Value} {read : List (IrChunkChoice × ConvCtx)}
    (h : items.mapM Chat.parseChunkChoice = .ok read) : items.all Value.isObject = true := by
  have hobjects : read.map (fun _ ↦ true) = items.map Value.isObject :=
    map_eq_of_mapM (fun choice r h ↦ (isObject_of_parseChunkChoice choice r h).1.symm) h
  refine List.all_eq_true.2 fun choice hc ↦ ?_
  have hmem := List.mem_map_of_mem (f := Value.isObject) hc
  rw [← hobjects] at hmem
  obtain ⟨-, -, htrue⟩ := List.mem_map.1 hmem
  exact htrue.symm

omit [SerdeJson] in
theorem reads_chat (v : Value) (st : Chat.StreamState) :
    Reads (chunkOf (Chat.chunkToIr v st)) (eventReport .openaiChat v) := by
  unfold Chat.chunkToIr eventReport
  cases v with
  | obj obj =>
    dsimp only [Value.asObject]
    rw [← choicesOf]
    cases hitems : (choicesOf (.obj obj)).mapM Chat.parseChunkChoice with
    | error e =>
      rw [if_neg]
      · exact reads_none
      · intro hall
        obtain ⟨read, hread⟩ := mapM_parseChunkChoice hall
        exact absurd (hitems.symm.trans hread) error_ne_ok
    | ok read =>
      have hfinish : (read.map Prod.fst).map IrChunkChoice.finishReason =
          (choicesOf (.obj obj)).map fun choice ↦
            choice["finish_reason"].asStr.map normalizeFinishReason := by
        rw [List.map_map]
        exact map_eq_of_mapM (fun choice r h ↦ (isObject_of_parseChunkChoice choice r h).2) hitems
      obtain ⟨hreasons, hfirst⟩ := reports_of_map hfinish
      rw [if_pos (all_isObject_of_mapM hitems)]
      refine ⟨hreasons, ?_, Option.isSome_map⟩
      dsimp only [chunkOf]
      rw [Option.bind_some, finishReason_eq]
      exact hfirst
  | _ => exact reads_none

/-- The document of an event, if its payload is one. -/
def documentOf (p : Protocol) (data : String) : Option Value :=
  if p = .openaiChat ∧ Text.trim data.toList = Chat.doneMarker.toList then none
  else (SerdeJson.ofText data).toOption

/-- What the payload of an event says; one that is no document says nothing. -/
def reportOf (p : Protocol) (data : String) : EventReport :=
  ((documentOf p data).map (eventReport p)).getD {}

/-- The chunk of an event says what its document says. -/
theorem reads_chunkToIr (p : Protocol) (data : String) (st : StreamStateOf p) :
    Reads (chunkOf (chunkToIr p data st)) (reportOf p data) := by
  unfold reportOf documentOf
  cases p with
  | openaiChat =>
    rw [chunkToIr]
    unfold Chat.chunkToIrText
    by_cases hdone : Text.trim data.toList = Chat.doneMarker.toList
    · rw [if_pos hdone, if_pos ⟨rfl, hdone⟩]
      exact reads_none
    · rw [if_neg hdone, if_neg fun h ↦ hdone h.2]
      cases SerdeJson.ofText data with
      | ok v => exact reads_chat v st
      | error e => exact reads_none
  | openaiResponses =>
    rw [chunkToIr, if_neg fun h ↦ absurd h.1 (by decide)]
    unfold Responses.chunkToIrText
    cases SerdeJson.ofText data with
    | ok v => exact reads_responses v st
    | error e => exact reads_none
  | anthropic =>
    rw [chunkToIr, if_neg fun h ↦ absurd h.1 (by decide)]
    unfold Anthropic.chunkToIrText
    cases SerdeJson.ofText data with
    | ok v => exact reads_anthropic v st
    | error e => exact reads_none
  | gemini =>
    rw [chunkToIr, if_neg fun h ↦ absurd h.1 (by decide)]
    unfold Gemini.chunkToIrText
    cases SerdeJson.ofText data with
    | ok v => exact reads_gemini v st
    | error e => exact reads_none

/-! ### When a stream settles -/

omit [SerdeJson] in
/-- Something that says nothing changes nothing. -/
theorem settlesOnTools_silent (last : Option String) (rest : List (Option String × Bool)) :
    SettlesOnTools last ((none, false) :: rest) ↔ SettlesOnTools last rest := by
  rw [SettlesOnTools, if_neg fun h ↦ Bool.false_ne_true h.1, Option.none_or]

theorem signals_decodeStep (p : Protocol) (st : StreamStateOf p) (data : String) :
    (decodeStep p st data).2.map chunkSignal = [(reportOf p data).signal] ∨
      (decodeStep p st data).2.map chunkSignal = [] ∧ (reportOf p data).signal = (none, false) := by
  have hreads := reads_chunkToIr p data st
  rw [decodeStep]
  cases hchunk : chunkOf (chunkToIr p data st) with
  | none =>
    rw [hchunk] at hreads
    refine Or.inr ⟨rfl, ?_⟩
    rw [EventReport.signal, ← hreads.first, ← hreads.usage]
    rfl
  | some chunk =>
    rw [hchunk] at hreads
    refine Or.inl (congrArg (fun signal ↦ [signal]) ?_)
    rw [EventReport.signal, ← hreads.first, ← hreads.usage]
    rfl

theorem mem_signals_run (p : Protocol) (st : StreamStateOf p) (datas : List String) :
    (some "tool_calls", true) ∈ (Stream.run (decodeStep p) st datas).2.map chunkSignal ↔
      (some "tool_calls", true) ∈ datas.map fun data ↦ (reportOf p data).signal := by
  induction datas generalizing st with
  | nil => exact Iff.rfl
  | cons data rest ih =>
    rw [Stream.run_cons, List.map_append, List.mem_append, ih, List.map_cons, List.mem_cons]
    refine or_congr_left' fun _ ↦ ?_
    rcases signals_decodeStep p st data with h | ⟨h, hsilent⟩
    · rw [h, List.mem_singleton]
    · rw [h, hsilent]
      exact iff_of_false List.not_mem_nil (by decide)

/-- The chunks settle as the events do. -/
theorem settlesOnTools_run (p : Protocol) (st : StreamStateOf p) (datas : List String)
    (last : Option String) :
    SettlesOnTools last ((Stream.run (decodeStep p) st datas).2.map chunkSignal) ↔
      SettlesOnTools last (datas.map fun data ↦ (reportOf p data).signal) := by
  induction datas generalizing st last with
  | nil => exact Iff.rfl
  | cons data rest ih =>
    rw [Stream.run_cons, List.map_append, List.map_cons]
    rcases signals_decodeStep p st data with h | ⟨h, hsilent⟩
    · rw [h, List.singleton_append, SettlesOnTools, SettlesOnTools, mem_signals_run, ih]
    · rw [h, hsilent, List.nil_append, settlesOnTools_silent, ih]

/-- The finish reasons of all choices of the chunks are those of the events. -/
theorem mem_reasons_run (p : Protocol) (st : StreamStateOf p) (datas : List String)
    (reason : String) :
    (∃ chunk ∈ (Stream.run (decodeStep p) st datas).2,
        reason ∈ chunk.choices.filterMap IrChunkChoice.finishReason) ↔
      ∃ data ∈ datas, ∃ raw ∈ (reportOf p data).all, normalizeFinishReason raw = reason := by
  induction datas generalizing st with
  | nil => exact iff_of_false (by simp) (by simp)
  | cons data rest ih =>
    have hreads := reads_chunkToIr p data st
    have hstep : (∃ chunk ∈ (decodeStep p st data).2,
        reason ∈ chunk.choices.filterMap IrChunkChoice.finishReason) ↔
          ∃ raw ∈ (reportOf p data).all, normalizeFinishReason raw = reason := by
      rw [← List.mem_map, ← hreads.all, decodeStep]
      cases chunkOf (chunkToIr p data st) <;> simp
    rw [Stream.run_cons]
    simp only [List.mem_append, or_and_right, exists_or, List.mem_cons, exists_eq_left]
    rw [hstep, ih]

end Reading

/-! ### Markers in a stream -/

/-- The event carries the marker of its protocol, if that has one. -/
def MarksEvent : Protocol → Value → Prop
  | .openaiChat, e => "tool_calls" ∈ choiceReasons e
  | .anthropic, e =>
    e["type"].asStr = some "message_delta" ∧ e["delta"]["stop_reason"].asStr = some "tool_use"
  | _, _ => False

theorem choiceReasons_chunkFromIr (chunk : IrChunk) (st : Chat.StreamState) :
    ∃ event, (Chat.chunkFromIr chunk st).events = [event] ∧
      choiceReasons event = chunk.choices.filterMap IrChunkChoice.finishReason := by
  refine ⟨_, rfl, ?_⟩
  have hchoices : ∀ extra usage, (Value.obj (Map.insertPresent extra
      [("id", some (.str chunk.id)), ("model", some (.str chunk.model)),
        ("created", some (.int chunk.created)),
        ("choices", some (.arr (chunk.choices.map Chat.chunkChoiceToJson))),
        ("usage", usage)])).get? "choices" =
          some (.arr (chunk.choices.map Chat.chunkChoiceToJson)) := by
    intro extra usage
    simp
  rw [choiceReasons, choicesOf, hchoices]
  show (chunk.choices.map Chat.chunkChoiceToJson).filterMap _ = _
  rw [List.filterMap_map]
  refine List.filterMap_congr fun choice _ ↦ ?_
  cases hfinish : choice.finishReason <;> simp [Chat.chunkChoiceToJson, hfinish]

/-- The Chat encoder writes the finish reasons of all choices. -/
theorem marked_chat (st : Chat.StreamState) (chunks : List IrChunk) :
    (∃ e ∈ (Stream.run (fun st chunk ↦ (Chat.chunkFromIr chunk st).toStep) st chunks).2,
        MarksEvent .openaiChat e) ↔
      ∃ chunk ∈ chunks, "tool_calls" ∈ chunk.choices.filterMap IrChunkChoice.finishReason := by
  induction chunks generalizing st with
  | nil => exact iff_of_false (by simp) (by simp)
  | cons chunk rest ih =>
    obtain ⟨event, hevents, hreasons⟩ := choiceReasons_chunkFromIr chunk st
    rw [Stream.run_cons]
    simp only [List.mem_append, or_and_right, exists_or, List.mem_cons, exists_eq_left]
    rw [ih, Emission.toStep, hevents]
    simp only [List.mem_singleton, exists_eq_left]
    rw [MarksEvent, hreasons]

end NextApi
