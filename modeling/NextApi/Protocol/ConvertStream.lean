import NextApi.Protocol.Anthropic.StreamText
import NextApi.Protocol.Gemini.StreamText
import NextApi.Protocol.Responses.StreamText

/-!
# Converted streams

An event of the upstream is read into a chunk, the chunk gets the model name of the gateway, and is
written for the client (`processConvertFrame`). When the upstream ends, or breaks off, the encoder
sends what is due (`sseConvertStream`).

An encoder tells the text and the thoughts of the first choice of every chunk (`told_chunkFromIr`),
and nothing at the end (`told_streamEnd`).
-/

set_option autoImplicit false

namespace NextApi

open Json Ir

section Convert

variable [SerdeJson] [Responses.RandSuffix] [Gemini.HashOrder]

/-- The states of the two adapters. -/
structure ConvertState (p q : Protocol) where
  fromState : StreamStateOf p
  toState : StreamStateOf q

def newConvert (p q : Protocol) : ConvertState p q := ⟨newStream p, newStream q⟩

/-- One event of the upstream. An event that cannot be read, or says nothing, is left out. -/
def processConvertFrame (p q : Protocol) (gatewayModel : String) (st : ConvertState p q)
    (data : String) : ConvertState p q × List Value :=
  let read := chunkToIr p data st.fromState
  match chunkOf read with
  | some chunk =>
    let sent := chunkFromIr q { chunk with model := gatewayModel } st.toState
    (⟨read.st, sent.st⟩, sent.events)
  | none => (⟨read.st, st.toState⟩, [])

/-- The events for the client, of the payloads of an upstream that ends or breaks off. -/
def sseConvertStream (p q : Protocol) (gatewayModel : String) (datas : List String)
    (broken : Bool) : List Value :=
  let (st, events) := Stream.run (processConvertFrame p q gatewayModel) (newConvert p q) datas
  events ++ streamEnd q st.toState broken

/-! ### What the encoders tell -/

/-- What a chunk tells. -/
def toldByChunk (chunk : IrChunk) : Told :=
  ⟨chunk.delta.content.getD "", chunk.delta.reasoningContent.getD ""⟩

/-- A chunk with at most one choice, the first. -/
def OneChoice (chunk : IrChunk) : Prop :=
  chunk.choices = [] ∨ ∃ choice, chunk.choices = [choice] ∧ choice.index = 0

omit [SerdeJson] [Responses.RandSuffix] [Gemini.HashOrder] in
theorem Tells.told_eq {σ : Type} {p : Protocol} {P : Value → Prop} {t : Told} {st : σ}
    {e : Emission σ} (h : Tells p P t { st := st } e) : told p e.events = t := by
  obtain ⟨new, hevents, -, htold⟩ := h
  rw [hevents]
  exact htold

omit [SerdeJson] [Responses.RandSuffix] [Gemini.HashOrder] in
/-- The choices of a Chat event are those of the chunk. -/
theorem choicesOf_chunkFromIr (chunk : IrChunk) (st : Chat.StreamState) :
    ∃ event, (Chat.chunkFromIr chunk st).events = [event] ∧
      choicesOf event = chunk.choices.map Chat.chunkChoiceToJson := by
  refine ⟨_, rfl, ?_⟩
  rw [choicesOf, Value.get?_obj, Map.get?_insertPresent (by simp)]
  rfl

omit [SerdeJson] [Responses.RandSuffix] [Gemini.HashOrder] in
theorem told_chat {chunk : IrChunk} (h : OneChoice chunk) (st : Chat.StreamState) :
    told .openaiChat (Chat.chunkFromIr chunk st).events = toldByChunk chunk := by
  obtain ⟨event, hevents, hchoices⟩ := choicesOf_chunkFromIr chunk st
  rw [hevents, told_singleton, toldIn, hchoices, toldByChunk, IrChunk.delta]
  rcases h with hnone | ⟨choice, hone, hindex⟩
  · rw [hnone]
    rfl
  · rw [hone, List.map_singleton]
    have hfirst : isFirst (Chat.chunkChoiceToJson choice) = true := by
      have hget : (Chat.chunkChoiceToJson choice).get? "index" = some (.ofNat 0) := by
        rw [Chat.chunkChoiceToJson, Value.get?_obj, Map.get?_insertPresent (by simp), hindex]
        rfl
      rw [isFirst, Value.getElem_eq, hget]
      rfl
    have htold : toldByChoice (Chat.chunkChoiceToJson choice) =
        ⟨choice.delta.content.getD "", choice.delta.reasoningContent.getD ""⟩ := by
      have hdelta : (Chat.chunkChoiceToJson choice)["delta"] = Chat.deltaToJson choice.delta := by
        rw [Value.getElem_eq, Chat.chunkChoiceToJson, Value.get?_obj,
          Map.get?_insertPresent (by simp)]
        rfl
      have hmember (key : String) (value : Option String) (hget :
          (Chat.deltaToJson choice.delta).get? key = value.map .str) :
          (Chat.deltaToJson choice.delta)[key].strOrEmpty = value.getD "" := by
        rw [Value.getElem_eq, hget]
        cases value <;> rfl
      rw [toldByChoice, hdelta, hmember "content" choice.delta.content, hmember "reasoning_content"
        choice.delta.reasoningContent]
      · rw [Chat.deltaToJson, Value.get?_obj, Map.get?_insertPresent (by simp)]
        simp [Map.written]
      · rw [Chat.deltaToJson, Value.get?_obj, Map.get?_insertPresent (by simp)]
        simp [Map.written]
    rw [List.filter_cons_of_pos hfirst, List.filter_nil, List.map_singleton, Told.join_singleton,
      htold]

/-- An encoder tells what the chunk tells. -/
theorem told_chunkFromIr (q : Protocol) {chunk : IrChunk} (h : q = .openaiChat → OneChoice chunk)
    (st : StreamStateOf q) : told q (chunkFromIr q chunk st).events = toldByChunk chunk := by
  cases q with
  | openaiChat => exact told_chat (h rfl) st
  | openaiResponses => exact (Responses.tells_chunkFromIr chunk st).told_eq
  | anthropic => exact (Anthropic.tells_chunkFromIr chunk st).told_eq
  | gemini => exact Gemini.told_chunkFromIr chunk st

omit [Responses.RandSuffix] in
/-- Nothing is told at the end. -/
theorem told_streamEnd (q : Protocol) (st : StreamStateOf q) (broken : Bool) :
    told q (streamEnd q st broken) = {} := by
  cases q with
  | openaiChat => rfl
  | openaiResponses => exact (Responses.tells_streamEnd _).told_eq
  | anthropic => exact (Anthropic.tells_streamEnd _).told_eq
  | gemini => exact Gemini.told_streamEnd st

end Convert

/-! ### What the decoders read -/

/-- What a reader takes from an event: of Chat and Gemini what the choice or candidate that stands
first tells, and of several Gemini thoughts the last one. -/
def toldFirst : Protocol → Value → Told
  | .openaiChat, v => ((choicesOf v).head?.map toldByChoice).getD {}
  | .gemini, v =>
    let parts := ((((Gemini.candidatesIn v).head?).bind fun c ↦ c.get? "content").map
      Gemini.partsOf).getD []
    ⟨String.join (parts.filterMap Gemini.textOf),
      (parts.filterMap Gemini.thoughtOf).getLast?.getD ""⟩
  | p, v => toldIn p v

/-- What the reader's answer tells. -/
def toldByAnswer (answer : Option IrChunk) : Told := (answer.map toldByChunk).getD {}

/-- The answer tells this, of one choice at most. -/
structure IsTold (answer : Option IrChunk) (t : Told) : Prop where
  told : toldByAnswer answer = t
  one : ∀ chunk, answer = some chunk → OneChoice chunk

theorem isTold_none : IsTold none {} := ⟨rfl, fun _ h ↦ nomatch h⟩

/-- A chunk with one choice. -/
theorem isTold_choice {chunk : IrChunk} {choice : IrChunkChoice} {t : Told}
    (hchoices : chunk.choices = [choice]) (hindex : choice.index = 0)
    (ht : ⟨choice.delta.content.getD "", choice.delta.reasoningContent.getD ""⟩ = t) :
    IsTold (some chunk) t := by
  refine ⟨?_, fun other h ↦ Or.inr ⟨choice, Option.some.inj h ▸ hchoices, hindex⟩⟩
  rw [toldByAnswer, Option.map_some, Option.getD_some, toldByChunk, IrChunk.delta, hchoices]
  exact ht

theorem isTold_responses (v : Value) (st : Responses.StreamState) :
    IsTold (chunkOf (Responses.chunkToIr v st)) (toldIn .openaiResponses v) := by
  unfold Responses.chunkToIr toldIn
  by_cases hobj : v.isObject = true
  · rw [if_pos hobj]
    dsimp only
    generalize v["type"].strOrEmpty = type
    split
    · exact isTold_none
    · unfold Responses.readItemAdded
      dsimp only
      split <;> exact isTold_none
    · unfold Responses.readItemDone
      dsimp only
      split
      · split <;> exact isTold_none
      · exact isTold_none
    · unfold Responses.readTextDelta
      dsimp only
      split
      · rename_i hempty
        rw [hempty]
        exact isTold_none
      · exact isTold_choice rfl rfl rfl
    · unfold Responses.readReasoningDelta
      dsimp only
      split
      · rename_i hempty
        rw [hempty]
        exact isTold_none
      · exact isTold_choice rfl rfl rfl
    · unfold Responses.readArgumentsDelta
      dsimp only
      split
      · exact isTold_none
      · split
        · exact isTold_none
        · exact isTold_choice rfl rfl rfl
    · exact isTold_choice rfl rfl rfl
    · exact isTold_choice rfl rfl rfl
    · exact isTold_choice rfl rfl rfl
    · exact isTold_choice rfl rfl rfl
    · show IsTold none _
      split <;> first | contradiction | exact isTold_none
  · cases v with
    | obj members => exact absurd rfl hobj
    | _ => exact isTold_none

theorem isTold_anthropic (v : Value) (st : Anthropic.StreamState) :
    IsTold (chunkOf (Anthropic.chunkToIr v st)) (toldIn .anthropic v) := by
  unfold Anthropic.chunkToIr toldIn
  by_cases hobj : v.isObject = true
  · rw [if_pos hobj]
    dsimp only
    generalize v["type"].strOrEmpty = type
    split
    · exact isTold_choice rfl rfl rfl
    · unfold Anthropic.readBlockStart
      dsimp only
      split
      · exact isTold_none
      · exact isTold_none
      · exact isTold_choice rfl rfl rfl
      · exact isTold_none
    · unfold Anthropic.readBlockDelta
      dsimp only
      generalize v["delta"]["type"].strOrEmpty = kind
      split
      · exact isTold_choice rfl rfl rfl
      · exact isTold_choice rfl rfl rfl
      · split
        · exact isTold_choice rfl rfl rfl
        · exact isTold_none
      · show IsTold none _
        split
        · split <;> first | contradiction | exact isTold_none
        · exact isTold_none
    · unfold Anthropic.readBlockStop
      split <;> exact isTold_none
    · exact isTold_choice rfl rfl rfl
    · exact isTold_none
    · exact isTold_none
    · exact isTold_choice rfl rfl rfl
    · show IsTold none _
      split <;> first | contradiction | exact isTold_none
  · cases v with
    | obj members => exact absurd rfl hobj
    | _ => exact isTold_none

section Gemini

variable [SerdeJson]

/-- What the parts tell that were read so far. -/
def toldByDelta (delta : IrDelta) : Told :=
  ⟨delta.content.getD "", delta.reasoningContent.getD ""⟩

omit [SerdeJson] in
theorem toldByDelta_of_empty {delta : IrDelta} (h : Gemini.deltaIsEmpty delta = true) :
    toldByDelta delta = {} := by
  rw [Gemini.deltaIsEmpty, Bool.and_eq_true, Bool.and_eq_true, Bool.and_eq_true,
    Option.isNone_iff_eq_none, Option.isNone_iff_eq_none, Option.isNone_iff_eq_none] at h
  rw [toldByDelta, h.1.1.2, h.1.2]
  rfl

/-- Reading one part. -/
theorem readPart_told (acc : Gemini.DeltaAcc) (part : Value) :
    (Gemini.readPart acc part).delta.content.getD "" =
        acc.delta.content.getD "" ++ (Gemini.textOf part).getD "" ∧
      (Gemini.readPart acc part).delta.reasoningContent =
        (Gemini.thoughtOf part).or acc.delta.reasoningContent := by
  unfold Gemini.readPart
  cases htext : part["text"].asStr with
  | some t =>
    rw [Gemini.textOf, Gemini.partOf, Gemini.thoughtOf, htext, Gemini.isThought]
    cases part["thought"].asBool.getD false <;> simp
  | none =>
    obtain ⟨hnone, hnothing⟩ := Gemini.textOf_eq_none htext
    rw [hnone, hnothing, Option.getD_none, String.append_empty, Option.none_or]
    dsimp only
    cases part.get? "functionCall" <;> exact ⟨rfl, rfl⟩

/-- Reading the parts of a candidate: the texts are joined, the last thought is left. -/
theorem foldl_readPart_told (parts : List Value) (acc : Gemini.DeltaAcc) :
    (parts.foldl Gemini.readPart acc).delta.content.getD "" =
        acc.delta.content.getD "" ++ String.join (parts.filterMap Gemini.textOf) ∧
      (parts.foldl Gemini.readPart acc).delta.reasoningContent =
        ((parts.filterMap Gemini.thoughtOf).getLast?).or acc.delta.reasoningContent := by
  induction parts generalizing acc with
  | nil => exact ⟨String.append_empty.symm, rfl⟩
  | cons part rest ih =>
    obtain ⟨htext, hthought⟩ := readPart_told acc part
    obtain ⟨htexts, hthoughts⟩ := ih (Gemini.readPart acc part)
    rw [List.foldl_cons, htexts, hthoughts, htext, hthought]
    constructor
    · cases hpart : Gemini.textOf part with
      | none =>
        rw [List.filterMap_cons_none hpart, Option.getD_none, String.append_empty]
      | some t =>
        rw [List.filterMap_cons_some hpart, Option.getD_some, String.join_cons,
          String.append_assoc]
    · cases hpart : Gemini.thoughtOf part with
      | none => rw [List.filterMap_cons_none hpart, Option.none_or]
      | some t =>
        rw [List.filterMap_cons_some hpart, List.getLast?_cons, Option.some_or]
        cases (rest.filterMap Gemini.thoughtOf).getLast? <;> rfl

theorem readContent_told (content : Option Value) (st : Gemini.StreamState) :
    toldByDelta (Gemini.readContent content st).2.1 =
      ⟨String.join (((content.map Gemini.partsOf).getD []).filterMap Gemini.textOf),
        (((content.map Gemini.partsOf).getD []).filterMap Gemini.thoughtOf).getLast?.getD ""⟩ := by
  cases content with
  | none => rfl
  | some content =>
    obtain ⟨htext, hthought⟩ := foldl_readPart_told (Gemini.partsOf content)
      { nextToolIndex := st.nextToolIndex }
    rw [Option.getD_none, String.empty_append] at htext
    rw [Option.or_none] at hthought
    rw [Option.map_some, Option.getD_some, ← htext, ← hthought, Gemini.readContent]
    dsimp only
    cases st.roleSent <;> rfl

theorem isTold_gemini (v : Value) (st : Gemini.StreamState) :
    IsTold (chunkOf (Gemini.chunkToIr v st)) (toldFirst .gemini v) := by
  unfold Gemini.chunkToIr
  cases v with
  | obj obj =>
    have htold := readContent_told ((Gemini.candidatesIn (.obj obj)).head?.bind fun c ↦
      c.get? "content") (Gemini.noteCandidates (Gemini.candidatesIn (.obj obj)) st).1
    dsimp only [Value.asObject, chunkOf]
    split
    · rename_i hsilent
      rw [Bool.and_eq_true] at hsilent
      have hnothing : toldFirst .gemini (.obj obj) = {} :=
        htold.symm.trans (toldByDelta_of_empty hsilent.2)
      rw [hnothing]
      exact isTold_none
    · exact isTold_choice rfl rfl htold
  | _ => exact isTold_none

end Gemini

/-- A choice is read with what it tells. -/
theorem parseChunkChoice_told {c : Value} {read : IrChunkChoice × ConvCtx}
    (h : Chat.parseChunkChoice c = .ok read) : toldByDelta read.1.delta = toldByChoice c := by
  unfold Chat.parseChunkChoice at h
  split at h
  · rw [← Except.ok.inj h]
    dsimp only
    rw [toldByChoice, Value.getElem_eq c "delta"]
    cases c.get? "delta" with
    | none => rfl
    | some delta => rfl
  · exact nomatch h

theorem toldByAnswer_chat {v : Value} (h : (choicesOf v).all Value.isObject = true)
    (st : Chat.StreamState) :
    toldByAnswer (chunkOf (Chat.chunkToIr v st)) = toldFirst .openaiChat v := by
  unfold Chat.chunkToIr
  cases v with
  | obj obj =>
    obtain ⟨read, hread⟩ := mapM_parseChunkChoice h
    have htold : (read.map fun choice ↦ toldByDelta choice.1.delta) =
        (choicesOf (.obj obj)).map toldByChoice :=
      map_eq_of_mapM (fun c r hr ↦ parseChunkChoice_told hr) hread
    dsimp only [Value.asObject]
    rw [← choicesOf, hread, toldFirst, ← List.head?_map, ← htold, List.head?_map]
    dsimp only [chunkOf]
    rw [toldByAnswer, Option.map_some, Option.getD_some, toldByChunk, IrChunk.delta]
    cases read <;> rfl
  | _ => rfl

/-! ### Frames -/

section Frames

variable [SerdeJson]

/-- A frame is well formed when its Chat choices are objects. A payload that is no document, such as
the marker at the end of a Chat stream, has no choices. -/
def WellFormedFrame (p : Protocol) (data : String) : Prop :=
  p = .openaiChat → ∀ v, documentOf p data = some v → (choicesOf v).all Value.isObject = true

/-- What the payload of a frame tells of the first choice. -/
def toldInFrame (p : Protocol) (data : String) : Told := ((documentOf p data).map (toldIn p)).getD {}

/-- What the reader takes from the payload of a frame. -/
def toldFirstInFrame (p : Protocol) (data : String) : Told :=
  ((documentOf p data).map (toldFirst p)).getD {}

/-- The chunk of a frame tells what the reader takes. -/
theorem isTold_frame {p : Protocol} (hp : p ≠ .openaiChat) (data : String) (st : StreamStateOf p) :
    IsTold (chunkOf (chunkToIr p data st)) (toldFirstInFrame p data) := by
  unfold toldFirstInFrame documentOf
  rw [if_neg fun h ↦ hp h.1]
  cases p with
  | openaiChat => exact absurd rfl hp
  | openaiResponses =>
    rw [chunkToIr]
    unfold Responses.chunkToIrText
    cases SerdeJson.ofText data with
    | ok v => exact isTold_responses v st
    | error e => exact isTold_none
  | anthropic =>
    rw [chunkToIr]
    unfold Anthropic.chunkToIrText
    cases SerdeJson.ofText data with
    | ok v => exact isTold_anthropic v st
    | error e => exact isTold_none
  | gemini =>
    rw [chunkToIr]
    unfold Gemini.chunkToIrText
    cases SerdeJson.ofText data with
    | ok v => exact isTold_gemini v st
    | error e => exact isTold_none

theorem toldByAnswer_chatFrame {data : String} (h : WellFormedFrame .openaiChat data)
    (st : Chat.StreamState) :
    toldByAnswer (chunkOf (Chat.chunkToIrText data st)) = toldFirstInFrame .openaiChat data := by
  have hobjects := h rfl
  unfold documentOf at hobjects
  unfold toldFirstInFrame documentOf Chat.chunkToIrText
  by_cases hdone : Text.trim data.toList = Chat.doneMarker.toList
  · rw [if_pos hdone, if_pos ⟨rfl, hdone⟩]
    rfl
  · have hnot : ¬ (Protocol.openaiChat = .openaiChat ∧
        Text.trim data.toList = Chat.doneMarker.toList) := fun h ↦ hdone h.2
    rw [if_neg hnot] at hobjects ⊢
    rw [if_neg hdone]
    cases hdoc : SerdeJson.ofText data with
    | ok v =>
      rw [hdoc] at hobjects
      exact toldByAnswer_chat (hobjects v rfl) st
    | error e => rfl

theorem toldByAnswer_frame {p : Protocol} {data : String} (h : WellFormedFrame p data)
    (st : StreamStateOf p) :
    toldByAnswer (chunkOf (chunkToIr p data st)) = toldFirstInFrame p data := by
  by_cases hp : p = .openaiChat
  · subst hp
    exact toldByAnswer_chatFrame h st
  · exact (isTold_frame hp data st).told

/-! ### Runs -/

variable [Responses.RandSuffix] [Gemini.HashOrder]

/-- The converted events of a frame tell what the reader takes from it. -/
theorem told_processConvertFrame {p q : Protocol} (hpq : p ≠ q) (gatewayModel : String)
    {data : String} (h : WellFormedFrame p data) (st : ConvertState p q) :
    told q (processConvertFrame p q gatewayModel st data).2 = toldFirstInFrame p data := by
  rw [← toldByAnswer_frame h st.fromState, processConvertFrame]
  cases hchunk : chunkOf (chunkToIr p data st.fromState) with
  | none => rfl
  | some chunk =>
    have hone : q = .openaiChat → OneChoice { chunk with model := gatewayModel } := by
      intro hq
      exact (isTold_frame (fun hp ↦ hpq (hp.trans hq.symm)) data st.fromState).one chunk hchunk
    exact told_chunkFromIr q hone st.toState

/-- The converted stream tells what the reader takes from its frames. -/
theorem told_sseConvertStream {p q : Protocol} (hpq : p ≠ q) (gatewayModel : String)
    {datas : List String} (h : ∀ data ∈ datas, WellFormedFrame p data) (broken : Bool) :
    told q (sseConvertStream p q gatewayModel datas broken) =
      Told.join (datas.map (toldFirstInFrame p)) := by
  have hrun (st : ConvertState p q) :
      told q (Stream.run (processConvertFrame p q gatewayModel) st datas).2 =
        Told.join (datas.map (toldFirstInFrame p)) := by
    induction datas generalizing st with
    | nil => rfl
    | cons data rest ih =>
      rw [List.forall_mem_cons] at h
      rw [Stream.run_cons, told_append, told_processConvertFrame hpq gatewayModel h.1, ih h.2,
        List.map_cons, Told.join_cons]
  rw [sseConvertStream]
  dsimp only
  rw [told_append, told_streamEnd, Told.append_empty, hrun]

end Frames

end NextApi
