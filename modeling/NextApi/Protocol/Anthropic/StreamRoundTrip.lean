import NextApi.Protocol.Anthropic.StreamLayout

/-!
# Decoding an encoded stream

The events that the encoder sends for a list of chunks are read back by a fresh decoder, and the
transcripts of the two lists of chunks are compared: the text, the reasoning, and the ids, names
and arguments of the tool calls. Interleaved tool calls are the hard case: the encoder splits them
over several blocks, and the decoder gives every block a tool index of its own.

`Mirror` relates the two states after the same events. Besides the equality of the transcripts, but
for empty fragments, it says that the decoder knows the open tool block under an index that it has
heard announced with the id and the name of the encoder's tool. Every stage of the encoder keeps it
(`deltaInBlock_mirrored`, `toolDelta_mirrored`, `finishStage_mirrored`), so every run does
(`run_mirrorsChunks`).

The encoder names a block when it opens it. An id or a name that comes in a later fragment than
the first of its index is not sent (`lateName_loses_name`), so the round trip
(`decode_streamEvents`) is about calls whose first fragment has both (`Announced`).
-/

set_option autoImplicit false

namespace NextApi.Anthropic

open Json Ir

/-! ### Decoding a stream -/

/-- The decoder as a transducer from events to chunks. -/
def decodeStep (st : StreamState) (v : Value) : StreamState × List IrChunk :=
  let d := chunkToIr v st
  (d.st,
    match d.answer with
    | .ok (some chunk) => [chunk]
    | _ => [])

/-- The chunks that a fresh decoder reads from a list of events. -/
def decodeEvents (events : List Value) : List IrChunk := (Stream.run decodeStep {} events).2

/-- A decoder together with the transcript of what it has read. -/
structure Copy where
  dec : StreamState := {}
  log : Transcript := {}

def Copy.read (c : Copy) (v : Value) : Copy :=
  ⟨(decodeStep c.dec v).1, (decodeStep c.dec v).2.foldl Transcript.chunk c.log⟩

theorem transcript_decodeEvents (events : List Value) :
    transcript (decodeEvents events) = (events.foldl Copy.read {}).log := by
  have hfold : ∀ (st : StreamState) (t : Transcript),
      (events.foldl (fun p v ↦ ((decodeStep p.1 v).1,
          (decodeStep p.1 v).2.foldl Transcript.chunk p.2)) (st, t)).2 =
        (events.foldl Copy.read ⟨st, t⟩).log := by
    induction events with
    | nil => exact fun _ _ ↦ rfl
    | cons v rest ih => exact fun st t ↦ ih _ _
  rw [transcript, decodeEvents, ← hfold, ← Stream.foldl_run]

/-! ### What the decoder makes of each event -/

section Events

variable (c : Copy)

theorem read_messageStart (st : StreamState) : (c.read (messageStartEvent st)).log = c.log := by
  simp [Copy.read, decodeStep, chunkToIr, readMessageStart, messageStartEvent, answerChunk,
    choiceChunk, Transcript.chunk, IrChunk.delta, Transcript.delta]

theorem read_startText (idx : UInt32) : c.read (contentBlockStartText idx) = c := rfl

theorem read_startThinking (idx : UInt32) : c.read (contentBlockStartThinking idx) = c := rfl

/-- A chunk with one choice is that choice. -/
theorem read_of_answer {v : Value} (st : StreamState) (delta : IrDelta)
    (h : chunkToIr v c.dec = answerChunk st (choiceChunk st delta none)) :
    c.read v = ⟨st, c.log.delta delta⟩ := by
  rw [Copy.read, decodeStep, h]
  simp [answerChunk, choiceChunk, Transcript.chunk, IrChunk.delta]

theorem read_deltaText (idx : UInt32) (text : String) :
    c.read (contentBlockDeltaText idx text) = { c with log := c.log.say text } := by
  rw [read_of_answer c c.dec { content := some text } rfl]
  simp [Transcript.delta]

theorem read_deltaThinking (idx : UInt32) (rc : String) :
    c.read (contentBlockDeltaThinking idx rc) = { c with log := c.log.think rc } := by
  rw [read_of_answer c c.dec { reasoningContent := some rc } rfl]
  simp [Transcript.delta]

theorem read_startToolUse (idx : UInt32) (tc : IrToolCallDelta) :
    c.read (contentBlockStartToolUse idx tc) =
      { dec :=
          { c.dec with
            nextToolIndex := c.dec.nextToolIndex + 1
            blockToTool := c.dec.blockToTool.insert idx.toNat c.dec.nextToolIndex }
        log := c.log.tool
          { index := c.dec.nextToolIndex
            id := some (tc.id.getD "")
            name := some (tc.name.getD "") } } := by
  simp [Copy.read, decodeStep, chunkToIr, readBlockStart, contentBlockStartToolUse,
    contentBlockStart, answerChunk, choiceChunk, Transcript.chunk, IrChunk.delta,
    Transcript.delta]

theorem read_deltaInputJson (idx : UInt32) (tc : IrToolCallDelta) {k : UInt32}
    (hk : c.dec.blockToTool.lookup idx.toNat = some k) :
    c.read (contentBlockDeltaInputJson idx tc) =
      { c with log := c.log.tool { index := k, arguments := some (tc.arguments.getD "") } } := by
  simp [Copy.read, decodeStep, chunkToIr, readBlockDelta, contentBlockDeltaInputJson,
    contentBlockDelta, answerChunk, choiceChunk, Transcript.chunk, IrChunk.delta,
    Transcript.delta, hk]

theorem read_stop (idx : UInt32) : (c.read (contentBlockStop idx)).log = c.log := by
  simp [Copy.read, decodeStep, chunkToIr, readBlockStop, contentBlockStop, answerNothing]

theorem read_messageDelta (stopReason usage : Value) :
    (c.read (messageDelta stopReason usage)).log = c.log := by
  simp [Copy.read, decodeStep, chunkToIr, readMessageDelta, messageDelta, answerChunk,
    choiceChunk, Transcript.chunk, IrChunk.delta, Transcript.delta]

theorem read_messageStop : (c.read messageStopEvent).log = c.log := rfl

end Events

/-! ### Announced tool calls -/

/-- A fragment keeps to the id and the name of its index, and has both if it is the first of its
index. -/
def FragmentOk (names : UInt32 → String × String) (seen : List UInt32) (tc : IrToolCallDelta) :
    Prop :=
  (∀ id, tc.id = some id → id = (names tc.index).1) ∧
    (∀ name, tc.name = some name → name = (names tc.index).2) ∧
    (tc.index ∉ seen → tc.id.isSome ∧ tc.name.isSome)

/-- All fragments keep to the ids and names, the indices in `seen` having been announced. -/
def AnnouncedFrom (names : UInt32 → String × String) :
    List UInt32 → List IrToolCallDelta → Prop
  | _, [] => True
  | seen, tc :: rest => FragmentOk names seen tc ∧ AnnouncedFrom names (seen ++ [tc.index]) rest

/-- The tool-call fragments of the first choices. -/
def fragments (chunks : List IrChunk) : List IrToolCallDelta :=
  chunks.flatMap fun c ↦ c.delta.toolCalls

/-- The first fragment of every tool index has the id and the name of the call, and later ones
have no other id or name. -/
def Announced (chunks : List IrChunk) : Prop :=
  ∃ names, AnnouncedFrom names [] (fragments chunks)

theorem announcedFrom_append (names : UInt32 → String × String) (seen : List UInt32)
    (first second : List IrToolCallDelta) :
    AnnouncedFrom names seen (first ++ second) ↔
      AnnouncedFrom names seen first ∧
        AnnouncedFrom names (seen ++ first.map IrToolCallDelta.index) second := by
  induction first generalizing seen with
  | nil => simp [AnnouncedFrom]
  | cons tc rest ih => simp [AnnouncedFrom, ih, and_assoc]

/-! ### The decoder mirrors the encoder -/

/-- After the same events the decoder's transcript is that of the encoder's chunks, but for empty
fragments, and the open tool block is known to the decoder as the tool it is for. -/
structure Mirror (l : Layout) (names : UInt32 → String × String) (seen : List UInt32)
    (t : Transcript) (st : StreamState) (c : Copy) : Prop where
  tables : Tables l st
  text : c.log.text = t.text
  reasoning : c.log.reasoning = t.reasoning
  spoken : c.log.spoken = t.spoken
  called : ∀ id name, c.log.Called id name ↔ t.Called id name
  recorded : ∀ i, st.toolMeta.lookup i = if i ∈ seen then some (names i) else none
  announced : t.announced = st.toolMeta
  openTool : ∀ i, l.current = some (.tool i) → i ∈ seen ∧
    ∃ k, c.dec.blockToTool.lookup (l.blocks - 1) = some k ∧
      c.log.announced.lookup k = some (names i)

/-- The encoder call so far is mirrored by a decoder that was `c` before it. -/
def Mirrored (c : Copy) (l : Layout) (names : UInt32 → String × String) (seen : List UInt32)
    (t : Transcript) (e : Emission StreamState) : Prop :=
  e.Sees Copy.read c (Mirror l names seen t)

variable {c : Copy} {l : Layout} {names : UInt32 → String × String} {seen : List UInt32}
  {t : Transcript} {e : Emission StreamState} {st st' : StreamState}

/-- An event that says nothing to the transcript, with no tool block open. -/
theorem Mirror.silent (h : Mirror l names seen t st c) {l' : Layout} {c' : Copy}
    (htables : Tables l' st') (hmeta : st'.toolMeta = st.toolMeta)
    (hcur : ∀ i, l'.current ≠ some (.tool i)) (hlog : c'.log = c.log) :
    Mirror l' names seen t st' c' := by
  obtain ⟨-, h2, h3, h4, h5, h6, h7, -⟩ := h
  exact ⟨htables, hlog ▸ h2, hlog ▸ h3, hlog ▸ h4, hlog ▸ h5, hmeta ▸ h6, hmeta ▸ h7,
    fun i hi ↦ absurd hi (hcur i)⟩

theorem closeOpenBlock_mirrored (h : Mirrored c l names seen t e) :
    Mirrored c { l with current := none } names seen t (closeOpenBlock e) := by
  unfold Mirrored Emission.Sees at h ⊢
  refine h.silent ?_ (by simp) (fun i ↦ by simp) ?_
  · rw [closeOpenBlock_st]
    exact h.tables.close
  · cases hopen : e.st.openBlock with
    | none => simp [closeOpenBlock, hopen]
    | some b => simp [closeOpenBlock, hopen, read_stop]

/-- Text or thinking, which both transcripts take in the same way. -/
theorem deltaInBlock_mirrored (h : Mirrored c l names seen t e) {p : Piece}
    (hp : ∀ i, p ≠ .tool i) (hbound : (l.piece p).blocks ≤ 2 ^ 32)
    {start delta : UInt32 → Value} (say : Transcript → Transcript)
    (hstart : ∀ (c : Copy) idx, c.read (start idx) = c)
    (hdelta : ∀ (c : Copy) idx, c.read (delta idx) = { c with log := say c.log })
    (hsay : ∀ {l : Layout} {st : StreamState} {c : Copy}, Mirror l names seen t st c →
      Mirror l names seen (say t) st { c with log := say c.log }) :
    Mirrored c (l.piece p) names seen (say t) (deltaInBlock p.kind start delta e) := by
  unfold Mirrored Emission.Sees
  by_cases hcur : l.current = some p
  · obtain ⟨hst, hevents⟩ := deltaInBlock_of_current h.tables hcur start delta
    rw [hst, hevents, List.foldl_append, Layout.piece, if_pos hcur]
    simp only [List.foldl_cons, List.foldl_nil, hdelta]
    exact hsay h
  · obtain ⟨hst, hevents⟩ := deltaInBlock_of_not_current h.tables hp hcur start delta
    have hlayout : l.piece p = ⟨some p, l.blocks + 1⟩ := if_neg hcur
    have hlt : l.blocks < 2 ^ 32 := by
      rw [hlayout] at hbound
      exact hbound
    rw [hst, hevents, List.foldl_append, hlayout]
    simp only [List.foldl_cons, List.foldl_nil, hstart, hdelta]
    refine hsay ((closeOpenBlock_mirrored h).silent ?_ (by simp) (fun i hi ↦ ?_) rfl)
    · exact h.tables.opening hlt rfl rfl (Piece.record_of_not_tool hp _ _).symm
    · exact hp i (by simpa using hi)

theorem textStage_mirrored (h : Mirrored c l names seen t e) (content : Option String)
    (hbound : ((content.map fun _ ↦ Piece.text).toList.foldl Layout.piece l).blocks ≤ 2 ^ 32) :
    Mirrored c ((content.map fun _ ↦ Piece.text).toList.foldl Layout.piece l) names seen
      (t.say (content.getD "")) (textStage content e) := by
  cases content with
  | none =>
    rw [Option.getD_none, Transcript.say_empty]
    exact h
  | some text =>
    refine deltaInBlock_mirrored (p := .text) h (fun i ↦ by simp) hbound (fun t ↦ t.say text)
      read_startText (fun c idx ↦ read_deltaText c idx text) fun hm ↦ ?_
    obtain ⟨h1, h2, h3, h4, h5, h6, h7, h8⟩ := hm
    exact ⟨h1, congrArg (· ++ text) h2, h3, h4, h5, h6, h7, h8⟩

theorem thinkingStage_mirrored (h : Mirrored c l names seen t e) (reasoning : Option String)
    (hbound :
      ((reasoning.map fun _ ↦ Piece.thinking).toList.foldl Layout.piece l).blocks ≤ 2 ^ 32) :
    Mirrored c ((reasoning.map fun _ ↦ Piece.thinking).toList.foldl Layout.piece l) names seen
      (t.think (reasoning.getD "")) (thinkingStage reasoning e) := by
  cases reasoning with
  | none =>
    rw [Option.getD_none, Transcript.think_empty]
    exact h
  | some rc =>
    refine deltaInBlock_mirrored (p := .thinking) h (fun i ↦ by simp) hbound (fun t ↦ t.think rc)
      read_startThinking (fun c idx ↦ read_deltaThinking c idx rc) fun hm ↦ ?_
    obtain ⟨h1, h2, h3, h4, h5, h6, h7, h8⟩ := hm
    exact ⟨h1, h2, congrArg (· ++ rc) h3, h4, h5, h6, h7, h8⟩

/-- What an index is known as after one of its fragments. -/
theorem FragmentOk.getD_eq {tc : IrToolCallDelta} (hok : FragmentOk names seen tc)
    {table : Table UInt32 (String × String)}
    (h : table.lookup tc.index = if tc.index ∈ seen then some (names tc.index) else none) :
    tc.id.getD ((table.lookup tc.index).getD ("", "")).1 = (names tc.index).1 ∧
      tc.name.getD ((table.lookup tc.index).getD ("", "")).2 = (names tc.index).2 := by
  obtain ⟨hid, hname, hfirst⟩ := hok
  rw [h]
  by_cases hseen : tc.index ∈ seen
  · rw [if_pos hseen, Option.getD_some]
    constructor
    · cases hi : tc.id with
      | none => rfl
      | some id => exact hid id hi
    · cases hn : tc.name with
      | none => rfl
      | some name => exact hname name hn
  · obtain ⟨hsomeId, hsomeName⟩ := hfirst hseen
    obtain ⟨id, hi⟩ := Option.isSome_iff_exists.mp hsomeId
    obtain ⟨name, hn⟩ := Option.isSome_iff_exists.mp hsomeName
    rw [hi, hn]
    exact ⟨hid id hi, hname name hn⟩

/-- The transcript after a fragment of the call that its index is known as. -/
def Transcript.hear (t : Transcript) (index : UInt32) (who : String × String)
    (fragment : String) : Transcript :=
  { t with
    announced := t.announced.insert index who
    calls := t.calls ++ [⟨who.1, who.2, fragment⟩] }

theorem tool_eq_hear {tc : IrToolCallDelta} (hok : FragmentOk names seen tc)
    (h : t.announced.lookup tc.index =
      if tc.index ∈ seen then some (names tc.index) else none) :
    t.tool tc = Transcript.hear t tc.index (names tc.index) (tc.arguments.getD "") := by
  obtain ⟨hid, hname⟩ := hok.getD_eq h
  simp only [Transcript.tool, Transcript.hear, hid, hname]

theorem noteToolMeta_toolMeta {tc : IrToolCallDelta} (hok : FragmentOk names seen tc)
    (h : st.toolMeta.lookup tc.index =
      if tc.index ∈ seen then some (names tc.index) else none) :
    (noteToolMeta tc st).toolMeta = st.toolMeta.insert tc.index (names tc.index) := by
  obtain ⟨hid, hname⟩ := hok.getD_eq h
  simp only [noteToolMeta, hid, hname]

/-- The opening fragment of a block has the id and the name of its index. -/
theorem withToolMeta_getD {tc : IrToolCallDelta} (hok : FragmentOk names seen tc)
    {table : Table UInt32 (String × String)} (h : table.lookup tc.index = some (names tc.index)) :
    (withToolMeta tc table).id.getD "" = (names tc.index).1 ∧
      (withToolMeta tc table).name.getD "" = (names tc.index).2 := by
  obtain ⟨hid, hname, -⟩ := hok
  simp only [withToolMeta, h, Option.getD_some]
  constructor
  · cases hi : tc.id with
    | none => by_cases hempty : (names tc.index).1 = "" <;> simp [hempty]
    | some id => simpa using hid id hi
  · cases hn : tc.name with
    | none => by_cases hempty : (names tc.index).2 = "" <;> simp [hempty]
    | some name => simpa using hname name hn

theorem spoken_hear (t : Transcript) (index : UInt32) (who : String × String)
    (fragment : String) :
    (Transcript.hear t index who fragment).spoken =
      t.spoken ++ if fragment = "" then [] else [⟨who.1, who.2, fragment⟩] := by
  by_cases h : fragment = "" <;> simp [Transcript.hear, Transcript.spoken, h]

theorem called_hear (t : Transcript) (index : UInt32) (who : String × String)
    (fragment id name : String) :
    (Transcript.hear t index who fragment).Called id name ↔
      t.Called id name ∨ (id = who.1 ∧ name = who.2) := by
  simp only [Transcript.Called, Transcript.hear, List.mem_append, List.mem_singleton,
    CallFragment.mk.injEq]
  constructor
  · rintro ⟨f, hf | ⟨hid, hname, -⟩⟩
    · exact Or.inl ⟨f, hf⟩
    · exact Or.inr ⟨hid, hname⟩
  · rintro (⟨f, hf⟩ | ⟨hid, hname⟩)
    · exact ⟨f, Or.inl hf⟩
    · exact ⟨fragment, Or.inr ⟨hid, hname, rfl⟩⟩

/-- A fragment that the decoder knows as the same call, and before which it may have heard the
announcement of the call. -/
theorem Mirror.hear (h : Mirror l names seen t st c) {tc : IrToolCallDelta}
    (hok : FragmentOk names seen tc) {l' : Layout} (htables : Tables l' st')
    (hmeta : st'.toolMeta = (noteToolMeta tc st).toolMeta)
    (hcur : l'.current = some (.tool tc.index)) {k : UInt32} {dec : StreamState}
    {log : Transcript} (hk : dec.blockToTool.lookup (l'.blocks - 1) = some k)
    (hlog : log = c.log ∨ log = Transcript.hear c.log k (names tc.index) "") :
    Mirror l' names (seen ++ [tc.index]) (t.tool tc) st'
      ⟨dec, Transcript.hear log k (names tc.index) (tc.arguments.getD "")⟩ := by
  obtain ⟨-, h2, h3, h4, h5, h6, h7, -⟩ := h
  have hrecord := noteToolMeta_toolMeta hok (h6 tc.index)
  have htool := tool_eq_hear (t := t) hok (by rw [h7]; exact h6 tc.index)
  rw [htool]
  refine ⟨htables, ?_, ?_, ?_, fun id name ↦ ?_, fun i ↦ ?_, ?_, fun i hi ↦ ?_⟩
  · rcases hlog with rfl | rfl <;> exact h2
  · rcases hlog with rfl | rfl <;> exact h3
  · rcases hlog with rfl | rfl <;> simp [spoken_hear, h4]
  · rcases hlog with rfl | rfl
    · simp only [called_hear, h5]
    · simp only [called_hear, h5, or_assoc, or_self]
  · rw [hmeta, hrecord, Table.lookup_insert, h6]
    by_cases hi : tc.index = i
    · subst hi
      simp
    · simp [hi, Ne.symm hi]
  · simp [Transcript.hear, h7, hmeta, hrecord]
  · obtain rfl : tc.index = i := by simpa [hcur] using hi
    exact ⟨by simp, k, hk, by simp [Transcript.hear]⟩

theorem toolDelta_mirrored (h : Mirrored c l names seen t e) {tc : IrToolCallDelta}
    (hok : FragmentOk names seen tc) (hbound : (l.piece (.tool tc.index)).blocks ≤ 2 ^ 32) :
    Mirrored c (l.piece (.tool tc.index)) names (seen ++ [tc.index]) (t.tool tc)
      (toolDelta e tc) := by
  unfold Mirrored Emission.Sees
  have hblock := currentToolBlock_eq h.tables tc
  by_cases hcur : l.current = some (.tool tc.index)
  · rw [if_pos hcur] at hblock
    obtain ⟨hst, hevents⟩ := toolDelta_of_current hblock
    have hlayout : l.piece (.tool tc.index) = l := if_pos hcur
    have hpos := (h.tables.opened _ hcur).1
    have hidx : (UInt32.ofNat (l.blocks - 1)).toNat = l.blocks - 1 :=
      toNat_ofNat_of_lt (by have := h.tables.bound; omega)
    obtain ⟨hseen, k, hk, hannounced⟩ := h.openTool tc.index hcur
    rw [hst, hevents, List.foldl_append, hlayout]
    simp only [List.foldl_cons, List.foldl_nil]
    rw [read_deltaInputJson _ _ tc (by rw [hidx]; exact hk)]
    have hlog : (e.events.foldl Copy.read c).log.tool
        { index := k, arguments := some (tc.arguments.getD "") } =
          Transcript.hear (e.events.foldl Copy.read c).log k (names tc.index)
            (tc.arguments.getD "") := by
      simp [Transcript.tool, Transcript.hear, hannounced]
    have htables : Tables l (noteToolMeta tc e.st) := h.tables.congr rfl rfl rfl
    rw [hlog]
    exact Mirror.hear h hok htables rfl hcur hk (Or.inl rfl)
  · rw [if_neg hcur] at hblock
    obtain ⟨hst, hevents⟩ := toolDelta_of_not_current hblock
    have hlayout : l.piece (.tool tc.index) = ⟨some (.tool tc.index), l.blocks + 1⟩ :=
      if_neg hcur
    have hlt : l.blocks < 2 ^ 32 := by
      rw [hlayout] at hbound
      exact hbound
    have hidx : e.st.nextBlockIndex.toNat = l.blocks := by
      rw [h.tables.next, toNat_ofNat_of_lt hlt]
    rw [hst, hevents, List.foldl_append, hlayout]
    set c' := (closeOpenBlock e).events.foldl Copy.read c with hc'
    have hclosed : Mirror { l with current := none } names seen t (closeOpenBlock e).st c' :=
      closeOpenBlock_mirrored h
    have hrecord : (noteToolMeta tc e.st).toolMeta.lookup tc.index = some (names tc.index) := by
      rw [noteToolMeta_toolMeta hok (h.recorded tc.index), Table.lookup_insert, if_pos rfl]
    obtain ⟨hid, hname⟩ := withToolMeta_getD hok hrecord
    simp only [List.foldl_cons, List.foldl_nil, read_startToolUse, hid, hname]
    rw [read_deltaInputJson _ _ tc (k := c'.dec.nextToolIndex) (by simp)]
    have hlog : (c'.log.tool
          { index := c'.dec.nextToolIndex
            id := some (names tc.index).1
            name := some (names tc.index).2 }).tool
          { index := c'.dec.nextToolIndex, arguments := some (tc.arguments.getD "") } =
        Transcript.hear (Transcript.hear c'.log c'.dec.nextToolIndex (names tc.index) "")
          c'.dec.nextToolIndex (names tc.index) (tc.arguments.getD "") := by
      simp [Transcript.tool, Transcript.hear]
    rw [hlog]
    refine Mirror.hear hclosed hok (h.tables.opening hlt rfl rfl rfl) ?_ rfl ?_ (Or.inr rfl)
    · simp [noteToolMeta]
    · simp [hidx]

theorem toolDeltas_mirrored (h : Mirrored c l names seen t e) (deltas : List IrToolCallDelta)
    (hok : AnnouncedFrom names seen deltas)
    (hbound :
      ((deltas.map fun tc ↦ Piece.tool tc.index).foldl Layout.piece l).blocks ≤ 2 ^ 32) :
    Mirrored c ((deltas.map fun tc ↦ Piece.tool tc.index).foldl Layout.piece l) names
      (seen ++ deltas.map IrToolCallDelta.index) (deltas.foldl Transcript.tool t)
      (deltas.foldl toolDelta e) := by
  induction deltas generalizing l seen t e with
  | nil => simpa using h
  | cons tc rest ih =>
    have hle := Layout.blocks_le_foldl (rest.map fun tc ↦ Piece.tool tc.index)
      (l.piece (.tool tc.index))
    have hfirst := toolDelta_mirrored h hok.1 (Nat.le_trans hle hbound)
    simpa using ih hfirst hok.2 hbound

/-- A change of the state that no decoder sees. -/
theorem Mirror.congr (h : Mirror l names seen t st c) (htables : Tables l st → Tables l st')
    (hmeta : st'.toolMeta = st.toolMeta) {c' : Copy} (hlog : c'.log = c.log)
    (hdec : c'.dec.blockToTool = c.dec.blockToTool) : Mirror l names seen t st' c' := by
  obtain ⟨h1, h2, h3, h4, h5, h6, h7, h8⟩ := h
  exact ⟨htables h1, hlog ▸ h2, hlog ▸ h3, hlog ▸ h4, hlog ▸ h5, hmeta ▸ h6, hmeta ▸ h7,
    hlog ▸ hdec ▸ h8⟩

theorem read_messageStart_blockToTool (c : Copy) (st : StreamState) :
    (c.read (messageStartEvent st)).dec.blockToTool = c.dec.blockToTool := by
  simp [Copy.read, decodeStep, chunkToIr, readMessageStart, messageStartEvent, answerChunk]

theorem startMessage_mirrored (h : Mirrored c l names seen t e) (chunk : IrChunk) :
    Mirrored c l names seen t (startMessage chunk e) := by
  unfold Mirrored Emission.Sees startMessage
  split_ifs
  · exact h
  · simp only [Emission.emit_st, Emission.withState_st, Emission.emit_events,
      Emission.withState_events, List.foldl_append, List.foldl_cons, List.foldl_nil]
    refine Mirror.congr h (fun ht ↦ ?_) ?_ (read_messageStart _ _)
      (read_messageStart_blockToTool _ _)
    · exact ht.congr rfl rfl rfl
    · rfl

theorem updateUsage_mirrored (h : Mirrored c l names seen t e) (usage : Option IrUsage) :
    Mirrored c l names seen t (updateUsage usage e) := by
  cases usage with
  | none => exact h
  | some u =>
    refine Mirror.congr h (fun ht ↦ ?_) ?_ rfl rfl
    · exact ht.congr rfl rfl rfl
    · rfl

theorem read_messageDelta_blockToTool (c : Copy) (stopReason usage : Value) :
    (c.read (messageDelta stopReason usage)).dec.blockToTool = c.dec.blockToTool := by
  simp [Copy.read, decodeStep, chunkToIr, readMessageDelta, messageDelta, answerChunk]

theorem sendMessageDelta_mirrored (h : Mirrored c l names seen t e) {st : StreamState}
    (hst : Tables l e.st → Tables l st) (hmeta : st.toolMeta = e.st.toolMeta)
    {event : StreamState → Value} (hevent : ∀ st, ∃ reason usage, event st = messageDelta reason usage) :
    Mirrored c l names seen t (sendMessageDelta event (e.withState st)) := by
  obtain ⟨reason, usage, hdelta⟩ := hevent st
  unfold Mirrored Emission.Sees sendMessageDelta
  simp only [Emission.emit_st, Emission.withState_st, Emission.emit_events,
      Emission.withState_events, List.foldl_append, List.foldl_cons, List.foldl_nil, hdelta]
  refine Mirror.congr h (fun ht ↦ ?_) ?_ (read_messageDelta _ _ _)
    (read_messageDelta_blockToTool _ _ _)
  · exact (hst ht).congr rfl rfl rfl
  · exact hmeta

theorem messageDeltaEvent_eq (fr : String) (st : StreamState) :
    ∃ reason usage, messageDeltaEvent fr st = messageDelta reason usage := ⟨_, _, rfl⟩

theorem messageDeltaEndEvent_eq (st : StreamState) :
    ∃ reason usage, messageDeltaEndEvent st = messageDelta reason usage := ⟨_, _, rfl⟩

theorem finishStage_mirrored (h : Mirrored c l names seen t e) (finishReason : Option String)
    (usage : Option IrUsage) :
    Mirrored c (if finishReason.isSome then { l with current := none } else l) names seen t
      (finishStage finishReason usage e) := by
  cases finishReason with
  | some fr =>
    have hclose := closeOpenBlock_mirrored h
    dsimp only [finishStage, Option.isSome_some]
    rw [if_pos rfl]
    split_ifs
    · exact sendMessageDelta_mirrored hclose id rfl messageDeltaEndEvent_eq
    · exact sendMessageDelta_mirrored hclose id rfl (messageDeltaEvent_eq fr)
    · refine Mirror.congr hclose (fun ht ↦ ?_) ?_ rfl rfl
      · exact ht.congr rfl rfl rfl
      · rfl
  | none =>
    dsimp only [finishStage, Option.isSome_none]
    rw [if_neg Bool.false_ne_true]
    split_ifs
    · cases hpending : e.st.pendingFinish with
      | none => exact h
      | some fr =>
        refine sendMessageDelta_mirrored h (fun ht ↦ ?_) ?_ (messageDeltaEvent_eq fr)
        · exact ht.congr rfl rfl rfl
        · rfl
    · exact h

/-- After these chunks, a decoder of the events mirrors the encoder. -/
def MirrorsChunks (names : UInt32 → String × String) (chunks : List IrChunk) (st : StreamState)
    (c : Copy) : Prop :=
  Mirror (layout chunks) names ((fragments chunks).map IrToolCallDelta.index)
    (transcript chunks) st c

/-- One chunk whose fragments are announced. -/
theorem encodeStep_mirrors {past : List IrChunk} (chunk : IrChunk)
    (h : MirrorsChunks names past st c)
    (hok : AnnouncedFrom names ((fragments past).map IrToolCallDelta.index)
      chunk.delta.toolCalls)
    (hbound : (layout (past ++ [chunk])).blocks ≤ 2 ^ 32) :
    MirrorsChunks names (past ++ [chunk]) (encodeStep st chunk).1
      ((encodeStep st chunk).2.foldl Copy.read c) := by
  have hlayout := layout_concat past chunk
  have hpieces := Nat.le_trans (Layout.blocks_le_chunk (layout past) chunk) (hlayout ▸ hbound)
  have hsplit : (pieces chunk).foldl Layout.piece (layout past) =
      (chunk.delta.toolCalls.map fun tc ↦ Piece.tool tc.index).foldl Layout.piece
        ((chunk.delta.reasoningContent.map fun _ ↦ Piece.thinking).toList.foldl Layout.piece
          ((chunk.delta.content.map fun _ ↦ Piece.text).toList.foldl Layout.piece
            (layout past))) := by
    rw [pieces, List.foldl_append, List.foldl_append]
  rw [hsplit] at hpieces
  have hthinkingBound := Nat.le_trans (Layout.blocks_le_foldl _ _) hpieces
  have htextBound := Nat.le_trans (Layout.blocks_le_foldl _ _) hthinkingBound
  have hstart : Mirrored c (layout past) names ((fragments past).map IrToolCallDelta.index)
      (transcript past) (startMessage chunk { st := st }) :=
    startMessage_mirrored (e := { st := st }) h chunk
  have htext := textStage_mirrored hstart chunk.delta.content htextBound
  have hthinking := thinkingStage_mirrored htext chunk.delta.reasoningContent hthinkingBound
  have htools := toolDeltas_mirrored hthinking chunk.delta.toolCalls hok hpieces
  have hfinish := finishStage_mirrored (updateUsage_mirrored htools chunk.usage)
    chunk.finishReason chunk.usage
  have htranscript : transcript (past ++ [chunk]) = (transcript past).chunk chunk := by
    simp [transcript]
  have hfragments : (fragments (past ++ [chunk])).map IrToolCallDelta.index =
      (fragments past).map IrToolCallDelta.index ++
        chunk.delta.toolCalls.map IrToolCallDelta.index := by
    simp [fragments]
  rw [MirrorsChunks, hlayout, Layout.chunk, hsplit, htranscript, hfragments]
  exact hfinish

theorem markFailed_mirror (h : Mirror l names seen t st c) :
    Mirror l names seen t st.markFailed c := by
  unfold StreamState.markFailed
  split_ifs
  · exact h
  · refine Mirror.congr h (fun ht ↦ ?_) ?_ rfl rfl
    · exact ht.congr rfl rfl rfl
    · rfl

/-- The events of the end say nothing to the transcript. -/
theorem streamEnd_mirrors (h : Mirror l names seen t st c) :
    ((streamEnd st).events.foldl Copy.read c).log.spoken = t.spoken ∧
    ((streamEnd st).events.foldl Copy.read c).log.text = t.text ∧
    ((streamEnd st).events.foldl Copy.read c).log.reasoning = t.reasoning ∧
    ∀ id name, ((streamEnd st).events.foldl Copy.read c).log.Called id name ↔
      t.Called id name := by
  have hclose := closeOpenBlock_mirrored (e := { st := st }) h
  have hend : Mirrored c { l with current := none } names seen t
      (endDelta (closeOpenBlock { st := st })) := by
    unfold endDelta
    split_ifs
    · cases (closeOpenBlock { st := st }).st.pendingFinish with
      | none =>
        refine sendMessageDelta_mirrored hclose (fun ht ↦ ?_) ?_ messageDeltaEndEvent_eq
        · exact ht.congr rfl rfl rfl
        · rfl
      | some fr =>
        dsimp only
        split_ifs
        · refine sendMessageDelta_mirrored hclose (fun ht ↦ ?_) ?_ messageDeltaEndEvent_eq
          · exact ht.congr rfl rfl rfl
          · rfl
        · refine sendMessageDelta_mirrored hclose (fun ht ↦ ?_) ?_ (messageDeltaEvent_eq fr)
          · exact ht.congr rfl rfl rfl
          · rfl
    · exact hclose
  have hlog : ((streamEnd st).events.foldl Copy.read c).log =
      ((endDelta (closeOpenBlock { st := st })).events.foldl Copy.read c).log := by
    unfold streamEnd
    dsimp only
    split_ifs
    · simp [read_messageStop]
    · rfl
  rw [hlog]
  exact ⟨hend.spoken, hend.text, hend.reasoning, hend.called⟩

/-- Any list of chunks whose tool calls are announced and whose block indices do not wrap. -/
theorem run_mirrorsChunks {chunks : List IrChunk}
    (hannounced : AnnouncedFrom names [] (fragments chunks))
    (hblocks : (layout chunks).blocks ≤ 2 ^ 32) :
    MirrorsChunks names chunks (Stream.run encodeStep {} chunks).1
      ((Stream.run encodeStep {} chunks).2.foldl Copy.read {}) := by
  have hinit : MirrorsChunks names [] {} {} :=
    ⟨⟨rfl, by decide, fun _ ↦ rfl, fun p hp ↦ by simp [layout] at hp, fun i hi ↦ by
      simp [layout] at hi, fun i b hb ↦ by simp at hb, fun i j b hb ↦ by simp at hb⟩, rfl, rfl, rfl,
      fun _ _ ↦ Iff.rfl, fun i ↦ by simp [fragments], rfl, fun i hi ↦ by simp [layout] at hi⟩
  have hstep : ∀ past chunk st c,
      (AnnouncedFrom names ((fragments past).map IrToolCallDelta.index) chunk.delta.toolCalls ∧
        (layout (past ++ [chunk])).blocks ≤ 2 ^ 32) →
      MirrorsChunks names past st c →
      MirrorsChunks names (past ++ [chunk]) (encodeStep st chunk).1
        ((encodeStep st chunk).2.foldl Copy.read c) :=
    fun past chunk st c hadm h ↦ encodeStep_mirrors chunk h hadm.1 hadm.2
  refine Stream.run_follows_along encodeStep Copy.read hstep hinit chunks ?_
  intro before chunk after hsplit
  subst hsplit
  constructor
  · have hfragments : fragments (before ++ chunk :: after) =
        fragments before ++ (chunk.delta.toolCalls ++ fragments after) := by
      simp [fragments]
    rw [hfragments, announcedFrom_append, announcedFrom_append] at hannounced
    simpa using hannounced.2.1
  · have hassoc : before ++ chunk :: after = before ++ [chunk] ++ after := by simp
    rw [hassoc] at hblocks
    exact Nat.le_trans (blocks_le_append _ _) hblocks

/-- Decoding the events of a stream gives back what its chunks say: the text, the reasoning and,
for every call id, the names and the arguments. Assumes: the first fragment of every tool index
has the id and the name of the call and later fragments have no other, and the stream calls for at
most `2 ^ 32` content blocks, so that their indices do not wrap. -/
theorem decode_streamEvents (chunks : List IrChunk) (failed : Bool) (hannounced : Announced chunks)
    (hblocks : (layout chunks).blocks ≤ 2 ^ 32) :
    (transcript (decodeEvents (streamEvents chunks failed))).text = (transcript chunks).text ∧
    (transcript (decodeEvents (streamEvents chunks failed))).reasoning =
      (transcript chunks).reasoning ∧
    ∀ id,
      (∀ name, (transcript (decodeEvents (streamEvents chunks failed))).Called id name ↔
        (transcript chunks).Called id name) ∧
      (transcript (decodeEvents (streamEvents chunks failed))).arguments id =
        (transcript chunks).arguments id := by
  obtain ⟨names, hannounced⟩ := hannounced
  have hrun := run_mirrorsChunks hannounced hblocks
  obtain ⟨hspoken, htext, hreasoning, hcalled⟩ :
      (transcript (decodeEvents (streamEvents chunks failed))).spoken =
        (transcript chunks).spoken ∧
      (transcript (decodeEvents (streamEvents chunks failed))).text = (transcript chunks).text ∧
      (transcript (decodeEvents (streamEvents chunks failed))).reasoning =
        (transcript chunks).reasoning ∧
      ∀ id name, (transcript (decodeEvents (streamEvents chunks failed))).Called id name ↔
        (transcript chunks).Called id name := by
    rw [transcript_decodeEvents, streamEvents, List.foldl_append]
    cases failed with
    | false => exact streamEnd_mirrors hrun
    | true => exact streamEnd_mirrors (markFailed_mirror hrun)
  exact ⟨htext, hreasoning, fun id ↦
    ⟨hcalled id, Transcript.arguments_eq_of_spoken hspoken id⟩⟩

/-- Two calls whose fragments alternate. -/
def alternatingCalls : List IrChunk :=
  [{ choices :=
        [{ delta :=
            { toolCalls :=
                [{ index := 0, id := some "call_1", name := some "f", arguments := some "1" },
                  { index := 1, id := some "call_2", name := some "g" }] } }] },
    { choices :=
        [{ delta :=
            { toolCalls :=
                [{ index := 0, arguments := some "2" }, { index := 1, arguments := some "3" }] },
           finishReason := some "tool_calls" }] }]

theorem decode_alternatingCalls :
    (transcript (decodeEvents (streamEvents alternatingCalls false))).arguments "call_1" =
      (transcript alternatingCalls).arguments "call_1" := by
  have hannounced : Announced alternatingCalls :=
    ⟨fun i ↦ if i = 0 then ("call_1", "f") else ("call_2", "g"), by
      simp [alternatingCalls, fragments, IrChunk.delta, AnnouncedFrom, FragmentOk]⟩
  exact ((decode_streamEvents alternatingCalls false hannounced (by decide)).2.2 "call_1").2

/-- Every fragment of arguments comes with or after an id and a name of its index. -/
def NamedBeforeArguments (chunks : List IrChunk) : Prop :=
  ∀ before tc after, fragments chunks = before ++ tc :: after → tc.arguments.isSome →
    (∃ d ∈ before ++ [tc], d.index = tc.index ∧ d.id.isSome) ∧
      ∃ d ∈ before ++ [tc], d.index = tc.index ∧ d.name.isSome

/-- A call whose name comes in a fragment after its id: the block was opened without a name. -/
def lateName : List IrChunk :=
  [{ choices := [{ delta := { toolCalls := [{ index := 0, id := some "call_1" }] } }] },
    { choices :=
        [{ delta :=
            { toolCalls := [{ index := 0, name := some "f", arguments := some "1" }] } }] }]

theorem lateName_loses_name :
    NamedBeforeArguments lateName ∧ (transcript lateName).Called "call_1" "f" ∧
      ¬ (transcript (decodeEvents (streamEvents lateName false))).Called "call_1" "f" := by
  refine ⟨?_, ⟨"1", by decide⟩, ?_⟩
  · intro before tc after hsplit hargs
    rcases before with _ | ⟨first, _ | ⟨second, rest⟩⟩
    · obtain ⟨rfl, -⟩ : { index := 0, id := some "call_1" } = tc ∧ _ := by
        simpa [fragments, lateName, IrChunk.delta] using hsplit
      simp at hargs
    · obtain ⟨rfl, rfl, -⟩ : { index := 0, id := some "call_1" } = first ∧
          { index := 0, name := some "f", arguments := some "1" } = tc ∧ _ := by
        simpa [fragments, lateName, IrChunk.delta] using hsplit
      simp
    · simp [fragments, lateName, IrChunk.delta] at hsplit
  · rintro ⟨fragment, hmem⟩
    have hnames : ∀ c ∈ (transcript (decodeEvents (streamEvents lateName false))).calls,
        c.name ≠ "f" := by decide
    exact hnames _ hmem rfl

end NextApi.Anthropic
