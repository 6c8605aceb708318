import NextApi.Protocol.Anthropic.StreamGrammar
import NextApi.Protocol.Anthropic.StreamLayout

/-!
# The outline of an encoded stream

`Outline` is the encoder reduced to what the grammar can see: the layout of the content blocks,
whether a finish reason was seen, whether the message is settled, that is `message_delta` was sent,
and whether everything so far was in order.

The encoder and a reader of its events follow the outline (`Follows`): the flags agree, and as long
as all was in order the tables agree with the layout and the reader is where the outline says. Every
stage of the encoder keeps this (`deltaInBlock_tracks`, `toolDelta_tracks`, `finishStage_tracks`),
so every run does (`run_followsChunks`), and the events of the end complete a sentence exactly if
there was a chunk and all was in order (`streamEnd_accepts`).
-/

set_option autoImplicit false

namespace NextApi.Anthropic

open Json Ir

/-! ### The outline of the encoder -/

/-- What the grammar can see of the encoder's state, and whether all was in order so far. -/
structure Outline where
  started : Bool := false
  layout : Layout := {}
  finishSeen : Bool := false
  settled : Bool := false
  ok : Bool := true

namespace Outline

def start (o : Outline) : Outline := { o with started := true }

def piece (o : Outline) (p : Piece) : Outline :=
  { o with
    layout := o.layout.piece p
    ok := o.ok && !o.settled && decide ((o.layout.piece p).blocks ≤ 2 ^ 32) }

def close (o : Outline) : Outline := { o with layout := { o.layout with current := none } }

def settle (o : Outline) : Outline :=
  { o with settled := true, ok := o.ok && !o.settled && o.layout.current.isNone }

def finish (o : Outline) (finishReason : Option String) (usage : Bool) : Outline :=
  match finishReason with
  | some fr =>
    let o := { o.close with finishSeen := true }
    if fr = "failed" ∨ usage then o.settle else o
  | none => if usage && !o.settled && o.finishSeen then o.settle else o

def step (o : Outline) (chunk : IrChunk) : Outline :=
  ((pieces chunk).foldl piece o.start).finish chunk.finishReason chunk.usage.isSome

/-- The phase of a reader of the events so far, if all was in order. -/
def position (o : Outline) : Phase :=
  if o.started then
    if o.settled then .sealed
    else
      match o.layout.current with
      | some p => .inside (o.layout.blocks - 1) p.kind
      | none => .between o.layout.blocks
  else .fresh

end Outline

def outline (chunks : List IrChunk) : Outline := chunks.foldl Outline.step {}

/-- The flags of the encoder agree with the outline. -/
structure Flags (o : Outline) (st : StreamState) : Prop where
  started : st.messageStartEmitted = o.started
  settled : st.messageDeltaEmitted = o.settled
  running : st.messageStopEmitted = false
  pending : o.settled = false → st.pendingFinish.isSome = o.finishSeen
  fresh : o.started = false → o.layout = {} ∧ o.settled = false

/-- While all is in order, the reader is where the outline says. -/
structure InStep (o : Outline) (st : StreamState) (phase : Option Phase) : Prop where
  phase_eq : phase = some o.position
  tables : Tables o.layout st
  closed : o.settled = true → o.layout.current = none

/-- The encoder and a reader of its events follow the outline. -/
structure Follows (o : Outline) (st : StreamState) (phase : Option Phase) : Prop where
  flags : Flags o st
  inStep : o.ok = true → InStep o st phase
  broken : o.ok = false → phase = none

/-! ### Stages -/

variable {t : Option Phase} {o o' : Outline} {e e' : Emission StreamState} {st st' : StreamState}

/-- The encoder call so far and a reader that was in phase `t` before it follow the outline. -/
def Tracks (t : Option Phase) (o : Outline) (e : Emission StreamState) : Prop :=
  e.Sees readEvent t (Follows o)

/-- The stages that send content leave the flags alone. -/
structure SameFlags (st st' : StreamState) : Prop where
  started : st'.messageStartEmitted = st.messageStartEmitted
  settled : st'.messageDeltaEmitted = st.messageDeltaEmitted
  running : st'.messageStopEmitted = st.messageStopEmitted
  pending : st'.pendingFinish = st.pendingFinish

theorem SameFlags.refl (st : StreamState) : SameFlags st st := ⟨rfl, rfl, rfl, rfl⟩

theorem SameFlags.trans {first second third : StreamState} (h : SameFlags first second)
    (h' : SameFlags second third) : SameFlags first third :=
  ⟨h'.1.trans h.1, h'.2.trans h.2, h'.3.trans h.3, h'.4.trans h.4⟩

theorem SameFlags.flags (h : SameFlags st st') (hflags : Flags o st)
    (hstarted : o'.started = o.started) (hsettled : o'.settled = o.settled)
    (hseen : o'.finishSeen = o.finishSeen)
    (hfresh : o.started = false → o.layout = {} → o'.layout = {}) : Flags o' st' := by
  obtain ⟨h1, h2, h3, h4, h5⟩ := hflags
  refine ⟨?_, ?_, ?_, ?_, ?_⟩
  · rw [h.started, h1, hstarted]
  · rw [h.settled, h2, hsettled]
  · rw [h.running, h3]
  · rw [h.pending, hsettled, hseen]
    exact h4
  · rw [hstarted, hsettled]
    exact fun hs ↦ ⟨hfresh hs (h5 hs).1, (h5 hs).2⟩

theorem closeOpenBlock_sameFlags (e : Emission StreamState) :
    SameFlags e.st (closeOpenBlock e).st := by
  unfold closeOpenBlock
  cases e.st.openBlock <;> exact ⟨rfl, rfl, rfl, rfl⟩

theorem closeOpenBlock_extends (e : Emission StreamState) :
    e.events <+: (closeOpenBlock e).events := by
  unfold closeOpenBlock
  cases e.st.openBlock with
  | none => exact List.prefix_rfl
  | some b => exact List.prefix_append _ _

theorem started_of_current (hflags : Flags o st) {p : Piece}
    (hp : o.layout.current = some p) : o.started = true := by
  by_contra h
  rw [Bool.not_eq_true] at h
  simp [(hflags.fresh h).1] at hp

theorem not_settled_of_current (hclosed : o.settled = true → o.layout.current = none) {p : Piece}
    (hp : o.layout.current = some p) : o.settled = false := by
  by_contra h
  rw [Bool.not_eq_false] at h
  simp [hclosed h] at hp

/-- A reader that has lost its phase does not find it again. -/
theorem Tracks.ofBroken (h : Tracks t o e) (hok : o.ok = false) (hflags : Flags o' e'.st)
    (hok' : o'.ok = false) (hevents : e.events <+: e'.events) : Tracks t o' e' := by
  obtain ⟨more, hmore⟩ := hevents
  refine ⟨hflags, fun hgood ↦ by simp [hok'] at hgood, fun _ ↦ ?_⟩
  rw [← hmore, List.foldl_append, h.broken hok]
  exact foldl_readEvent_none more

theorem closeOpenBlock_tracks (h : Tracks t o e) : Tracks t o.close (closeOpenBlock e) := by
  have hflags : Flags o.close (closeOpenBlock e).st :=
    (closeOpenBlock_sameFlags e).flags h.flags rfl rfl rfl fun _ hl ↦ by simp [Outline.close, hl]
  cases hok : o.ok with
  | false => exact h.ofBroken hok hflags hok (closeOpenBlock_extends e)
  | true =>
    obtain ⟨hphase, htables, hclosed⟩ := h.inStep hok
    refine ⟨hflags, fun _ ↦ ?_, fun hbad ↦ by simp [Outline.close, hok] at hbad⟩
    cases hcur : o.layout.current with
    | none =>
      have hlayout : { o.layout with current := none } = o.layout := by rw [← hcur]
      have hclose : o.close = o := by rw [Outline.close, hlayout]
      have hsame : closeOpenBlock e = e := by rw [closeOpenBlock, htables.closed hcur]
      rw [hclose, hsame]
      exact ⟨hphase, htables, hclosed⟩
    | some p =>
      obtain ⟨hpos, hopen⟩ := htables.opened p hcur
      have hbound := htables.bound
      have hidx : (UInt32.ofNat (o.layout.blocks - 1)).toNat = o.layout.blocks - 1 :=
        toNat_ofNat_of_lt (by omega)
      have hstarted := started_of_current h.flags hcur
      have hsettled := not_settled_of_current hclosed hcur
      refine ⟨?_, ?_, fun _ ↦ rfl⟩
      · rw [closeOpenBlock, hopen, Emission.emit_events, List.foldl_append]
        simp only [Emission.withState_events, hphase, List.foldl_cons, List.foldl_nil]
        simp [readEvent, Outline.position, Outline.close, hstarted, hsettled, hcur, accept, hidx]
        omega
      · rw [closeOpenBlock, hopen]
        exact htables.close

/-- Content that continues the open block. -/
theorem continue_tracks (h : Tracks t o e) (hok : o.ok = true) {p : Piece}
    (hcur : o.layout.current = some p) {delta : Value}
    (hdelta : viewEvent delta =
      some (.blockDelta (UInt32.ofNat (o.layout.blocks - 1)).toNat p.kind))
    (hflags : SameFlags e.st e'.st) (htables' : Tables o.layout e.st → Tables o.layout e'.st)
    (hevents : e'.events = e.events ++ [delta]) : Tracks t (o.piece p) e' := by
  obtain ⟨hphase, htables, hclosed⟩ := h.inStep hok
  obtain ⟨hpos, -⟩ := htables.opened p hcur
  have hbound := htables.bound
  have hidx : (UInt32.ofNat (o.layout.blocks - 1)).toNat = o.layout.blocks - 1 :=
    toNat_ofNat_of_lt (by omega)
  have hstarted := started_of_current h.flags hcur
  have hsettled := not_settled_of_current hclosed hcur
  have hlayout : o.layout.piece p = o.layout := by rw [Layout.piece, if_pos hcur]
  have hpiece : o.piece p = o := by
    cases o
    simp_all [Outline.piece]
  rw [hpiece]
  refine ⟨hflags.flags h.flags rfl rfl rfl fun _ hl ↦ hl, fun _ ↦ ⟨?_, htables' htables, hclosed⟩,
    fun hbad ↦ by simp [hok] at hbad⟩
  rw [hevents, List.foldl_append, hphase]
  simp [readEvent, Outline.position, hstarted, hsettled, hcur, accept, hdelta, hidx]

/-- Content that closes the open block and opens a new one. -/
theorem open_tracks (h : Tracks t o e) (hok : o.ok = true) (hstarted : o.started = true)
    {p : Piece} (hcur : o.layout.current ≠ some p) {start delta : Value}
    (hstart : viewEvent start = some (.blockStart e.st.nextBlockIndex.toNat p.kind))
    (hdelta : viewEvent delta = some (.blockDelta e.st.nextBlockIndex.toNat p.kind))
    (hflags : SameFlags e.st e'.st)
    (hnext : e'.st.nextBlockIndex = e.st.nextBlockIndex + 1)
    (hopen : e'.st.openBlock = some ⟨p.kind, e.st.nextBlockIndex⟩)
    (htool : e'.st.toolBlockOf = p.record e.st.nextBlockIndex e.st.toolBlockOf)
    (hevents : e'.events = (closeOpenBlock e).events ++ [start, delta]) :
    Tracks t (o.piece p) e' := by
  have htables := (h.inStep hok).tables
  have hphase := ((closeOpenBlock_tracks h).inStep hok).phase_eq
  have hbound := htables.bound
  have hlayout : o.layout.piece p = ⟨some p, o.layout.blocks + 1⟩ := by simp [Layout.piece, hcur]
  refine ⟨hflags.flags h.flags rfl rfl rfl fun hs ↦ by simp [hstarted] at hs, fun hgood ↦ ?_,
    fun hbad ↦ ?_⟩
  · obtain ⟨hsettled, hlt⟩ : o.settled = false ∧ o.layout.blocks < 2 ^ 32 := by
      simpa [Outline.piece, hlayout, hok, Nat.succ_le_iff] using hgood
    have hidx : e.st.nextBlockIndex.toNat = o.layout.blocks := by
      rw [htables.next, toNat_ofNat_of_lt hlt]
    refine ⟨?_, ?_, fun hs ↦ by simp [Outline.piece, hsettled] at hs⟩
    · rw [hevents, List.foldl_append, hphase]
      simp [readEvent, Outline.position, Outline.piece, Outline.close, hlayout, hstarted, hsettled,
        accept, hstart, hdelta, hidx]
    · rw [show (o.piece p).layout = ⟨some p, o.layout.blocks + 1⟩ from hlayout]
      exact htables.opening hlt hnext hopen htool
  · rw [hevents, List.foldl_append, hphase]
    cases hsettled : o.settled with
    | true =>
      simp [readEvent, Outline.position, Outline.close, hstarted, hsettled, accept, hstart]
    | false =>
      have hfull : o.layout.blocks = 2 ^ 32 := by
        have hgt : ¬ o.layout.blocks + 1 ≤ 2 ^ 32 := by
          intro hle
          have hgood : (o.piece p).ok = true := by
            simp only [Outline.piece, hlayout, hok, hsettled, decide_eq_true hle]
            rfl
          exact absurd (hgood.symm.trans hbad) (by decide)
        omega
      have hzero : e.st.nextBlockIndex.toNat = 0 := by
        rw [htables.next, hfull]
        rfl
      simp [readEvent, Outline.position, Outline.close, hstarted, hsettled, accept, hstart, hzero,
        hfull]

theorem deltaInBlock_sameFlags (kind : BlockKind) (start delta : UInt32 → Value)
    (e : Emission StreamState) : SameFlags e.st (deltaInBlock kind start delta e).st := by
  unfold deltaInBlock
  by_cases hkind : e.st.openBlock.map OpenBlock.kind = some kind
  · simp only [hkind, if_true]
    cases e.st.openBlock <;> exact SameFlags.refl _
  · simp only [hkind, if_false]
    exact (closeOpenBlock_sameFlags e).trans ⟨rfl, rfl, rfl, rfl⟩

theorem deltaInBlock_extends (kind : BlockKind) (start delta : UInt32 → Value)
    (e : Emission StreamState) : e.events <+: (deltaInBlock kind start delta e).events := by
  unfold deltaInBlock
  by_cases hkind : e.st.openBlock.map OpenBlock.kind = some kind
  · simp only [hkind, if_true]
    cases e.st.openBlock with
    | none => exact List.prefix_rfl
    | some b => exact List.prefix_append _ _
  · simp only [hkind, if_false]
    refine (closeOpenBlock_extends e).trans ?_
    simp [openNewBlock]

theorem Outline.piece_not_ok (hok : o.ok = false) (p : Piece) : (o.piece p).ok = false := by
  simp [Outline.piece, hok]

/-- A text or thinking delta. -/
theorem deltaInBlock_tracks (h : Tracks t o e) (hstarted : o.started = true) {p : Piece}
    (hp : ∀ i, p ≠ .tool i) {start delta : UInt32 → Value}
    (hstart : ∀ idx, viewEvent (start idx) = some (.blockStart idx.toNat p.kind))
    (hdelta : ∀ idx, viewEvent (delta idx) = some (.blockDelta idx.toNat p.kind)) :
    Tracks t (o.piece p) (deltaInBlock p.kind start delta e) := by
  have hsame := deltaInBlock_sameFlags p.kind start delta e
  cases hok : o.ok with
  | false =>
    exact h.ofBroken hok
      (hsame.flags h.flags rfl rfl rfl fun hs ↦ by simp [hstarted] at hs)
      (Outline.piece_not_ok hok p) (deltaInBlock_extends p.kind start delta e)
  | true =>
    have htables := (h.inStep hok).tables
    by_cases hcur : o.layout.current = some p
    · obtain ⟨hst, hevents⟩ := deltaInBlock_of_current htables hcur start delta
      exact continue_tracks h hok hcur (hdelta _) hsame (fun htab ↦ hst ▸ htab) hevents
    · obtain ⟨hst, hevents⟩ := deltaInBlock_of_not_current htables hp hcur start delta
      refine open_tracks h hok hstarted hcur (hstart _) (hdelta _) hsame ?_ ?_ ?_ hevents
      · rw [hst]
      · rw [hst]
      · rw [hst, Piece.record_of_not_tool hp]

theorem toolDelta_sameFlags (e : Emission StreamState) (tc : IrToolCallDelta) :
    SameFlags e.st (toolDelta e tc).st := by
  cases h : currentToolBlock e.st tc with
  | some b =>
    rw [(toolDelta_of_current h).1]
    exact ⟨rfl, rfl, rfl, rfl⟩
  | none =>
    rw [(toolDelta_of_not_current h).1]
    exact ⟨rfl, rfl, rfl, rfl⟩

theorem toolDelta_extends (e : Emission StreamState) (tc : IrToolCallDelta) :
    e.events <+: (toolDelta e tc).events := by
  cases h : currentToolBlock e.st tc with
  | some b =>
    rw [(toolDelta_of_current h).2]
    exact List.prefix_append _ _
  | none =>
    rw [(toolDelta_of_not_current h).2]
    exact (closeOpenBlock_extends e).trans (List.prefix_append _ _)

/-- A fragment of a tool call. -/
theorem toolDelta_tracks (h : Tracks t o e) (hstarted : o.started = true)
    (tc : IrToolCallDelta) : Tracks t (o.piece (.tool tc.index)) (toolDelta e tc) := by
  have hsame := toolDelta_sameFlags e tc
  cases hok : o.ok with
  | false =>
    exact h.ofBroken hok (hsame.flags h.flags rfl rfl rfl fun hs ↦ by simp [hstarted] at hs)
      (Outline.piece_not_ok hok _) (toolDelta_extends e tc)
  | true =>
    have hblock := currentToolBlock_eq (h.inStep hok).tables tc
    by_cases hcur : o.layout.current = some (.tool tc.index)
    · rw [if_pos hcur] at hblock
      obtain ⟨hst, hevents⟩ := toolDelta_of_current hblock
      refine continue_tracks h hok hcur (viewEvent_deltaInputJson _ tc) hsame (fun htab ↦ ?_)
        hevents
      rw [hst]
      exact htab.congr rfl rfl rfl
    · rw [if_neg hcur] at hblock
      obtain ⟨hst, hevents⟩ := toolDelta_of_not_current hblock
      refine open_tracks h hok hstarted hcur (viewEvent_startToolUse _ _)
        (viewEvent_deltaInputJson _ tc) hsame ?_ ?_ ?_ hevents
      · rw [hst]
      · rw [hst]
        rfl
      · rw [hst]
        rfl

/-! ### Finish reasons and the end -/

theorem startMessage_tracks (h : Tracks t o e) (chunk : IrChunk) :
    Tracks t o.start (startMessage chunk e) := by
  obtain ⟨h1, h2, h3, h4, h5⟩ := h.flags
  cases hstarted : o.started with
  | true =>
    have hsame : o.start = o := by rw [Outline.start, ← hstarted]
    rw [startMessage, h1, hstarted, if_pos rfl, hsame]
    exact h
  | false =>
    obtain ⟨hlayout, hsettled⟩ := h5 hstarted
    have hst : e.st.messageStartEmitted = false := h1.trans hstarted
    have hflags : Flags o.start (startMessage chunk e).st := by
      rw [startMessage, hst, if_neg Bool.false_ne_true]
      exact ⟨rfl, h2, h3, h4, fun hs ↦ by simp [Outline.start] at hs⟩
    have hevents : e.events <+: (startMessage chunk e).events := by
      rw [startMessage, hst, if_neg Bool.false_ne_true]
      exact List.prefix_append _ _
    cases hok : o.ok with
    | false => exact h.ofBroken hok hflags hok hevents
    | true =>
      obtain ⟨hphase, htables, hclosed⟩ := h.inStep hok
      refine ⟨hflags, fun _ ↦ ?_, fun hbad ↦ by simp [Outline.start, hok] at hbad⟩
      rw [startMessage, hst, if_neg Bool.false_ne_true]
      refine ⟨?_, htables.congr rfl rfl rfl, hclosed⟩
      simp [hphase, readEvent, Outline.position, Outline.start, hstarted, hsettled, hlayout, accept]

theorem Outline.foldl_piece_started (ps : List Piece) (o : Outline) :
    (ps.foldl Outline.piece o).started = o.started := by
  induction ps generalizing o with
  | nil => rfl
  | cons p rest ih => exact ih (o.piece p)

theorem textStage_tracks (h : Tracks t o e) (hstarted : o.started = true)
    (content : Option String) :
    Tracks t ((content.map fun _ ↦ Piece.text).toList.foldl Outline.piece o)
      (textStage content e) := by
  cases content with
  | none => exact h
  | some text =>
    exact deltaInBlock_tracks (p := .text) h hstarted (fun i ↦ by simp) viewEvent_startText
      fun idx ↦ viewEvent_deltaText idx text

theorem thinkingStage_tracks (h : Tracks t o e) (hstarted : o.started = true)
    (reasoning : Option String) :
    Tracks t ((reasoning.map fun _ ↦ Piece.thinking).toList.foldl Outline.piece o)
      (thinkingStage reasoning e) := by
  cases reasoning with
  | none => exact h
  | some rc =>
    exact deltaInBlock_tracks (p := .thinking) h hstarted (fun i ↦ by simp)
      viewEvent_startThinking fun idx ↦ viewEvent_deltaThinking idx rc

theorem toolDeltas_tracks (h : Tracks t o e) (hstarted : o.started = true)
    (deltas : List IrToolCallDelta) :
    Tracks t ((deltas.map fun tc ↦ Piece.tool tc.index).foldl Outline.piece o)
      (deltas.foldl toolDelta e) := by
  induction deltas generalizing o e with
  | nil => exact h
  | cons tc rest ih => exact ih (toolDelta_tracks h hstarted tc) hstarted

/-- A change of the state that the outline does not see. -/
theorem Tracks.withState (h : Tracks t o e) (hflags : SameFlags e.st st)
    (hnext : st.nextBlockIndex = e.st.nextBlockIndex) (hopen : st.openBlock = e.st.openBlock)
    (htool : st.toolBlockOf = e.st.toolBlockOf) : Tracks t o (e.withState st) := by
  refine ⟨hflags.flags h.flags rfl rfl rfl fun _ hl ↦ hl, fun hok ↦ ?_, h.broken⟩
  obtain ⟨hphase, htables, hclosed⟩ := h.inStep hok
  exact ⟨hphase, htables.congr hnext hopen htool, hclosed⟩

theorem updateUsage_tracks (h : Tracks t o e) (usage : Option IrUsage) :
    Tracks t o (updateUsage usage e) := by
  cases usage with
  | none => exact h
  | some u => exact h.withState ⟨rfl, rfl, rfl, rfl⟩ rfl rfl rfl

/-- A `message_delta`, which may take the waiting finish reason with it. -/
theorem sendMessageDelta_tracks (h : Tracks t o e) (hstarted : o.started = true)
    (pending : Option String) {event : StreamState → Value}
    (hevent : ∀ st, viewEvent (event st) = some .messageDelta) :
    Tracks t o.settle
      (sendMessageDelta event (e.withState { e.st with pendingFinish := pending })) := by
  obtain ⟨h1, h2, h3, h4, h5⟩ := h.flags
  have hflags : Flags o.settle
      (sendMessageDelta event (e.withState { e.st with pendingFinish := pending })).st :=
    ⟨h1, rfl, h3, fun hs ↦ by simp [Outline.settle] at hs, fun hs ↦ by
      simp [Outline.settle, hstarted] at hs⟩
  cases hok : o.ok with
  | false =>
    exact h.ofBroken hok hflags (by simp [Outline.settle, hok]) (List.prefix_append _ _)
  | true =>
    obtain ⟨hphase, htables, hclosed⟩ := h.inStep hok
    refine ⟨hflags, fun hgood ↦ ?_, fun hbad ↦ ?_⟩
    · obtain ⟨hsettled, hcur⟩ : o.settled = false ∧ o.layout.current = none := by
        simpa [Outline.settle, hok] using hgood
      refine ⟨?_, htables.congr rfl rfl rfl, fun _ ↦ hcur⟩
      simp [sendMessageDelta, hphase, readEvent, hevent, Outline.position, Outline.settle,
        hstarted, hsettled, hcur, accept]
    · simp only [sendMessageDelta, Emission.emit_events, Emission.withState_events,
        List.foldl_append, hphase, List.foldl_cons, List.foldl_nil, readEvent, hevent]
      cases hsettled : o.settled with
      | true => simp [Outline.position, hstarted, hsettled, accept]
      | false =>
        cases hcur : o.layout.current with
        | none => simp [Outline.settle, hok, hsettled, hcur] at hbad
        | some p => simp [Outline.position, hstarted, hsettled, hcur, accept]

/-- Once the message is settled, later finish reasons do not matter. -/
theorem Tracks.settledFinishSeen (h : Tracks t o e) (hsettled : o.settled = true) (b : Bool) :
    Tracks t { o with finishSeen := b } e := by
  obtain ⟨h1, h2, h3, h4, h5⟩ := h.flags
  refine ⟨⟨h1, h2, h3, fun hs ↦ by simp [hsettled] at hs, h5⟩, fun hok ↦ ?_, h.broken⟩
  obtain ⟨hphase, htables, hclosed⟩ := h.inStep hok
  exact ⟨hphase, htables, hclosed⟩

theorem finishStage_tracks (h : Tracks t o e) (hstarted : o.started = true)
    (finishReason : Option String) (usage : Option IrUsage) :
    Tracks t (o.finish finishReason usage.isSome) (finishStage finishReason usage e) := by
  cases finishReason with
  | some fr =>
    have hclose := closeOpenBlock_tracks h
    by_cases hfailed : fr = "failed"
    · simp only [Outline.finish, finishStage, hfailed, true_or, if_true]
      exact (sendMessageDelta_tracks hclose hstarted _ fun _ ↦ viewEvent_messageDelta _ _)
        |>.settledFinishSeen rfl true
    · cases husage : usage.isSome with
      | true =>
        simp only [Outline.finish, finishStage, hfailed, husage, or_true, if_true, if_false]
        exact (sendMessageDelta_tracks hclose hstarted _ fun _ ↦ viewEvent_messageDelta _ _)
          |>.settledFinishSeen rfl true
      | false =>
        simp only [Outline.finish, finishStage, hfailed, husage, or_self, if_false,
          Bool.false_eq_true]
        obtain ⟨h1, h2, h3, h4, h5⟩ := hclose.flags
        refine ⟨⟨h1, h2, h3, fun _ ↦ rfl, h5⟩, fun hok ↦ ?_, hclose.broken⟩
        obtain ⟨hphase, htables, hclosed⟩ := hclose.inStep hok
        exact ⟨hphase, htables.congr rfl rfl rfl, hclosed⟩
  | none =>
    obtain ⟨h1, h2, h3, h4, h5⟩ := h.flags
    simp only [Outline.finish, finishStage, h2]
    cases husage : usage.isSome with
    | false => exact h
    | true =>
      cases hsettled : o.settled with
      | true => exact h
      | false =>
        have hpending := h4 hsettled
        cases hseen : o.finishSeen with
        | false =>
          have hnone : e.st.pendingFinish = none := by simpa [hseen] using hpending
          simpa [hnone] using h
        | true =>
          obtain ⟨fr, hfr⟩ : ∃ fr, e.st.pendingFinish = some fr := by
            simpa [hseen, Option.isSome_iff_exists] using hpending
          simp only [hfr, Bool.not_false, Bool.and_self, if_true]
          exact sendMessageDelta_tracks h hstarted none fun _ ↦ viewEvent_messageDelta _ _

/-- One chunk: the encoder and a reader of its events follow the outline. -/
theorem encodeStep_follows {phase : Option Phase} (h : Follows o st phase) (chunk : IrChunk) :
    Follows (o.step chunk) (encodeStep st chunk).1
      ((encodeStep st chunk).2.foldl readEvent phase) := by
  have hstart : Tracks phase o.start (startMessage chunk { st := st }) :=
    startMessage_tracks (e := { st := st }) h chunk
  have htext := textStage_tracks hstart rfl chunk.delta.content
  have hthinking := thinkingStage_tracks htext (Outline.foldl_piece_started _ _)
    chunk.delta.reasoningContent
  rw [← List.foldl_append] at hthinking
  have htools := toolDeltas_tracks hthinking (Outline.foldl_piece_started _ _)
    chunk.delta.toolCalls
  rw [← List.foldl_append] at htools
  exact finishStage_tracks (updateUsage_tracks htools chunk.usage)
    (Outline.foldl_piece_started _ _) chunk.finishReason chunk.usage

/-- After these chunks, the encoder and a reader of its events follow the outline. -/
def FollowsChunks (chunks : List IrChunk) (st : StreamState) (phase : Option Phase) : Prop :=
  Follows (outline chunks) st phase

/-- Any list of chunks: the encoder and a reader of its events follow the outline. -/
theorem run_followsChunks (chunks : List IrChunk) :
    FollowsChunks chunks (Stream.run encodeStep {} chunks).1
      ((Stream.run encodeStep {} chunks).2.foldl readEvent (some .fresh)) := by
  have hinit : FollowsChunks [] {} (some .fresh) :=
    ⟨⟨rfl, rfl, rfl, fun _ ↦ rfl, fun _ ↦ ⟨rfl, rfl⟩⟩,
      fun _ ↦ ⟨rfl, ⟨rfl, by decide, fun _ ↦ rfl, fun p hp ↦ by simp [outline] at hp, fun i hi ↦ by
        simp [outline] at hi, fun i b hb ↦ by simp at hb, fun i j b hb ↦ by simp at hb⟩,
        fun _ ↦ rfl⟩,
      fun hbad ↦ by simp [outline] at hbad⟩
  have hstep : ∀ past chunk st phase, FollowsChunks past st phase →
      FollowsChunks (past ++ [chunk]) (encodeStep st chunk).1
        ((encodeStep st chunk).2.foldl readEvent phase) := by
    intro past chunk st phase h
    rw [FollowsChunks, outline, List.foldl_append]
    exact encodeStep_follows h chunk
  exact Stream.run_follows encodeStep readEvent hstep hinit chunks

/-- A stream that the upstream broke off is outlined like one whose finish reason is known. -/
theorem markFailed_follows {phase : Option Phase} (h : Follows o st phase) :
    Follows { o with finishSeen := o.finishSeen || !o.settled } st.markFailed phase := by
  obtain ⟨h1, h2, h3, h4, h5⟩ := h.flags
  have hst : ∃ pending, st.markFailed = { st with pendingFinish := pending } ∧
      (o.settled = false → pending = some "failed") := by
    cases hsettled : o.settled with
    | true =>
      refine ⟨st.pendingFinish, ?_, fun hs ↦ by simp at hs⟩
      rw [StreamState.markFailed, if_pos (h2.trans hsettled)]
    | false =>
      refine ⟨some "failed", ?_, fun _ ↦ rfl⟩
      rw [StreamState.markFailed, if_neg (by rw [h2, hsettled]; exact Bool.false_ne_true)]
  obtain ⟨pending, hst, hpending⟩ := hst
  rw [hst]
  refine ⟨⟨h1, h2, h3, fun hs ↦ ?_, h5⟩, fun hok ↦ ?_, h.broken⟩
  · have hs' : o.settled = false := hs
    simp [hpending hs', hs']
  · obtain ⟨hphase, htables, hclosed⟩ := h.inStep hok
    exact ⟨hphase, htables.congr rfl rfl rfl, hclosed⟩

/-- The outline of a stream whose `message_delta` is sent at the end, if it is still due. -/
def Outline.atEnd (o : Outline) : Outline := if o.started && !o.settled then o.settle else o

theorem endDelta_tracks (h : Tracks t o e) : Tracks t o.atEnd (endDelta e) := by
  obtain ⟨h1, h2, h3, h4, h5⟩ := h.flags
  unfold Outline.atEnd endDelta
  rw [h1, h2]
  split_ifs with hdue
  · have hstarted : o.started = true := by simp_all
    cases e.st.pendingFinish with
    | none => exact sendMessageDelta_tracks h hstarted none fun _ ↦ viewEvent_messageDelta _ _
    | some fr =>
      dsimp only
      split_ifs
      · exact sendMessageDelta_tracks h hstarted none fun _ ↦ viewEvent_messageDelta _ _
      · exact sendMessageDelta_tracks h hstarted none fun _ ↦ viewEvent_messageDelta _ _
  · exact h

/-- The events of the end make the events a sentence exactly if there was a chunk and all was in
order. -/
theorem streamEnd_accepts {phase : Option Phase} (h : Follows o st phase) :
    (streamEnd st).events.foldl readEvent phase = some .stopped ↔
      o.started = true ∧ o.ok = true := by
  have hend : Tracks phase o.close.atEnd (endDelta (closeOpenBlock { st := st })) :=
    endDelta_tracks (closeOpenBlock_tracks (e := { st := st }) h)
  have hsettle : o.started = true → o.close.atEnd.started = true ∧
      o.close.atEnd.settled = true ∧ o.close.atEnd.ok = o.ok := by
    intro hs
    cases hsettled : o.settled <;>
      simp [Outline.atEnd, Outline.close, Outline.settle, hs, hsettled]
  have hstart : o.close.atEnd.started = o.started := by
    rw [Outline.atEnd]
    split <;> rfl
  unfold streamEnd
  set e := endDelta (closeOpenBlock { st := st }) with he
  have hsees : e.events.foldl readEvent phase =
      if o.close.atEnd.ok then some o.close.atEnd.position else none := by
    split_ifs with hok
    · exact (hend.inStep hok).phase_eq
    · exact Follows.broken hend (by simpa using hok)
  cases hs : o.started with
  | false =>
    have hst : e.st.messageStartEmitted = false := by rw [hend.flags.started, hstart, hs]
    simp only [hst, Bool.false_and, Bool.false_eq_true, if_false, false_and, iff_false]
    rw [hsees]
    split_ifs
    · simp [Outline.position, hstart, hs]
    · simp
  | true =>
    obtain ⟨hstarted, hsettled, hok⟩ := hsettle hs
    have hst : e.st.messageStartEmitted = true := by rw [hend.flags.started, hstarted]
    have hrun : e.st.messageStopEmitted = false := hend.flags.running
    simp only [hst, hrun, Bool.not_false, Bool.and_self, if_true, true_and]
    rw [Emission.emit_events, Emission.withState_events, List.foldl_append, hsees, hok]
    cases o.ok with
    | false => simp
    | true => simp [Outline.position, hstarted, hsettled, readEvent, accept]

end NextApi.Anthropic
