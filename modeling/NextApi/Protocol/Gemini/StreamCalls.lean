import NextApi.Protocol.Gemini.PartOrder
import NextApi.Protocol.Gemini.Stream

/-!
# The calls of a Gemini stream

The encoder sends a call as soon as its name is known and its arguments are a document. The chunks
of a stream are taken apart into moments (`Moment`): the fragments, and the finish reasons. At the
first moment at which a call can be sent (`FirstReady`) it is sent, and never again
(`sent_momentRun`).

A call is sent once and with all of its arguments when it has any, and nothing is added to them
after that moment (`callsSentOnce_iff`).
-/

set_option autoImplicit false

namespace NextApi.Gemini

open Json Ir

/-! ### Moments -/

/-- What happens to the calls in a stream. -/
inductive Moment where
  | fragment (tc : IrToolCallDelta)
  | finish

/-- The name that a moment gives to a call. -/
def Moment.name? (i : UInt32) : Moment → Option String
  | .fragment tc => if tc.index = i then tc.name else none
  | .finish => none

/-- The arguments that a moment adds to a call. -/
def Moment.arguments? (i : UInt32) : Moment → Option String
  | .fragment tc => if tc.index = i then tc.arguments else none
  | .finish => none

def momentsOf (chunk : IrChunk) : List Moment :=
  chunk.delta.toolCalls.map .fragment ++ if chunk.finishReason.isSome then [.finish] else []

def momentsIn (chunks : List IrChunk) : List Moment := chunks.flatMap momentsOf

/-- The names that are given to a call. -/
def namesOf (i : UInt32) (ms : List Moment) : List String := ms.filterMap (Moment.name? i)

/-- The fragments of the arguments of a call. -/
def fragmentsOf (i : UInt32) (ms : List Moment) : List String := ms.filterMap (Moment.arguments? i)

/-- The arguments of a call so far. -/
def argumentsOf (i : UInt32) (ms : List Moment) : String := String.join (fragmentsOf i ms)

theorem namesOf_append (i : UInt32) (ms rest : List Moment) :
    namesOf i (ms ++ rest) = namesOf i ms ++ namesOf i rest := List.filterMap_append

theorem fragmentsOf_append (i : UInt32) (ms rest : List Moment) :
    fragmentsOf i (ms ++ rest) = fragmentsOf i ms ++ fragmentsOf i rest := List.filterMap_append

theorem argumentsOf_append (i : UInt32) (ms rest : List Moment) :
    argumentsOf i (ms ++ rest) = argumentsOf i ms ++ argumentsOf i rest := by
  rw [argumentsOf, fragmentsOf_append, String.join_append]
  rfl

section Ready

variable [SerdeJson]

/-- Arguments as they are sent: an empty object when they are no document. -/
def parsedArguments (a : String) : Value := (SerdeJson.ofText a).toOption.getD jsonObject

/-- A call can be sent: it has a name and arguments, and they are a document or a chunk with a
finish reason ends here. -/
structure Ready (i : UInt32) (ms : List Moment) : Prop where
  named : namesOf i ms ≠ []
  given : fragmentsOf i ms ≠ []
  ripe : (∃ v, SerdeJson.ofText (argumentsOf i ms) = .ok v) ∨ ms.getLast? = some .finish

/-- A call can be sent for the first time. -/
structure FirstReady (i : UInt32) (ms : List Moment) : Prop where
  ready : Ready i ms
  first : ∀ before, before <+: ms → Ready i before → before = ms

/-- The call that is sent after some moments. -/
def callAt (i : UInt32) (ms : List Moment) : Value :=
  functionCallPart ((namesOf i ms).getLast?.getD "") (parsedArguments (argumentsOf i ms))

/-- A call could be sent by now. -/
def WasReady (i : UInt32) (ms : List Moment) : Prop := ∃ before, before <+: ms ∧ Ready i before

theorem WasReady.append {i : UInt32} {ms : List Moment} (h : WasReady i ms) (rest : List Moment) :
    WasReady i (ms ++ rest) := by
  obtain ⟨before, hbefore, hready⟩ := h
  exact ⟨before, hbefore.trans (List.prefix_append ms rest), hready⟩

theorem wasReady_concat {i : UInt32} {ms : List Moment} {m : Moment} :
    WasReady i (ms ++ [m]) ↔ WasReady i ms ∨ Ready i (ms ++ [m]) := by
  constructor
  · intro ⟨before, hbefore, hready⟩
    rcases List.prefix_concat_iff.1 hbefore with heq | hprefix
    · exact Or.inr (heq ▸ hready)
    · exact Or.inl ⟨before, hprefix, hready⟩
  · intro h
    rcases h with h | h
    · exact h.append [m]
    · exact ⟨_, List.prefix_rfl, h⟩

/-- A call that can be sent now and could not before can be sent for the first time. -/
theorem firstReady_concat {i : UInt32} {ms : List Moment} {m : Moment} (h : Ready i (ms ++ [m]))
    (hnot : ¬ WasReady i ms) : FirstReady i (ms ++ [m]) := by
  refine ⟨h, fun before hbefore hready ↦ ?_⟩
  rcases List.prefix_concat_iff.1 hbefore with heq | hprefix
  · exact heq
  · exact absurd ⟨before, hprefix, hready⟩ hnot

/-- There is a first time. -/
theorem WasReady.firstReady {i : UInt32} {ms : List Moment} (h : WasReady i ms) :
    ∃ before, before <+: ms ∧ FirstReady i before := by
  induction ms using List.reverseRecOn with
  | nil =>
    obtain ⟨before, hbefore, hready⟩ := h
    rw [List.prefix_nil.1 hbefore] at hready
    exact absurd rfl hready.named
  | append_singleton ms m ih =>
    by_cases hbefore : WasReady i ms
    · obtain ⟨before, hprefix, hfirst⟩ := ih hbefore
      exact ⟨before, hprefix.trans (List.prefix_append ms [m]), hfirst⟩
    · have hready := (wasReady_concat.1 h).resolve_left hbefore
      exact ⟨_, List.prefix_rfl, firstReady_concat hready hbefore⟩

/-- There is one first time. -/
theorem FirstReady.unique {i : UInt32} {ms before before' : List Moment} (h : FirstReady i before)
    (h' : FirstReady i before') (hms : before <+: ms) (hms' : before' <+: ms) :
    before = before' := by
  rcases List.prefix_or_prefix_of_prefix hms hms' with hprefix | hprefix
  · exact h'.first before hprefix h.ready
  · exact (h.first before' hprefix h'.ready).symm

end Ready

/-! ### What was sent -/

theorem namesOf_concat (i : UInt32) (ms : List Moment) (m : Moment) :
    namesOf i (ms ++ [m]) = namesOf i ms ++ (m.name? i).toList := by
  rw [namesOf_append, namesOf, namesOf, List.filterMap_cons, List.filterMap_nil]
  cases m.name? i <;> rfl

theorem fragmentsOf_concat (i : UInt32) (ms : List Moment) (m : Moment) :
    fragmentsOf i (ms ++ [m]) = fragmentsOf i ms ++ (m.arguments? i).toList := by
  rw [fragmentsOf_append, fragmentsOf, fragmentsOf, List.filterMap_cons, List.filterMap_nil]
  cases m.arguments? i <;> rfl

theorem namesOf_finish (i : UInt32) (ms : List Moment) :
    namesOf i (ms ++ [.finish]) = namesOf i ms :=
  (namesOf_concat i ms .finish).trans (List.append_nil _)

theorem fragmentsOf_finish (i : UInt32) (ms : List Moment) :
    fragmentsOf i (ms ++ [.finish]) = fragmentsOf i ms :=
  (fragmentsOf_concat i ms .finish).trans (List.append_nil _)

theorem getLast?_namesOf_concat (i : UInt32) (ms : List Moment) (m : Moment) :
    (namesOf i (ms ++ [m])).getLast? = (m.name? i).or (namesOf i ms).getLast? := by
  rw [namesOf_concat, List.getLast?_append]
  cases m.name? i <;> rfl

/-- The fragments of a call in one, if there are any. -/
def givenArguments (i : UInt32) (ms : List Moment) : Option String :=
  if fragmentsOf i ms = [] then none else some (argumentsOf i ms)

theorem givenArguments_concat (i : UInt32) (ms : List Moment) (m : Moment) :
    givenArguments i (ms ++ [m]) =
      ((m.arguments? i).map fun a ↦ (givenArguments i ms).getD "" ++ a).or
        (givenArguments i ms) := by
  rw [givenArguments, givenArguments, argumentsOf, argumentsOf, fragmentsOf_concat]
  cases m.arguments? i with
  | none => simp
  | some a => by_cases hnone : fragmentsOf i ms = [] <;> simp [hnone]

theorem lookup_toolNames_collectTool (tc : IrToolCallDelta) (st : StreamState) (i : UInt32) :
    (collectTool tc st).toolNames.lookup i =
      (Moment.name? i (.fragment tc)).or (st.toolNames.lookup i) := by
  show ((tc.name.map (st.toolNames.insert tc.index)).getD st.toolNames).lookup i = _
  rw [Moment.name?]
  cases tc.name with
  | none => rw [ite_self]; rfl
  | some name =>
    rw [Option.map_some, Option.getD_some, Table.lookup_insert]
    split <;> rfl

theorem lookup_toolArgs_collectTool (tc : IrToolCallDelta) (st : StreamState) (i : UInt32) :
    (collectTool tc st).toolArgs.lookup i =
      ((Moment.arguments? i (.fragment tc)).map fun a ↦ (st.toolArgs.lookup i).getD "" ++ a).or
        (st.toolArgs.lookup i) := by
  show ((tc.arguments.map fun a ↦ st.toolArgs.insert tc.index
    ((st.toolArgs.lookup tc.index).getD "" ++ a)).getD st.toolArgs).lookup i = _
  rw [Moment.arguments?]
  cases tc.arguments with
  | none => rw [ite_self]; rfl
  | some a =>
    rw [Option.map_some, Option.getD_some, Table.lookup_insert]
    split
    · rename_i hindex
      rw [hindex]
      rfl
    · rfl

section Sending

variable [SerdeJson]

/-- The tables after some moments. -/
structure Collected (ms : List Moment) (st : StreamState) : Prop where
  names : ∀ i, st.toolNames.lookup i = (namesOf i ms).getLast?
  arguments : ∀ i, st.toolArgs.lookup i = givenArguments i ms

/-- The state and the calls that were sent after some moments. -/
structure Sent (ms : List Moment) (acc : StreamState × List Value) : Prop where
  collected : Collected ms acc.1
  emitted : ∀ i, i ∈ acc.1.emittedTools ↔ WasReady i ms
  nodup : acc.1.emittedTools.Nodup
  calls : List.Forall₂ (fun i call ↦
    ∃ before, before <+: ms ∧ FirstReady i before ∧ call = callAt i before) acc.1.emittedTools acc.2

theorem sent_nil : Sent [] ({}, []) where
  collected := ⟨fun _ ↦ Table.lookup_empty _, fun _ ↦ Table.lookup_empty _⟩
  emitted i := by
    refine iff_of_false List.not_mem_nil fun ⟨before, hbefore, hready⟩ ↦ ?_
    rw [List.prefix_nil.1 hbefore] at hready
    exact hready.named rfl
  nodup := List.nodup_nil
  calls := List.Forall₂.nil

/-- A moment at which calls are sent: those that are ready and were not before. -/
theorem Sent.step {ms : List Moment} {m : Moment} {acc acc' : StreamState × List Value}
    (h : Sent ms acc) (new : List UInt32) (hcollected : Collected (ms ++ [m]) acc'.1)
    (hemitted : acc'.1.emittedTools = acc.1.emittedTools ++ new)
    (hcalls : acc'.2 = acc.2 ++ new.map fun i ↦ callAt i (ms ++ [m])) (hnodup : new.Nodup)
    (hnew : ∀ i, i ∈ new ↔ ¬ WasReady i ms ∧ Ready i (ms ++ [m])) : Sent (ms ++ [m]) acc' where
  collected := hcollected
  emitted i := by
    rw [hemitted, List.mem_append, h.emitted, hnew, wasReady_concat]
    tauto
  nodup := by
    rw [hemitted]
    refine h.nodup.append hnodup fun i hold hi ↦ ?_
    exact ((hnew i).1 hi).1 ((h.emitted i).1 hold)
  calls := by
    rw [hemitted, hcalls]
    refine List.rel_append ?_ ?_
    · refine h.calls.imp fun i call ⟨before, hbefore, hfirst, hcall⟩ ↦ ?_
      exact ⟨before, hbefore.trans (List.prefix_append ms [m]), hfirst, hcall⟩
    · rw [List.forall₂_map_right_iff, List.forall₂_same]
      intro i hi
      obtain ⟨hnot, hready⟩ := (hnew i).1 hi
      exact ⟨_, List.prefix_rfl, firstReady_concat hready hnot, rfl⟩

/-! #### A fragment -/

omit [SerdeJson] in
/-- The tables after a fragment. -/
theorem Collected.collectTool {ms : List Moment} {st : StreamState} (h : Collected ms st)
    (tc : IrToolCallDelta) : Collected (ms ++ [.fragment tc]) (collectTool tc st) where
  names i := by rw [lookup_toolNames_collectTool, h.names, getLast?_namesOf_concat]
  arguments i := by rw [lookup_toolArgs_collectTool, h.arguments, givenArguments_concat]

/-- A fragment of another call does not make a call ready. -/
theorem not_ready_fragment_of_ne {i : UInt32} {tc : IrToolCallDelta} (h : tc.index ≠ i)
    {ms : List Moment} (hnot : ¬ WasReady i ms) : ¬ Ready i (ms ++ [.fragment tc]) := by
  have hnames : namesOf i (ms ++ [.fragment tc]) = namesOf i ms := by
    rw [namesOf_concat, Moment.name?, if_neg h, Option.toList_none, List.append_nil]
  have hfragments : fragmentsOf i (ms ++ [.fragment tc]) = fragmentsOf i ms := by
    rw [fragmentsOf_concat, Moment.arguments?, if_neg h, Option.toList_none, List.append_nil]
  intro hready
  refine hnot ⟨ms, List.prefix_rfl, hnames ▸ hready.named, hfragments ▸ hready.given, Or.inl ?_⟩
  rcases hready.ripe with hripe | hlast
  · rwa [argumentsOf, hfragments] at hripe
  · rw [List.getLast?_concat] at hlast
    exact nomatch hlast

/-- A fragment makes its own call ready when the arguments are a document with it. -/
theorem ready_fragment_iff (tc : IrToolCallDelta) (ms : List Moment) :
    Ready tc.index (ms ++ [.fragment tc]) ↔
      namesOf tc.index (ms ++ [.fragment tc]) ≠ [] ∧
        ∃ a v, givenArguments tc.index (ms ++ [.fragment tc]) = some a ∧
          SerdeJson.ofText a = .ok v := by
  rw [givenArguments]
  constructor
  · intro h
    obtain ⟨v, hv⟩ := h.ripe.resolve_right fun hlast ↦ by
      rw [List.getLast?_concat] at hlast
      exact nomatch hlast
    exact ⟨h.named, _, v, if_neg h.given, hv⟩
  · intro ⟨hnamed, a, v, ha, hv⟩
    split at ha
    · exact nomatch ha
    · rename_i hgiven
      exact ⟨hnamed, hgiven, Or.inl ⟨v, Option.some.inj ha ▸ hv⟩⟩

theorem Sent.toolStage {ms : List Moment} {acc : StreamState × List Value} (h : Sent ms acc)
    (tc : IrToolCallDelta) : Sent (ms ++ [.fragment tc]) (toolStage acc tc) := by
  have hcollected := h.collected.collectTool tc
  have hother (i : UInt32) (hi : ¬ WasReady i ms ∧ Ready i (ms ++ [.fragment tc])) :
      i = tc.index := by
    by_contra hne
    exact not_ready_fragment_of_ne (Ne.symm hne) hi.1 hi.2
  -- nothing is sent when the call was ready before, or is not ready now
  have hkeep (hnot : WasReady tc.index ms ∨ ¬ Ready tc.index (ms ++ [.fragment tc])) :
      Sent (ms ++ [.fragment tc]) (collectTool tc acc.1, acc.2) := by
    refine h.step [] hcollected (List.append_nil _).symm (List.append_nil _).symm
      List.nodup_nil fun i ↦ iff_of_false List.not_mem_nil fun hi ↦ ?_
    obtain rfl := hother i hi
    exact hnot.elim hi.1 fun hnow ↦ hnow hi.2
  unfold Gemini.toolStage
  dsimp only
  split
  · rename_i hemitted
    exact hkeep (Or.inl ((h.emitted tc.index).1 hemitted))
  · rename_i hemitted
    have hnot : ¬ WasReady tc.index ms := fun hready ↦ hemitted ((h.emitted tc.index).2 hready)
    rw [hcollected.names, hcollected.arguments]
    have hready := ready_fragment_iff tc ms
    split
    · rename_i name args hname hargs
      have hnamed : namesOf tc.index (ms ++ [.fragment tc]) ≠ [] := by
        intro hnil
        rw [hnil] at hname
        cases hname
      split
      · rename_i v hv
        have hnow : Ready tc.index (ms ++ [.fragment tc]) :=
          hready.2 ⟨hnamed, args, v, hargs, hv⟩
        have hcall : functionCallPart name v = callAt tc.index (ms ++ [.fragment tc]) := by
          rw [givenArguments, if_neg hnow.given] at hargs
          rw [callAt, hname, parsedArguments, Option.some.inj hargs, hv]
          rfl
        refine h.step [tc.index] ⟨hcollected.names, hcollected.arguments⟩ rfl ?_
          (List.nodup_singleton _) fun i ↦ ?_
        · rw [List.map_singleton, ← hcall]
          rfl
        · rw [List.mem_singleton]
          refine ⟨fun hi ↦ ?_, hother i⟩
          rw [hi]
          exact ⟨hnot, hnow⟩
      · rename_i e he
        refine hkeep (Or.inr fun hnow ↦ ?_)
        obtain ⟨-, a, v, ha, hv⟩ := hready.1 hnow
        rw [← Option.some.inj (hargs.symm.trans ha), he] at hv
        cases hv
    · rename_i hmissing
      refine hkeep (Or.inr fun hnow ↦ ?_)
      obtain ⟨hnamed, a, v, ha, -⟩ := hready.1 hnow
      exact hmissing _ a (List.getLast?_eq_some_getLast hnamed) ha

/-! #### A finish reason -/

/-- The calls that are still to be sent. -/
def isUnsent (st : StreamState) (i : UInt32) : Bool :=
  decide (i ∉ st.emittedTools) && (st.toolNames.lookup i).isSome

/-- A call that was not sent, as it is sent at the end. -/
def unsentCall (st : StreamState) (i : UInt32) : Value :=
  functionCallPart ((st.toolNames.lookup i).getD "")
    (((st.toolArgs.lookup i).bind fun s ↦ (SerdeJson.ofText s).toOption).getD jsonObject)

/-- What sending the rest of some calls does. -/
theorem foldl_flushTool {keys : List UInt32} (hnodup : keys.Nodup)
    (acc : StreamState × List Value) :
    keys.foldl flushTool acc =
      ({ acc.1 with emittedTools := acc.1.emittedTools ++ keys.filter (isUnsent acc.1) },
        acc.2 ++ (keys.filter (isUnsent acc.1)).map (unsentCall acc.1)) := by
  induction keys generalizing acc with
  | nil => simp
  | cons i rest ih =>
    obtain ⟨hi, hrest⟩ := List.nodup_cons.1 hnodup
    rw [List.foldl_cons, ih hrest, flushTool]
    split
    · rename_i hemitted
      rw [List.filter_cons_of_neg (by simp [isUnsent, hemitted])]
    · rename_i hemitted
      split
      · rename_i name hname
        have hunsent : isUnsent acc.1 i = true := by simp [isUnsent, hemitted, hname]
        have hcall : functionCallPart name (((acc.1.toolArgs.lookup i).bind fun s ↦
            (SerdeJson.ofText s).toOption).getD jsonObject) = unsentCall acc.1 i := by
          rw [unsentCall, hname]
          rfl
        -- the call is not among the rest, so sending it changes nothing there
        have hfilter : rest.filter (isUnsent { acc.1 with
            emittedTools := acc.1.emittedTools ++ [i] }) = rest.filter (isUnsent acc.1) := by
          refine List.filter_congr fun j hj ↦ ?_
          have hne : j ≠ i := fun heq ↦ hi (heq ▸ hj)
          simp [isUnsent, hne]
        rw [List.filter_cons_of_pos hunsent, List.map_cons, ← hcall]
        simp only [sendTool, hfilter, List.append_assoc, List.singleton_append]
        rfl
      · rename_i hname
        rw [List.filter_cons_of_neg (by simp [isUnsent, hname])]

end Sending

section Encoder

variable [SerdeJson] [HashOrder]

/-- A finish reason makes every call ready that has a name and arguments. -/
theorem Sent.flushUnfinishedTools {ms : List Moment} {acc : StreamState × List Value}
    (h : Sent ms acc) : Sent (ms ++ [.finish]) (flushUnfinishedTools acc) := by
  have hperm := HashOrder.perm (acc.1.toolArgs.toList.map Prod.fst)
  have hnodup := hperm.nodup_iff.2 (Table.nodup_keys_toList acc.1.toolArgs)
  have hnames (i : UInt32) := namesOf_finish i ms
  have hfragments (i : UInt32) := fragmentsOf_finish i ms
  have hgiven (i : UInt32) : givenArguments i (ms ++ [.finish]) = givenArguments i ms := by
    rw [givenArguments, givenArguments, argumentsOf, argumentsOf, hfragments]
  have hcollected : Collected (ms ++ [.finish]) acc.1 :=
    ⟨fun i ↦ by rw [h.collected.names, hnames], fun i ↦ by rw [h.collected.arguments, hgiven]⟩
  have hready (i : UInt32) :
      Ready i (ms ++ [.finish]) ↔ namesOf i ms ≠ [] ∧ fragmentsOf i ms ≠ [] := by
    rw [← hnames, ← hfragments]
    exact ⟨fun hi ↦ ⟨hi.named, hi.given⟩,
      fun ⟨hnamed, hsome⟩ ↦ ⟨hnamed, hsome, Or.inr List.getLast?_concat⟩⟩
  have hkey (i : UInt32) : i ∈ HashOrder.arrange (acc.1.toolArgs.toList.map Prod.fst) ↔
      fragmentsOf i ms ≠ [] := by
    rw [hperm.mem_iff, List.mem_map]
    constructor
    · rintro ⟨⟨j, a⟩, hmem, rfl⟩ hnil
      have hlookup := Table.mem_toList.1 hmem
      rw [h.collected.arguments, givenArguments, if_pos hnil] at hlookup
      exact nomatch hlookup
    · intro hsome
      refine ⟨(i, argumentsOf i ms), Table.mem_toList.2 ?_, rfl⟩
      rw [h.collected.arguments, givenArguments, if_neg hsome]
  have hunsent (i : UInt32) :
      isUnsent acc.1 i = true ↔ ¬ WasReady i ms ∧ namesOf i ms ≠ [] := by
    rw [isUnsent, Bool.and_eq_true, decide_eq_true_iff, h.emitted, h.collected.names]
    cases namesOf i ms <;> simp
  have hnew (i : UInt32) : i ∈ (HashOrder.arrange (acc.1.toolArgs.toList.map Prod.fst)).filter
      (isUnsent acc.1) ↔ ¬ WasReady i ms ∧ Ready i (ms ++ [.finish]) := by
    rw [List.mem_filter, hkey, hunsent, hready]
    tauto
  have hcall (i : UInt32) (hi : Ready i (ms ++ [.finish])) :
      unsentCall acc.1 i = callAt i (ms ++ [.finish]) := by
    rw [unsentCall, hcollected.names, hcollected.arguments, givenArguments, if_neg hi.given]
    rfl
  rw [Gemini.flushUnfinishedTools, foldl_flushTool hnodup]
  refine h.step _ ⟨hcollected.names, hcollected.arguments⟩ rfl ?_ (hnodup.filter _) hnew
  refine congrArg (acc.2 ++ ·) (List.map_congr_left fun i hi ↦ ?_)
  exact hcall i ((hnew i).1 hi).2

/-- What the encoder does at a moment. -/
def momentStep (acc : StreamState × List Value) : Moment → StreamState × List Value
  | .fragment tc => toolStage acc tc
  | .finish => flushUnfinishedTools acc

def momentRun (acc : StreamState × List Value) (ms : List Moment) : StreamState × List Value :=
  ms.foldl momentStep acc

/-- Every call that was ready was sent, once, as it was when it was ready for the first time. -/
theorem sent_momentRun (ms : List Moment) : Sent ms (momentRun ({}, []) ms) := by
  induction ms using List.reverseRecOn with
  | nil => exact sent_nil
  | append_singleton ms m ih =>
    rw [momentRun, List.foldl_append]
    cases m with
    | fragment tc => exact ih.toolStage tc
    | finish => exact ih.flushUnfinishedTools

/-! ### The events of a stream -/

/-- The function calls among some parts. -/
def callParts (parts : List Value) : List Value :=
  parts.filter fun p ↦ (p.get? "functionCall").isSome

/-- The function calls of an event. -/
def callsIn (event : Value) : List Value :=
  callParts ((candidatesIn event).flatMap fun c ↦ ((c.get? "content").map partsOf).getD [])

omit [SerdeJson] [HashOrder] in
theorem callParts_append (xs ys : List Value) :
    callParts (xs ++ ys) = callParts xs ++ callParts ys := List.filter_append xs ys

omit [HashOrder] in
theorem toolStage_append (st : StreamState) (parts : List Value) (tc : IrToolCallDelta) :
    toolStage (st, parts) tc =
      ((toolStage (st, []) tc).1, parts ++ (toolStage (st, []) tc).2) := by
  unfold toolStage
  dsimp only
  split
  · rw [List.append_nil]
  · split
    · split
      · rfl
      · rw [List.append_nil]
    · rw [List.append_nil]

theorem flushUnfinishedTools_append (st : StreamState) (parts : List Value) :
    flushUnfinishedTools (st, parts) =
      ((flushUnfinishedTools (st, [])).1, parts ++ (flushUnfinishedTools (st, [])).2) := by
  have hnodup := (HashOrder.perm (st.toolArgs.toList.map Prod.fst)).nodup_iff.2
    (Table.nodup_keys_toList st.toolArgs)
  rw [flushUnfinishedTools, flushUnfinishedTools, foldl_flushTool hnodup, foldl_flushTool hnodup]
  rfl

/-- What was sent before stays. -/
theorem momentRun_append (st : StreamState) (parts : List Value) (ms : List Moment) :
    momentRun (st, parts) ms =
      ((momentRun (st, []) ms).1, parts ++ (momentRun (st, []) ms).2) := by
  have hstep (st : StreamState) (parts : List Value) (m : Moment) :
      momentStep (st, parts) m =
        ((momentStep (st, []) m).1, parts ++ (momentStep (st, []) m).2) := by
    cases m with
    | fragment tc => exact toolStage_append st parts tc
    | finish => exact flushUnfinishedTools_append st parts
  induction ms generalizing st parts with
  | nil => exact congrArg (Prod.mk st) (List.append_nil parts).symm
  | cons m rest ih =>
    show momentRun (momentStep (st, parts) m) rest =
      ((momentRun (momentStep (st, []) m) rest).1,
        parts ++ (momentRun (momentStep (st, []) m) rest).2)
    rw [hstep, ih, ih (momentStep (st, []) m).1 (momentStep (st, []) m).2, List.append_assoc]

theorem momentRun_moments (st : StreamState) (ms rest : List Moment) :
    momentRun (st, []) (ms ++ rest) =
      ((momentRun ((momentRun (st, []) ms).1, []) rest).1, (momentRun (st, []) ms).2 ++
        (momentRun ((momentRun (st, []) ms).1, []) rest).2) := by
  rw [momentRun, List.foldl_append]
  exact momentRun_append _ _ rest

omit [SerdeJson] [HashOrder] in
/-- The calls of an event with one candidate. -/
theorem callsIn_of_candidate {event : Value} {parts : List Value} {index : UInt32}
    {finishReason : Option String} (h : event.get? "candidates" =
      some (.arr [candidateToJson parts index finishReason])) : callsIn event = callParts parts := by
  have hcandidates : candidatesIn event = [candidateToJson parts index finishReason] := by
    rw [candidatesIn, h]
    rfl
  rw [callsIn, hcandidates, List.flatMap_singleton, partsOf_candidateToJson, Option.getD_some]

/-- The texts of a chunk, as parts. -/
def textsOf (chunk : IrChunk) : List Value :=
  (chunk.delta.content.map textPart).toList ++ (chunk.delta.reasoningContent.map thoughtPart).toList

/-- The event of a chunk has its texts, and the calls that are sent at its moments. -/
theorem chunkFromIr_event (chunk : IrChunk) (st : StreamState) :
    (chunkFromIr chunk st).st = (momentRun (st, []) (momentsOf chunk)).1 ∧
      ∃ event, (chunkFromIr chunk st).events = [event] ∧
        event.get? "candidates" = some (.arr [candidateToJson
          (textsOf chunk ++ (momentRun (st, []) (momentsOf chunk)).2) 0 chunk.finishReason]) := by
  have hrun : momentRun (st, textsOf chunk) (momentsOf chunk) =
      if chunk.finishReason.isSome then
        flushUnfinishedTools (chunk.delta.toolCalls.foldl toolStage (st, textsOf chunk))
      else chunk.delta.toolCalls.foldl toolStage (st, textsOf chunk) := by
    have hfragments (acc : StreamState × List Value) (tcs : List IrToolCallDelta) :
        (tcs.map Moment.fragment).foldl momentStep acc = tcs.foldl toolStage acc := List.foldl_map
    rw [momentRun, momentsOf, List.foldl_append, hfragments]
    split <;> rfl
  have hst : (chunkFromIr chunk st).st = (momentRun (st, textsOf chunk) (momentsOf chunk)).1 := by
    rw [hrun]
    rfl
  refine ⟨by rw [hst, momentRun_append], ?_⟩
  obtain ⟨event, hevents, hcandidates⟩ : ∃ event, (chunkFromIr chunk st).events = [event] ∧
      event.get? "candidates" = some (.arr [candidateToJson
        (momentRun (st, textsOf chunk) (momentsOf chunk)).2 0 chunk.finishReason]) := by
    refine ⟨_, rfl, ?_⟩
    rw [Value.get?_obj, Map.get?_orInsertAll, Map.get?_insertPresent (by simp), hrun]
    rfl
  rw [momentRun_append] at hcandidates
  exact ⟨event, hevents, hcandidates⟩

/-- The event of a chunk has the calls that are sent at its moments. -/
theorem chunkFromIr_calls (chunk : IrChunk) (st : StreamState) :
    (chunkFromIr chunk st).st = (momentRun (st, []) (momentsOf chunk)).1 ∧
      (chunkFromIr chunk st).events.flatMap callsIn =
        callParts (momentRun (st, []) (momentsOf chunk)).2 := by
  have htexts : callParts (textsOf chunk) = [] := by
    rw [textsOf, callParts_append]
    cases chunk.delta.content <;> cases chunk.delta.reasoningContent <;> rfl
  obtain ⟨hst, event, hevents, hcandidates⟩ := chunkFromIr_event chunk st
  rw [hevents, List.flatMap_singleton, callsIn_of_candidate hcandidates, callParts_append, htexts,
    List.nil_append]
  exact ⟨hst, rfl⟩

/-- The encoder as a transducer from chunks to events. -/
def encodeChunk (st : StreamState) (chunk : IrChunk) : StreamState × List Value :=
  (chunkFromIr chunk st).toStep

/-- The state after some chunks. -/
def stateAfter (chunks : List IrChunk) : StreamState := (Stream.run encodeChunk {} chunks).1

/-- The events of some chunks and of the end of the stream. -/
def eventsOf (chunks : List IrChunk) : List Value :=
  (Stream.run encodeChunk {} chunks).2 ++ (streamEnd (stateAfter chunks)).events

/-- The events of some chunks have the calls that are sent at their moments. -/
theorem run_calls (chunks : List IrChunk) (st : StreamState) :
    (Stream.run encodeChunk st chunks).1 = (momentRun (st, []) (momentsIn chunks)).1 ∧
      (Stream.run encodeChunk st chunks).2.flatMap callsIn =
        callParts (momentRun (st, []) (momentsIn chunks)).2 := by
  induction chunks generalizing st with
  | nil => exact ⟨rfl, rfl⟩
  | cons chunk rest ih =>
    obtain ⟨hst, hcalls⟩ := chunkFromIr_calls chunk st
    obtain ⟨hrest, hcallsRest⟩ := ih (chunkFromIr chunk st).st
    have hmoments : momentsIn (chunk :: rest) = momentsOf chunk ++ momentsIn rest :=
      List.flatMap_cons
    rw [hmoments, momentRun_moments, ← hst, callParts_append, ← hcalls, ← hcallsRest, ← hrest,
      ← List.flatMap_append]
    exact ⟨rfl, rfl⟩

omit [HashOrder] in
/-- What is sent are calls. -/
theorem Sent.callParts_eq {ms : List Moment} {acc : StreamState × List Value} (h : Sent ms acc) :
    callParts acc.2 = acc.2 := by
  have hcalls := h.calls
  generalize acc.1.emittedTools = emitted at hcalls
  generalize acc.2 = sent at hcalls
  induction hcalls with
  | nil => rfl
  | cons hcall _ ih =>
    obtain ⟨before, -, -, rfl⟩ := hcall
    exact (List.filter_cons_of_pos rfl).trans (congrArg _ ih)

/-- The end of a stream is one more finish reason. -/
theorem momentRun_end (chunks : List IrChunk) :
    momentRun ({}, []) (momentsIn chunks ++ [.finish]) = ((streamEnd (stateAfter chunks)).st,
      (momentRun ({}, []) (momentsIn chunks)).2 ++
        (flushUnfinishedTools (stateAfter chunks, [])).2) := by
  rw [momentRun_moments, stateAfter, (run_calls chunks {}).1]
  rfl

/-- The events of a whole stream have the calls that are sent at its moments and at the end. -/
theorem eventsOf_calls (chunks : List IrChunk) :
    (eventsOf chunks).flatMap callsIn =
      (momentRun ({}, []) (momentsIn chunks ++ [.finish])).2 := by
  have hall := (sent_momentRun (momentsIn chunks ++ [.finish])).callParts_eq
  have hend : (streamEnd (stateAfter chunks)).events.flatMap callsIn =
      callParts (flushUnfinishedTools (stateAfter chunks, [])).2 := by
    rw [streamEnd]
    dsimp only
    split
    · rename_i hempty
      rw [List.isEmpty_iff.1 hempty]
      rfl
    · rw [List.flatMap_singleton]
      exact callsIn_of_candidate rfl
  rw [← hall, eventsOf, List.flatMap_append, (run_calls chunks {}).2, hend, momentRun_end,
    callParts_append]

/-! ### Calls that are sent once -/

omit [SerdeJson] [HashOrder] in
/-- A moment of a stream is a moment of one of its chunks. -/
theorem exists_chunk_of_prefix {chunks : List IrChunk} {before : List Moment}
    (h : before <+: momentsIn chunks) (hne : before ≠ []) :
    ∃ past chunk rest seen, chunks = past ++ chunk :: rest ∧ seen <+: momentsOf chunk ∧
      before = momentsIn past ++ seen := by
  induction chunks generalizing before with
  | nil => exact absurd (List.prefix_nil.1 h) hne
  | cons chunk rest ih =>
    have hmoments : momentsIn (chunk :: rest) = momentsOf chunk ++ momentsIn rest :=
      List.flatMap_cons
    rw [hmoments] at h
    rcases List.prefix_or_prefix_of_prefix h (List.prefix_append _ _) with hin | ⟨later, hlater⟩
    · exact ⟨[], chunk, rest, before, rfl, hin, rfl⟩
    · rw [← hlater, List.prefix_append_right_inj] at h
      by_cases hnil : later = []
      · refine ⟨[], chunk, rest, before, rfl, ?_, rfl⟩
        exact ⟨[], by rw [List.append_nil, ← hlater, hnil, List.append_nil]⟩
      · obtain ⟨past, c, rest', seen, hrest, hseen, heq⟩ := ih h hnil
        refine ⟨chunk :: past, c, rest', seen, by rw [hrest, List.cons_append], hseen, ?_⟩
        rw [← hlater, heq, ← List.append_assoc]
        rfl

omit [SerdeJson] [HashOrder] in
theorem momentsIn_append (past rest : List IrChunk) :
    momentsIn (past ++ rest) = momentsIn past ++ momentsIn rest := List.flatMap_append

/-- The calls of a stream. -/
def indicesIn (chunks : List IrChunk) : List UInt32 :=
  chunks.flatMap fun chunk ↦ chunk.delta.toolCalls.map IrToolCallDelta.index

/-- Every call of a stream is given one name, and its arguments are empty or a document. -/
structure Announces (chunks : List IrChunk) : Prop where
  named : ∀ i ∈ indicesIn chunks, namesOf i (momentsIn chunks) ≠ []
  agree : ∀ i, ∀ name ∈ namesOf i (momentsIn chunks), ∀ name' ∈ namesOf i (momentsIn chunks),
    name = name'
  documents : ∀ i ∈ indicesIn chunks, argumentsOf i (momentsIn chunks) = "" ∨
    ∃ v, SerdeJson.ofText (argumentsOf i (momentsIn chunks)) = .ok v

/-- The call that a stream announces for an index. -/
def announcedCall (chunks : List IrChunk) (i : UInt32) : Value :=
  let a := argumentsOf i (momentsIn chunks)
  functionCallPart ((namesOf i (momentsIn chunks)).head?.getD "")
    (if a = "" then jsonObject else parsedArguments a)

/-- Every announced call is sent once, with its name and all of its arguments, and not before they
are complete. The calls that were sent are those of `emittedTools`, in its order. -/
structure CallsSentOnce (chunks : List IrChunk) : Prop where
  announced : ∀ i, i ∈ (streamEnd (stateAfter chunks)).st.emittedTools ↔ i ∈ indicesIn chunks
  nodup : (streamEnd (stateAfter chunks)).st.emittedTools.Nodup
  calls : (eventsOf chunks).flatMap callsIn =
    (streamEnd (stateAfter chunks)).st.emittedTools.map (announcedCall chunks)
  complete : ∀ past rest, chunks = past ++ rest → ∀ i ∈ (stateAfter past).emittedTools,
    argumentsOf i (momentsIn rest) = ""

/-- The arguments of a call are given, and when it can be sent for the first time they denote what
all of them do, and later chunks add nothing. -/
structure Timely (chunks : List IrChunk) (i : UInt32) : Prop where
  given : fragmentsOf i (momentsIn chunks) ≠ []
  complete : ∀ past chunk rest seen, chunks = past ++ chunk :: rest → seen <+: momentsOf chunk →
    FirstReady i (momentsIn past ++ seen) → argumentsOf i (momentsIn rest) = "" ∧
      parsedArguments (argumentsOf i (momentsIn past ++ seen)) =
        parsedArguments (argumentsOf i (momentsIn chunks))

omit [SerdeJson] [HashOrder] in
theorem mem_indicesIn_of_named {chunks : List IrChunk} {i : UInt32}
    (h : namesOf i (momentsIn chunks) ≠ []) : i ∈ indicesIn chunks := by
  obtain ⟨name, hname⟩ := List.exists_mem_of_ne_nil _ h
  obtain ⟨m, hm, hgiven⟩ := List.mem_filterMap.1 hname
  obtain ⟨chunk, hchunk, hmoment⟩ := List.mem_flatMap.1 hm
  refine List.mem_flatMap.2 ⟨chunk, hchunk, ?_⟩
  rcases List.mem_append.1 hmoment with hfragment | hfinish
  · obtain ⟨tc, htc, rfl⟩ := List.mem_map.1 hfragment
    rw [Moment.name?] at hgiven
    split at hgiven
    · rename_i hindex
      exact List.mem_map.2 ⟨tc, htc, hindex⟩
    · exact nomatch hgiven
  · split at hfinish
    · rw [List.mem_singleton.1 hfinish] at hgiven
      exact nomatch hgiven
    · exact (List.not_mem_nil hfinish).elim

omit [HashOrder] in
/-- The calls that were sent are those that are wanted when each is. -/
theorem calls_eq_map_iff {ms : List Moment} {emitted : List UInt32} {sent : List Value}
    (h : List.Forall₂ (fun i call ↦ ∃ before, before <+: ms ∧ FirstReady i before ∧
      call = callAt i before) emitted sent) (wanted : UInt32 → Value) :
    sent = emitted.map wanted ↔
      ∀ i ∈ emitted, ∀ before, before <+: ms → FirstReady i before →
        callAt i before = wanted i := by
  induction h with
  | nil => exact iff_of_true rfl fun i hi ↦ (List.not_mem_nil hi).elim
  | cons hcall _ ih =>
    obtain ⟨before, hbefore, hfirst, rfl⟩ := hcall
    rw [List.map_cons, List.cons.injEq, ih, List.forall_mem_cons]
    refine and_congr_left fun _ ↦ ⟨fun heq b hb hb' ↦ ?_, fun heq ↦ heq before hbefore hfirst⟩
    rw [hb'.unique hfirst hb hbefore, heq]

omit [HashOrder] in
/-- The arguments as they are announced. -/
theorem announcedCall_eq (hempty : ∃ e, SerdeJson.ofText "" = .error e) (chunks : List IrChunk)
    (i : UInt32) : announcedCall chunks i =
      functionCallPart ((namesOf i (momentsIn chunks)).head?.getD "")
        (parsedArguments (argumentsOf i (momentsIn chunks))) := by
  obtain ⟨e, he⟩ := hempty
  rw [announcedCall]
  split
  · rename_i hnone
    rw [hnone, parsedArguments, he]
    rfl
  · rfl

omit [SerdeJson] [HashOrder] in
theorem functionCallPart_inj {name name' : String} {args args' : Value} :
    functionCallPart name args = functionCallPart name' args' ↔ name = name' ∧ args = args' := by
  constructor
  · intro h
    have hcall := congrArg (fun v ↦ v["functionCall"]["name"]) h
    have hargs := congrArg (fun v ↦ v["functionCall"]["args"]) h
    exact ⟨Value.str.inj hcall, hargs⟩
  · rintro ⟨rfl, rfl⟩
    rfl

omit [SerdeJson] [HashOrder] in
theorem namesOf_subset {i : UInt32} {before ms : List Moment} (h : before <+: ms ++ [.finish]) :
    namesOf i before ⊆ namesOf i ms := by
  rw [← namesOf_finish i ms]
  exact h.sublist.filterMap (Moment.name? i) |>.subset

omit [HashOrder] in
/-- The name at any moment is the announced one. -/
theorem Announces.name_eq {chunks : List IrChunk} (h : Announces chunks) {i : UInt32}
    {before : List Moment} (hbefore : before <+: momentsIn chunks ++ [.finish])
    (hnamed : namesOf i before ≠ []) : (namesOf i before).getLast?.getD "" =
      (namesOf i (momentsIn chunks)).head?.getD "" := by
  have hsubset := namesOf_subset (i := i) hbefore
  have hlast := List.getLast?_eq_some_getLast hnamed
  have hmem := hsubset (List.getLast_mem hnamed)
  have hhead := List.head?_eq_some_head (List.ne_nil_of_mem hmem)
  rw [hlast, hhead, Option.getD_some, Option.getD_some]
  exact h.agree i _ hmem _ (List.head_mem _)

/-- The calls of a stream are sent once, and complete, exactly when each of them has arguments to
which nothing is added after they could be sent. -/
theorem callsSentOnce_iff {chunks : List IrChunk} (hempty : ∃ e, SerdeJson.ofText "" = .error e)
    (h : Announces chunks) : CallsSentOnce chunks ↔ ∀ i ∈ indicesIn chunks, Timely chunks i := by
  have hsent := sent_momentRun (momentsIn chunks ++ [.finish])
  have hend : (momentRun ({}, []) (momentsIn chunks ++ [.finish])).1 =
      (streamEnd (stateAfter chunks)).st := by rw [momentRun_end]
  have hcalls := hsent.calls
  have hemitted := hsent.emitted
  have hnodup := hsent.nodup
  rw [hend] at hcalls hemitted hnodup
  rw [← eventsOf_calls] at hcalls
  have hsofar (past : List IrChunk) (i : UInt32) :
      i ∈ (stateAfter past).emittedTools ↔ WasReady i (momentsIn past) := by
    rw [stateAfter, (run_calls past {}).1]
    exact (sent_momentRun (momentsIn past)).emitted i
  constructor
  · intro honce i hi
    have hall := (hemitted i).1 ((honce.announced i).2 hi)
    refine ⟨fun hnone ↦ ?_, fun past chunk rest seen hchunks hseen hfirst ↦ ⟨?_, ?_⟩⟩
    · obtain ⟨before, hbefore, hready⟩ := hall
      have hsub := (hbefore.sublist.filterMap (Moment.arguments? i)).subset
      obtain ⟨a, ha⟩ := List.exists_mem_of_ne_nil _ hready.given
      have hmem := hsub ha
      rw [← fragmentsOf, fragmentsOf_finish, hnone] at hmem
      exact List.not_mem_nil hmem
    · have hsplit : chunks = (past ++ [chunk]) ++ rest := by
        rw [hchunks, List.append_assoc, List.singleton_append]
      refine honce.complete _ _ hsplit i ((hsofar _ i).2 ⟨_, ?_, hfirst.ready⟩)
      rw [momentsIn_append, List.prefix_append_right_inj, momentsIn, List.flatMap_singleton]
      exact hseen
    · have hprefix : momentsIn past ++ seen <+: momentsIn chunks ++ [.finish] := by
        rw [hchunks, momentsIn_append, List.append_assoc, List.prefix_append_right_inj]
        refine hseen.trans ?_
        rw [momentsIn, List.flatMap_cons, List.append_assoc]
        exact List.prefix_append _ _
      have hcall := (calls_eq_map_iff hcalls (announcedCall chunks)).1 honce.calls i
        ((honce.announced i).2 hi) _ hprefix hfirst
      rw [announcedCall_eq hempty, callAt, functionCallPart_inj] at hcall
      exact hcall.2
  · intro htimely
    -- a call that was ready is announced, and so it is timely
    have hindex {ms : List Moment} {i : UInt32} (hms : ms <+: momentsIn chunks ++ [.finish])
        (hready : WasReady i ms) : i ∈ indicesIn chunks := by
      obtain ⟨before, hbefore, hready⟩ := hready
      obtain ⟨name, hname⟩ := List.exists_mem_of_ne_nil _ hready.named
      exact mem_indicesIn_of_named
        (List.ne_nil_of_mem (namesOf_subset (hbefore.trans hms) hname))
    refine ⟨fun i ↦ ?_, hnodup, ?_, ?_⟩
    · rw [hemitted]
      refine ⟨hindex List.prefix_rfl, fun hi ↦ ⟨_, List.prefix_rfl, ?_, ?_, Or.inr ?_⟩⟩
      · rw [namesOf_finish]
        exact h.named i hi
      · rw [fragmentsOf_finish]
        exact (htimely i hi).given
      · exact List.getLast?_concat
    · refine (calls_eq_map_iff hcalls _).2 fun i hi before hbefore hfirst ↦ ?_
      rw [announcedCall_eq hempty, callAt, functionCallPart_inj]
      refine ⟨h.name_eq hbefore hfirst.ready.named, ?_⟩
      rcases List.prefix_concat_iff.1 hbefore with heq | hprefix
      · rw [heq, argumentsOf, fragmentsOf_finish]
        rfl
      · have hne : before ≠ [] := fun hnil ↦ hfirst.ready.named (by rw [hnil]; rfl)
        obtain ⟨past, chunk, rest, seen, hchunks, hseen, heq⟩ :=
          exists_chunk_of_prefix hprefix hne
        rw [heq] at hfirst ⊢
        have hi' := hindex List.prefix_rfl ((hemitted i).1 hi)
        exact ((htimely i hi').complete past chunk rest seen hchunks hseen hfirst).2
    · intro past rest hchunks i hi
      have hready := (hsofar past i).1 hi
      obtain ⟨before, hbefore, hfirst⟩ := hready.firstReady
      have hne : before ≠ [] := fun hnil ↦ hfirst.ready.named (by rw [hnil]; rfl)
      obtain ⟨past', chunk, later, seen, hpast, hseen, heq⟩ := exists_chunk_of_prefix hbefore hne
      have hms : momentsIn past <+: momentsIn chunks ++ [.finish] := by
        rw [hchunks, momentsIn_append, List.append_assoc]
        exact List.prefix_append _ _
      have hsplit : chunks = past' ++ chunk :: (later ++ rest) := by
        rw [hchunks, hpast, List.append_assoc, List.cons_append]
      rw [heq] at hfirst
      have hnothing :=
        ((htimely i (hindex hms hready)).complete past' chunk _ seen hsplit hseen hfirst).1
      rw [momentsIn_append, argumentsOf_append, String.append_eq_empty_iff] at hnothing
      exact hnothing.2

end Encoder

section Concrete

local instance callsCodec : SerdeJson := Compact.codec

local instance callsOrder : HashOrder := ⟨id, fun keys ↦ List.Perm.refl keys⟩

/-- A chunk with fragments of calls. -/
def callChunk (tcs : List IrToolCallDelta) (finishReason : Option String) : IrChunk :=
  { choices := [{ delta := { toolCalls := tcs }, finishReason := finishReason }] }

/-- A call whose arguments come in two chunks, before the chunk with the finish reason. -/
def weatherChunks : List IrChunk :=
  [callChunk [{ index := 0, name := some "weather", arguments := some "\x7b\"city\":" }] none,
    callChunk [{ index := 0, arguments := some "\"Rome\"\x7d" }] none,
    callChunk [] (some "tool_calls")]

/-- The codec reads a text or not. -/
theorem ofText_of_toOption {a : String} {v : Value}
    (h : (SerdeJson.ofText a).toOption = some v) : SerdeJson.ofText a = .ok v := by
  cases hread : SerdeJson.ofText a with
  | ok w =>
    rw [hread] at h
    rw [Option.some.inj h]
  | error e =>
    rw [hread] at h
    exact nomatch h

theorem error_of_toOption {a : String} (h : (SerdeJson.ofText a).toOption = none) :
    ∃ e, SerdeJson.ofText a = .error e := by
  cases hread : SerdeJson.ofText a with
  | ok w =>
    rw [hread] at h
    exact nomatch h
  | error e => exact ⟨e, rfl⟩

/-- A stream with one call, which is named once. -/
theorem announces_of_one {chunks : List IrChunk} (name : String) (v : Value)
    (hindex : indicesIn chunks ⊆ [0]) (hname : namesOf 0 (momentsIn chunks) = [name])
    (hdocument : argumentsOf 0 (momentsIn chunks) = "" ∨
      (SerdeJson.ofText (argumentsOf 0 (momentsIn chunks))).toOption = some v) :
    Announces chunks := by
  have hzero {i : UInt32} (hi : i ∈ indicesIn chunks) : i = 0 := List.mem_singleton.1 (hindex hi)
  refine ⟨fun i hi ↦ ?_, fun i a ha b hb ↦ ?_, fun i hi ↦ ?_⟩
  · rw [hzero hi, hname]
    exact List.cons_ne_nil _ _
  · obtain rfl := hzero (mem_indicesIn_of_named (List.ne_nil_of_mem ha))
    rw [hname] at ha hb
    rw [List.mem_singleton.1 ha, List.mem_singleton.1 hb]
  · rw [hzero hi]
    exact hdocument.imp_right fun h ↦ ⟨v, ofText_of_toOption h⟩

/-- The call is sent once, with both fragments of its arguments. -/
theorem callsSentOnce_weather : CallsSentOnce weatherChunks := by
  have hannounces : Announces weatherChunks :=
    announces_of_one "weather" (.object [("city", .str "Rome")]) (by decide) rfl
      (Or.inr (by decide +kernel))
  refine (callsSentOnce_iff (error_of_toOption (by decide +kernel)) hannounces).2 fun i hi ↦ ?_
  obtain rfl : i = 0 := by simpa [indicesIn, weatherChunks, callChunk, IrChunk.delta] using hi
  -- the first fragment alone is no document
  have hhalf (ms : List Moment) (hms : argumentsOf 0 ms = "\x7b\"city\":")
      (hlast : ms.getLast? ≠ some .finish) : ¬ Ready 0 ms := by
    intro hready
    obtain ⟨v, hv⟩ := hready.ripe.resolve_right hlast
    obtain ⟨e, he⟩ := error_of_toOption
      (show (SerdeJson.ofText "\x7b\"city\":").toOption = none by decide +kernel)
    rw [hms, he] at hv
    exact nomatch hv
  have hseenOf {seen : List Moment} {m : Moment} (h : seen <+: [m]) : seen = [m] ∨ seen = [] := by
    rcases List.prefix_concat_iff.1 (show seen <+: [] ++ [m] from h) with h | h
    · exact Or.inl h
    · exact Or.inr (List.prefix_nil.1 h)
  refine ⟨by decide, fun past chunk rest seen hchunks hseen hfirst ↦ ?_⟩
  rcases past with _ | ⟨c, _ | ⟨c', _ | ⟨c'', past⟩⟩⟩
  · obtain ⟨rfl, rfl⟩ := List.cons.inj hchunks
    rcases hseenOf hseen with rfl | rfl
    · exact absurd hfirst.ready (hhalf _ rfl nofun)
    · exact absurd rfl hfirst.ready.named
  · obtain ⟨rfl, hrest⟩ := List.cons.inj hchunks
    obtain ⟨rfl, rfl⟩ := List.cons.inj hrest
    rcases hseenOf hseen with rfl | rfl
    · exact ⟨rfl, rfl⟩
    · exact absurd hfirst.ready (hhalf _ rfl nofun)
  · obtain ⟨rfl, hrest⟩ := List.cons.inj hchunks
    obtain ⟨rfl, hlast⟩ := List.cons.inj hrest
    obtain ⟨rfl, rfl⟩ := List.cons.inj hlast
    rcases hseenOf hseen with rfl | rfl
    · exact ⟨rfl, rfl⟩
    · exact ⟨rfl, rfl⟩
  · have hlength := congrArg List.length hchunks
    simp [weatherChunks] at hlength

/-- A call without arguments. -/
def silentChunks : List IrChunk :=
  [callChunk [{ index := 0, name := some "now" }] none, callChunk [] (some "tool_calls")]

/-- A call whose arguments are a number, digit by digit. -/
def digitChunks : List IrChunk :=
  [callChunk [{ index := 0, name := some "wait", arguments := some "1" }] none,
    callChunk [{ index := 0, arguments := some "2" }] (some "tool_calls")]

/-- A call whose arguments go on after the chunk with the finish reason. -/
def lateChunks : List IrChunk :=
  [callChunk [{ index := 0, name := some "f", arguments := some "\x7b" }] (some "tool_calls"),
    callChunk [{ index := 0, arguments := some "\"a\":1\x7d" }] none]

/-- A call without arguments is not sent, a number is sent with its first digit, and a finish reason
sends an empty object for arguments that are not complete. -/
theorem not_callsSentOnce :
    (Announces silentChunks ∧ ¬ CallsSentOnce silentChunks ∧
      indicesIn silentChunks = [0] ∧ (eventsOf silentChunks).flatMap callsIn = []) ∧
    (Announces digitChunks ∧ ¬ CallsSentOnce digitChunks ∧
      announcedCall digitChunks 0 = functionCallPart "wait" (.int 12) ∧
      (eventsOf digitChunks).flatMap callsIn = [functionCallPart "wait" (.int 1)]) ∧
    Announces lateChunks ∧ ¬ CallsSentOnce lateChunks ∧
      announcedCall lateChunks 0 = functionCallPart "f" (.object [("a", .int 1)]) ∧
      (eventsOf lateChunks).flatMap callsIn = [functionCallPart "f" jsonObject] := by
  refine ⟨⟨?_, fun h ↦ ?_, by decide, by decide +kernel⟩,
    ⟨?_, fun h ↦ ?_, by decide +kernel, by decide +kernel⟩,
    ?_, fun h ↦ ?_, by decide +kernel, by decide +kernel⟩
  · exact announces_of_one "now" .null (by decide) rfl (Or.inl rfl)
  · exact absurd ((h.announced 0).2 (by decide)) (by decide)
  · exact announces_of_one "wait" (.int 12) (by decide) rfl
      (Or.inr (by decide +kernel))
  · exact absurd h.calls (by decide +kernel)
  · exact announces_of_one "f" (.object [("a", .int 1)]) (by decide) rfl
      (Or.inr (by decide +kernel))
  · exact absurd h.calls (by decide +kernel)

end Concrete

end NextApi.Gemini
