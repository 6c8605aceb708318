import NextApi.Json.Compact
import NextApi.Upstream.Codex

/-!
# Agreement of the Codex consumers

What each of the three consumers does with a stream depends only on its events: the aggregate takes
the first completed one (`aggregate_eq`), the WebSocket call without streaming the first one that is
completed or an error (`executeNonstream_eq`), and the WebSocket stream forwards all, and ends with
an error of its own unless one of those that it read in its loop was completed (`wsStream_eq`).

`agree_iff` says for which streams with a terminal event at the end the three agree on it.
-/

set_option autoImplicit false

namespace NextApi.Codex

open Json Gateway

section

variable [SerdeJson]

/-- The documents among the payloads. -/
def eventsOf (texts : List String) : List Value := texts.filterMap parse

theorem eventsOf_append (s t : List String) : eventsOf (s ++ t) = eventsOf s ++ eventsOf t :=
  List.filterMap_append

theorem eventsOf_cons_none {data : String} (h : parse data = none) (rest : List String) :
    eventsOf (data :: rest) = eventsOf rest := List.filterMap_cons_none h

theorem eventsOf_cons_some {data : String} {v : Value} (h : parse data = some v)
    (rest : List String) : eventsOf (data :: rest) = v :: eventsOf rest :=
  List.filterMap_cons_some h

/-- The server-sent events of the texts. -/
def framesOf (texts : List String) : List (List Char) :=
  (texts.filterMap frameToSse).map Prod.fst

theorem framesOf_cons_none {text : String} (h : parse text = none) (rest : List String) :
    framesOf (text :: rest) = framesOf rest := by
  rw [framesOf, List.filterMap_cons_none (by rw [frameToSse, h, Option.map_none]), framesOf]

theorem framesOf_cons_some {text : String} {v : Value} (h : parse text = some v)
    (rest : List String) :
    framesOf (text :: rest) = Sse.encodeTypedEvent (frameData v text) :: framesOf rest := by
  rw [framesOf, List.filterMap_cons_some (by rw [frameToSse, h, Option.map_some]), List.map_cons,
    framesOf]

/-- The texts among the messages. -/
def textsOf : List Message → List String
  | .text raw :: rest => raw :: textsOf rest
  | .other :: rest => textsOf rest
  | [] => []

/-- The payloads of a body that is read to its end. -/
def payloadsOf (chunks : List (List String)) : BodyEnd → List String
  | .eof rest => chunks.flatten ++ rest
  | _ => chunks.flatten

/-! ### The aggregate -/

/-- The response of the first completed event that has one. -/
def firstResponse (events : List Value) : Option Value :=
  events.findSome? fun v ↦ if isCompleted v then v.get? "response" else none

theorem foldl_handle (completed : Option Value) (texts : List String) :
    texts.foldl handle completed = completed.or (firstResponse (eventsOf texts)) := by
  induction texts generalizing completed with
  | nil =>
    rw [List.foldl_nil]
    exact Option.or_none.symm
  | cons data rest ih =>
    rw [List.foldl_cons, ih, handle]
    cases completed with
    | some response => rw [Option.isSome_some, if_pos rfl, Option.some_or, Option.some_or]
    | none =>
      rw [Option.isSome_none, if_neg Bool.false_ne_true, Option.none_or]
      cases hparse : parse data with
      | none =>
        rw [eventsOf_cons_none hparse]
        exact Option.none_or
      | some v =>
        rw [eventsOf_cons_some hparse, firstResponse, firstResponse, List.findSome?_cons]
        dsimp only
        cases (if isCompleted v then v.get? "response" else none) with
        | none => exact Option.none_or
        | some response => exact Option.some_or

omit [SerdeJson] in
theorem firstResponse_append (s t : List Value) :
    firstResponse (s ++ t) = (firstResponse s).or (firstResponse t) :=
  List.findSome?_append

/-- What the aggregate answers without a completed event. -/
def BodyEnd.answer : BodyEnd → Option (Except UpstreamError Value)
  | .eof _ => some (.error (.bodyRead "codex 流缺少 response.completed 帧"))
  | .error message => some (.error (.bodyRead message))
  | .silent => none

/-- The aggregate answers with the response of the first completed event. -/
theorem aggregate_eq (chunks : List (List String)) (ending : BodyEnd) :
    aggregateStreamToJson chunks ending =
      match firstResponse (eventsOf (payloadsOf chunks ending)) with
      | some response => some (.ok response)
      | none => ending.answer := by
  induction chunks with
  | nil =>
    cases ending with
    | eof rest =>
      rw [aggregateStreamToJson, foldl_handle, Option.none_or]
      rfl
    | error message => rfl
    | silent => rfl
  | cons chunk chunks ih =>
    have hpayloads : payloadsOf (chunk :: chunks) ending = chunk ++ payloadsOf chunks ending := by
      cases ending with
      | eof rest => rw [payloadsOf, payloadsOf, List.flatten_cons, List.append_assoc]
      | error message | silent => rw [payloadsOf, payloadsOf, List.flatten_cons]; all_goals simp
    rw [aggregateStreamToJson, foldl_handle, Option.none_or, hpayloads,
      eventsOf_append, firstResponse_append]
    cases firstResponse (eventsOf chunk) with
    | some response => rw [Option.some_or]
    | none =>
      rw [Option.none_or]
      exact ih

/-! ### The call over a WebSocket -/

/-- An event that the call without streaming answers to. -/
def isDecisive (v : Value) : Bool := isErrorFrame v || isCompleted v

/-- What the call answers without such an event. -/
def WsEnd.answer : WsEnd → Option (Except UpstreamError Value)
  | .close => some (.error (.bodyRead "codex ws 在 response.completed 前关闭"))
  | .eof => some (.error (.bodyRead "codex ws 流缺少 response.completed 帧"))
  | .error e => some (.error e)
  | .silent => none

/-- The call answers to the first event that is completed or an error. -/
theorem executeNonstream_eq (messages : List Message) (ending : WsEnd) :
    (∀ v, (eventsOf (textsOf messages)).find? isDecisive = some v → isErrorFrame v = false →
      executeNonstream messages ending = some (.ok ((v.get? "response").getD v))) ∧
    (∀ v, (eventsOf (textsOf messages)).find? isDecisive = some v → isErrorFrame v = true →
      ∃ e, executeNonstream messages ending = some (.error e)) ∧
    ((eventsOf (textsOf messages)).find? isDecisive = none →
      executeNonstream messages ending = ending.answer) := by
  induction messages with
  | nil =>
    refine ⟨fun v h ↦ absurd h.symm (Option.some_ne_none v),
      fun v h ↦ absurd h.symm (Option.some_ne_none v), fun _ ↦ ?_⟩
    cases ending <;> rfl
  | cons message rest ih =>
    cases message with
    | other => exact ih
    | text raw =>
      rw [executeNonstream, textsOf]
      cases hparse : parse raw with
      | none =>
        rw [eventsOf_cons_none hparse]
        exact ih
      | some v =>
        rw [eventsOf_cons_some hparse, List.find?_cons]
        dsimp only
        cases herror : isErrorFrame v with
        | true =>
          rw [isDecisive, herror, Bool.true_or, if_pos rfl]
          refine ⟨fun w hw hne ↦ ?_, fun w _ _ ↦ ⟨_, rfl⟩, fun h ↦ absurd h (Option.some_ne_none v)⟩
          rw [← Option.some.inj hw, herror] at hne
          exact absurd hne.symm Bool.false_ne_true
        | false =>
          rw [isDecisive, herror, Bool.false_or, if_neg Bool.false_ne_true]
          cases hcompleted : isCompleted v with
          | true =>
            rw [if_pos rfl]
            refine ⟨fun w hw _ ↦ ?_, fun w hw hne ↦ ?_, fun h ↦ absurd h (Option.some_ne_none v)⟩
            · rw [← Option.some.inj hw]
            · rw [← Option.some.inj hw, herror] at hne
              exact absurd hne Bool.false_ne_true
          | false =>
            rw [if_neg Bool.false_ne_true]
            exact ih

/-! ### The stream over a WebSocket -/

/-- What the stream adds at its end. -/
def WsEnd.tail (completed : Bool) : WsEnd → List (Except String (List Char))
  | .close => if completed then [] else [.error "codex ws 在 response.completed 前被关闭"]
  | .eof => if completed then [] else [.error "codex ws 连接已结束"]
  | .error e => [.error (errorText e)]
  | .silent => []

def WsEnd.ends : WsEnd → Bool
  | .silent => false
  | _ => true

/-- Every frame is forwarded, and the end depends on whether one of them was completed. -/
theorem wsStream_eq (completed : Bool) (messages : List Message) (ending : WsEnd) :
    wsStream completed messages ending =
      ⟨(framesOf (textsOf messages)).map .ok ++
        ending.tail (completed || (eventsOf (textsOf messages)).any isCompleted), ending.ends⟩ := by
  induction messages generalizing completed with
  | nil =>
    rw [textsOf, eventsOf, List.filterMap_nil, List.any_nil, Bool.or_false]
    cases ending <;> rfl
  | cons message rest ih =>
    cases message with
    | other => exact ih completed
    | text raw =>
      rw [wsStream, textsOf, frameToSse]
      cases hparse : parse raw with
      | none =>
        rw [eventsOf_cons_none hparse, framesOf_cons_none hparse]
        exact ih completed
      | some v =>
        rw [eventsOf_cons_some hparse, framesOf_cons_some hparse, Option.map_some]
        dsimp only
        rw [ih, Bool.or_assoc, List.any_cons]
        rfl

/-- The first event comes while it is waited for. -/
def readsFirst (window : ℕ) (messages : List Message) : Bool :=
  decide (eventsOf (textsOf (messages.take window)) ≠ [])

/-- With an event to come, waiting for the first one takes it, or nothing. -/
theorem awaitFirst_eq {messages : List Message} {v : Value} {events : List Value}
    (h : eventsOf (textsOf messages) = v :: events) (window : ℕ) (ending : WsEnd) :
    if readsFirst window messages then
      if isErrorFrame v then ∃ e, awaitFirst window messages ending = .error e
      else ∃ first rest, awaitFirst window messages ending = .ok ([first], rest) ∧
        eventsOf (textsOf rest) = events ∧
        framesOf (textsOf messages) = first :: framesOf (textsOf rest)
    else ∃ rest, awaitFirst window messages ending = .ok ([], rest) ∧
      eventsOf (textsOf rest) = v :: events ∧
      framesOf (textsOf rest) = framesOf (textsOf messages) := by
  induction messages generalizing window with
  | nil => exact absurd h (List.cons_ne_nil v events).symm
  | cons message rest ih =>
    cases window with
    | zero => exact ⟨message :: rest, by rw [awaitFirst], h, rfl⟩
    | succ window =>
      cases message with
      | other => exact ih h window
      | text raw =>
        rw [readsFirst, List.take_succ_cons, awaitFirst, textsOf]
        rw [textsOf] at h
        cases hparse : parse raw with
        | none =>
          rw [eventsOf_cons_none hparse] at h
          rw [eventsOf_cons_none hparse, textsOf, framesOf_cons_none hparse]
          exact ih h window
        | some w =>
          rw [eventsOf_cons_some hparse, List.cons.injEq] at h
          rw [eventsOf_cons_some hparse, if_pos (decide_eq_true (List.cons_ne_nil _ _)), textsOf,
            framesOf_cons_some hparse]
          dsimp only
          rw [← h.1]
          cases isErrorFrame w with
          | true =>
            rw [if_pos rfl, if_pos rfl]
            exact ⟨_, rfl⟩
          | false =>
            rw [if_neg Bool.false_ne_true, if_neg Bool.false_ne_true]
            exact ⟨_, rest, rfl, h.2, rfl⟩

omit [SerdeJson] in
theorem WsEnd.tail_eq_nil {completed : Bool} {ending : WsEnd} :
    (ending.tail completed = [] ∧ ending.ends = true) ↔
      completed = true ∧ (ending = .close ∨ ending = .eof) := by
  cases ending <;> cases completed <;> simp [WsEnd.tail, WsEnd.ends]

omit [SerdeJson] in
theorem forwarded_iff {items tail : List (Except String (List Char))} {ended : Bool} :
    (Except.ok ⟨items ++ tail, ended⟩ : Except UpstreamError Forwarded) = .ok ⟨items, true⟩ ↔
      tail = [] ∧ ended = true := by
  rw [Except.ok.injEq, Forwarded.mk.injEq, List.append_right_eq_self]

/-- When the stream forwards all events and ends without an error of its own. -/
theorem executeStream_iff {messages : List Message} {v : Value} {events : List Value}
    (h : eventsOf (textsOf messages) = v :: events) (window : ℕ) (ending : WsEnd) :
    executeStream window messages ending =
        .ok ⟨(framesOf (textsOf messages)).map .ok, true⟩ ↔
      (readsFirst window messages = true → isErrorFrame v = false) ∧
        ((v :: events).drop (if readsFirst window messages then 1 else 0)).any isCompleted = true ∧
        (ending = .close ∨ ending = .eof) := by
  have hfirst := awaitFirst_eq h window ending
  rw [executeStream]
  cases hreads : readsFirst window messages with
  | true =>
    rw [hreads, if_pos rfl] at hfirst
    cases herror : isErrorFrame v with
    | true =>
      rw [herror, if_pos rfl] at hfirst
      obtain ⟨e, he⟩ := hfirst
      rw [he]
      exact iff_of_false (fun h ↦ absurd h (by simp [Except.map]))
        fun h ↦ Bool.false_ne_true (h.1 rfl).symm
    | false =>
      rw [herror, if_neg Bool.false_ne_true] at hfirst
      obtain ⟨first, rest, hok, hrest, hframes⟩ := hfirst
      have hstream : (awaitFirst window messages ending).map (resume ending) =
          .ok ⟨(framesOf (textsOf messages)).map .ok ++
            ending.tail (events.any isCompleted), ending.ends⟩ := by
        rw [hok, hframes, ← hrest]
        show Except.ok (resume ending _) = _
        rw [resume, wsStream_eq, Bool.false_or]
        rfl
      rw [hstream, forwarded_iff, if_pos rfl, List.drop_one, List.tail_cons,
        WsEnd.tail_eq_nil]
      exact (and_iff_right fun _ ↦ rfl).symm
  | false =>
    rw [hreads, if_neg Bool.false_ne_true] at hfirst
    obtain ⟨rest, hok, hrest, hframes⟩ := hfirst
    have hstream : (awaitFirst window messages ending).map (resume ending) =
        .ok ⟨(framesOf (textsOf messages)).map .ok ++
          ending.tail ((v :: events).any isCompleted), ending.ends⟩ := by
      rw [hok, ← hframes, ← hrest]
      show Except.ok (resume ending _) = _
      rw [resume, wsStream_eq, Bool.false_or]
      rfl
    rw [hstream, forwarded_iff, if_neg Bool.false_ne_true, List.drop_zero, WsEnd.tail_eq_nil]
    exact (and_iff_right fun h ↦ absurd h Bool.false_ne_true).symm

/-! ### Agreement -/

end

def isFailed (v : Value) : Bool := hasType "response.failed" v

/-- The events that end a response. -/
def isTerminal (v : Value) : Bool :=
  isCompleted v || hasType "response.incomplete" v || isFailed v

/-- A terminal event has the response. -/
def IsEvent (v : Value) : Prop := isTerminal v = true → (v.get? "response").isSome = true

instance : DecidablePred IsEvent := fun _ ↦ inferInstanceAs (Decidable (_ → _))

/-- The answer to a request without streaming whose last event is `last`. -/
def Answers (last : Value) (answer : Option (Except UpstreamError Value)) : Prop :=
  if isFailed last then ∃ e, answer = some (.error e)
  else answer = (last.get? "response").map .ok

section

variable [SerdeJson]

/-- The same events over both connections, and how they come. -/
structure Delivery (events : List Value) where
  chunks : List (List String)
  bodyEnd : BodyEnd
  http : eventsOf (payloadsOf chunks bodyEnd) = events
  messages : List Message
  wsEnd : WsEnd
  ws : eventsOf (textsOf messages) = events
  window : ℕ

namespace Delivery

variable {events : List Value}

/-- The three consumers treat the last event as the end of the response. -/
structure Agrees (d : Delivery events) (last : Value) : Prop where
  aggregate : Answers last (aggregateStreamToJson d.chunks d.bodyEnd)
  nonstream : Answers last (executeNonstream d.messages d.wsEnd)
  stream : executeStream d.window d.messages d.wsEnd =
    .ok ⟨(framesOf (textsOf d.messages)).map .ok, true⟩

/-- The first event is forwarded before the loop that looks for the completed one. -/
def skipped (d : Delivery events) : ℕ := if readsFirst d.window d.messages then 1 else 0

/-- The condition for it: the response is in the first completed event, no error frame comes before
that, the loop of the stream meets a completed event, and the connection is closed. -/
structure Completes (d : Delivery events) (last : Value) : Prop where
  notFailed : isFailed last = false
  decisive : ∃ v, events.find? isDecisive = some v ∧ isCompleted v = true ∧
    v.get? "response" = last.get? "response"
  inLoop : (events.drop d.skipped).any isCompleted = true
  closed : d.wsEnd = .close ∨ d.wsEnd = .eof

end Delivery

end

theorem hasType_ne {type type' : String} (hne : type ≠ type') {v : Value}
    (h : hasType type v = true) : hasType type' v = false := by
  rw [hasType, decide_eq_true_iff] at h
  rw [hasType, decide_eq_false_iff_not, h]
  exact fun heq ↦ hne (Option.some.inj heq)

/-- When a completed event is the first to be answered to, it is the first completed one. -/
theorem firstResponse_of_decisive {events : List Value} {v response : Value}
    (h : events.find? isDecisive = some v) (hcompleted : isCompleted v = true)
    (hresponse : v.get? "response" = some response) : firstResponse events = some response := by
  obtain ⟨-, before, after, rfl, hbefore⟩ := List.find?_eq_some_iff_append.1 h
  have hnone : firstResponse before = none := by
    rw [firstResponse, List.findSome?_eq_none_iff]
    intro w hw
    have hdecisive := hbefore w hw
    rw [isDecisive, Bool.not_eq_true', Bool.or_eq_false_iff] at hdecisive
    rw [hdecisive.2, if_neg Bool.false_ne_true]
  rw [firstResponse_append, hnone, Option.none_or, firstResponse, List.findSome?_cons]
  rw [hcompleted, if_pos rfl, hresponse]

/-- Without a response of a completed event there is no completed event. -/
theorem not_completed_of_firstResponse {events : List Value} (hevents : ∀ v ∈ events, IsEvent v)
    (h : firstResponse events = none) {v : Value} (hv : v ∈ events) : isCompleted v = false := by
  rw [Bool.eq_false_iff]
  intro hcompleted
  have hnone := List.findSome?_eq_none_iff.1 h v hv
  rw [if_pos hcompleted] at hnone
  have hsome := hevents v hv (by rw [isTerminal, hcompleted, Bool.true_or, Bool.true_or])
  rw [hnone] at hsome
  exact Bool.false_ne_true hsome

/-- The three consumers agree on a stream with a terminal event at the end when it is completed
(or a completed event with the same response came before), was not the frame read before the loop
of the stream, and followed no error. -/
theorem agrees_iff [SerdeJson] (events : List Value) (hevents : ∀ v ∈ events, IsEvent v)
    (last : Value) (hlast : events.getLast? = some last) (hterminal : isTerminal last = true)
    (d : Delivery events) : d.Agrees last ↔ d.Completes last := by
  obtain ⟨response, hresponse⟩ : ∃ response, last.get? "response" = some response :=
    Option.isSome_iff_exists.1 (hevents last (List.mem_of_getLast? hlast) hterminal)
  obtain ⟨first, rest, rfl⟩ : ∃ first rest, events = first :: rest :=
    List.exists_cons_of_ne_nil fun hnil ↦ by simp [hnil] at hlast
  have hstream := executeStream_iff d.ws d.window d.wsEnd
  constructor
  · intro h
    obtain ⟨hreads, hloop, hclosed⟩ := hstream.1 h.stream
    have hnot : isFailed last = false := by
      rw [Bool.eq_false_iff]
      intro hfailed
      have hanswer := h.aggregate
      rw [Answers, if_pos hfailed, aggregate_eq, d.http] at hanswer
      obtain ⟨v, hv, hcompleted⟩ := List.any_eq_true.1 hloop
      have hv := List.mem_of_mem_drop hv
      cases hfirst : firstResponse (first :: rest) with
      | none =>
        rw [not_completed_of_firstResponse hevents hfirst hv] at hcompleted
        exact Bool.false_ne_true hcompleted
      | some r =>
        rw [hfirst] at hanswer
        obtain ⟨e, he⟩ := hanswer
        exact absurd he (by simp)
    refine ⟨hnot, ?_, hloop, hclosed⟩
    have hanswer := h.nonstream
    rw [Answers, hnot, if_neg Bool.false_ne_true, hresponse, Option.map_some] at hanswer
    obtain ⟨hok, herr, hend⟩ := executeNonstream_eq d.messages d.wsEnd
    rw [d.ws, hanswer] at hok herr hend
    cases hfind : (first :: rest).find? isDecisive with
    | none =>
      have hclosing := hend hfind
      rcases hclosed with h | h <;> rw [h] at hclosing <;> exact absurd hclosing (by simp [WsEnd.answer])
    | some v =>
      cases herror : isErrorFrame v with
      | true =>
        obtain ⟨e, he⟩ := herr v hfind herror
        exact absurd he (by simp)
      | false =>
        have hcompleted : isCompleted v = true := by
          have hdecisive := List.find?_some hfind
          rw [isDecisive, herror, Bool.false_or] at hdecisive
          exact hdecisive
        obtain ⟨r, hr⟩ := Option.isSome_iff_exists.1 (hevents v (List.mem_of_find?_eq_some hfind)
          (by rw [isTerminal, hcompleted, Bool.true_or, Bool.true_or]))
        refine ⟨v, rfl, hcompleted, ?_⟩
        have heq := hok v hfind herror
        rw [hr, Option.getD_some, Option.some_inj, Except.ok.injEq] at heq
        rw [hr, hresponse, heq]
  · intro h
    obtain ⟨v, hv, hcompleted, heq⟩ := h.decisive
    rw [hresponse] at heq
    refine ⟨?_, ?_, hstream.2 ⟨?_, h.inLoop, h.closed⟩⟩
    · rw [Answers, h.notFailed, if_neg Bool.false_ne_true, aggregate_eq, d.http,
        firstResponse_of_decisive hv hcompleted heq, hresponse]
      rfl
    · rw [Answers, h.notFailed, if_neg Bool.false_ne_true, hresponse,
        (executeNonstream_eq d.messages d.wsEnd).1 v (d.ws.symm ▸ hv)
          (hasType_ne (by decide) hcompleted), heq]
      rfl
    · intro _
      rw [Bool.eq_false_iff]
      intro herror
      rw [List.find?_cons, isDecisive, herror, Bool.true_or] at hv
      rw [← Option.some.inj hv, isCompleted, hasType_ne (by decide) herror] at hcompleted
      exact Bool.false_ne_true hcompleted

/-! ### A response that reaches its limit -/

section Weather

local instance : SerdeJson := Compact.codec

def created : Value := .object [("type", .str "response.created")]

/-- The last event of a response, of this type. -/
def ended (type : String) : Value :=
  .object [("type", .str type), ("response", .object [("id", .str "resp_1")])]

/-- A stream of two events, over HTTP in one chunk and over a WebSocket that is then closed. -/
def twoEvents (type : String)
    (h : eventsOf [SerdeJson.toText created, SerdeJson.toText (ended type)] =
      [created, ended type]) : Delivery [created, ended type] where
  chunks := [[SerdeJson.toText created, SerdeJson.toText (ended type)]]
  bodyEnd := .eof []
  http := h
  messages := [.text (SerdeJson.toText created), .text (SerdeJson.toText (ended type))]
  wsEnd := .close
  ws := h
  window := 1

theorem agrees_completed :
    (twoEvents "response.completed" (by decide +kernel)).Agrees (ended "response.completed") := by
  refine (agrees_iff _ (by decide +kernel) _ rfl (by decide +kernel) _).2
    ⟨by decide +kernel, ?_, by decide +kernel, Or.inl rfl⟩
  exact ⟨ended "response.completed", by decide +kernel, by decide +kernel, rfl⟩

/-- A response that reached the limit of its tokens is an error for all three. -/
theorem not_agrees_incomplete :
    ¬ (twoEvents "response.incomplete" (by decide +kernel)).Agrees (ended "response.incomplete") := by
  intro h
  have hanswer := h.aggregate
  rw [Answers, if_neg (by decide +kernel)] at hanswer
  revert hanswer
  decide +kernel

end Weather

end NextApi.Codex
