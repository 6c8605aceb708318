import NextApi.Error
import NextApi.Protocol.Adapter

/-!
# Stopping for tools

A client is told to run tools by a marker: the finish reason `tool_calls` in Chat, the stop reason
`tool_use` in Anthropic. The adapters do not look at the tool calls of a response for it. They carry
over what the upstream says about its end (`StopReport`), normalised, and an upstream that has no
word for a stop for tools says `completed` or `STOP`.

This file is about complete responses (`marked_whole_iff`).
-/

set_option autoImplicit false

namespace NextApi

open Json Ir

/-! ### Markers -/

/-- The choices of a document. -/
def choicesOf (v : Value) : List Value := ((v.get? "choices").bind Value.asArray).getD []

/-- The finish reasons of the choices of a document. -/
def choiceReasons (v : Value) : List String :=
  (choicesOf v).filterMap fun choice ↦ choice["finish_reason"].asStr

/-- The response carries the marker of its protocol, if that has one. -/
def MarksResponse : Protocol → Value → Prop
  | .openaiChat, v => "tool_calls" ∈ choiceReasons v
  | .anthropic, v => v["stop_reason"].asStr = some "tool_use"
  | _, _ => False

/-! ### What an upstream says about its end -/

/-- The finish reasons of all choices, that of the first choice, and a raw stop reason that is
written as it is. -/
structure StopReport where
  all : List String
  first : Option String
  carried : Option String := none

/-- The stop reason that is carried besides the choices: a member of that name, and the stop reason
of Anthropic itself. -/
def carriedStop (p : Protocol) (v : Value) : Option String :=
  let raw :=
    match v.get? "anthropic_stop_reason" with
    | some x => x.asStr
    | none => if p = Protocol.anthropic then v["stop_reason"].asStr else none
  raw.filter fun s ↦ decide (s ≠ "")

/-- The candidates of a document. -/
def candidatesOf (v : Value) : List Value := ((v.get? "candidates").bind Value.asArray).getD []

/-- What a complete response says about its end. -/
def stopReport (p : Protocol) (v : Value) : StopReport where
  all :=
    match p with
    | .openaiChat => choiceReasons v
    | .openaiResponses => v["status"].asStr.toList
    | .anthropic => if (v.get? "content").isSome then v["stop_reason"].asStr.toList else []
    | .gemini => (candidatesOf v).filterMap fun cand ↦ cand["finishReason"].asStr
  first :=
    match p with
    | .openaiChat => (choicesOf v).head?.bind fun choice ↦ choice["finish_reason"].asStr
    | .openaiResponses => v["status"].asStr
    | .anthropic => if (v.get? "content").isSome then v["stop_reason"].asStr else none
    | .gemini => (candidatesOf v).head?.bind fun cand ↦ cand["finishReason"].asStr
  carried := carriedStop p v

/-- The upstream said it stopped for tools, in words that reach the client. -/
def SaysToolStop : Protocol → StopReport → Prop
  | .openaiChat, r => ∃ raw ∈ r.all, normalizeFinishReason raw = "tool_calls"
  | .anthropic, r =>
    match r.carried with
    | some raw => raw = "tool_use"
    | none => ∃ raw, r.first = some raw ∧ normalizeFinishReason raw = "tool_calls"
  | _, _ => False

/-! ### Reading -/

/-- The response says what the report says. -/
structure Reports (resp : IrResponse) (r : StopReport) : Prop where
  all : resp.choices.filterMap IrChoice.finishReason = r.all.map normalizeFinishReason
  first : resp.choices.head?.bind IrChoice.finishReason = r.first.map normalizeFinishReason
  carried : ((Map.get? resp.extra "anthropic_stop_reason").bind Value.asStr).filter
    (fun s ↦ decide (s ≠ "")) = r.carried

theorem error_ne_ok {ε α : Type} {e : ε} {x : α} : (Except.error e : Except ε α) ≠ .ok x :=
  fun h ↦ nomatch h

/-- A list of choices whose finish reasons are those of a list of documents. -/
theorem reports_of_map {α : Type} {choices : List α} {finish : α → Option String}
    {docs : List Value} {field : Value → Option String}
    (h : choices.map finish = docs.map fun c ↦ (field c).map normalizeFinishReason) :
    choices.filterMap finish = (docs.filterMap field).map normalizeFinishReason ∧
      choices.head?.bind finish =
        (docs.head?.bind field).map normalizeFinishReason := by
  constructor
  · have hfilter := congrArg (List.filterMap id) h
    rw [List.filterMap_map, List.filterMap_map] at hfilter
    rw [List.map_filterMap]
    exact hfilter
  · have hhead := congrArg List.head? h
    rw [List.head?_map, List.head?_map] at hhead
    cases hchoices : choices.head? with
    | none =>
      rw [hchoices] at hhead
      cases hdocs : docs.head? with
      | none => rfl
      | some doc =>
        rw [hdocs] at hhead
        exact absurd hhead.symm (Option.some_ne_none _)
    | some choice =>
      rw [hchoices] at hhead
      cases hdocs : docs.head? with
      | none =>
        rw [hdocs] at hhead
        exact absurd hhead (Option.some_ne_none _)
      | some doc =>
        rw [hdocs] at hhead
        exact Option.some.inj hhead

/-- A member without a reader is carried. -/
theorem carried_of_extra {obj : Map} (hsorted : Map.Sorted obj) {known : List String}
    (hknown : "anthropic_stop_reason" ∉ known) (extra : Map) :
    Map.get? (Map.insertAll extra (Map.without obj known)) "anthropic_stop_reason" =
      (Map.get? obj "anthropic_stop_reason").or (Map.get? extra "anthropic_stop_reason") := by
  rw [Map.get?_insertAll (hsorted.without known), Map.get?_without, if_neg hknown]

section Reading

variable [SerdeJson]

theorem finishReason_parseChoice (choice : Value) (read : IrChoice × ConvCtx)
    (h : Chat.parseChoice choice = .ok read) :
    read.1.finishReason = choice["finish_reason"].asStr.map normalizeFinishReason := by
  unfold Chat.parseChoice at h
  split at h
  · cases hmsg : Chat.parseChoiceMessage (choice.get? "message") with
    | error e =>
      rw [hmsg] at h
      exact absurd h error_ne_ok
    | ok message =>
      rw [hmsg] at h
      rw [← Except.ok.inj h]
  · exact absurd h error_ne_ok

/-- The choices of a Chat response have the finish reasons of its document. -/
theorem finishReasons_parseChoices {v : Value} {read : List IrChoice × ConvCtx}
    (h : Chat.parseChoices (v.get? "choices") = .ok read) :
    read.1.map IrChoice.finishReason =
      (choicesOf v).map fun choice ↦ choice["finish_reason"].asStr.map normalizeFinishReason := by
  rw [choicesOf]
  cases hchoices : v.get? "choices" with
  | none =>
    rw [hchoices] at h
    rw [← Except.ok.inj h]
    rfl
  | some choices =>
    rw [hchoices] at h
    cases choices with
    | arr items =>
      rw [Chat.parseChoices] at h
      cases hitems : items.mapM Chat.parseChoice with
      | error e =>
        rw [hitems] at h
        exact absurd h error_ne_ok
      | ok reads =>
        rw [hitems] at h
        have hall := map_eq_of_mapM finishReason_parseChoice hitems
        rw [← Except.ok.inj h, List.map_map]
        exact hall
    | _ => exact absurd h error_ne_ok

omit [SerdeJson] in
/-- Without a stop reason of its own, the reader carries the member of that name. -/
theorem carriedStop_of_extra {p : Protocol} (hp : p ≠ .anthropic) {obj : Map}
    (hsorted : Map.Sorted obj) {known : List String} (hknown : "anthropic_stop_reason" ∉ known)
    {extra : Map} (hextra : Map.get? extra "anthropic_stop_reason" = none) :
    ((Map.get? (Map.insertAll extra (Map.without obj known)) "anthropic_stop_reason").bind
      Value.asStr).filter (fun s ↦ decide (s ≠ "")) = carriedStop p (.obj obj) := by
  rw [carried_of_extra hsorted hknown, hextra, Option.or_none, carriedStop, Value.get?_obj,
    if_neg hp]
  cases Map.get? obj "anthropic_stop_reason" <;> rfl

theorem reports_chat {v : Value} (hv : v.Normal) {read : IrResponse × ConvCtx}
    (h : Chat.responseToIr v = .ok read) : Reports read.1 (stopReport .openaiChat v) := by
  cases v with
  | obj obj =>
    unfold Chat.responseToIr at h
    dsimp only [Value.asObject] at h
    cases hchoices : Chat.parseChoices ((Value.obj obj).get? "choices") with
    | error e =>
      rw [hchoices] at h
      exact absurd h error_ne_ok
    | ok choices =>
      rw [hchoices] at h
      rw [← Except.ok.inj h]
      obtain ⟨hall, hfirst⟩ := reports_of_map (finishReasons_parseChoices hchoices)
      exact ⟨hall, hfirst, carriedStop_of_extra (by decide) hv.1 (by decide) rfl⟩
  | _ => exact absurd h error_ne_ok

theorem reports_gemini {v : Value} (hv : v.Normal) {read : IrResponse × ConvCtx}
    (h : Gemini.responseToIr v = .ok read) : Reports read.1 (stopReport .gemini v) := by
  cases v with
  | obj obj =>
    unfold Gemini.responseToIr at h
    dsimp only [Value.asObject] at h
    cases hcandidates : Gemini.candidatesOf ((Value.obj obj).get? "candidates") with
    | error e =>
      rw [hcandidates] at h
      exact absurd h error_ne_ok
    | ok candidates =>
      have hdocs : candidatesOf (.obj obj) = candidates := by
        rw [candidatesOf]
        cases hget : (Value.obj obj).get? "candidates" with
        | none =>
          rw [hget] at hcandidates
          exact Except.ok.inj hcandidates
        | some items =>
          rw [hget] at hcandidates
          cases items with
          | arr items => exact Except.ok.inj hcandidates
          | _ => exact absurd hcandidates error_ne_ok
      rw [hcandidates] at h
      rw [← Except.ok.inj h]
      have hmap : ((candidates.mapIdx Gemini.parseCandidate).map Prod.fst).map
          IrChoice.finishReason =
            candidates.map fun cand ↦ cand["finishReason"].asStr.map normalizeFinishReason := by
        refine List.ext_getElem? fun i ↦ ?_
        rw [List.map_map, List.getElem?_map, List.getElem?_mapIdx, List.getElem?_map,
          Option.map_map]
        rfl
      obtain ⟨hall, hfirst⟩ := reports_of_map hmap
      refine ⟨?_, ?_, carriedStop_of_extra (by decide) hv.1 (by decide) ?_⟩
      · rw [stopReport, hdocs]
        exact hall
      · rw [stopReport, hdocs]
        exact hfirst
      · rw [Map.get?_insertOpt, if_neg (by decide)]
        rfl
  | _ => exact absurd h error_ne_ok

theorem reports_responses {v : Value} (hv : v.Normal) {read : IrResponse × ConvCtx}
    (h : Responses.responseToIr v = .ok read) :
    Reports read.1 (stopReport .openaiResponses v) := by
  cases v with
  | obj obj =>
    unfold Responses.responseToIr at h
    rw [← Except.ok.inj h]
    refine ⟨?_, rfl, carriedStop_of_extra (by decide) hv.1 (by decide) ?_⟩
    · show List.filterMap _ [_] = List.map _ (Option.toList _)
      cases (Value.obj obj)["status"].asStr <;> rfl
    · rw [Map.get?_insertOpt, if_neg (by decide)]
      rfl
  | _ => exact absurd h error_ne_ok

/-- The blocks of a response carry no stop reason. -/
theorem extra_parseResponseContent (content : Value) :
    Map.get? (Anthropic.parseResponseContent content).2.1 "anthropic_stop_reason" = none := by
  have hfold : ∀ (blocks : List Value) (acc : Anthropic.ResponseAcc),
      Map.get? acc.extra "anthropic_stop_reason" = none →
        Map.get? (blocks.foldl Anthropic.parseResponseBlock acc).extra
          "anthropic_stop_reason" = none := by
    intro blocks
    induction blocks with
    | nil => exact fun acc hacc ↦ hacc
    | cons block rest ih =>
      intro acc hacc
      refine ih _ ?_
      unfold Anthropic.parseResponseBlock
      split
      · split
        · exact hacc
        · exact hacc
        · dsimp only
          split
          · rw [Map.get?_insert, if_neg (by decide)]
            exact hacc
          · exact hacc
        · exact hacc
      · exact hacc
  unfold Anthropic.parseResponseContent
  split
  · exact hfold _ {} rfl
  · rfl

theorem reports_anthropic {v : Value} (hv : v.Normal) {read : IrResponse × ConvCtx}
    (h : Anthropic.responseToIr v = .ok read) : Reports read.1 (stopReport .anthropic v) := by
  cases v with
  | obj obj =>
    unfold Anthropic.responseToIr at h
    dsimp only [Value.asObject] at h
    have hcarried : ∀ extra, Map.get? extra "anthropic_stop_reason" = none →
        ((Map.get? (Map.insertAll
          (match (Value.obj obj)["stop_reason"].asStr with
          | some sr => Map.insert extra "anthropic_stop_reason" (.str sr)
          | none => extra)
          (Map.without obj Anthropic.knownResponseFields)) "anthropic_stop_reason").bind
            Value.asStr).filter (fun s ↦ decide (s ≠ "")) = carriedStop .anthropic (.obj obj) := by
      intro extra hextra
      rw [carried_of_extra hv.1 (by decide), carriedStop, Value.get?_obj, if_pos rfl]
      cases Map.get? obj "anthropic_stop_reason" with
      | some x => rfl
      | none =>
        cases (Value.obj obj)["stop_reason"].asStr with
        | some sr =>
          rw [Option.none_or, Map.get?_insert, if_pos rfl]
          rfl
        | none =>
          rw [Option.none_or, hextra]
          rfl
    cases hcontent : (Value.obj obj).get? "content" with
    | none =>
      rw [hcontent] at h
      rw [← Except.ok.inj h]
      refine ⟨?_, ?_, hcarried [] rfl⟩
      · rw [stopReport, hcontent]
        rfl
      · rw [stopReport, hcontent]
        rfl
    | some content =>
      rw [hcontent] at h
      rw [← Except.ok.inj h]
      refine ⟨?_, ?_, hcarried _ (extra_parseResponseContent content)⟩
      · rw [stopReport, hcontent]
        show List.filterMap _ [_] = List.map _ (Option.toList _)
        cases (Value.obj obj)["stop_reason"].asStr <;> rfl
      · rw [stopReport, hcontent]
        rfl
  | _ => exact absurd h error_ne_ok

/-- The response that is read says what the document says. -/
theorem reports_responseToIr (p : Protocol) {v : Value} (hv : v.Normal)
    {read : IrResponse × ConvCtx} (h : responseToIr p v = .ok read) :
    Reports read.1 (stopReport p v) := by
  cases p with
  | openaiChat => exact reports_chat hv h
  | openaiResponses => exact reports_responses hv h
  | anthropic => exact reports_anthropic hv h
  | gemini => exact reports_gemini hv h

end Reading

/-! ### Writing -/

theorem normalizeFinishReason_ne_toolUse (raw : String) :
    normalizeFinishReason raw ≠ "tool_use" := by
  unfold normalizeFinishReason
  split <;> first | decide | assumption

/-- The stop reason `tool_use` is written for the finish reason `tool_calls`. -/
theorem reverseFinishReason_eq_toolUse {fr : String} (h : fr ≠ "tool_use") :
    Anthropic.reverseFinishReason fr = "tool_use" ↔ fr = "tool_calls" := by
  by_cases hcalls : fr = "tool_calls"
  · subst hcalls
    exact iff_of_true rfl rfl
  · refine iff_of_false ?_ hcalls
    unfold Anthropic.reverseFinishReason
    split
    · decide
    · decide
    · exact absurd rfl hcalls
    · exact h

theorem choiceReasons_responseFromIr (resp : IrResponse) :
    choiceReasons (Chat.responseFromIr resp).1 = resp.choices.filterMap IrChoice.finishReason := by
  have hchoices : (Chat.responseFromIr resp).1.get? "choices" =
      some (.arr (resp.choices.map Chat.choiceToJson)) := by
    simp [Chat.responseFromIr]
  rw [choiceReasons, choicesOf, hchoices]
  show (resp.choices.map Chat.choiceToJson).filterMap _ = _
  rw [List.filterMap_map]
  refine List.filterMap_congr fun choice _ ↦ ?_
  cases hfinish : choice.finishReason <;> simp [Chat.choiceToJson, hfinish]

section Writing

variable [SerdeJson] [Responses.RandSuffix]

theorem marksResponse_chat {resp : IrResponse} {r : StopReport} (h : Reports resp r) :
    MarksResponse .openaiChat (responseFromIr .openaiChat resp).1 ↔
      SaysToolStop .openaiChat r := by
  show "tool_calls" ∈ choiceReasons (Chat.responseFromIr resp).1 ↔ _
  rw [choiceReasons_responseFromIr, h.all, List.mem_map]
  rfl

theorem marksResponse_anthropic {resp : IrResponse} {r : StopReport} (h : Reports resp r) :
    MarksResponse .anthropic (responseFromIr .anthropic resp).1 ↔ SaysToolStop .anthropic r := by
  have hstop : (responseFromIr .anthropic resp).1["stop_reason"].asStr =
      (Anthropic.stopReasonOf resp (resp.choices.head?.bind IrChoice.finishReason)).1 := by
    have hmember : ∀ stopReason : Option String,
        ((stopReason.map Value.str).getD .null).asStr = stopReason := by
      intro stopReason
      cases stopReason <;> rfl
    cases hchoices : resp.choices <;>
      simp [responseFromIr, Anthropic.responseFromIr, hchoices, hmember]
  rw [MarksResponse, hstop, Anthropic.stopReasonOf, h.carried, SaysToolStop, h.first]
  cases r.carried with
  | some raw => exact Option.some_inj
  | none =>
    cases r.first with
    | none => simp
    | some raw =>
      have hne := normalizeFinishReason_ne_toolUse raw
      simp [reverseFinishReason_eq_toolUse hne]

end Writing

end NextApi
