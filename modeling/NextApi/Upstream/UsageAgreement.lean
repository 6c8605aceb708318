import NextApi.Json.Compact
import NextApi.Protocol.ToolStopStream
import NextApi.Upstream.UsageEvents
import NextApi.Upstream.UsageReaders

/-!
# Converted and passed through streams are charged alike

The usage of a stream is read twice in the code: by the adapter of its protocol, event by event,
for a client of another protocol (`decodedUsage`), and off the text, for the bill
(`extractSseUsage`). `StreamAgrees` says that the last usage that the adapter reports has the
counts that the scan of the text comes to.

Each reader takes usages from events of its own choice. The adapter of Responses takes them from
the three terminal events, the scan from one; the adapter of Chat takes every usage that is not
`null` of an event that it can read, the scan every one that has a count. What matters is the last
event that either of them takes a usage from (`Told`). Anthropic spreads the counts over the start
of a message and its deltas, so there the whole message matters (`AnthropicTells`).
-/

set_option autoImplicit false

namespace NextApi.Upstream

open Json Ir Text Stream.Register

section Agreement

variable [SerdeJson]

/-! ### Events and their documents -/

/-- The lines of an event hold the document of its payload, and nothing else. -/
def OneDocument (p : Protocol) (data : String) : Prop :=
  (lines (Sse.encodeEvent data)).filterMap parseSseData = (documentOf p data).toList

/-- The text of the events with these payloads. -/
def sseText (datas : List String) : List Char := datas.flatMap Sse.encodeEvent

/-- The last usage that the adapter reports. -/
def decodedUsage (p : Protocol) (datas : List String) : Option IrUsage :=
  lastly IrChunk.usage (decodeStream p datas)

/-- The stream is charged alike, converted or passed through. -/
def StreamAgrees (p : Protocol) (datas : List String) : Prop :=
  ∀ n, charged ((extractSseUsage p (sseText datas)).count n) = irCharged (decodedUsage p datas) n

/-! ### The scan, document by document -/

omit [SerdeJson] in
theorem endsLine_encodeEvent (data : String) : EndsLine (Sse.encodeEvent data) :=
  endsLine_line _

theorem filterMap_lines_sseText {p : Protocol} {datas : List String}
    (h : ∀ data ∈ datas, OneDocument p data) :
    (lines (sseText datas)).filterMap parseSseData = datas.filterMap (documentOf p) := by
  induction datas with
  | nil => rfl
  | cons data rest ih =>
    have hdata : (lines (Sse.encodeEvent data)).filterMap parseSseData =
        (documentOf p data).toList := h data List.mem_cons_self
    rw [sseText, List.flatMap_cons, lines_append _ (endsLine_encodeEvent data),
      List.filterMap_append, hdata, ← sseText, ih fun d hd ↦ h d (List.mem_cons_of_mem _ hd)]
    cases hdoc : documentOf p data with
    | none => rw [List.filterMap_cons_none hdoc]; rfl
    | some v => rw [List.filterMap_cons_some hdoc]; rfl

/-- The counts of a stream are those of the last of its documents that set them. -/
theorem count_extractSseUsage_sseText {p : Protocol} {datas : List String}
    (h : ∀ data ∈ datas, OneDocument p data) (n : Count) :
    (extractSseUsage p (sseText datas)).count n =
      (lastly (eventSets p n) (datas.filterMap (documentOf p))).getD none := by
  rw [count_extractSseUsage, ← filterMap_lines_sseText h, lastly_filterMap]
  rfl

/-! ### The adapter, document by document -/

/-- Reads the document of an event. -/
def documentToIr : (p : Protocol) → Value → StreamStateOf p → Decoding (StreamStateOf p)
  | .openaiChat => Chat.chunkToIr
  | .openaiResponses => Responses.chunkToIr
  | .anthropic => Anthropic.chunkToIr
  | .gemini => Gemini.chunkToIr

/-- The reader of documents as a transducer. -/
def documentStep (p : Protocol) (st : StreamStateOf p) (v : Value) :
    StreamStateOf p × List IrChunk :=
  ((documentToIr p v st).st, (chunkOf (documentToIr p v st)).toList)

/-- A payload without a document is left out. -/
theorem decodeStep_eq (p : Protocol) (st : StreamStateOf p) (data : String) :
    decodeStep p st data = ((documentOf p data).map (documentStep p st)).getD (st, []) := by
  unfold documentOf
  cases p with
  | openaiChat =>
    show ((Chat.chunkToIrText data st).st, (chunkOf (Chat.chunkToIrText data st)).toList) = _
    unfold Chat.chunkToIrText
    by_cases hdone : trim data.toList = Chat.doneMarker.toList
    · rw [if_pos hdone, if_pos ⟨rfl, hdone⟩]
      rfl
    · rw [if_neg hdone, if_neg fun h ↦ hdone h.2]
      cases SerdeJson.ofText data <;> rfl
  | openaiResponses =>
    show ((Responses.chunkToIrText data st).st,
      (chunkOf (Responses.chunkToIrText data st)).toList) = _
    unfold Responses.chunkToIrText
    rw [if_neg fun h ↦ nomatch h.1]
    cases SerdeJson.ofText data <;> rfl
  | anthropic =>
    show ((Anthropic.chunkToIrText data st).st,
      (chunkOf (Anthropic.chunkToIrText data st)).toList) = _
    unfold Anthropic.chunkToIrText
    rw [if_neg fun h ↦ nomatch h.1]
    cases SerdeJson.ofText data <;> rfl
  | gemini =>
    show ((Gemini.chunkToIrText data st).st,
      (chunkOf (Gemini.chunkToIrText data st)).toList) = _
    unfold Gemini.chunkToIrText
    rw [if_neg fun h ↦ nomatch h.1]
    cases SerdeJson.ofText data <;> rfl

/-- A stream is read as its documents are. -/
theorem run_decodeStep (p : Protocol) (st : StreamStateOf p) (datas : List String) :
    Stream.run (decodeStep p) st datas =
      Stream.run (documentStep p) st (datas.filterMap (documentOf p)) := by
  induction datas generalizing st with
  | nil => rfl
  | cons data rest ih =>
    rw [Stream.run_cons, ih, decodeStep_eq]
    cases hdoc : documentOf p data with
    | none => rw [List.filterMap_cons_none hdoc]; rfl
    | some v => rw [List.filterMap_cons_some hdoc]; rfl

/-! ### Protocols whose events stand for themselves -/

/-- The usage object that the adapter takes from an event; an event of Anthropic does not stand
for itself. -/
def reportedUsage (p : Protocol) (v : Value) : Option Value :=
  match p with
  | .openaiChat =>
    if (choicesOf v).all Value.isObject then (v.get? "usage").filter fun u ↦ !u.isNull else none
  | .openaiResponses =>
    if eventType v ∈ ["response.completed", "response.incomplete", "response.failed"] then
      (v.get? "response").bind fun resp ↦ resp.get? "usage"
    else none
  | .anthropic => none
  | .gemini => v.get? "usageMetadata"

omit [SerdeJson] in
theorem usage_chat (st : Chat.StreamState) (v : Value) :
    (chunkOf (Chat.chunkToIr v st)).bind IrChunk.usage =
      (reportedUsage .openaiChat v).map Chat.parseUsage := by
  unfold Chat.chunkToIr reportedUsage
  cases v with
  | obj obj =>
    dsimp only [Value.asObject]
    rw [← choicesOf]
    cases hitems : (choicesOf (.obj obj)).mapM Chat.parseChunkChoice with
    | error e =>
      rw [if_neg]
      · rfl
      · intro hall
        obtain ⟨read, hread⟩ := mapM_parseChunkChoice hall
        exact absurd (hitems.symm.trans hread) error_ne_ok
    | ok read =>
      rw [if_pos (all_isObject_of_mapM hitems)]
      rfl
  | _ => rfl

omit [SerdeJson] in
theorem eventType_eq (v : Value) : eventType v = v["type"].strOrEmpty := by
  rw [eventType, Value.getElem_eq]
  cases v.get? "type" <;> rfl

omit [SerdeJson] in
theorem get?_getElem (v : Value) (outer inner : String) :
    v[outer].get? inner = (v.get? outer).bind fun w ↦ w.get? inner := by
  rw [Value.getElem_eq]
  cases v.get? outer <;> rfl

omit [SerdeJson] in
theorem usage_responses (st : Responses.StreamState) (v : Value) :
    (chunkOf (Responses.chunkToIr v st)).bind IrChunk.usage =
      (reportedUsage .openaiResponses v).map Responses.parseUsage := by
  unfold Responses.chunkToIr reportedUsage
  by_cases hobj : v.isObject = true
  · rw [if_pos hobj]
    have husage : ∀ fr, (Responses.finishChunk v st fr).usage =
        ((v.get? "response").bind fun resp ↦ resp.get? "usage").map Responses.parseUsage :=
      fun fr ↦ congrArg (Option.map Responses.parseUsage) (get?_getElem v "response" "usage")
    dsimp only
    rw [eventType_eq]
    generalize v["type"].strOrEmpty = type
    split
    · rfl
    · unfold Responses.readItemAdded
      dsimp only
      split <;> rfl
    · unfold Responses.readItemDone
      dsimp only
      split
      · split <;> rfl
      · rfl
    · unfold Responses.readTextDelta
      dsimp only
      split <;> rfl
    · unfold Responses.readReasoningDelta
      dsimp only
      split <;> rfl
    · unfold Responses.readArgumentsDelta
      dsimp only
      split
      · rfl
      · split <;> rfl
    · exact husage _
    · exact husage _
    · exact husage _
    · rfl
    · rename_i hcompleted hincomplete hfailed _
      have hnot : type ∉ ["response.completed", "response.incomplete", "response.failed"] := by
        simp only [List.mem_cons, List.not_mem_nil, or_false, not_or]
        exact ⟨hcompleted, hincomplete, hfailed⟩
      rw [if_neg hnot]
      rfl
  · cases v with
    | obj members => exact absurd rfl hobj
    | _ => rfl

theorem usage_gemini (st : Gemini.StreamState) (v : Value) :
    (chunkOf (Gemini.chunkToIr v st)).bind IrChunk.usage =
      (reportedUsage .gemini v).map Gemini.parseUsageMetadata := by
  unfold Gemini.chunkToIr reportedUsage
  cases v with
  | obj obj =>
    dsimp only [Value.asObject, chunkOf]
    split
    · next hsilent =>
      rw [Bool.and_eq_true, Bool.and_eq_true, Option.isNone_map] at hsilent
      rw [Option.isNone_iff_eq_none.1 hsilent.1.2]
      rfl
    · rfl
  | _ => rfl

/-- The usage that an event is reported with does not depend on the events before it. -/
theorem usage_documentStep {p : Protocol} (hp : p ≠ .anthropic) (st : StreamStateOf p) (v : Value) :
    lastly IrChunk.usage (documentStep p st v).2 = (reportedUsage p v).map p.parseUsage := by
  have htoList : ∀ chunk : Option IrChunk,
      lastly IrChunk.usage chunk.toList = chunk.bind IrChunk.usage := by
    intro chunk
    cases chunk <;> rfl
  rw [documentStep, htoList]
  cases p with
  | openaiChat => exact usage_chat st v
  | openaiResponses => exact usage_responses st v
  | anthropic => exact absurd rfl hp
  | gemini => exact usage_gemini st v

omit [SerdeJson] in
/-- Where the outputs of a step do not depend on the state, neither does what they set. -/
theorem lastly_run {σ ι ω β : Type} {step : σ → ι → σ × List ω} {update : ω → Option β}
    {sets : ι → Option β} (h : ∀ s i, lastly update (step s i).2 = sets i) (s : σ)
    (inputs : List ι) : lastly update (Stream.run step s inputs).2 = lastly sets inputs := by
  induction inputs generalizing s with
  | nil => rfl
  | cons i rest ih => rw [Stream.run_cons, lastly_append, ih, h, lastly_cons]

/-- The last usage of a stream is that of its last event with one. -/
theorem decodedUsage_eq {p : Protocol} (hp : p ≠ .anthropic) (datas : List String) :
    decodedUsage p datas =
      (lastly (reportedUsage p) (datas.filterMap (documentOf p))).map p.parseUsage := by
  rw [decodedUsage, decodeStream, run_decodeStep, lastly_run (usage_documentStep hp), lastly_map]

omit [SerdeJson] in
/-- One of the two readers takes a usage from the event. -/
def told (p : Protocol) (v : Value) : Bool :=
  (reportedUsage p v).isSome || (eventSets p .prompt v).isSome

omit [SerdeJson] in
/-- Both readers take the usage of the event, and read it alike. -/
def Matched (p : Protocol) (v : Value) : Prop :=
  ∃ u, reportedUsage p v = some u ∧ (eventSets p .prompt v).isSome = true ∧ Fits p u

omit [SerdeJson] in
/-- The last event that either reader takes a usage from is one that both do, and read alike. -/
def LastMatched (p : Protocol) (docs : List Value) : Prop :=
  ∀ v ∈ (docs.filter (told p)).getLast?, Matched p v

omit [SerdeJson] in
/-- An event that stands for itself sets all counts, or none. -/
theorem isSome_eventSets {p : Protocol} (hp : p ≠ .anthropic) (n : Count) (v : Value) :
    (eventSets p n v).isSome = (eventSets p .prompt v).isSome := by
  cases p with
  | openaiChat =>
    rw [eventSets, eventSets]
    split <;> rfl
  | openaiResponses =>
    rw [eventSets, eventSets]
    split
    · cases v.get? "response" <;> rfl
    · rfl
  | anthropic => exact absurd rfl hp
  | gemini =>
    rw [eventSets, eventSets]
    split <;> rfl

omit [SerdeJson] in
/-- Readers that both take a usage from an event take the same one. -/
theorem exists_eventSets {p : Protocol} {v u : Value} (hu : reportedUsage p v = some u)
    (hsets : (eventSets p .prompt v).isSome = true) :
    ∃ w, w.get? (usageKey p) = some u ∧
      ∀ n, eventSets p n v = some ((extractJsonUsage p w).count n) := by
  cases p with
  | openaiChat =>
    rw [reportedUsage] at hu
    split at hu
    · refine ⟨v, (Option.filter_eq_some_iff.1 hu).1, fun n ↦ ?_⟩
      rw [eventSets] at hsets ⊢
      split at hsets
      · next htold => exact if_pos htold
      · exact absurd hsets Bool.false_ne_true
    · cases hu
  | openaiResponses =>
    rw [reportedUsage] at hu
    rw [eventSets] at hsets
    split at hsets
    · next htype =>
      split at hu
      · cases hresp : v.get? "response" with
        | none =>
          rw [hresp] at hu
          cases hu
        | some resp =>
          rw [hresp] at hu
          refine ⟨resp, hu, fun n ↦ ?_⟩
          rw [eventSets, if_pos htype, hresp]
          rfl
      · cases hu
    · exact absurd hsets Bool.false_ne_true
  | anthropic => cases hu
  | gemini =>
    have hv : v.get? "usageMetadata" = some u := hu
    refine ⟨v, hv, fun n ↦ ?_⟩
    rw [eventSets, hv]
    rfl

omit [SerdeJson] in
/-- The counts that a matched event sets are those that the adapter reads. -/
theorem charged_of_matched {p : Protocol} {v : Value} (h : Matched p v) (n : Count) :
    charged ((eventSets p n v).getD none) =
      irCharged ((reportedUsage p v).map p.parseUsage) n := by
  obtain ⟨u, hu, hsets, hfits⟩ := h
  obtain ⟨w, hw, hcounts⟩ := exists_eventSets hu hsets
  rw [hcounts, hu, Option.getD_some]
  exact (fits_iff p hw).2 hfits n

/-- A stream is charged alike if the last event with a usage is read alike. -/
theorem agrees_of_lastMatched {p : Protocol} (hp : p ≠ .anthropic) {datas : List String}
    (h : ∀ data ∈ datas, OneDocument p data)
    (hlast : LastMatched p (datas.filterMap (documentOf p))) : StreamAgrees p datas := by
  intro n
  rw [count_extractSseUsage_sseText h, decodedUsage_eq hp]
  have hreported : ∀ v, told p v = false → reportedUsage p v = none := fun v hv ↦
    Option.isSome_eq_false_iff.1 (Bool.or_eq_false_iff.1 hv).1 |> Option.isNone_iff_eq_none.1
  have hsets : ∀ v, told p v = false → eventSets p n v = none := by
    intro v hv
    have hprompt := (Bool.or_eq_false_iff.1 hv).2
    rw [← isSome_eventSets hp n, Option.isSome_eq_false_iff] at hprompt
    exact Option.isNone_iff_eq_none.1 hprompt
  rw [← lastly_filter _ hreported, ← lastly_filter _ hsets]
  rcases List.eq_nil_or_concat' ((datas.filterMap (documentOf p)).filter (told p)) with
    hnil | ⟨front, v, hconcat⟩
  · rw [hnil]
    rfl
  · have hmatched : Matched p v := hlast v (by rw [hconcat, List.getLast?_concat]; rfl)
    obtain ⟨u, hu, hprompt, -⟩ := id hmatched
    rw [← isSome_eventSets hp n, Option.isSome_iff_exists] at hprompt
    obtain ⟨count, hcount⟩ := hprompt
    have hcharged := charged_of_matched hmatched n
    rw [hcount, hu] at hcharged
    rw [hconcat, lastly_append, lastly_append, lastly_cons, lastly_nil, lastly_cons, lastly_nil,
      hcount, hu]
    exact hcharged

/-! ### Anthropic -/

section Message

omit [SerdeJson]

/-- The usage that a message starts with. -/
def startUsage (v : Value) : Option Value :=
  if eventType v = "message_start" then (v.get? "message").bind fun m ↦ m.get? "usage" else none

/-- The usage of a delta of the message. -/
def deltaUsage (v : Value) : Option Value :=
  if eventType v = "message_delta" then v.get? "usage" else none

/-- The adapter reports a usage at the event. -/
def reportsUsage (v : Value) : Bool :=
  decide (eventType v = "message_delta" ∨ eventType v = "error")

/-- A message starts with a usage (`true`), or the usage is reported (`false`). -/
def mark (v : Value) : Option Bool :=
  if (startUsage v).isSome then some true else if reportsUsage v then some false else none

/-- The names of a count in a usage object. -/
def countKey : Count → String × String
  | .prompt => ("input_tokens", "prompt_tokens")
  | .completion => ("output_tokens", "completion_tokens")
  | .cacheWrite => ("cache_creation_input_tokens", "cache_creation_tokens")
  | .cacheRead => ("cache_read_input_tokens", "cache_read_tokens")

/-- A count that the last message started with. -/
def startCount (docs : List Value) (n : Count) : ℕ :=
  natAt ((lastly startUsage docs).bind fun u ↦ u.get? (countKey n).1)

/-- The output count that the last delta with one has. -/
def lastOutput (docs : List Value) : Option ℤ :=
  lastly (fun v ↦ countAt (deltaUsage v) "output_tokens") docs

/-- The largest output count since the last message started, that of its start included. -/
def largestOutput (docs : List Value) : ℕ :=
  docs.foldl (fun largest v ↦
    match startUsage v with
    | some u => irCount (Anthropic.parseUsage u) .completion
    | none =>
      max largest (natAt ((deltaUsage v).bind fun u ↦ u.get? "output_tokens"))) 0

/-- The counts of a message are where both readers look for them: the input and the cache at its
start, in plain counts that no delta changes; the output at its deltas, the last of which has the
largest count; and the usage is reported after the start. -/
structure AnthropicTells (docs : List Value) : Prop where
  starts : ∀ v ∈ docs, ∀ u, startUsage v = some u → ∀ n, n ≠ .completion →
    PlainUnder u (countKey n).1 (countKey n).2
  caches : ∀ before v after, docs = before ++ v :: after → ∀ u, deltaUsage v = some u →
    ∀ n, n = .cacheWrite ∨ n = .cacheRead → ∀ c, (u.get? (countKey n).1).bind Value.asU64 = some c →
      c = startCount before n
  closed : lastly mark docs ≠ some true
  output : charged (lastOutput docs) = largestOutput docs

/-- The start of a message, and nothing else, sets the input and the cache. -/
theorem eventSets_anthropic {n : Count} (hn : n ≠ .completion) (v : Value) :
    eventSets .anthropic n v = (startUsage v).map fun u ↦ countAt (some u) (countKey n).1 := by
  rw [eventSets, startUsage]
  by_cases hstart : eventType v = "message_start"
  · rw [if_pos hstart, if_pos hstart]
    cases (v.get? "message").bind fun m ↦ m.get? "usage" with
    | none => rfl
    | some u =>
      cases n with
      | completion => exact absurd rfl hn
      | _ => rfl
  · rw [if_neg hstart, if_neg hstart, if_neg fun h ↦ hn h.2]
    rfl

/-- The deltas of a message, and nothing else, set the output. -/
theorem eventSets_anthropic_completion (v : Value) :
    eventSets .anthropic .completion v =
      (countAt (deltaUsage v) "output_tokens").map some := by
  rw [eventSets, deltaUsage]
  by_cases hstart : eventType v = "message_start"
  · have hdelta : ¬ eventType v = "message_delta" := by
      rw [hstart]
      decide
    rw [if_pos hstart, if_neg hdelta]
    cases (v.get? "message").bind fun m ↦ m.get? "usage" <;> rfl
  · rw [if_neg hstart]
    by_cases hdelta : eventType v = "message_delta"
    · rw [if_pos ⟨hdelta, rfl⟩, if_pos hdelta]
    · rw [if_neg fun h ↦ hdelta h.1, if_neg hdelta]
      rfl

/-- The usage that the adapter keeps, after an event. -/
def readUsage (usage : IrUsage) (v : Value) : IrUsage :=
  match startUsage v with
  | some u => Anthropic.parseUsage u
  | none =>
    match deltaUsage v with
    | some u =>
      { usage with
        completionTokens := max usage.completionTokens (natAt (u.get? "output_tokens"))
        cacheReadTokens :=
          ((u.get? "cache_read_input_tokens").bind Value.asU64).or usage.cacheReadTokens
        cacheWriteTokens :=
          ((u.get? "cache_creation_input_tokens").bind Value.asU64).or usage.cacheWriteTokens }
    | none => usage

theorem readUsage_of_type {usage : IrUsage} {v : Value} (hstart : eventType v ≠ "message_start")
    (hdelta : eventType v ≠ "message_delta") : readUsage usage v = usage := by
  rw [readUsage, startUsage, if_neg hstart, deltaUsage, if_neg hdelta]

theorem reportsUsage_of_type {v : Value} (herror : eventType v ≠ "error")
    (hdelta : eventType v ≠ "message_delta") : reportsUsage v = false :=
  decide_eq_false fun h ↦ h.elim hdelta herror

/-- What an event makes of the usage that is kept, and whether it is reported. -/
theorem chunkToIr_anthropic (st : Anthropic.StreamState) (v : Value) :
    (Anthropic.chunkToIr v st).st.usage = readUsage st.usage v ∧
      (chunkOf (Anthropic.chunkToIr v st)).bind IrChunk.usage =
        if reportsUsage v then some (readUsage st.usage v) else none := by
  have quiet : ∀ d : Decoding Anthropic.StreamState, d.st.usage = st.usage →
      (chunkOf d).bind IrChunk.usage = none →
      eventType v ∉ ["message_start", "message_delta", "error"] →
      d.st.usage = readUsage st.usage v ∧ (chunkOf d).bind IrChunk.usage =
        if reportsUsage v then some (readUsage st.usage v) else none := by
    intro d hst hchunk htype
    simp only [List.mem_cons, List.not_mem_nil, or_false, not_or] at htype
    rw [readUsage_of_type htype.1 htype.2.1, reportsUsage_of_type htype.2.2 htype.2.1]
    exact ⟨hst, hchunk⟩
  unfold Anthropic.chunkToIr
  by_cases hobj : v.isObject = true
  · rw [if_pos hobj]
    rw [← eventType_eq]
    split
    · next htype =>
      have husage : readUsage st.usage v =
          (((v["message"].get? "usage").map Anthropic.parseUsage).getD st.usage) := by
        rw [readUsage, startUsage, if_pos htype, get?_getElem, deltaUsage,
          if_neg (by rw [htype]; decide)]
        cases (v.get? "message").bind fun m ↦ m.get? "usage" <;> rfl
      rw [husage, reportsUsage, decide_eq_false (by rw [htype]; decide)]
      exact ⟨rfl, rfl⟩
    · next htype =>
      unfold Anthropic.readBlockStart
      dsimp only
      split <;> exact quiet _ rfl rfl (by rw [htype]; decide)
    · next htype =>
      unfold Anthropic.readBlockDelta
      dsimp only
      split
      · exact quiet _ rfl rfl (by rw [htype]; decide)
      · exact quiet _ rfl rfl (by rw [htype]; decide)
      · split <;> exact quiet _ rfl rfl (by rw [htype]; decide)
      · exact quiet _ rfl rfl (by rw [htype]; decide)
    · next htype =>
      unfold Anthropic.readBlockStop
      split <;> exact quiet _ rfl rfl (by rw [htype]; decide)
    · next htype =>
      have husage : (Anthropic.readMessageDelta v st).st.usage = readUsage st.usage v := by
        rw [readUsage, startUsage, if_neg (by rw [htype]; decide), deltaUsage, if_pos htype]
        unfold Anthropic.readMessageDelta
        cases v.get? "usage" with
        | none => rfl
        | some u =>
          show ({ st.usage with
            completionTokens := max st.usage.completionTokens (u["output_tokens"].asU64.getD 0)
            cacheReadTokens := u["cache_read_input_tokens"].asU64.or st.usage.cacheReadTokens
            cacheWriteTokens :=
              u["cache_creation_input_tokens"].asU64.or st.usage.cacheWriteTokens } : IrUsage) = _
          rw [getD_asU64_getElem, asU64_getElem, asU64_getElem]
      have hreports : reportsUsage v = true := decide_eq_true (Or.inl htype)
      rw [hreports, if_pos rfl, ← husage]
      exact ⟨rfl, rfl⟩
    · next htype => exact quiet _ rfl rfl (by rw [htype]; decide)
    · next htype => exact quiet _ rfl rfl (by rw [htype]; decide)
    · next htype =>
      have hreports : reportsUsage v = true := decide_eq_true (Or.inr htype)
      rw [hreports, if_pos rfl,
        readUsage_of_type (by rw [htype]; decide) (by rw [htype]; decide)]
      exact ⟨rfl, rfl⟩
    · next hstart _ _ _ hdelta _ _ herror =>
      refine quiet _ rfl rfl ?_
      simp only [List.mem_cons, List.not_mem_nil, or_false, not_or]
      exact ⟨hstart, hdelta, herror⟩
  · have htype : eventType v = "" := by
      cases v with
      | obj members => exact absurd rfl hobj
      | _ => rfl
    rw [if_neg hobj]
    exact quiet _ rfl rfl (by rw [htype]; decide)

theorem irCount_parseUsage (u : Value) (n : Count) :
    irCount (Anthropic.parseUsage u) n =
      (((u.get? (countKey n).1).bind Value.asU64).or
        ((u.get? (countKey n).2).bind Value.asU64)).getD 0 := by
  cases n <;> simp only [irCount, Anthropic.parseUsage, asU64_getElem, countKey]

/-- A count with two names is read under its first. -/
theorem PlainUnder.irCount_eq {u : Value} {n : Count}
    (h : PlainUnder u (countKey n).1 (countKey n).2) :
    irCount (Anthropic.parseUsage u) n = natAt (u.get? (countKey n).1) := by
  have hor := (charged_token_or_iff u (countKey n).1 (countKey n).2).2 h
  rw [(charged_token_iff _).2 h.1] at hor
  rw [irCount_parseUsage]
  exact_mod_cast hor.symm

/-- What the adapter's state says of the events so far. -/
structure Follows (past : List Value) (st : Anthropic.StreamState) (t : Option IrUsage) : Prop where
  start : ∀ n, n ≠ .completion → irCount st.usage n = startCount past n
  output : st.usage.completionTokens = largestOutput past
  told : lastly mark past ≠ some true → ∀ n, irCharged t n = irCount st.usage n

/-- An event of a message whose counts are where both readers look for them. -/
def Fitting (past : List Value) (v : Value) : Prop :=
  (∀ u, startUsage v = some u → ∀ n, n ≠ .completion →
    PlainUnder u (countKey n).1 (countKey n).2) ∧
  ∀ u, deltaUsage v = some u → ∀ n, n = .cacheWrite ∨ n = .cacheRead → ∀ c,
    (u.get? (countKey n).1).bind Value.asU64 = some c → c = startCount past n

theorem startCount_append (past : List Value) (v : Value) (n : Count) :
    startCount (past ++ [v]) n =
      natAt (((startUsage v).or (lastly startUsage past)).bind fun u ↦ u.get? (countKey n).1) := by
  rw [startCount, lastly_append, lastly_cons, lastly_nil, Option.none_or]

/-- A cache count of a delta is that of the start. -/
theorem irCount_readUsage {past : List Value} {usage : IrUsage} {v : Value}
    (h : ∀ n, n ≠ .completion → irCount usage n = startCount past n) (hv : Fitting past v)
    {n : Count} (hn : n ≠ .completion) :
    irCount (readUsage usage v) n = startCount (past ++ [v]) n := by
  rw [startCount_append, readUsage]
  cases hstart : startUsage v with
  | some u => exact (hv.1 u hstart n hn).irCount_eq
  | none =>
    rw [Option.none_or, ← startCount, ← h n hn]
    cases hdelta : deltaUsage v with
    | none => rfl
    | some u =>
      have hcaches := hv.2 u hdelta
      cases n with
      | prompt => rfl
      | completion => exact absurd rfl hn
      | cacheWrite =>
        show (((u.get? "cache_creation_input_tokens").bind Value.asU64).or _).getD 0 = _
        cases hc : (u.get? "cache_creation_input_tokens").bind Value.asU64 with
        | none => rfl
        | some c =>
          rw [hcaches .cacheWrite (Or.inl rfl) c hc, ← h .cacheWrite hn]
          rfl
      | cacheRead =>
        show (((u.get? "cache_read_input_tokens").bind Value.asU64).or _).getD 0 = _
        cases hc : (u.get? "cache_read_input_tokens").bind Value.asU64 with
        | none => rfl
        | some c =>
          rw [hcaches .cacheRead (Or.inr rfl) c hc, ← h .cacheRead hn]
          rfl

theorem output_readUsage {past : List Value} {usage : IrUsage} {v : Value}
    (h : usage.completionTokens = largestOutput past) :
    (readUsage usage v).completionTokens = largestOutput (past ++ [v]) := by
  rw [largestOutput, List.foldl_append, List.foldl_cons, List.foldl_nil, ← largestOutput, readUsage]
  cases startUsage v with
  | some u => rfl
  | none =>
    cases deltaUsage v with
    | some u =>
      rw [← h]
      rfl
    | none =>
      rw [← h]
      exact (Nat.max_zero _).symm

/-- One event keeps the adapter's state in step with the events. -/
theorem Follows.step {past : List Value} {st : Anthropic.StreamState} {t : Option IrUsage}
    (h : Follows past st t) {v : Value} (hv : Fitting past v) :
    Follows (past ++ [v]) (Anthropic.chunkToIr v st).st
      (((chunkOf (Anthropic.chunkToIr v st)).bind IrChunk.usage).or t) := by
  obtain ⟨husage, hchunk⟩ := chunkToIr_anthropic st v
  rw [hchunk]
  refine ⟨fun n hn ↦ ?_, ?_, fun hmark n ↦ ?_⟩
  · rw [husage]
    exact irCount_readUsage h.start hv hn
  · rw [husage]
    exact output_readUsage h.output
  · rw [husage]
    rw [lastly_append, lastly_cons, lastly_nil, Option.none_or] at hmark
    cases hstart : (startUsage v).isSome with
    | true =>
      rw [mark, hstart] at hmark
      exact absurd rfl hmark
    | false =>
      cases hreports : reportsUsage v with
      | true => rfl
      | false =>
        rw [mark, hstart, hreports] at hmark
        have hdelta : deltaUsage v = none := by
          rw [deltaUsage, if_neg fun hdelta ↦ of_decide_eq_false hreports (Or.inl hdelta)]
        have hquiet : readUsage st.usage v = st.usage := by
          rw [readUsage, Option.isSome_eq_false_iff.1 hstart |> Option.isNone_iff_eq_none.1, hdelta]
        rw [hquiet]
        exact h.told hmark n

/-- The counts that the scan has come to are those of the start and of the last delta. -/
theorem charged_anthropic {docs : List Value} (h : AnthropicTells docs) (n : Count) :
    charged ((lastly (eventSets .anthropic n) docs).getD none) =
      if n = .completion then (largestOutput docs : ℤ) else startCount docs n := by
  by_cases hn : n = .completion
  · subst hn
    have hsets : eventSets .anthropic .completion = fun v ↦
        (countAt (deltaUsage v) "output_tokens").map some := funext eventSets_anthropic_completion
    rw [if_pos rfl, hsets, lastly_map, ← h.output, lastOutput]
    cases lastly (fun v ↦ countAt (deltaUsage v) "output_tokens") docs <;> rfl
  · have hsets : eventSets .anthropic n = fun v ↦
        (startUsage v).map fun u ↦ countAt (some u) (countKey n).1 :=
      funext (eventSets_anthropic hn)
    rw [if_neg hn, hsets, lastly_map, startCount]
    cases hstart : lastly startUsage docs with
    | none => rfl
    | some u =>
      obtain ⟨v, hv, hu⟩ := exists_of_lastly_eq_some startUsage hstart
      exact (charged_token_iff _).2 (h.starts v hv u hu n hn).1

end Message

/-- A stream of Anthropic is charged alike if its counts are where both readers look for them. -/
theorem agrees_of_tells {datas : List String} (h : ∀ data ∈ datas, OneDocument .anthropic data)
    (htells : AnthropicTells (datas.filterMap (documentOf .anthropic))) :
    StreamAgrees .anthropic datas := by
  let read (t : Option IrUsage) (chunk : IrChunk) : Option IrUsage := chunk.usage.or t
  have hstep : ∀ (past : List Value) (v : Value) (st : Anthropic.StreamState) (t : Option IrUsage),
      Fitting past v → Follows past st t →
        Follows (past ++ [v]) (documentStep .anthropic st v).1
          ((documentStep .anthropic st v).2.foldl read t) := by
    intro past v st t hv hfollows
    have hfold : (documentStep .anthropic st v).2.foldl read t =
        ((chunkOf (Anthropic.chunkToIr v st)).bind IrChunk.usage).or t := by
      show (chunkOf (Anthropic.chunkToIr v st)).toList.foldl read t = _
      cases chunkOf (Anthropic.chunkToIr v st) <;> rfl
    rw [hfold]
    exact hfollows.step hv
  have hstart : Follows [] ({} : Anthropic.StreamState) none :=
    ⟨fun n hn ↦ by cases n <;> rfl, rfl, fun _ n ↦ by cases n <;> rfl⟩
  have hrun := Stream.run_follows_along (documentStep .anthropic) read hstep hstart
    (datas.filterMap (documentOf .anthropic)) fun before v after hdocs ↦
      ⟨htells.starts v (by rw [hdocs]; simp), htells.caches before v after hdocs⟩
  have hdecoded : decodedUsage .anthropic datas =
      (Stream.run (documentStep .anthropic) ({} : Anthropic.StreamState)
        (datas.filterMap (documentOf .anthropic))).2.foldl read none := by
    have hlast := foldl_eq_lastly IrChunk.usage read id (fun _ _ ↦ rfl) none
      (Stream.run (documentStep .anthropic) ({} : Anthropic.StreamState)
        (datas.filterMap (documentOf .anthropic))).2
    rw [id, id, Option.or_none] at hlast
    rw [hlast, decodedUsage, decodeStream, run_decodeStep]
    rfl
  rw [List.nil_append, ← hdecoded] at hrun
  intro n
  rw [count_extractSseUsage_sseText h, charged_anthropic htells, hrun.told htells.closed n]
  split
  · next hn =>
    rw [hn, ← hrun.output]
    rfl
  · next hn => rw [hrun.start n hn]

/-! ### Both kinds of requests -/

/-- The events that the usage stands in are read alike. -/
def Tells (p : Protocol) (docs : List Value) : Prop :=
  match p with
  | .anthropic => AnthropicTells docs
  | _ => LastMatched p docs

/-- A printed object is one document. -/
theorem documentOf_toText [LawfulSerdeJson] (p : Protocol) (m : Map) :
    documentOf p (SerdeJson.toText (.obj m)) =
      (SerdeJson.ofText (SerdeJson.toText (.obj m))).toOption := by
  obtain ⟨inner, hinner⟩ := LawfulSerdeJson.toText_object m
  obtain ⟨more, hmore⟩ := exists_trim_cons (inner ++ ['\x7d']) (c := '\x7b') (by decide)
  have hdone : Chat.doneMarker.toList = ['[', 'D', 'O', 'N', 'E', ']'] := by decide
  rw [documentOf, hinner, hmore, hdone, if_neg fun h ↦ absurd h.2 (by simp)]

theorem oneDocument_toText [LawfulSerdeJson] (p : Protocol) (m : Map) :
    OneDocument p (SerdeJson.toText (.obj m)) := by
  rw [OneDocument, documentOf_toText, lines_encodeEvent_toText]
  cases hdoc : (SerdeJson.ofText (SerdeJson.toText (.obj m))).toOption with
  | none =>
    rw [List.filterMap_cons_none (by rw [parseSseData_toText, hdoc]),
      List.filterMap_cons_none parseSseData_nil]
    rfl
  | some v =>
    rw [List.filterMap_cons_some (by rw [parseSseData_toText, hdoc]),
      List.filterMap_cons_none parseSseData_nil]
    rfl

end Agreement

/-! ### Two streams -/

section Streams

local instance : SerdeJson := Compact.codec

local instance : LawfulSerdeJson := Compact.codec_lawful

/-- A terminal event of Responses with ten input and five output tokens. -/
def terminalEvent (type : String) : Map :=
  Map.ofList [("type", .str type), ("response", .object
    [("usage", .object [("input_tokens", .ofNat 10), ("output_tokens", .ofNat 5)])])]

/-- The stream of this one event. -/
def terminalStream (type : String) : List String := [SerdeJson.toText (.obj (terminalEvent type))]

theorem documents_terminalStream (type : String) :
    (terminalStream type).filterMap (documentOf .openaiResponses) =
      [(Value.obj (terminalEvent type)).normalize] := by
  have hread : documentOf .openaiResponses (SerdeJson.toText (.obj (terminalEvent type))) =
      some (Value.obj (terminalEvent type)).normalize := by
    rw [documentOf_toText, Compact.ofText_toText]
    rfl
  rw [terminalStream, List.filterMap_cons_some hread, List.filterMap_nil]

theorem oneDocument_terminalStream (type : String) :
    ∀ data ∈ terminalStream type, OneDocument .openaiResponses data := by
  intro data hdata
  rw [List.mem_singleton.1 hdata]
  exact oneDocument_toText .openaiResponses (terminalEvent type)

end Streams

end NextApi.Upstream
