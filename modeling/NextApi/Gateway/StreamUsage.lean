import NextApi.Json.Compact
import NextApi.Logging.Event
import NextApi.Upstream.UsageEvents

/-!
# What a stream is billed

The chunks of a stream pass through to the client, and their text is collected on the way, at most
256 KiB of it: what is longer loses its front. When the stream ends, or the client goes away, the
usage is read off the collected text and the log event of the request is written.

The chunks are decoded one by one, so a character that two of them share is lost.

How the chunks are cut makes no difference to what is kept: it is the longest end of the text that
fits (`text_collectStream`). But it is the end of the stream that is kept, and Anthropic reports the
input at the beginning. `recorded_iff` says which streams are billed right.
-/

set_option autoImplicit false

namespace NextApi.Gateway

open Json Ir Logging Text Upstream Stream.Window Stream.Register

/-! ### Collecting -/

/-- What has been collected of a stream: its text, and when its first chunk came. -/
structure StreamCollect where
  text : List Char := []
  ttfbMs : Option ℤ := none
  deriving DecidableEq, Inhabited

/-- The bytes that are collected at most. -/
def streamTextMax : ℕ := 256 * 1024

/-- Milliseconds as an `i32`. -/
def millisI32 (elapsed : ℕ) : ℤ := Int.bmod elapsed (2 ^ 32)

/-- A chunk comes, some time after the request. -/
def appendChunk (c : StreamCollect) (bytes : List UInt8) (elapsed : ℕ) : StreamCollect :=
  let ttfbMs := c.ttfbMs.or (some (millisI32 elapsed))
  if bytes = [] then { c with ttfbMs := ttfbMs }
  else
    let text := c.text ++ lossy bytes
    let length := total Char.utf8Size text
    { text :=
        if streamTextMax < length then drain Char.utf8Size (length - streamTextMax) text else text
      ttfbMs := ttfbMs }

/-- The chunks of a stream come, each with its time. -/
def collectStream (chunks : List (List UInt8 × ℕ)) : StreamCollect :=
  chunks.foldl (fun c chunk ↦ appendChunk c chunk.1 chunk.2) {}

/-! ### The log event -/

/-- What the end of a stream needs to know of its request. -/
structure TeeLogCtx where
  tmpl : LogEvent
  paramsMeta : Value := .null
  retryCount : ℤ := 0
  entryProtocol : Protocol
  /-- What debugging keeps of the request and of the text. -/
  debugPayload : List Char → Option Value := fun _ ↦ none

section Events

variable [SerdeJson]

/-- The log event of a stream, and the tokens that the metrics count. -/
def finalizeStream (ctx : TeeLogCtx) (collect : StreamCollect) (elapsed : ℕ) : LogEvent × ℤ :=
  let usage := extractSseUsage ctx.entryProtocol collect.text
  ({ ctx.tmpl with
      status := 200
      latencyMs := some (millisI32 elapsed)
      ttfbMs := collect.ttfbMs
      retryCount := ctx.retryCount
      promptTokens := usage.promptTokens
      completionTokens := usage.completionTokens
      cacheWriteTokens := usage.cacheWriteTokens
      cacheReadTokens := usage.cacheReadTokens
      usageRaw := some (.object [("params", ctx.paramsMeta), ("usage", usage.raw.getD .null)])
      debugPayload := (ctx.debugPayload collect.text).or ctx.tmpl.debugPayload },
    max (totalTokens usage) 0)

/-- A count of a log event. -/
def eventCount (ev : LogEvent) : Count → Option ℤ
  | .prompt => ev.promptTokens
  | .completion => ev.completionTokens
  | .cacheWrite => ev.cacheWriteTokens
  | .cacheRead => ev.cacheReadTokens

/-- The bytes of a whole stream. -/
def streamBytes (chunks : List (List UInt8 × ℕ)) : List UInt8 := (chunks.map Prod.fst).flatten

/-- The counts that are recorded are those of the whole text. -/
def Recorded (ctx : TeeLogCtx) (chunks : List (List UInt8 × ℕ)) (elapsed : ℕ) : Prop :=
  ∀ n, eventCount (finalizeStream ctx (collectStream chunks) elapsed).1 n =
    (extractSseUsage ctx.entryProtocol (lossy (streamBytes chunks))).count n

end Events

/-! ### What is collected -/

/-- The chunks as texts, one by one. -/
def chunkTexts (chunks : List (List UInt8 × ℕ)) : List (List Char) :=
  chunks.map fun chunk ↦ lossy chunk.1

/-- A chunk is appended to the text, and what no longer fits is dropped. -/
theorem text_appendChunk (c : StreamCollect) (bytes : List UInt8) (elapsed : ℕ)
    (h : total Char.utf8Size c.text ≤ streamTextMax) :
    (appendChunk c bytes elapsed).text = push Char.utf8Size streamTextMax c.text (lossy bytes) := by
  by_cases hbytes : bytes = []
  · rw [appendChunk, if_pos hbytes, hbytes, lossy_nil, push, List.append_nil,
      window_of_le _ h]
  · rw [appendChunk, if_neg hbytes, push]
    show (if _ then _ else _) = _
    split
    · rfl
    · rename_i hlength
      exact (window_of_le _ (Nat.not_lt.1 hlength)).symm

/-- The collected text is the longest end of the stream that fits. -/
theorem text_collectStream (chunks : List (List UInt8 × ℕ)) :
    (collectStream chunks).text =
      window Char.utf8Size streamTextMax (chunkTexts chunks).flatten := by
  have hrun : ∀ (rest : List (List UInt8 × ℕ)) (c : StreamCollect),
      total Char.utf8Size c.text ≤ streamTextMax →
      (rest.foldl (fun c chunk ↦ appendChunk c chunk.1 chunk.2) c).text =
        (chunkTexts rest).foldl (push Char.utf8Size streamTextMax) c.text := by
    intro rest
    induction rest with
    | nil => exact fun c _ ↦ rfl
    | cons chunk rest ih =>
      intro c hc
      have htext := text_appendChunk c chunk.1 chunk.2 hc
      have hnext : total Char.utf8Size (appendChunk c chunk.1 chunk.2).text ≤ streamTextMax := by
        rw [htext]
        exact total_window_le _ _ _
      rw [List.foldl_cons, ih _ hnext, htext]
      rfl
  rw [collectStream, hrun chunks {} (Nat.zero_le _)]
  exact foldl_push Char.utf8Size streamTextMax (chunkTexts chunks) []

/-- What is dropped of a text. -/
def droppedText (text : List Char) : List Char :=
  text.take (text.length - (window Char.utf8Size streamTextMax text).length)

theorem droppedText_append (text : List Char) :
    droppedText text ++ window Char.utf8Size streamTextMax text = text := by
  obtain ⟨dropped, hdropped⟩ := exists_append_window Char.utf8Size streamTextMax text
  have hlength := congrArg List.length hdropped
  rw [List.length_append] at hlength
  have htake : droppedText text = dropped := by
    rw [droppedText, hlength, Nat.add_sub_cancel]
    conv_lhs => rw [hdropped]
    exact List.take_left
  rw [htake, ← hdropped]

/-- No character is shared by two chunks: decoding them one by one is decoding the stream. -/
theorem lossy_streamBytes {chunks : List (List UInt8 × ℕ)}
    (h : ∀ chunk ∈ chunks, ∃ text, chunk.1 = encodeUtf8 text) :
    lossy (streamBytes chunks) = (chunkTexts chunks).flatten := by
  induction chunks with
  | nil => exact lossy_nil
  | cons chunk rest ih =>
    obtain ⟨text, htext⟩ := h chunk List.mem_cons_self
    have hrest := ih fun other hother ↦ h other (List.mem_cons_of_mem _ hother)
    rw [streamBytes, chunkTexts, List.map_cons, List.flatten_cons, List.map_cons,
      List.flatten_cons, htext, lossy_encodeUtf8_append, lossy_encodeUtf8]
    exact congrArg (text ++ ·) hrest

section Recording

variable [SerdeJson]

theorem eventCount_finalizeStream (ctx : TeeLogCtx) (collect : StreamCollect) (elapsed : ℕ)
    (n : Count) :
    eventCount (finalizeStream ctx collect elapsed).1 n =
      (extractSseUsage ctx.entryProtocol collect.text).count n := by
  cases n <;> rfl

/-! ### Which streams are billed right -/

/-- Decoding the chunks one by one reads the same counts in every line as decoding the stream at
once. -/
def Legible (p : Protocol) (chunks : List (List UInt8 × ℕ)) : Prop :=
  ∀ n, (lines (chunkTexts chunks).flatten).map (lineSets p n) =
    (lines (lossy (streamBytes chunks))).map (lineSets p n)

/-- A line that is kept whole sets the count; or what the lines up to and with the one that is cut
set it to is also what the remainder of that line sets it to, as when neither sets it. -/
def CountSettled (p : Protocol) (n : Count) (text : List Char) : Prop :=
  let kept := window Char.utf8Size streamTextMax text
  (∃ line ∈ lines (afterLine kept), (lineSets p n line).isSome) ∨
    (lastly (lineSets p n) (lines (droppedText text ++ firstLine kept))).getD none =
      (lastly (lineSets p n) (lines (firstLine kept))).getD none

/-- A text and its window agree on a count just when it is settled. -/
theorem count_window_iff (p : Protocol) (n : Count) (text : List Char) :
    (extractSseUsage p (window Char.utf8Size streamTextMax text)).count n =
      (extractSseUsage p text).count n ↔ CountSettled p n text := by
  have htext := droppedText_append text
  rw [CountSettled]
  generalize droppedText text = dropped at htext ⊢
  generalize window Char.utf8Size streamTextMax text = kept at htext ⊢
  have hkept := lines_append_firstLine [] kept
  rw [List.nil_append, List.nil_append] at hkept
  rw [count_extractSseUsage, count_extractSseUsage, ← htext, hkept, lines_append_firstLine,
    lastly_append, lastly_append, ← lastly_isSome]
  cases hrest : lastly (lineSets p n) (lines (afterLine kept)) with
  | some count => exact ⟨fun _ ↦ Or.inl rfl, fun _ ↦ rfl⟩
  | none =>
    rw [Option.none_or, Option.none_or]
    refine ⟨fun h ↦ Or.inr h.symm, fun h ↦ ?_⟩
    rcases h with h | h
    · exact absurd h (by decide)
    · exact h.symm

/-- A stream whose chunks are texts is decoded legibly. -/
theorem legible_of_texts (p : Protocol) {chunks : List (List UInt8 × ℕ)}
    (h : ∀ chunk ∈ chunks, ∃ text, chunk.1 = encodeUtf8 text) : Legible p chunks := by
  intro n
  rw [lossy_streamBytes h]

/-- A stream that fits is kept whole. -/
theorem countSettled_of_le (p : Protocol) (n : Count) {text : List Char}
    (h : total Char.utf8Size text ≤ streamTextMax) : CountSettled p n text := by
  refine (count_window_iff p n text).1 ?_
  rw [window_of_le _ h]

/-- A stream that is decoded legibly is billed as its whole text says just when every count is
settled. -/
theorem recorded_iff (ctx : TeeLogCtx) (chunks : List (List UInt8 × ℕ)) (elapsed : ℕ)
    (h : Legible ctx.entryProtocol chunks) :
    Recorded ctx chunks elapsed ↔
      ∀ n, CountSettled ctx.entryProtocol n (chunkTexts chunks).flatten := by
  refine forall_congr' fun n ↦ ?_
  rw [eventCount_finalizeStream, text_collectStream, ← count_window_iff,
    count_extractSseUsage _ _ (lossy _), ← lastly_congr _ (h n), ← count_extractSseUsage]

end Recording

/-! ### A long message -/

theorem total_flatMap_replicate {α : Type*} (n : ℕ) (a : α) (f : α → List Char) :
    total Char.utf8Size ((List.replicate n a).flatMap f) = n * total Char.utf8Size (f a) := by
  induction n with
  | zero => rw [List.replicate_zero, List.flatMap_nil, total_nil, Nat.zero_mul]
  | succ n ih =>
    rw [List.replicate_succ, List.flatMap_cons, total_append, ih, Nat.succ_mul, Nat.add_comm]

section LongMessage

local instance : SerdeJson := Compact.codec

local instance : LawfulSerdeJson := Compact.codec_lawful

/-- An event as it is sent. -/
def eventText (v : Value) : List Char := Sse.encodeTypedEvent (SerdeJson.toText v)

/-- The stream of these events, one chunk for each. -/
def eventChunks (events : List Value) : List (List UInt8 × ℕ) :=
  events.map fun v ↦ (encodeUtf8 (eventText v), 0)

theorem flatten_eventChunks (events : List Value) :
    (chunkTexts (eventChunks events)).flatten = events.flatMap eventText := by
  rw [chunkTexts, eventChunks, List.map_map, List.flatMap_def]
  congr 1
  exact List.map_congr_left fun v _ ↦ lossy_encodeUtf8 (eventText v)

theorem exists_text_eventChunks (events : List Value) :
    ∀ chunk ∈ eventChunks events, ∃ text, chunk.1 = encodeUtf8 text := by
  intro chunk hchunk
  obtain ⟨v, -, rfl⟩ := List.mem_map.1 hchunk
  exact ⟨eventText v, rfl⟩

theorem lossy_eventChunks (events : List Value) :
    lossy (streamBytes (eventChunks events)) = events.flatMap eventText := by
  rw [lossy_streamBytes (exists_text_eventChunks events), flatten_eventChunks]

def messageStart : Value :=
  .object [("type", .str "message_start"),
    ("message", .object [("usage", .object
      [("input_tokens", .ofNat 25), ("output_tokens", .ofNat 1)])])]

def textDelta (text : String) : Value :=
  .object [("type", .str "content_block_delta"), ("index", .ofNat 0),
    ("delta", .object [("type", .str "text_delta"), ("text", .str text)])]

def messageDelta : Value :=
  .object [("type", .str "message_delta"), ("delta", .object [("stop_reason", .str "end_turn")]),
    ("usage", .object [("output_tokens", .ofNat 9)])]

def messageStop : Value := .object [("type", .str "message_stop")]

/-- The last text of a message, and its end. -/
def messageEnd : List Value :=
  [textDelta (String.ofList (List.replicate 102 '.')), messageDelta, messageStop]

/-- A message whose text fills the window. -/
def longMessage : List Value :=
  messageStart :: (List.replicate 2045 (textDelta "Sphinx quartz") ++ messageEnd)

def longMessageCtx : TeeLogCtx where
  tmpl := default
  entryProtocol := .anthropic

/-- The size of an event with a type, as it is sent. -/
def eventSize (v : Value) : ℕ :=
  16 + total Char.utf8Size (eventType v).toList + total Char.utf8Size (Compact.print v.normalize)

theorem total_eventText {v : Value} (hv : Sendable v) (htype : eventType v ≠ "") :
    total Char.utf8Size (eventText v) = eventSize v := by
  obtain ⟨m, rfl⟩ := hv.exists_obj
  have hname : (((Value.obj m).get? "type").bind Value.asStr).filter
      (fun name ↦ decide (name ≠ "")) = some (eventType (.obj m)) := by
    rw [eventType] at htype ⊢
    cases htyped : ((Value.obj m).get? "type").bind Value.asStr with
    | none => exact absurd (by rw [htyped]; rfl) htype
    | some name =>
      rw [htyped] at htype
      exact Option.filter_eq_some_iff.2 ⟨rfl, decide_eq_true htype⟩
  have hevent : total Char.utf8Size "event: ".toList = 7 := by decide
  have hdata : total Char.utf8Size "data: ".toList = 6 := by decide
  have hfeed : total Char.utf8Size ['\n'] = 1 := by decide
  have htext : (SerdeJson.toText (Value.obj m)).toList = Compact.print (Value.obj m).normalize :=
    String.toList_ofList
  rw [eventText, encodeTypedEvent_toText m hv.2.1, Sse.encodeTypedEventWithType, hname, eventSize]
  simp only [encodeEvent_toText, total_append, hevent, hdata, hfeed, htext]
  omega

/-- The events of the message: all are sent as they are, and only the first sets the input
tokens. -/
theorem events_longMessage :
    (∀ v ∈ messageStart :: textDelta "Sphinx quartz" :: messageEnd,
      Sendable v ∧ eventType v ≠ "") ∧
    (eventSize messageStart ≤ 128 ∧ eventSize (textDelta "Sphinx quartz") = 128 ∧
      (messageEnd.map eventSize).sum = 384) ∧
    eventSets .anthropic .prompt messageStart = some (some 25) ∧
    ∀ v ∈ textDelta "Sphinx quartz" :: messageEnd, eventSets .anthropic .prompt v = none := by
  decide +kernel

theorem mem_longMessage {v : Value} (hv : v ∈ longMessage.tail) :
    v ∈ textDelta "Sphinx quartz" :: messageEnd := by
  rcases List.mem_append.1 hv with hv | hv
  · rw [List.eq_of_mem_replicate hv]
    exact List.mem_cons_self
  · exact List.mem_cons_of_mem _ hv

theorem total_flatMap_eventText {events : List Value}
    (h : ∀ v ∈ events, Sendable v ∧ eventType v ≠ "") :
    total Char.utf8Size (events.flatMap eventText) = (events.map eventSize).sum := by
  induction events with
  | nil => rfl
  | cons v rest ih =>
    obtain ⟨⟨hsent, htype⟩, hrest⟩ := List.forall_mem_cons.1 h
    rw [List.flatMap_cons, total_append, total_eventText hsent htype, ih hrest, List.map_cons,
      List.sum_cons]

theorem total_messageEnd : total Char.utf8Size (messageEnd.flatMap eventText) = 384 := by
  have hevents : ∀ v ∈ messageEnd, Sendable v ∧ eventType v ≠ "" := fun v hv ↦
    events_longMessage.1 v (List.mem_cons_of_mem _ (List.mem_cons_of_mem _ hv))
  exact (total_flatMap_eventText hevents).trans events_longMessage.2.1.2.2

/-- The message, but for its start, fills the window. -/
theorem total_longMessage :
    total Char.utf8Size (longMessage.tail.flatMap eventText) = streamTextMax := by
  obtain ⟨hsent, htype⟩ := events_longMessage.1 (textDelta "Sphinx quartz") (by simp)
  have hdelta : total Char.utf8Size (eventText (textDelta "Sphinx quartz")) = 128 :=
    (total_eventText hsent htype).trans events_longMessage.2.1.2.1
  rw [longMessage, List.tail_cons, List.flatMap_append, total_append, total_flatMap_replicate,
    hdelta, total_messageEnd]
  rfl

/-- Every event of the message is sent as it is. -/
theorem sendable_longMessage : ∀ v ∈ longMessage, Sendable v := by
  intro v hv
  rcases List.mem_cons.1 hv with rfl | hv
  · exact (events_longMessage.1 _ List.mem_cons_self).1
  · exact (events_longMessage.1 v (List.mem_cons_of_mem _ (mem_longMessage hv))).1

/-- Only the start of the message sets the input tokens. -/
theorem lastly_longMessage :
    lastly (eventSets .anthropic .prompt) longMessage.tail = none :=
  lastly_eq_none _ fun v hv ↦ events_longMessage.2.2.2 v (mem_longMessage hv)

/-- A message whose text fills the window: the tokens of its start are not recorded. -/
theorem not_recorded_longMessage :
    ¬ Recorded longMessageCtx (eventChunks longMessage) 0 := by
  have hkept : (collectStream (eventChunks longMessage)).text =
      longMessage.tail.flatMap eventText := by
    rw [text_collectStream, flatten_eventChunks]
    exact window_append_of_total_eq _ Char.utf8Size_pos _ total_longMessage
  have htail : ∀ v ∈ longMessage.tail, Sendable v := fun v hv ↦
    sendable_longMessage v (List.mem_of_mem_tail hv)
  have hrest : lastly (lineSets .anthropic .prompt) (lines (longMessage.tail.flatMap eventText)) =
      none :=
    (lastly_lines_events _ _ htail).trans lastly_longMessage
  have hstart : lastly (eventSets .anthropic .prompt) longMessage = some (some 25) := by
    show (lastly (eventSets .anthropic .prompt) longMessage.tail).or _ = _
    rw [lastly_longMessage, Option.none_or]
    exact events_longMessage.2.2.1
  have hwhole : lastly (lineSets .anthropic .prompt) (lines (longMessage.flatMap eventText)) =
      some (some 25) :=
    (lastly_lines_events _ _ sendable_longMessage).trans hstart
  intro hrecorded
  have hprotocol : longMessageCtx.entryProtocol = .anthropic := rfl
  have hprompt := hrecorded .prompt
  rw [eventCount_finalizeStream, hkept, lossy_eventChunks, hprotocol, count_extractSseUsage,
    count_extractSseUsage, hrest, hwhole] at hprompt
  exact absurd hprompt (by decide)

/-- A message that fits is recorded. -/
theorem recorded_shortMessage :
    Recorded longMessageCtx (eventChunks (messageStart :: messageEnd)) 0 := by
  have hfits : total Char.utf8Size (chunkTexts (eventChunks (messageStart :: messageEnd))).flatten ≤
      streamTextMax := by
    obtain ⟨hsent, htype⟩ := events_longMessage.1 messageStart List.mem_cons_self
    rw [flatten_eventChunks, List.flatMap_cons, total_append, total_messageEnd,
      total_eventText hsent htype]
    exact (Nat.add_le_add_right events_longMessage.2.1.1 384).trans (by decide)
  exact (recorded_iff longMessageCtx (eventChunks (messageStart :: messageEnd)) 0
    (legible_of_texts _ (exists_text_eventChunks _))).2 fun n ↦ countSettled_of_le _ n hfits

end LongMessage

end NextApi.Gateway
