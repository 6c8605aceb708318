import NextApi.Json.Codec
import NextApi.Protocol.Ir
import NextApi.Stream.Window
import NextApi.Text.Lines

/-!
# The usage that is billed

What a request is charged for is read off the text that its client receives, by readers of their
own for each protocol: `extractJsonUsage` for a document, `extractSseUsage` for a stream. They are
separate from the adapters, because a request that is passed through is not converted.

The input is counted without what was read from the cache, which only Anthropic reports so: the
counts of the other three include it, and it is taken off (`uncachedPrompt`). Gemini reports the
tokens of the reasoning apart from the output, so they are added.

Counts are `i64`. `raw` is the usage as the upstream reported it.

A line of an event stream sets some of the four counts and leaves the others alone. Setting a count
may also be setting it to nothing, as the start of a message does that comes without it. Scanning a
stream is then four registers apart from each other (`count_extractSseUsage`): a count is what the
last line that sets it sets it to.
-/

set_option autoImplicit false

namespace NextApi.Upstream

open Json Ir

structure Usage where
  promptTokens : Option ℤ := none
  completionTokens : Option ℤ := none
  cacheWriteTokens : Option ℤ := none
  cacheReadTokens : Option ℤ := none
  raw : Option Value := none
  deriving DecidableEq, Inhabited

/-- The `i64` nearest to an integer: what saturating arithmetic gives. -/
def saturateI64 (x : ℤ) : ℤ := max (-2 ^ 63) (min x (2 ^ 63 - 1))

/-- A number as a count; those from `2 ^ 63` on wrap around. -/
def token (v : Value) : Option ℤ :=
  v.asI64.or (v.asU64.map fun (u : ℕ) ↦ Int.bmod u (2 ^ 64))

/-- The input that was not read from the cache, given all of it. -/
def uncachedPrompt (prompt cached : Option ℤ) : Option ℤ :=
  prompt.map fun p ↦ max (saturateI64 (p - max (cached.getD 0) 0)) 0

/-- All tokens of a request; negative counts count as none. -/
def totalTokens (u : Usage) : ℤ :=
  let count (tokens : Option ℤ) : ℤ := max (tokens.getD 0) 0
  saturateI64 (saturateI64 (saturateI64 (count u.promptTokens + count u.completionTokens) +
    count u.cacheReadTokens) + count u.cacheWriteTokens)

/-- The count that a member of an object holds. -/
def countAt (usage : Option Value) (key : String) : Option ℤ :=
  (usage.bind fun u ↦ u.get? key).bind token

/-- The count that a member of an object in an object holds. -/
def countIn (usage : Option Value) (details key : String) : Option ℤ :=
  ((usage.bind fun u ↦ u.get? details).bind fun d ↦ d.get? key).bind token

/-! ### Documents -/

/-- The usage of a document. -/
def extractJsonUsage (p : Protocol) (v : Value) : Usage :=
  match p with
  | .openaiChat =>
    let usage := v.get? "usage"
    let cached := countIn usage "prompt_tokens_details" "cached_tokens"
    { promptTokens := uncachedPrompt (countAt usage "prompt_tokens") cached
      completionTokens := countAt usage "completion_tokens"
      cacheReadTokens := cached
      raw := usage }
  | .openaiResponses =>
    let usage := v.get? "usage"
    let cached := countIn usage "input_tokens_details" "cached_tokens"
    { promptTokens := uncachedPrompt (countAt usage "input_tokens") cached
      completionTokens := countAt usage "output_tokens"
      cacheReadTokens := cached
      raw := usage }
  | .anthropic =>
    let usage := v.get? "usage"
    { promptTokens := countAt usage "input_tokens"
      completionTokens := countAt usage "output_tokens"
      cacheWriteTokens := countAt usage "cache_creation_input_tokens"
      cacheReadTokens := countAt usage "cache_read_input_tokens"
      raw := usage }
  | .gemini =>
    let usage := v.get? "usageMetadata"
    let candidates := countAt usage "candidatesTokenCount"
    let thoughts := countAt usage "thoughtsTokenCount"
    let cached := countAt usage "cachedContentTokenCount"
    { promptTokens := uncachedPrompt (countAt usage "promptTokenCount") cached
      completionTokens :=
        if candidates.isNone && thoughts.isNone then none
        else some (saturateI64 (candidates.getD 0 + thoughts.getD 0))
      cacheReadTokens := cached
      raw := usage }

/-! ### Streams -/

section Streams

variable [SerdeJson]

/-- The document of a line of an event stream. -/
def parseSseData (line : List Char) : Option Value :=
  ("data:".toList.isPrefixOf? (Text.trim line)).bind fun rest ↦
    let data := Text.trim rest
    if data = "[DONE]".toList ∨ data = [] then none
    else (SerdeJson.ofText (String.ofList data)).toOption

/-- What is kept while a stream is read. -/
structure SseScan where
  last : Usage := {}
  aInput : Option ℤ := none
  aOutput : Option ℤ := none
  aCacheWrite : Option ℤ := none
  aCacheRead : Option ℤ := none
  deriving DecidableEq, Inhabited

/-- Some count is known that the client is charged for. -/
def Usage.reported (u : Usage) : Bool :=
  u.promptTokens.isSome || u.completionTokens.isSome || u.cacheReadTokens.isSome

/-- The type of an event, empty if it has none. -/
def eventType (v : Value) : String := ((v.get? "type").bind Value.asStr).getD ""

/-- Reads the document of one event. -/
def scanEvent (p : Protocol) (scan : SseScan) (v : Value) : SseScan :=
  match p with
  | .anthropic =>
    if eventType v = "message_start" then
      match (v.get? "message").bind fun m ↦ m.get? "usage" with
      | some usage =>
        { scan with
          aInput := countAt (some usage) "input_tokens"
          aCacheWrite := countAt (some usage) "cache_creation_input_tokens"
          aCacheRead := countAt (some usage) "cache_read_input_tokens" }
      | none => scan
    else if eventType v = "message_delta" then
      match countAt (v.get? "usage") "output_tokens" with
      | some t => { scan with aOutput := some t }
      | none => scan
    else scan
  | .gemini =>
    if (v.get? "usageMetadata").isSome then { scan with last := extractJsonUsage .gemini v }
    else scan
  | .openaiResponses =>
    if (v.get? "type").bind Value.asStr = some "response.completed" then
      match v.get? "response" with
      | some resp => { scan with last := extractJsonUsage .openaiResponses resp }
      | none => scan
    else scan
  | .openaiChat =>
    if (v.get? "usage").isSome then
      let u := extractJsonUsage .openaiChat v
      if u.reported then { scan with last := u } else scan
    else scan

/-- Reads one line; a line that is not the document of an event is left out. -/
def scanLine (p : Protocol) (scan : SseScan) (line : List Char) : SseScan :=
  match parseSseData line with
  | some v => scanEvent p scan v
  | none => scan

/-- The usage that the scan has come to. -/
def SseScan.usage (p : Protocol) (scan : SseScan) : Usage :=
  if p = .anthropic then
    let raw := Map.insertPresent []
      [("input_tokens", scan.aInput.map .int), ("output_tokens", scan.aOutput.map .int),
        ("cache_creation_input_tokens", scan.aCacheWrite.map .int),
        ("cache_read_input_tokens", scan.aCacheRead.map .int)]
    { promptTokens := scan.aInput
      completionTokens := scan.aOutput
      cacheWriteTokens := scan.aCacheWrite
      cacheReadTokens := scan.aCacheRead
      raw := if raw.isEmpty then none else some (.obj raw) }
  else scan.last

/-- The usage of a stream. -/
def extractSseUsage (p : Protocol) (sseText : List Char) : Usage :=
  ((Text.lines sseText).foldl (scanLine p) {}).usage p

end Streams

/-! ### Which counts each line sets -/

section Registers

open Stream.Register

/-- The counts of a usage. -/
inductive Count where
  | prompt
  | completion
  | cacheWrite
  | cacheRead
  deriving DecidableEq, Inhabited

def Usage.count (u : Usage) : Count → Option ℤ
  | .prompt => u.promptTokens
  | .completion => u.completionTokens
  | .cacheWrite => u.cacheWriteTokens
  | .cacheRead => u.cacheReadTokens

/-- What the start of a message sets a count to. -/
def startSets (n : Count) (usage : Value) : Option (Option ℤ) :=
  match n with
  | .prompt => some (countAt (some usage) "input_tokens")
  | .completion => none
  | .cacheWrite => some (countAt (some usage) "cache_creation_input_tokens")
  | .cacheRead => some (countAt (some usage) "cache_read_input_tokens")

/-- What an event sets a count to. -/
def eventSets (p : Protocol) (n : Count) (v : Value) : Option (Option ℤ) :=
  match p with
  | .anthropic =>
    if eventType v = "message_start" then
      ((v.get? "message").bind fun m ↦ m.get? "usage").bind (startSets n)
    else if eventType v = "message_delta" ∧ n = .completion then
      (countAt (v.get? "usage") "output_tokens").map some
    else none
  | .gemini =>
    if (v.get? "usageMetadata").isSome then some ((extractJsonUsage .gemini v).count n) else none
  | .openaiResponses =>
    if (v.get? "type").bind Value.asStr = some "response.completed" then
      (v.get? "response").map fun resp ↦ (extractJsonUsage .openaiResponses resp).count n
    else none
  | .openaiChat =>
    if (v.get? "usage").isSome ∧ (extractJsonUsage .openaiChat v).reported then
      some ((extractJsonUsage .openaiChat v).count n)
    else none

/-- Nothing is known before the stream. -/
theorem count_start (p : Protocol) (n : Count) : ((({} : SseScan).usage p).count n) = none := by
  cases p <;> cases n <;> rfl

/-- One event sets the counts that it has a value for, and no other. -/
theorem count_scanEvent (p : Protocol) (n : Count) (scan : SseScan) (v : Value) :
    some (((scanEvent p scan v).usage p).count n) =
      (eventSets p n v).or (some ((scan.usage p).count n)) := by
  cases p with
  | openaiChat =>
    rw [scanEvent, eventSets]
    by_cases husage : (v.get? "usage").isSome = true
    · rw [if_pos husage]
      show some ((SseScan.usage .openaiChat (if _ then _ else _)).count n) = _
      by_cases hreported : (extractJsonUsage .openaiChat v).reported = true
      · rw [if_pos hreported, if_pos ⟨husage, hreported⟩]
        rfl
      · rw [if_neg hreported, if_neg fun h ↦ hreported h.2]
        rfl
    · rw [if_neg husage, if_neg fun h ↦ husage h.1]
      rfl
  | openaiResponses =>
    rw [scanEvent, eventSets]
    split
    · cases v.get? "response" <;> rfl
    · rfl
  | gemini =>
    rw [scanEvent, eventSets]
    split <;> rfl
  | anthropic =>
    rw [scanEvent, eventSets]
    by_cases hstart : eventType v = "message_start"
    · rw [if_pos hstart, if_pos hstart]
      cases (v.get? "message").bind fun m ↦ m.get? "usage" with
      | none => rfl
      | some usage => cases n <;> rfl
    · rw [if_neg hstart, if_neg hstart]
      by_cases hdelta : eventType v = "message_delta"
      · rw [if_pos hdelta]
        cases hcount : countAt (v.get? "usage") "output_tokens" with
        | none => cases n <;> simp
        | some t => cases n <;> simp [hdelta] <;> rfl
      · rw [if_neg hdelta, if_neg fun h ↦ hdelta h.1]
        rfl

variable [SerdeJson]

/-- What a line sets a count to. -/
def lineSets (p : Protocol) (n : Count) (line : List Char) : Option (Option ℤ) :=
  (parseSseData line).bind (eventSets p n)

theorem count_scanLine (p : Protocol) (n : Count) (scan : SseScan) (line : List Char) :
    some (((scanLine p scan line).usage p).count n) =
      (lineSets p n line).or (some ((scan.usage p).count n)) := by
  rw [scanLine, lineSets]
  cases parseSseData line with
  | none => rfl
  | some v => exact count_scanEvent p n scan v

/-- Each count of a stream is what the last line with a value for it sets it to. -/
theorem count_extractSseUsage (p : Protocol) (n : Count) (text : List Char) :
    (extractSseUsage p text).count n = (lastly (lineSets p n) (Text.lines text)).getD none := by
  have h := foldl_eq_lastly (lineSets p n) (scanLine p)
    (fun scan ↦ some ((scan.usage p).count n)) (count_scanLine p n) {} (Text.lines text)
  rw [count_start] at h
  rw [extractSseUsage]
  cases hlast : lastly (lineSets p n) (Text.lines text) with
  | none => exact Option.some.inj (by rw [h, hlast]; rfl)
  | some count => exact Option.some.inj (by rw [h, hlast]; rfl)

end Registers

end NextApi.Upstream
