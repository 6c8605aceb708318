import NextApi.Gateway.EntryError
import NextApi.Json.Compact
import NextApi.Json.Syntax
import NextApi.Text.Cut

/-!
# The words of the upstream

An upstream that does not answer with success fails with its status and the text of the body
(`statusFailure`). Of a long body the beginning is kept: `truncateText` cuts the bytes and steps
back over those that continue a character, so as not to cut one. It steps back too far or not far
enough. What is kept is the text that fits only when the cut is a clean one (`truncateText_cases`).

A failure of the upstream is told to the client in the form of the client's protocol and in the
words of the upstream (`Carries`): the message of its error object, when the body is one, and else
the text of the body, as much of it as fits.

The body is read in the form of the client's protocol, not of the upstream's, and what is read of a
document that is no error object differs: for OpenAI it has no words, and for the others it is the
document as the gateway prints it. The words are kept exactly when the body is none of these and,
when it is too long, is cut at a character (`entryError_iff`).
-/

set_option autoImplicit false

namespace NextApi.Upstream

open Text Gateway

/-- The position before the bytes that continue a character. -/
def backOff (bytes : List UInt8) : ℕ → ℕ
  | 0 => 0
  | last + 1 =>
    if bytes.getD last 0 &&& 0xC0 = 0x80 then backOff bytes last else last + 1

/-- The text of the bytes, of those in front when there are too many. -/
def truncateText (bytes : List UInt8) (maxBytes : ℕ) : String :=
  if bytes.length ≤ maxBytes then String.ofList (lossy bytes)
  else String.ofList (lossy (bytes.take (backOff bytes maxBytes)))

/-- `StatusCode::is_success`. -/
def isSuccess (status : ℕ) : Bool := decide (200 ≤ status ∧ status < 300)

/-- How much of the body is kept. -/
def errorLimit : ℕ := 2048

/-- The failure that an answer is. -/
def statusFailure (status : ℕ) (bytes : List UInt8) : Option UpstreamError :=
  if isSuccess status then none else some (.status status (truncateText bytes errorLimit))

/-- The text of the bytes that fits. -/
def textOf (bytes : List UInt8) (limit : ℕ) : String := String.ofList (cut limit bytes)

/-! ### What is kept -/

/-- The mask finds the bytes that continue a character. -/
theorem mask_eq_iff (b : UInt8) : b &&& 0xC0 = 0x80 ↔ isContinuation b = true := by
  have hall : ∀ n : Fin 256, (UInt8.ofNat n &&& 0xC0 = 0x80 ↔
      isContinuation (UInt8.ofNat n) = true) := by decide +kernel
  have h := hall ⟨b.toNat, b.toNat_lt⟩
  rwa [UInt8.ofNat_toNat] at h

theorem stepsBack_backOff (bytes : List UInt8) {n : ℕ} (hn : n ≤ bytes.length) :
    StepsBack bytes n (backOff bytes n) := by
  induction n with
  | zero =>
    exact ⟨le_rfl, fun i b _ hi ↦ absurd hi (Nat.not_lt_zero i),
      fun i b hi ↦ absurd hi (Nat.succ_ne_zero i).symm⟩
  | succ n ih =>
    have ih := ih (Nat.le_of_succ_le hn)
    have hget : ∀ b, bytes[n]? = some b → bytes.getD n 0 = b := by
      intro b hb
      rw [List.getD_eq_getElem?_getD, hb, Option.getD_some]
    rw [backOff]
    split
    · rename_i hmask
      refine ⟨ih.le.trans (Nat.le_succ n), fun i b hle hlt hb ↦ ?_, ih.stops⟩
      rcases Nat.eq_or_lt_of_le (Nat.le_of_lt_succ hlt) with rfl | hlt
      · rw [hget b hb] at hmask
        exact (mask_eq_iff b).1 hmask
      · exact ih.continues i b hle hlt hb
    · rename_i hmask
      refine ⟨le_rfl, fun i b hle hlt ↦ absurd hlt (Nat.not_lt.2 hle), fun i b hi hb ↦ ?_⟩
      rw [← Nat.succ.inj hi] at hb
      rw [hget b hb, mask_eq_iff] at hmask
      exact Bool.eq_false_iff.2 hmask

/-- The text of the bytes that fit is kept. Of too many, it is when they are cut cleanly. Otherwise
what is kept ends with a replacement, or characters that fit are lost, the last of them one. -/
theorem truncateText_cases (bytes : List UInt8) (limit : ℕ) :
    (bytes.length ≤ limit ∨ CutsCleanly bytes limit) ∧
        truncateText bytes limit = textOf bytes limit ∨
      (¬ (bytes.length ≤ limit ∨ CutsCleanly bytes limit) ∧
        truncateText bytes limit ≠ textOf bytes limit ∧
        ((truncateText bytes limit).toList.getLast? = some replacement ∨
          (truncateText bytes limit).length < (textOf bytes limit).length ∧
            (textOf bytes limit).toList.getLast? = some replacement)) := by
  rw [truncateText, textOf]
  by_cases hle : bytes.length ≤ limit
  · rw [if_pos hle, cut_of_length_le hle]
    exact Or.inl ⟨Or.inl hle, rfl⟩
  · rw [if_neg hle]
    have hlimit : limit ≤ bytes.length := (Nat.lt_of_not_le hle).le
    rcases (stepsBack_backOff bytes hlimit).cut_cases hlimit with
      ⟨hclean, htext⟩ | ⟨hnot, hne, hends⟩
    · exact Or.inl ⟨Or.inr hclean, by rw [htext]⟩
    · refine Or.inr ⟨not_or.2 ⟨hle, hnot⟩, fun h ↦ hne (String.ofList_injective h), ?_⟩
      rwa [String.toList_ofList, String.toList_ofList, String.length_ofList, String.length_ofList]

theorem textOf_ne_empty {bytes : List UInt8} (h : bytes ≠ []) {limit : ℕ} (hlimit : 4 ≤ limit) :
    textOf bytes limit ≠ "" := by
  intro hempty
  refine cut_ne_nil h hlimit (String.ofList_injective ?_)
  rwa [← textOf]

end NextApi.Upstream

namespace NextApi.Gateway

open Json Ir Upstream Text

/-! ### The form of an answer -/

/-- A status of gRPC is written in capitals. -/
def GrpcForm (status : String) : Prop :=
  status ≠ "" ∧ status.toList.all (fun c ↦ c.isUpper || c == '_') = true

/-- The form of an error in a protocol. -/
def ErrorForm : Protocol → Value → Prop
  | .openaiChat, v | .openaiResponses, v => ∃ message type code, v = .object [("error", .object
      [("message", .str message), ("type", .str type), ("code", textOrNull code)])]
  | .anthropic, v => ∃ type message, v = .object [("type", .str "error"), ("error", .object
      [("type", .str type), ("message", .str message)])]
  | .gemini, v => ∃ code message status, GrpcForm status ∧ v = .object [("error", .object
      [("code", .ofNat code), ("message", .str message), ("status", .str status)])]

theorem grpcForm_grpcStatus (status : ℕ) : GrpcForm (grpcStatus status) := by
  unfold grpcStatus
  split
  all_goals first | exact ⟨by decide, by decide⟩ | (split <;> exact ⟨by decide, by decide⟩)

theorem grpcForm_geminiStatus (e : IrError) : GrpcForm (geminiStatus e) := by
  unfold geminiStatus
  split
  · split
    · assumption
    · exact grpcForm_grpcStatus _
  · exact grpcForm_grpcStatus _

/-- What is written has the form of the protocol. -/
theorem errorForm_errorFromIr (p : Protocol) (e : IrError) : ErrorForm p (errorFromIr p e) := by
  cases p with
  | openaiChat => exact ⟨_, _, _, rfl⟩
  | openaiResponses => exact ⟨_, _, _, rfl⟩
  | anthropic => exact ⟨_, _, rfl⟩
  | gemini => exact ⟨_, _, _, grpcForm_geminiStatus e, rfl⟩

/-! ### The words -/

section Words

variable [SerdeJson]

/-- The message of an error object; it has the same place in all protocols. -/
def errorMessage (t : Protocol) (v : Value) : Option String :=
  match t with
  | .openaiChat | .openaiResponses | .anthropic | .gemini => v["error"]["message"].asStr

/-- What an upstream says with a body: the message when the body is an error object, if it has one,
and else the text. -/
def words (t : Protocol) (bytes : List UInt8) : String :=
  let text := textOf bytes errorLimit
  if bytes.length ≤ errorLimit then
    match SerdeJson.ofText text with
    | .ok v => ((errorMessage t v).filter fun m ↦ m ≠ "").getD text
    | .error _ => text
  else text

/-- The answer has the status of the upstream, the form of the protocol and the upstream's words. -/
structure Carries (t p : Protocol) (status : ℕ) (bytes : List UInt8) (answer : ℕ × Value) :
    Prop where
  status : answer.1 = status
  form : ErrorForm p answer.2
  message : answer.2["error"]["message"] = .str (words t bytes)

/-- The body is a document that is printed as it is. -/
structure Reprinted (p : Protocol) (v : Value) (text : String) : Prop where
  entry : p = .anthropic ∨ p = .gemini
  noMessage : v["error"]["message"].asStr = none
  noText : v.asStr = none
  notNull : v ≠ .null
  same : SerdeJson.toText v = text

/-- The body is no document, an error object with a message, or printed as it is; and it fits or is
cut at a character. -/
def Kept (p : Protocol) (bytes : List UInt8) : Prop :=
  (bytes.length ≤ errorLimit ∨ CutsCleanly bytes errorLimit) ∧
    match SerdeJson.ofText (textOf bytes errorLimit) with
    | .error _ => True
    | .ok v =>
      (bytes.length ≤ errorLimit ∧ ∃ m, v["error"]["message"].asStr = some m ∧ m ≠ "") ∨
        Reprinted p v (textOf bytes errorLimit)

theorem words_ne_empty (t : Protocol) {bytes : List UInt8} (h : bytes ≠ []) :
    words t bytes ≠ "" := by
  have htext : textOf bytes errorLimit ≠ "" := textOf_ne_empty h (by decide)
  unfold words
  dsimp only
  split
  · split
    · cases hfilter : (errorMessage t _).filter fun m ↦ decide (m ≠ "") with
      | none => exact htext
      | some m => exact of_decide_eq_true (Option.filter_eq_some_iff.1 hfilter).2
    · exact htext
  · exact htext

/-- The message of the answer is the one that was read. -/
theorem carries_iff {t p : Protocol} {status : ℕ} {bytes : List UInt8} {text : String}
    (h : (UpstreamError.status status text).authFailure = none) :
    Carries t p status bytes (entryError p (.upstream (.status status text))) ↔
      (statusError p status text).message = words t bytes := by
  have hanswer : entryError p (.upstream (.status status text)) =
      (status, errorFromIr p (statusError p status text)) := by
    rw [entryError, h]
  rw [hanswer]
  refine ⟨fun hcarries ↦ ?_, fun hmessage ↦ ⟨rfl, errorForm_errorFromIr p _, ?_⟩⟩
  · have hread := hcarries.message
    rw [message_errorFromIr] at hread
    exact Value.str.inj hread
  · rw [message_errorFromIr, hmessage]

/-- A document that is no error object is read in one of two ways. -/
theorem message_of_none {p : Protocol} {v : Value} (status : ℕ)
    (h : v["error"]["message"].asStr = none) :
    (errorToIr p status v).message =
      if p = .anthropic ∨ p = .gemini then fallbackBodyMessage v else v.asStr.getD "" := by
  cases p <;> (rw [errorToIr]; dsimp only; rw [h, Option.getD_none]; rfl)

/-- The message of an error object is read in every protocol. -/
theorem message_of_some {p : Protocol} {v : Value} {m : String} (status : ℕ)
    (h : v["error"]["message"].asStr = some m) : (errorToIr p status v).message = m := by
  cases p <;> (rw [errorToIr]; dsimp only; rw [h, Option.getD_some])

/-- A document that is printed as it is has its text for a message. -/
theorem message_of_reprinted {p : Protocol} {v : Value} {text : String} (status : ℕ)
    (h : Reprinted p v text) : (errorToIr p status v).message = text := by
  have hnull : v.isNull = false := by
    cases v with
    | null => exact absurd rfl h.notNull
    | _ => rfl
  rw [message_of_none status h.noMessage, if_pos h.entry, fallbackBodyMessage, h.noText]
  dsimp only
  rw [hnull, if_neg Bool.false_ne_true, h.same]

variable [JsonSyntax]

/-- The message that is read of a document is shorter than its text, empty, or what the gateway
prints of it. -/
theorem message_cases {p : Protocol} {text : String} {v : Value} (status : ℕ)
    (h : SerdeJson.ofText text = .ok v) :
    (errorToIr p status v).message.length < text.length ∨ (errorToIr p status v).message = "" ∨
      (errorToIr p status v).message = SerdeJson.toText v ∧
        Reprinted p v (SerdeJson.toText v) := by
  cases hmessage : v["error"]["message"].asStr with
  | some m =>
    rw [message_of_some status hmessage]
    exact Or.inl (JsonSyntax.shorter h (Value.part_of_asStr hmessage))
  | none =>
    rw [message_of_none status hmessage]
    cases hstr : v.asStr with
    | some s =>
      have hshort : s.length < text.length := by
        cases v with
        | str t => exact Option.some.inj hstr ▸ JsonSyntax.shorter h (.whole _)
        | _ => exact nomatch hstr
      rw [fallbackBodyMessage, hstr, Option.getD_some, ite_self]
      exact Or.inl hshort
    | none =>
      by_cases hentry : p = .anthropic ∨ p = .gemini
      · rw [if_pos hentry, fallbackBodyMessage, hstr]
        dsimp only
        by_cases hnull : v = .null
        · rw [hnull]
          exact Or.inr (Or.inl rfl)
        · have hisNull : v.isNull = false := by
            cases v with
            | null => exact absurd rfl hnull
            | _ => rfl
          rw [hisNull, if_neg Bool.false_ne_true]
          exact Or.inr (Or.inr ⟨rfl, hentry, hmessage, hstr, hnull, rfl⟩)
      · rw [if_neg hentry, Option.getD_none]
        exact Or.inr (Or.inl rfl)

/-- The words of a body that is cut at a character. -/
theorem message_eq_words_iff {t p : Protocol} {status : ℕ} {bytes : List UInt8}
    (hne : bytes ≠ []) (hfits : bytes.length ≤ errorLimit ∨ CutsCleanly bytes errorLimit) :
    (statusError p status (textOf bytes errorLimit)).message = words t bytes ↔ Kept p bytes := by
  have hempty : textOf bytes errorLimit ≠ "" := textOf_ne_empty hne (by decide)
  rw [statusError, words, Kept, and_iff_right hfits]
  cases hread : SerdeJson.ofText (textOf bytes errorLimit) with
  | error e => simp [plainError]
  | ok v =>
    dsimp only
    have hplace : errorMessage t v = v["error"]["message"].asStr := by cases t <;> rfl
    -- for a document whose words are its text
    have htext : (errorToIr p status v).message = textOf bytes errorLimit ↔
        Reprinted p v (textOf bytes errorLimit) := by
      refine ⟨fun hmessage ↦ ?_, message_of_reprinted status⟩
      rcases message_cases (p := p) status hread with hshort | hnil | ⟨hprinted, h⟩
      · rw [hmessage] at hshort
        exact absurd hshort (Nat.lt_irrefl _)
      · exact absurd (hmessage.symm.trans hnil) hempty
      · rwa [← hmessage, hprinted]
    by_cases hle : bytes.length ≤ errorLimit
    · rw [if_pos hle, hplace]
      cases hmessage : v["error"]["message"].asStr with
      | none =>
        rw [Option.filter_none, Option.getD_none, htext]
        simp
      | some m =>
        have hnot : ¬ Reprinted p v (textOf bytes errorLimit) := fun h ↦ by
          have hnone := h.noMessage
          rw [hmessage] at hnone
          exact nomatch hnone
        rw [message_of_some status hmessage]
        rw [Option.filter_some]
        by_cases hm : m = ""
        · simp [hm, hnot, hempty.symm]
        · simp [hm, hle]
    · rw [if_neg hle, htext]
      simp [hle]

/-- The words are lost when the body is cut inside a character. -/
theorem message_ne_words {t p : Protocol} {status : ℕ} {bytes : List UInt8} (hne : bytes ≠ [])
    (hlong : ¬ bytes.length ≤ errorLimit)
    (hwrong : truncateText bytes errorLimit ≠ textOf bytes errorLimit)
    (hends : (truncateText bytes errorLimit).toList.getLast? = some replacement ∨
      (truncateText bytes errorLimit).length < (textOf bytes errorLimit).length ∧
        (textOf bytes errorLimit).toList.getLast? = some replacement) :
    (statusError p status (truncateText bytes errorLimit)).message ≠ words t bytes := by
  have hempty : textOf bytes errorLimit ≠ "" := textOf_ne_empty hne (by decide)
  rw [statusError, words, if_neg hlong]
  cases hread : SerdeJson.ofText (truncateText bytes errorLimit) with
  | error e => exact hwrong
  | ok v =>
    obtain ⟨hshorter, hlast⟩ := hends.resolve_left (JsonSyntax.ending hread)
    intro hmessage
    rcases message_cases (p := p) status hread with hshort | hnil | ⟨hprinted, -⟩
    · rw [hmessage] at hshort
      exact absurd (hshort.trans hshorter) (Nat.lt_irrefl _)
    · exact hempty (hmessage.symm.trans hnil)
    · rw [← hmessage, hprinted] at hlast
      exact JsonSyntax.printed v hlast

/-- The answer to a failed request carries the words of the upstream exactly when the body keeps
them. -/
theorem entryError_iff (t p : Protocol) (status : ℕ) (bytes : List UInt8) (e : UpstreamError)
    (hfailure : statusFailure status bytes = some e) (hauth : e.authFailure = none)
    (hne : bytes ≠ []) :
    Carries t p status bytes (entryError p (.upstream e)) ↔ Kept p bytes := by
  rw [statusFailure] at hfailure
  split at hfailure
  · exact nomatch hfailure
  · obtain rfl := Option.some.inj hfailure
    rw [carries_iff hauth]
    rcases truncateText_cases bytes errorLimit with ⟨hfits, htext⟩ | ⟨hnot, hwrong, hends⟩
    · rw [htext]
      exact message_eq_words_iff hne hfits
    · refine ⟨fun hmessage ↦ absurd hmessage (message_ne_words hne ?_ hwrong hends),
        fun hkept ↦ absurd hkept.1 hnot⟩
      exact fun hle ↦ hnot (Or.inl hle)

end Words

/-! ### Two bodies -/

/-- An error object. -/
def boom : Value := .obj [("error", .obj [("message", .str "boom")])]

def boomText : List Char := "\x7b\"error\":\x7b\"message\":\"boom\"\x7d\x7d".toList

/-- A codec that knows this document. -/
@[reducible] def boomCodec : SerdeJson where
  toText _ := String.ofList boomText
  ofText text := if text = String.ofList boomText then .ok boom else .error "expected value"

theorem boomCodec_ofText {text : String} {v : Value} (h : boomCodec.ofText text = .ok v) :
    text = String.ofList boomText ∧ v = boom := by
  change (if text = String.ofList boomText then Except.ok boom
    else .error "expected value") = Except.ok v at h
  split at h
  · rename_i htext
    exact ⟨htext, (Except.ok.inj h).symm⟩
  · exact nomatch h

theorem boomSyntax : @JsonSyntax boomCodec := by
  refine @JsonSyntax.mk boomCodec (fun {text s v} hread hpart ↦ ?_) (fun {text v} hread ↦ ?_)
    fun v ↦ ?_
  · obtain ⟨rfl, rfl⟩ := boomCodec_ofText hread
    have hs : s = "boom" := by
      cases hpart with
      | member hmem hpart =>
        obtain ⟨rfl, rfl⟩ := Prod.mk.inj (List.mem_singleton.1 hmem)
        cases hpart with
        | member hmem hpart =>
          obtain ⟨rfl, rfl⟩ := Prod.mk.inj (List.mem_singleton.1 hmem)
          cases hpart with
          | whole => rfl
    rw [hs]
    decide +kernel
  · obtain ⟨rfl, -⟩ := boomCodec_ofText hread
    decide +kernel
  · show (String.ofList boomText).toList.getLast? ≠ _
    decide +kernel

/-- An error object of an OpenAI upstream for a client of Anthropic. -/
theorem entryError_boom :
    @Carries boomCodec .openaiChat .anthropic 500 (encodeUtf8 boomText)
      (@entryError boomCodec .anthropic (.upstream (.status 500 (String.ofList boomText)))) := by
  have hfits : (encodeUtf8 boomText).length ≤ errorLimit := by decide +kernel
  have hfailure : statusFailure 500 (encodeUtf8 boomText) =
      some (.status 500 (String.ofList boomText)) := by
    have htext : truncateText (encodeUtf8 boomText) errorLimit = String.ofList boomText := by
      rw [truncateText, if_pos hfits, lossy_encodeUtf8]
    rw [statusFailure, htext]
    rfl
  have hkept : @Kept boomCodec .anthropic (encodeUtf8 boomText) := by
    have htext : textOf (encodeUtf8 boomText) errorLimit = String.ofList boomText := by
      rw [textOf, cut_of_length_le hfits, lossy_encodeUtf8]
    refine ⟨Or.inl hfits, ?_⟩
    rw [htext]
    exact Or.inl ⟨hfits, "boom", rfl, by decide⟩
  exact (@entryError_iff boomCodec boomSyntax .openaiChat .anthropic 500 _ _ hfailure
    (by decide +kernel) (by decide +kernel)).2 hkept

section Codec

local instance wordsCodec : SerdeJson := Compact.codec

/-- A document that is no error object of OpenAI has no words for a client of OpenAI. -/
theorem not_carries_detail :
    ¬ ∀ (t p : Protocol) (status : ℕ) (bytes : List UInt8) (e : UpstreamError),
      statusFailure status bytes = some e → e.authFailure = none → bytes ≠ [] →
        Carries t p status bytes (entryError p (.upstream e)) := by
  intro h
  let text : List Char := "\x7b\"detail\":\"boom\"\x7d".toList
  have hfailure : statusFailure 500 (encodeUtf8 text) = some (.status 500 (String.ofList text)) := by
    have htext : truncateText (encodeUtf8 text) errorLimit = String.ofList text := by
      rw [truncateText, if_pos (by decide +kernel), lossy_encodeUtf8]
    rw [statusFailure, htext]
    rfl
  have hauth : (UpstreamError.status 500 (String.ofList text)).authFailure = none := by
    decide +kernel
  have hne : encodeUtf8 text ≠ [] := by decide +kernel
  have hmessage := (carries_iff hauth).1 (h .openaiChat .openaiChat 500 _ _ hfailure hauth hne)
  have hnone : (statusError .openaiChat 500 (String.ofList text)).message = "" := by
    decide +kernel
  exact words_ne_empty .openaiChat hne (hmessage.symm.trans hnone)

end Codec

end NextApi.Gateway
