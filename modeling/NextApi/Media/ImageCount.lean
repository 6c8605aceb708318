import NextApi.Billing.Pricing
import NextApi.Gateway.Attempts
import NextApi.Media.Tasks

/-!
# The number of images

A provider answers with images, or with a task that is asked about later. For each shape of answer
the images are collected from one part and counted by another: OpenAI and Gemini by the images
themselves, DashScope by a number that it reports. When it answers at once, a reported number counts
only when it is not too small. When it answers a task, it is taken as it is, and there may be none.

The count is billed from the event, and logged in a column of 32 bits. `Counted` says that both are
there and not below the number of images that the client is given; `counted_iff` says when.
-/

set_option autoImplicit false

namespace NextApi.Media

open Billing Json Logging Gateway

/-! ### Answers with images -/

inductive ImageApi where
  | openai
  | gemini
  | dashscopeSync
  | dashscopeAsync
  deriving DecidableEq, Inhabited

structure ImageData where
  url : Option String
  b64Json : Option String
  deriving DecidableEq, Inhabited

inductive ImageOutcome where
  | created (images : List ImageData) (imageCount : ℤ) (imageSize : Option String)
  | task (providerTaskId : String)
  deriving DecidableEq, Inhabited

/-- The items of an array, none of anything else. -/
def itemsOf (v : Value) : List Value := v.asArray.getD []

/-- `push_image_url`: an address, or a list of addresses. -/
def imageUrls : Value → List ImageData
  | .str s => [⟨some s, none⟩]
  | .arr items => items.filterMap fun item ↦ item.asStr.map fun s ↦ ⟨some s, none⟩
  | _ => []

def openaiImages (data : List Value) : List ImageData :=
  data.map fun item ↦ ⟨item["url"].asStr, item["b64_json"].asStr⟩

def geminiImages (json : Value) : List ImageData :=
  (itemsOf json["candidates"]).flatMap fun cand ↦
    (itemsOf cand["content"]["parts"]).filterMap fun part ↦
      part["inlineData"]["data"].asStr.map fun data ↦ ⟨none, some data⟩

def dashscopeImages (json : Value) : List ImageData :=
  (itemsOf json["output"]["choices"]).flatMap fun choice ↦
    (itemsOf choice["message"]["content"]).flatMap fun item ↦
      ((item.get? "image").map imageUrls).getD []

/-- The number of images, or a larger one that was reported. -/
def dashscopeCount (json : Value) (images : List ImageData) : ℤ :=
  ((json["usage"]["image_count"].asI64.filter fun n ↦
    decide (0 < n) && decide ((images.length : ℤ) ≤ n))).getD images.length

def dashscopeSize (json : Value) : Option String :=
  match json["usage"]["width"].asI64, json["usage"]["height"].asI64 with
  | some w, some h => some (toString w ++ "x" ++ toString h)
  | _, _ => none

def parseImageResponse (api : ImageApi) (reqSize : Option String) (json : Value) :
    Except UpstreamError ImageOutcome :=
  match api with
  | .openai =>
    match json["data"].asArray with
    | none => .error (.bodyRead "OpenAI 图片响应缺少 data 数组")
    | some data =>
      let images := openaiImages data
      if images.isEmpty then
        .error (.bodyRead "OpenAI 图片响应 data 为空或缺少 url/b64_json")
      else .ok (.created images images.length reqSize)
  | .gemini =>
    let images := geminiImages json
    if images.isEmpty then .error (.bodyRead "Gemini 图片响应缺少 inlineData 图片内容")
    else .ok (.created images images.length none)
  | .dashscopeSync =>
    let images := dashscopeImages json
    if images.isEmpty then .error (.bodyRead "DashScope 图片响应缺少图片 URL")
    else .ok (.created images (dashscopeCount json images) (dashscopeSize json))
  | .dashscopeAsync =>
    match json["output"]["task_id"].asStr with
    | none => .error (.bodyRead "阿里异步响应缺少 output.task_id")
    | some taskId => .ok (.task taskId)

/-! ### What the client is given -/

/-- An image in the answer. -/
def imageEntry (img : ImageData) : Value :=
  .obj (Map.insertPresent [] [("url", img.url.map .str), ("b64_json", img.b64Json.map .str)])

/-- The answer to a request; an image may have been downloaded meanwhile. -/
def createdBody (download : ImageData → Option String) (created : ℤ) (images : List ImageData)
    (imageCount : ℤ) : Value :=
  .object
    [("created", .int created),
      ("data", .arr (images.map fun img ↦
        imageEntry { img with b64Json := img.b64Json.orElse fun _ ↦ download img })),
      ("usage", .object [("image_count", .int imageCount)])]

/-- The event of a request that was answered with images, made from that of the request. -/
def createdEvent (tmpl : LogEvent) (imageCount : ℤ) (imageSize : Option String) : LogEvent :=
  { tmpl with status := 200, images := some imageCount, imageSize := imageSize }

/-- The addresses among the results of a task. -/
def extractImageUrls (raw : Option Value) : List Value :=
  match raw with
  | none => []
  | some raw => (itemsOf raw["output"]["results"]).filterMap fun item ↦
      item["url"].asStr.map fun url ↦ .object [("url", .str url)]

/-- The images in the answer to a question about a task. -/
def taskImages (row : MediaTaskRow) : List Value :=
  if row.status = .succeeded then extractImageUrls row.raw else []

/-- What a success is priced with. -/
def taskInput (st : TaskStatus) (now : ℤ) : PricingInput where
  time := now
  images := st.imageCount
  imageSize := st.imageSize

/-- The column of the log for the count. -/
def imagesColumn (ev : LogEvent) : Option ℤ := ev.images.map castI32

/-- What is delivered: the images that the client is given, the count that is billed, and the
event. -/
structure Delivery where
  handed : List Value
  billed : Option ℤ
  event : LogEvent

/-- What a provider is asked: for images, or about a task. -/
inductive Question where
  | create (api : ImageApi) (reqSize : Option String) (tmpl : LogEvent)
  | task (row : MediaTaskRow) (price : Option Priced)

/-- What an answer delivers, if it delivers images. -/
def deliver [FieldText] (download : ImageData → Option String) (now : ℤ) (json : Value) :
    Question → Option Delivery
  | .create api reqSize tmpl =>
    match parseImageResponse api reqSize json with
    | .ok (.created images imageCount imageSize) =>
      let ev := createdEvent tmpl imageCount imageSize
      some
        { handed := itemsOf (createdBody download now images imageCount)["data"]
          billed := (inputFromEvent ev).images
          event := ev }
    | _ => none
  | .task row price =>
    let st := parseTaskStatus json
    if finalizeOutcome st.status = .succeeded then
      some
        { handed := taskImages (setSucceeded st price now row)
          billed := (taskInput st now).images
          event := succeededEvent row st now price }
    else none

/-! ### What is counted -/

/-- There is a count, it is not below the number of images, and it is not negative. -/
def Counts (images : ℕ) (count : Option ℤ) : Prop := ∃ c, count = some c ∧ (images : ℤ) ≤ c ∧ 0 ≤ c

/-- What is billed and what is logged counts the images. -/
def Counted (d : Delivery) : Prop :=
  Counts d.handed.length d.billed ∧ Counts d.handed.length (imagesColumn d.event)

/-- The count of an answer is one that 32 bits hold, or that does not fall below the number of the
images when it is cut to 32 bits; and that of a task is there and not below it. -/
def Consistent (json : Value) : Question → Prop
  | .create .openai _ _ => (openaiImages (itemsOf json["data"])).length < 2 ^ 31
  | .create .gemini _ _ => (geminiImages json).length < 2 ^ 31
  | .create .dashscopeSync _ _ =>
    (dashscopeImages json).length < 2 ^ 31 ∧
      ∀ c, json["usage"]["image_count"].asI64 = some c → ((dashscopeImages json).length : ℤ) ≤ c →
        ((dashscopeImages json).length : ℤ) ≤ castI32 c
  | .create .dashscopeAsync _ _ => True
  | .task _ _ =>
    ∃ c, json["usage"]["image_count"].asI64 = some c ∧
      ((extractImageUrls (some json)).length : ℤ) ≤ c ∧
      ((extractImageUrls (some json)).length : ℤ) ≤ castI32 c

theorem castI32_lt (i : ℤ) : castI32 i < 2 ^ 31 := BitVec.toInt_lt

theorem castI32_of_lt {n : ℕ} (h : n < 2 ^ 31) : castI32 n = n := by
  rw [castI32, BitVec.toInt_ofInt, Int.bmod_eq_of_le]
  · omega
  · omega

theorem le_castI32_iff {n : ℕ} : (n : ℤ) ≤ castI32 n ↔ n < 2 ^ 31 := by
  constructor
  · intro h
    have hlt := castI32_lt n
    omega
  · intro h
    rw [castI32_of_lt h]

theorem counts_some {images : ℕ} {c : ℤ} : Counts images (some c) ↔ (images : ℤ) ≤ c := by
  constructor
  · rintro ⟨c, hc, hle, -⟩
    rwa [Option.some.inj hc]
  · exact fun h ↦ ⟨c, rfl, h, by omega⟩

/-- The client is given an entry for every image. -/
theorem length_createdBody (download : ImageData → Option String) (created : ℤ)
    (images : List ImageData) (imageCount : ℤ) :
    (itemsOf (createdBody download created images imageCount)["data"]).length = images.length := by
  have hdata : (createdBody download created images imageCount)["data"] =
      .arr (images.map fun img ↦
        imageEntry { img with b64Json := img.b64Json.orElse fun _ ↦ download img }) := by
    rw [createdBody, Value.getElem_eq, Value.object, Value.get?, Map.get?_ofList]
    rfl
  rw [hdata, itemsOf, Value.asArray, Option.getD_some, List.length_map]

/-- An answer with images counts them exactly when the count does and keeps doing so in 32 bits. -/
theorem counted_created [FieldText] {download : ImageData → Option String} {now : ℤ} {json : Value}
    {api : ImageApi} {reqSize : Option String} {tmpl : LogEvent} {images : List ImageData}
    {imageCount : ℤ} {imageSize : Option String}
    (hparse : parseImageResponse api reqSize json = .ok (.created images imageCount imageSize))
    {d : Delivery} (h : deliver download now json (.create api reqSize tmpl) = some d) :
    Counted d ↔ (images.length : ℤ) ≤ imageCount ∧ (images.length : ℤ) ≤ castI32 imageCount := by
  rw [deliver, hparse] at h
  obtain rfl := Option.some.inj h
  rw [Counted]
  dsimp only
  rw [length_createdBody, imagesColumn, createdEvent, Option.map_some, counts_some]
  exact and_congr_left fun _ ↦ counts_some

/-- What DashScope's count becomes: the number of images, or one that was reported and is not
below it. -/
theorem dashscopeCount_cases {json : Value} {images : List ImageData} (hne : images ≠ []) :
    (∃ c, json["usage"]["image_count"].asI64 = some c ∧ (images.length : ℤ) ≤ c ∧
      dashscopeCount json images = c) ∨
    ((∀ c, json["usage"]["image_count"].asI64 = some c → ¬ (images.length : ℤ) ≤ c) ∧
      dashscopeCount json images = images.length) := by
  have hpos := List.length_pos_iff.2 hne
  rw [dashscopeCount]
  cases hreported : json["usage"]["image_count"].asI64 with
  | none => exact .inr ⟨fun c hc ↦ (nomatch hc), rfl⟩
  | some c =>
    by_cases hle : (images.length : ℤ) ≤ c
    · have htaken : (decide (0 < c) && decide ((images.length : ℤ) ≤ c)) = true := by
        rw [decide_eq_true hle, decide_eq_true (by omega)]
        rfl
      exact .inl ⟨c, rfl, hle, by rw [Option.filter, if_pos htaken, Option.getD_some]⟩
    · have hnot : ¬ (decide (0 < c) && decide ((images.length : ℤ) ≤ c)) = true := by
        rw [decide_eq_false hle, Bool.and_false]
        exact Bool.false_ne_true
      refine .inr ⟨fun c' hc' ↦ ?_, by rw [Option.filter, if_neg hnot, Option.getD_none]⟩
      rwa [← Option.some.inj hc']

/-- What is parsed as images, and their number. -/
theorem parse_created {api : ImageApi} {reqSize : Option String} {json : Value}
    {images : List ImageData} {imageCount : ℤ} {imageSize : Option String}
    (h : parseImageResponse api reqSize json = .ok (.created images imageCount imageSize)) :
    (api = .openai ∧ images = openaiImages (itemsOf json["data"]) ∧ imageCount = images.length) ∨
    (api = .gemini ∧ images = geminiImages json ∧ imageCount = images.length) ∨
    (api = .dashscopeSync ∧ images = dashscopeImages json ∧ images ≠ [] ∧
      imageCount = dashscopeCount json images) := by
  cases api with
  | openai =>
    rw [parseImageResponse] at h
    rw [itemsOf]
    cases hdata : json["data"].asArray with
    | none =>
      rw [hdata] at h
      exact nomatch h
    | some data =>
      rw [hdata] at h
      dsimp only at h
      split at h
      · exact nomatch h
      · obtain ⟨rfl, rfl, -⟩ := ImageOutcome.created.inj (Except.ok.inj h)
        exact .inl ⟨rfl, rfl, rfl⟩
  | gemini =>
    rw [parseImageResponse] at h
    split at h
    · exact nomatch h
    · obtain ⟨rfl, rfl, -⟩ := ImageOutcome.created.inj (Except.ok.inj h)
      exact .inr (.inl ⟨rfl, rfl, rfl⟩)
  | dashscopeSync =>
    rw [parseImageResponse] at h
    split at h
    · exact nomatch h
    · next hne =>
      obtain ⟨rfl, rfl, -⟩ := ImageOutcome.created.inj (Except.ok.inj h)
      exact .inr (.inr ⟨rfl, rfl, fun hnil ↦ hne (List.isEmpty_iff.2 hnil), rfl⟩)
  | dashscopeAsync =>
    rw [parseImageResponse] at h
    split at h
    · exact nomatch h
    · exact nomatch Except.ok.inj h

/-- An answer about a task counts the images exactly when its own count does, also in 32 bits. -/
theorem counted_task [FieldText] {download : ImageData → Option String} {now : ℤ} {json : Value}
    {row : MediaTaskRow} {price : Option Priced} {d : Delivery}
    (h : deliver download now json (.task row price) = some d) :
    Counted d ↔ Consistent json (.task row price) := by
  rw [deliver] at h
  split at h
  · obtain rfl := Option.some.inj h
    have himages : taskImages (setSucceeded (parseTaskStatus json) price now row) =
        extractImageUrls (some json) := rfl
    have hreported : (parseTaskStatus json).imageCount = json["usage"]["image_count"].asI64 := rfl
    rw [Counted, Consistent]
    dsimp only
    rw [himages, taskInput, imagesColumn, succeededEvent, hreported]
    cases json["usage"]["image_count"].asI64 with
    | none =>
      refine iff_of_false ?_ ?_
      · rintro ⟨⟨c, hc, -⟩, -⟩
        exact nomatch hc
      · rintro ⟨c, hc, -⟩
        exact nomatch hc
    | some c =>
      rw [Option.map_some, counts_some, counts_some]
      simp only [Option.some.injEq, exists_eq_left']
  · exact nomatch h

/-- The images are counted exactly when the answer is consistent. -/
theorem counted_iff [FieldText] {download : ImageData → Option String} {now : ℤ} {json : Value}
    {question : Question} {d : Delivery} (h : deliver download now json question = some d) :
    Counted d ↔ Consistent json question := by
  cases question with
  | task row price => exact counted_task h
  | create api reqSize tmpl =>
    cases hparse : parseImageResponse api reqSize json with
    | error e =>
      rw [deliver, hparse] at h
      exact nomatch h
    | ok outcome =>
      cases outcome with
      | task id =>
        rw [deliver, hparse] at h
        exact nomatch h
      | created images imageCount imageSize =>
        rw [counted_created hparse h]
        rcases parse_created hparse with
          ⟨rfl, rfl, rfl⟩ | ⟨rfl, rfl, rfl⟩ | ⟨rfl, rfl, hne, rfl⟩
        · rw [le_castI32_iff, and_iff_right (le_refl _), Consistent]
        · rw [le_castI32_iff, and_iff_right (le_refl _), Consistent]
        · rw [Consistent]
          rcases @dashscopeCount_cases json _ hne with
            ⟨c, hreported, hle, hcount⟩ | ⟨hnone, hcount⟩
          · rw [hcount, and_iff_right hle, hreported]
            constructor
            · intro hcast
              have hlt := castI32_lt c
              refine ⟨by omega, fun c' hc' _ ↦ ?_⟩
              rwa [← Option.some.inj hc']
            · exact fun ⟨_, hall⟩ ↦ hall c rfl hle
          · rw [hcount, and_iff_right (le_refl _), le_castI32_iff]
            exact (and_iff_left fun c hc hle ↦ absurd hle (hnone c hc)).symm

/-! ### A task without a count -/

section Example

local instance plainFields : FieldText where
  formatTime t := toString t
  parseTime _ := none
  formatUuid _ := "00000000-0000-0000-0000-000000000000"
  parseUuid _ := none
  formatDecimal _ := ""
  parseDecimal _ := none

/-- A finished task with one image; there is no usage. -/
def uncountedResult : Value :=
  .object [("output", .object [("task_status", .str "SUCCEEDED"),
    ("results", .arr [.object [("url", .str "https://a/b.png")]])])]

/-- The same with a count. -/
def countedResult : Value :=
  .object [("output", .object [("task_status", .str "SUCCEEDED"),
    ("results", .arr [.object [("url", .str "https://a/b.png")]])]),
    ("usage", .object [("image_count", .int 1)])]

theorem not_counted_uncountedResult :
    ∃ d, deliver (fun _ ↦ none) 0 uncountedResult (.task default none) = some d ∧ ¬ Counted d := by
  have hstatus : finalizeOutcome (parseTaskStatus uncountedResult).status = .succeeded := by
    decide +kernel
  refine ⟨_, if_pos hstatus, ?_⟩
  rintro ⟨⟨c, hc, -⟩, -⟩
  exact nomatch hc

theorem counted_countedResult :
    ∃ d, deliver (fun _ ↦ none) 0 countedResult (.task default none) = some d ∧
      (Counted d ↔ Consistent countedResult (.task default none)) := by
  have hstatus : finalizeOutcome (parseTaskStatus countedResult).status = .succeeded := by
    decide +kernel
  refine ⟨_, if_pos hstatus, ?_⟩
  exact @counted_iff _ (fun _ ↦ none) 0 countedResult _ _ (if_pos hstatus)

end Example

end NextApi.Media
