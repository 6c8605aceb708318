import NextApi.Protocol.RequestImages

/-!
# The capabilities that a request needs

Before a request is routed, its body is scanned for tools, images and the wish for a stream
(`requiredCaps`), and an upstream that is marked as lacking one of these is left out
(`Capabilities.missing`).

The scan looks for images in the parts of the items of `messages`, `input` and `contents`. That is
where Chat and Anthropic have them; an `input` that is one item is not scanned, and of the parts of
Gemini only those in snake case count. A request shows its images exactly when none of them stands
only in such a place (`capsAsked_iff`).
-/

set_option autoImplicit false

namespace NextApi.Gateway

open Json Ir

/-- What an upstream can do: `some false` when it is marked as lacking it, `none` when nothing is
said. -/
structure Capabilities where
  stream : Option Bool := none
  tools : Option Bool := none
  vision : Option Bool := none
  maxContext : Option ℕ := none
  deriving DecidableEq, Inhabited

/-- The capabilities in the `extra` column of an upstream. -/
def capabilities (extra : Value) : Capabilities :=
  let caps := extra["capabilities"]
  { stream := caps["stream"].asBool
    tools := caps["tools"].asBool
    vision := caps["vision"].asBool
    maxContext := caps["max_context"].asU64 }

/-- What a request needs. -/
structure RequiredCaps where
  stream : Bool := false
  tools : Bool := false
  vision : Bool := false
  deriving DecidableEq, Inhabited

/-- The capabilities that are needed and explicitly lacking. -/
def Capabilities.missing (c : Capabilities) (req : RequiredCaps) : List String :=
  (if req.stream ∧ c.stream = some false then ["stream"] else []) ++
  (if req.tools ∧ c.tools = some false then ["tools"] else []) ++
  (if req.vision ∧ c.vision = some false then ["vision"] else [])

theorem Capabilities.missing_ne_nil {caps : Capabilities} {req : RequiredCaps}
    (h : req.vision = true ∧ caps.vision = some false ∨ req.tools = true ∧ caps.tools = some false) :
    caps.missing req ≠ [] := by
  rcases h with ⟨hneeded, hlacks⟩ | ⟨hneeded, hlacks⟩
  · exact List.ne_nil_of_mem (a := "vision") (by simp [missing, hneeded, hlacks])
  · exact List.ne_nil_of_mem (a := "tools") (by simp [missing, hneeded, hlacks])

/-! ### The scan -/

/-- A part that the scan takes for an image. -/
def isImagePart (p : Value) : Bool :=
  decide (p["type"].asStr ∈ [some "image_url", some "input_image", some "image"]) ||
    (p.get? "inline_data").isSome || (p.get? "file_data").isSome

/-- The items of a member that is an array. -/
def itemsAt (v : Value) (key : String) : List Value := v[key].asArray.getD []

/-- What the body needs of an upstream. -/
def requiredCaps (body : Value) (stream : Bool) : RequiredCaps where
  stream := stream
  tools := !(itemsAt body "tools").isEmpty || !(itemsAt body "functions").isEmpty
  vision := ["messages", "input", "contents"].any fun key ↦
    (itemsAt body key).any fun item ↦
      ["content", "parts"].any fun sub ↦ (itemsAt item sub).any isImagePart

/-- A part in the place of an image, in one of the scanned lists. -/
def Scanned (body : Value) : Prop :=
  ∃ key ∈ ["messages", "input", "contents"], ∃ item ∈ itemsAt body key,
    ∃ sub ∈ ["content", "parts"], ∃ p ∈ itemsAt item sub, isImagePart p = true

theorem vision_requiredCaps (body : Value) (stream : Bool) :
    (requiredCaps body stream).vision = true ↔ Scanned body := by
  simp only [requiredCaps, Scanned, List.any_eq_true]

/-! ### What the scan must find -/

/-- The scan asks for vision when the representation has an image and for tools when it has a tool,
and an upstream that lacks the one or the other is left out. -/
structure CapsAsked (v : Value) (stream : Bool) (req : IrRequest) : Prop where
  vision : req.messages.flatMap imagesOf ≠ [] → (requiredCaps v stream).vision = true
  tools : req.tools ≠ [] → (requiredCaps v stream).tools = true
  routed : ∀ caps : Capabilities,
    (req.messages.flatMap imagesOf ≠ [] ∧ caps.vision = some false ∨
      req.tools ≠ [] ∧ caps.tools = some false) → caps.missing (requiredCaps v stream) ≠ []

/-- An image in a place that is not scanned: in a single item of Responses, or as the inline data
of Gemini. -/
def Unscanned : Protocol → Value → Prop
  | .openaiResponses, v =>
    ∃ item, v.get? "input" = some (.obj item) ∧ Responses.HasInputImage (.obj item)
  | .gemini, v => ∃ c ∈ Gemini.contentsOf v, ∃ p ∈ Gemini.partsOf c, Gemini.IsInlineImage p
  | _, _ => False

theorem itemsAt_eq (v : Value) (key : String) : itemsAt v key = Chat.itemsOf (v.get? key) := by
  rw [itemsAt, Value.getElem_eq, Chat.itemsOf]
  cases v.get? key with
  | none => rfl
  | some w => rfl

/-- A part of the content of a message or item that has the type of an image is scanned. -/
theorem scanned_of_type {v item p : Value} {key type : String} (hkey : key = "messages" ∨ key = "input")
    (hitem : item ∈ Chat.itemsOf (v.get? key)) (hp : p ∈ Chat.itemsOf (item.get? "content"))
    (htype : p["type"].asStr = some type) (himage : type ∈ ["image_url", "input_image", "image"]) :
    Scanned v := by
  refine ⟨key, ?_, item, itemsAt_eq v key ▸ hitem, "content", by decide, p,
    itemsAt_eq item "content" ▸ hp, ?_⟩
  · rcases hkey with rfl | rfl <;> decide
  · simp only [List.mem_cons, List.not_mem_nil, or_false] at himage
    rw [isImagePart, htype]
    rcases himage with rfl | rfl | rfl <;> rfl

section Readers

variable [SerdeJson]

/-- The images of a request are scanned, or stand in another place. -/
theorem scanned_or_unscanned {p : Protocol} {v : Value} (h : requestImages p v ≠ []) :
    Scanned v ∨ Unscanned p v := by
  obtain ⟨part, hpart⟩ := List.exists_mem_of_ne_nil _ h
  cases p with
  | openaiChat =>
    obtain ⟨msg, hmsg, himage⟩ := List.mem_flatMap.1 hpart
    obtain ⟨hread, himage⟩ := List.mem_filter.1 himage
    obtain ⟨q, hq, hparse⟩ := List.mem_filterMap.1 hread
    exact .inl (scanned_of_type (.inl rfl) hmsg hq (Chat.type_of_image hparse himage) (by decide))
  | openaiResponses =>
    rw [requestImages] at hpart
    split at hpart
    · rename_i items hinput
      obtain ⟨item, hitem, himages⟩ := List.mem_flatMap.1 hpart
      obtain ⟨-, q, hq, htype, -⟩ :=
        (Responses.itemImages_ne_nil item).1 (List.ne_nil_of_mem himages)
      have hscan : item ∈ Chat.itemsOf (v.get? "input") := by
        rw [hinput]
        exact hitem
      exact .inl (scanned_of_type (.inr rfl) hscan hq htype (by decide))
    · rename_i item hinput
      exact .inr ⟨item, hinput, (Responses.itemImages_ne_nil _).1 (List.ne_nil_of_mem hpart)⟩
    · exact absurd hpart List.not_mem_nil
  | anthropic =>
    obtain ⟨msg, hmsg, himage⟩ := List.mem_flatMap.1 hpart
    obtain ⟨hread, himage⟩ := List.mem_filter.1 himage
    obtain ⟨block, hblock, hparse⟩ := List.mem_filterMap.1 hread
    exact .inl (scanned_of_type (.inl rfl) hmsg hblock (Anthropic.type_of_image hparse himage)
      (by decide))
  | gemini =>
    obtain ⟨c, hc, himage⟩ := List.mem_flatMap.1 hpart
    obtain ⟨hread, himage⟩ := List.mem_filter.1 himage
    obtain ⟨q, hq, hmedium⟩ := List.mem_filterMap.1 hread
    exact .inr ⟨c, hc, q, hq, (Gemini.isImage_mediumOf q).1 ⟨part, hmedium, himage⟩⟩

/-- An image in another place is one of the request. -/
theorem images_of_unscanned {p : Protocol} {v : Value} (h : Unscanned p v) :
    requestImages p v ≠ [] := by
  cases p with
  | openaiChat => exact h.elim
  | openaiResponses =>
    obtain ⟨item, hinput, himage⟩ := h
    rw [requestImages, hinput]
    exact (Responses.itemImages_ne_nil _).2 himage
  | anthropic => exact h.elim
  | gemini =>
    obtain ⟨c, hc, q, hq, himage⟩ := h
    obtain ⟨part, hmedium, hpart⟩ := (Gemini.isImage_mediumOf q).2 himage
    refine List.ne_nil_of_mem (a := part) (List.mem_flatMap.2 ⟨c, hc, ?_⟩)
    exact List.mem_filter.2 ⟨List.mem_filterMap.2 ⟨q, hq, hmedium⟩, hpart⟩

omit [SerdeJson] in
/-- Without items there are no tools. -/
theorem tools_eq_nil {member : Option Value} (hnone : Chat.itemsOf member = [])
    (parse : Value → Except ConvertError (List IrTool × ConvCtx))
    (hempty : (parse (.arr [])).map Prod.fst = .ok [])
    (herror : ∀ w, w.asArray = none → ∃ e, parse w = .error e) {tools : List IrTool}
    (h : (match member with
      | some w => parse w
      | none => .ok ([], [])).map Prod.fst = .ok tools) : tools = [] := by
  cases member with
  | none => exact (Except.ok.inj h).symm
  | some w =>
    cases harray : w.asArray with
    | none =>
      obtain ⟨e, he⟩ := herror w harray
      simp only [he] at h
      exact nomatch h
    | some items =>
      have hitems : w = .arr [] := by
        cases w with
        | arr items' =>
          have hnil : items' = [] := hnone
          rw [hnil]
        | _ => exact nomatch harray
      rw [hitems] at h
      exact (Except.ok.inj (hempty.symm.trans h)).symm

/-- Tools are read from an array with items. -/
theorem tools_asked {p : Protocol} {v : Value} {req : IrRequest} {ctx : ConvCtx}
    (hread : requestToIr p v = .ok (req, ctx)) (htools : req.tools ≠ []) (stream : Bool) :
    (requiredCaps v stream).tools = true := by
  suffices hitems : Chat.itemsOf (v.get? "tools") ≠ [] by
    rw [requiredCaps, itemsAt_eq, List.isEmpty_eq_false_iff.2 hitems]
    rfl
  intro hnone
  have hnil := tools_eq_nil hnone
  cases p with
  | openaiChat =>
    obtain ⟨m, messages, tools, rfl, -, hok, rfl⟩ := Chat.requestToIr_eq_ok.1 ⟨ctx, hread⟩
    exact htools (hnil Chat.parseTools rfl (fun w hw ↦ ⟨_, by rw [Chat.parseTools, hw]⟩) hok)
  | openaiResponses =>
    obtain ⟨m, tools, rfl, hok, rfl⟩ := Responses.requestToIr_eq_ok.1 ⟨ctx, hread⟩
    exact htools (hnil Responses.parseResponseTools rfl
      (fun w hw ↦ ⟨_, by rw [Responses.parseResponseTools, hw]⟩) hok)
  | anthropic =>
    obtain ⟨m, messages, ext, tools, rfl, -, hok, rfl⟩ :=
      Anthropic.requestToIr_eq_ok.1 ⟨ctx, hread⟩
    exact htools (hnil Anthropic.parseTools rfl
      (fun w hw ↦ ⟨_, by rw [Anthropic.parseTools, hw]⟩) hok)
  | gemini =>
    obtain ⟨m, messages, tools, rfl, -, hok, rfl⟩ := Gemini.requestToIr_eq_ok.1 ⟨ctx, hread⟩
    exact htools (hnil Gemini.parseTools rfl (fun w hw ↦ ⟨_, by rw [Gemini.parseTools, hw]⟩) hok)

/-- The scan finds what the representation has exactly when no image stands only in a place that it
does not look at. -/
theorem capsAsked_iff {p : Protocol} {v : Value} {req : IrRequest} {ctx : ConvCtx}
    (hread : requestToIr p v = .ok (req, ctx)) (stream : Bool) :
    CapsAsked v stream req ↔ (Unscanned p v → Scanned v) := by
  have himages := images_of_requestToIr hread
  constructor
  · intro h hunscanned
    refine (vision_requiredCaps v stream).1 (h.vision ?_)
    rw [himages]
    exact images_of_unscanned hunscanned
  · intro h
    have hvision (himage : req.messages.flatMap imagesOf ≠ []) :
        (requiredCaps v stream).vision = true := by
      rw [himages] at himage
      exact (vision_requiredCaps v stream).2 ((scanned_or_unscanned himage).elim id h)
    refine ⟨hvision, fun htools ↦ tools_asked hread htools stream, fun caps hcaps ↦ ?_⟩
    refine Capabilities.missing_ne_nil (hcaps.imp ?_ ?_)
    · exact fun ⟨himage, hlacks⟩ ↦ ⟨hvision himage, hlacks⟩
    · exact fun ⟨htools, hlacks⟩ ↦ ⟨tools_asked hread htools stream, hlacks⟩

end Readers

/-! ### Images that are seen and images that are not -/

section Codec

local instance capsCodec : SerdeJson := Compact.codec

/-- A Gemini request with a picture. -/
def pictureInline : Value :=
  .object [("contents", .arr [.object [("role", .str "user"), ("parts", .arr
    [.object [("text", .str "what is this?")],
      .object [("inlineData", .object
        [("mimeType", .str "image/png"), ("data", .str "AAAA")])]])]])]

/-- The picture is read, and vision is not asked for: an upstream that is marked as lacking it stays
a candidate. -/
theorem not_capsAsked_pictureInline :
    ∃ req ctx, requestToIr .gemini pictureInline = .ok (req, ctx) ∧
      req.messages.flatMap imagesOf = [.imageInline "image/png" "AAAA"] ∧
      ({ vision := some false } : Capabilities).missing (requiredCaps pictureInline false) = [] ∧
      ¬ CapsAsked pictureInline false req := by
  have hmissed : (requiredCaps pictureInline false).vision = false := by decide +kernel
  have himages (req : IrRequest)
      (h : req.messages.flatMap imagesOf = [.imageInline "image/png" "AAAA"]) :
      ¬ CapsAsked pictureInline false req := by
    intro hasked
    have hfound := hasked.vision (h ▸ List.cons_ne_nil _ _)
    rw [hmissed] at hfound
    exact Bool.noConfusion hfound
  refine ⟨_, _, rfl, by decide +kernel, by decide +kernel, himages _ ?_⟩
  decide +kernel

/-- A Chat request with a picture. -/
def pictureUrl : Value :=
  .object [("model", .str "gpt"), ("messages", .arr [.object [("role", .str "user"),
    ("content", .arr [.object [("type", .str "image_url"), ("image_url", .object
      [("url", .str "https://a/b.png")])]])]])]

theorem capsAsked_pictureUrl :
    ∃ req ctx, requestToIr .openaiChat pictureUrl = .ok (req, ctx) ∧
      CapsAsked pictureUrl false req := by
  obtain ⟨req, ctx, hread⟩ : ∃ req ctx, requestToIr .openaiChat pictureUrl = .ok (req, ctx) :=
    ⟨_, _, rfl⟩
  exact ⟨req, ctx, hread, (capsAsked_iff hread false).2 False.elim⟩

end Codec

end NextApi.Gateway
