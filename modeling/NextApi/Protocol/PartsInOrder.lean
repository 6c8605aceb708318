import NextApi.Protocol.Anthropic.PartOrder
import NextApi.Protocol.Gemini.PartOrder

/-!
# The order of texts, media and thoughts

Gemini contents and Anthropic messages mix texts, media and thoughts. The order is kept, from the
client's form to the representation and back, exactly when the parts were in the order in which a
reader sorts them (`partsInOrder_iff`): Gemini puts all texts before all media, and of several
thoughts either one keeps the last.
-/

set_option autoImplicit false

namespace NextApi

open Json Ir

/-- Requests and responses of Gemini and Anthropic are read and written back with their texts, media
and thoughts exactly when each content is kept. -/
theorem partsInOrder_iff [SerdeJson] :
    (∀ v req ctx, Gemini.requestToIr v = .ok (req, ctx) →
      ((Spoken.all (req.messages.map Spoken.inConversation) = Gemini.spokenContents v ∧
          Gemini.spokenContents (Gemini.requestFromIr req).1 = Gemini.spokenContents v) ↔
        ∀ c ∈ Gemini.contentsOf v, Gemini.Kept Gemini.hasPlace c)) ∧
    (∀ v resp ctx, Gemini.responseToIr v = .ok (resp, ctx) →
      ((resp.choices.map (fun choice ↦ Spoken.ofMessage choice.message) =
            (Gemini.candidatesIn v).map Gemini.spokenCandidate ∧
          (Gemini.candidatesIn (Gemini.responseFromIr resp).1).map Gemini.spokenCandidate =
            (Gemini.candidatesIn v).map Gemini.spokenCandidate) ↔
        ∀ c ∈ Gemini.candidatesIn v, ∀ content, c.get? "content" = some content →
          Gemini.Kept Gemini.hasResponsePlace content)) ∧
    (∀ v req ctx, Anthropic.requestToIr v = .ok (req, ctx) →
      ((Spoken.all (req.messages.map Spoken.inConversation) = Anthropic.spokenMessages v ∧
          Anthropic.spokenMessages (Anthropic.requestFromIr req).1 = Anthropic.spokenMessages v) ↔
        ∀ msg ∈ Anthropic.messagesIn v, Anthropic.KeptMessage msg)) ∧
    ∀ v resp ctx, Anthropic.responseToIr v = .ok (resp, ctx) →
      ((Spoken.all (resp.choices.map fun choice ↦ Spoken.ofMessage choice.message) =
            Spoken.all [Anthropic.spokenBlocks (Anthropic.blocksIn v)] ∧
          Anthropic.spokenBlocks (Anthropic.blocksIn (Anthropic.responseFromIr resp).1) =
            Anthropic.spokenBlocks (Anthropic.blocksIn v)) ↔
        Anthropic.Kept Anthropic.hasResponsePlace (Anthropic.blocksIn v)) :=
  ⟨fun _ _ _ hread ↦ Gemini.requestOrder_iff hread,
    fun _ _ _ hread ↦ Gemini.responseOrder_iff hread,
    fun _ _ _ hread ↦ Anthropic.requestOrder_iff hread,
    fun _ _ _ hread ↦ Anthropic.responseOrder_iff hread⟩

section Concrete

local instance partsCodec : SerdeJson := Compact.codec

/-- A question with a picture, in this order or the other. -/
def geminiQuestion (parts : List Value) : Value :=
  .object [("contents", .arr [.object [("role", .str "user"), ("parts", .arr parts)]])]

def geminiAnswer (parts : List Value) : Value :=
  .object [("candidates", .arr [.object
    [("content", .object [("role", .str "model"), ("parts", .arr parts)])]])]

def geminiText (t : String) : Value := .object [("text", .str t)]

def geminiThought (t : String) : Value := .object [("text", .str t), ("thought", .bool true)]

def geminiPicture : Value :=
  .object [("inlineData", .object [("mimeType", .str "image/png"), ("data", .str "AAAA")])]

def anthropicText (t : String) : Value := .object [("type", .str "text"), ("text", .str t)]

def anthropicThought (t : String) : Value :=
  .object [("type", .str "thinking"), ("thinking", .str t)]

def anthropicPicture : Value :=
  .object [("type", .str "image"), ("source", .object
    [("type", .str "url"), ("url", .str "https://a/b.png")])]

/-- A text and then a picture keep their order; in Anthropic a picture and then a text do as well.
A thought that is the only one is kept. -/
theorem partsInOrder_sorted :
    (∃ req ctx, Gemini.requestToIr (geminiQuestion [geminiText "above:", geminiPicture]) =
        .ok (req, ctx) ∧
      Gemini.spokenContents (Gemini.requestFromIr req).1 =
        [⟨[.text "above:", .imageInline "image/png" "AAAA"], ""⟩]) ∧
    (∃ resp ctx, Gemini.responseToIr (geminiAnswer [geminiThought "hm", geminiText "hi"]) =
        .ok (resp, ctx) ∧
      (Gemini.candidatesIn (Gemini.responseFromIr resp).1).map Gemini.spokenCandidate =
        [⟨[.text "hi"], "hm"⟩]) ∧
    (∃ req ctx, Anthropic.requestToIr (.object [("messages", .arr [.object
          [("role", .str "user"),
            ("content", .arr [anthropicPicture, anthropicText "above?"])]])]) =
        .ok (req, ctx) ∧
      Anthropic.spokenMessages (Anthropic.requestFromIr req).1 =
        [⟨[.imageUrl "https://a/b.png", .text "above?"], ""⟩]) ∧
    ∃ resp ctx, Anthropic.responseToIr (.object
          [("content", .arr [anthropicThought "hm", anthropicText "hi"])]) = .ok (resp, ctx) ∧
      Anthropic.spokenBlocks (Anthropic.blocksIn (Anthropic.responseFromIr resp).1) =
        ⟨[.text "hi"], "hm"⟩ := by
  obtain ⟨hrequest, hresponse, hmessages, hblocks⟩ := partsInOrder_iff
  refine ⟨?_, ?_, ?_, ?_⟩
  · obtain ⟨req, ctx, hread⟩ : ∃ req ctx, Gemini.requestToIr
        (geminiQuestion [geminiText "above:", geminiPicture]) = .ok (req, ctx) := ⟨_, _, rfl⟩
    refine ⟨req, ctx, hread, ((hrequest _ _ _ hread).2 fun c hc ↦ ?_).2.trans rfl⟩
    obtain rfl := List.mem_singleton.1 hc
    exact ⟨⟨by decide, by decide, by decide⟩, by decide⟩
  · obtain ⟨resp, ctx, hread⟩ : ∃ resp ctx, Gemini.responseToIr
        (geminiAnswer [geminiThought "hm", geminiText "hi"]) = .ok (resp, ctx) := ⟨_, _, rfl⟩
    refine ⟨resp, ctx, hread, ((hresponse _ _ _ hread).2 fun c hc content hcontent ↦ ?_).2.trans
      rfl⟩
    obtain rfl := List.mem_singleton.1 hc
    obtain rfl := Option.some.inj hcontent
    exact ⟨⟨by decide, by decide, by decide⟩, by decide⟩
  · obtain ⟨req, ctx, hread⟩ : ∃ req ctx, Anthropic.requestToIr (.object [("messages", .arr [.object
          [("role", .str "user"),
            ("content", .arr [anthropicPicture, anthropicText "above?"])]])]) = .ok (req, ctx) :=
      ⟨_, _, rfl⟩
    refine ⟨req, ctx, hread, ((hmessages _ _ _ hread).2 fun msg hmsg ↦ ?_).2.trans rfl⟩
    obtain rfl := List.mem_singleton.1 hmsg
    exact ⟨⟨by decide, by decide⟩, Or.inr (by decide)⟩
  · obtain ⟨resp, ctx, hread⟩ : ∃ resp ctx, Anthropic.responseToIr (.object
          [("content", .arr [anthropicThought "hm", anthropicText "hi"])]) = .ok (resp, ctx) :=
      ⟨_, _, rfl⟩
    exact ⟨resp, ctx, hread, ((hblocks _ _ _ hread).2 ⟨by decide, by decide⟩).2.trans rfl⟩

/-- Gemini puts a text before the picture that came before it, and keeps the last of two
thoughts. -/
theorem not_partsInOrder_mixed :
    (∃ req ctx, Gemini.requestToIr (geminiQuestion [geminiPicture, geminiText "above?"]) =
        .ok (req, ctx) ∧
      Gemini.spokenContents (geminiQuestion [geminiPicture, geminiText "above?"]) =
        [⟨[.imageInline "image/png" "AAAA", .text "above?"], ""⟩] ∧
      req.messages.map Spoken.inConversation =
        [⟨[.text "above?", .imageInline "image/png" "AAAA"], ""⟩] ∧
      Gemini.spokenContents (Gemini.requestFromIr req).1 =
        [⟨[.text "above?", .imageInline "image/png" "AAAA"], ""⟩]) ∧
    ∃ resp ctx, Anthropic.responseToIr (.object
          [("content", .arr [anthropicThought "one", anthropicThought "two"])]) = .ok (resp, ctx) ∧
      Anthropic.spokenBlocks (Anthropic.blocksIn (.object
          [("content", .arr [anthropicThought "one", anthropicThought "two"])])) =
        ⟨[], "onetwo"⟩ ∧
      resp.choices.map (fun choice ↦ Spoken.ofMessage choice.message) = [⟨[], "two"⟩] :=
  ⟨⟨_, _, rfl, by decide +kernel, by decide +kernel, by decide +kernel⟩,
    _, _, rfl, by decide +kernel, by decide +kernel⟩

end Concrete

end NextApi
