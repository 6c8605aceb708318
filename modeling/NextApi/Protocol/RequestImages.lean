import NextApi.Protocol.Anthropic.PartOrder
import NextApi.Protocol.Chat.RequestFixpoint
import NextApi.Protocol.Gemini.PartOrder

/-!
# The images of a request

An image of the representation is a part with an address or with data. Each reader takes images
from its own places: the parts of type `image_url` of a Chat message, the `input_image` parts of an
item of Responses, the image blocks of an Anthropic message, and the `inlineData` of a Gemini part
(`images_of_requestToIr`).
-/

set_option autoImplicit false

namespace NextApi

open Json

namespace Ir

def IrPart.isImage : IrPart → Bool
  | .imageUrl _ | .imageInline _ _ => true
  | _ => false

/-- The images of a message. -/
def imagesOf (m : IrMessage) : List IrPart := (Spoken.partsOf m.content).filter IrPart.isImage

theorem imagesOf_text {m : IrMessage} (h : ∃ t, m.content = some (.text t)) : imagesOf m = [] := by
  obtain ⟨t, ht⟩ := h
  rw [imagesOf, ht]
  rfl

theorem imagesOf_silent {messages : List IrMessage}
    (h : ∀ m ∈ messages, ∃ t, m.content = some (.text t)) : messages.flatMap imagesOf = [] := by
  rw [List.flatMap_eq_nil_iff]
  exact fun m hm ↦ imagesOf_text (h m hm)

end Ir

open Ir

theorem asStr_of_strOrEmpty {v : Value} {s : String} (h : v.strOrEmpty = s) (hne : s ≠ "") :
    v.asStr = some s := by
  rw [Value.strOrEmpty] at h
  cases hstr : v.asStr with
  | none =>
    rw [hstr] at h
    exact absurd h.symm hne
  | some t =>
    rw [hstr] at h
    exact congrArg some h

/-! ### Chat -/

namespace Chat

/-- The images of the parts of a message. -/
def imageParts (msg : Value) : List IrPart :=
  ((itemsOf (msg.get? "content")).filterMap fun p ↦ (parsePart p).1).filter IrPart.isImage

theorem imagesOf_messageOf [SerdeJson] (msg : Value) :
    imagesOf (messageOf msg) = imageParts msg := by
  have htext (content : Option IrContent) : (Spoken.partsOf content).filter IrPart.isImage =
      (partsOf content).filter IrPart.isImage := by
    cases content with
    | none => rfl
    | some content => cases content <;> rfl
  have hcontent : (messageOf msg).content = (parseContent (msg.get? "content")).1 := rfl
  rw [imagesOf, htext, hcontent, partsOf_parseContent]
  rfl

/-- An image comes from a part of type `image_url`. -/
theorem type_of_image {p : Value} {part : IrPart} (h : (parsePart p).1 = some part)
    (himage : part.isImage = true) : p["type"].asStr = some "image_url" := by
  rw [parsePart] at h
  split at h
  · split at h
    · rw [← Option.some.inj h] at himage
      cases himage
    · exact asStr_of_strOrEmpty ‹_› (by decide)
    · rw [← Option.some.inj h] at himage
      cases himage
    · rw [parseFile] at h
      split at h
      · dsimp only at h
        split at h
        · cases h
        · rw [← Option.some.inj h] at himage
          cases himage
      · cases h
    · cases h
  · cases h

end Chat

/-! ### Responses -/

namespace Responses

/-- What is observed of the messages is observed of the one that is added, also when its calls join
the message before. -/
theorem flatMap_pushMessage {β : Type} (f : IrMessage → List β) (messages : List IrMessage)
    {msg : IrMessage}
    (hjoin : msg.role = .assistant → msg.toolCalls ≠ [] → ∀ last : IrMessage,
      last.role = .assistant →
        f { last with toolCalls := last.toolCalls ++ msg.toolCalls } = f last ++ f msg) :
    (pushMessage messages msg).flatMap f = messages.flatMap f ++ f msg := by
  have hadd : (messages ++ [msg]).flatMap f = messages.flatMap f ++ f msg := by
    rw [List.flatMap_append, List.flatMap_singleton]
  rw [pushMessage]
  cases hlast : messages.getLast? with
  | none => exact hadd
  | some last =>
    dsimp only
    split
    · rename_i hcall
      have hmessages : messages = messages.dropLast ++ [last] :=
        (List.dropLast_append_getLast? last hlast).symm
      rw [List.flatMap_append, List.flatMap_singleton, hjoin hcall.1 hcall.2.1 last hcall.2.2]
      nth_rewrite 2 [hmessages]
      rw [List.flatMap_append, List.flatMap_singleton, List.append_assoc]
    · exact hadd

/-- An item becomes a message of its content, a call, or a text; or nothing, when it is a reasoning
or has no content. -/
theorem parseInputItem_cases [SerdeJson] (item : Value) :
    ((parseInputItem item).1 = none ∧
        (item["type"].strOrEmpty = "reasoning" ∨ item.get? "content" = none)) ∨
      (item["type"].strOrEmpty = "function_call" ∧ (parseInputItem item).1 =
        some { role := .assistant, toolCalls := [parseFunctionCall item] }) ∨
      (item["type"].strOrEmpty = "function_call_output" ∧
        (parseInputItem item).1 = some (parseFunctionCallOutput item).1) ∨
      (item["type"].strOrEmpty ∉ ["function_call", "function_call_output", "reasoning"] ∧
        (parseInputItem item).1 = some (parseMessageItem item).1) := by
  rw [parseInputItem]
  split
  · split
    · rename_i htype
      exact .inr (.inr (.inr ⟨by rw [htype]; decide, rfl⟩))
    · rename_i htype
      exact .inr (.inl ⟨htype, rfl⟩)
    · rename_i htype
      exact .inr (.inr (.inl ⟨htype, rfl⟩))
    · rename_i htype
      exact .inl ⟨rfl, .inl htype⟩
    · rename_i hcall houtput hreasoning
      split
      · refine .inr (.inr (.inr ⟨fun hmem ↦ ?_, rfl⟩))
        simp only [List.mem_cons, List.not_mem_nil, or_false] at hmem
        exact hmem.elim hcall fun h ↦ h.elim houtput hreasoning
      · rename_i hmember
        rw [Bool.or_eq_true, not_or, Bool.not_eq_true, Option.isSome_eq_false_iff,
          Option.isNone_iff_eq_none, Bool.not_eq_true, Option.isSome_eq_false_iff,
          Option.isNone_iff_eq_none] at hmember
        exact .inl ⟨rfl, .inr hmember.2⟩
  · rename_i hobject
    refine .inl ⟨rfl, .inr ?_⟩
    cases item with
    | obj m => exact absurd rfl hobject
    | _ => rfl

/-- A part that is an image by its address or with its data. -/
def IsInputImage (p : Value) : Prop :=
  p["type"].asStr = some "input_image" ∧ imageUrlOf ((p.get? "image_url").getD .null) ≠ ""

/-- The image that a part is read as. -/
theorem isImage_parseInputContentPart (p : Value) :
    (∃ part, (parseInputContentPart p).1 = some part ∧ part.isImage = true) ↔ IsInputImage p := by
  rw [parseInputContentPart, IsInputImage]
  by_cases hobject : p.isObject = true
  · rw [if_pos hobject]
    split
    · rename_i htype
      refine iff_of_false (fun ⟨part, hpart, himage⟩ ↦ ?_) fun h ↦ ?_
      · rw [← Option.some.inj hpart] at himage
        exact nomatch himage
      · rw [Value.strOrEmpty, h.1] at htype
        exact absurd htype (by decide)
    · rename_i htype
      have hstr := asStr_of_strOrEmpty htype (by decide)
      rw [parseInputImage]
      split
      · rename_i hempty
        exact iff_of_false (fun ⟨part, hpart, _⟩ ↦ nomatch hpart) fun h ↦ h.2 hempty
      · rename_i hurl
        refine iff_of_true ⟨_, rfl, ?_⟩ ⟨hstr, hurl⟩
        rw [imagePart]
        split <;> rfl
    · rename_i htype
      refine iff_of_false (fun ⟨part, hpart, himage⟩ ↦ ?_) fun h ↦ ?_
      · rw [parseInputFile] at hpart
        split at hpart
        · exact nomatch hpart
        · rw [← Option.some.inj hpart] at himage
          exact nomatch himage
      · rw [Value.strOrEmpty, h.1] at htype
        exact absurd htype (by decide)
    · rename_i _ himage _
      refine iff_of_false (fun ⟨part, hpart, hpart'⟩ ↦ ?_) fun h ↦ ?_
      · split at hpart
        · rw [← Option.some.inj hpart] at hpart'
          exact nomatch hpart'
        · exact nomatch hpart
      · exact himage (by rw [Value.strOrEmpty, h.1]; rfl)
  · rw [if_neg hobject]
    refine iff_of_false (fun ⟨part, hpart, _⟩ ↦ nomatch hpart) fun h ↦ hobject ?_
    obtain ⟨m, rfl, -⟩ := Value.eq_obj_of_asStr h.1
    rfl

/-- The images of the message that an item becomes. -/
def itemImages [SerdeJson] (item : Value) : List IrPart :=
  ((parseInputItem item).1.map imagesOf).getD []

/-- An item with images: a message with an image among the parts of its content. -/
def HasInputImage (item : Value) : Prop :=
  item["type"].strOrEmpty ∉ ["function_call", "function_call_output", "reasoning"] ∧
    ∃ p ∈ Chat.itemsOf (item.get? "content"), IsInputImage p

theorem imagesOf_parseMessageItem (item : Value) :
    imagesOf (parseMessageItem item).1 =
      ((Chat.itemsOf (item.get? "content")).filterMap fun p ↦ (parseInputContentPart p).1).filter
        IrPart.isImage := by
  have hcontent : (parseMessageItem item).1.content =
      (parseMessageContent (item.get? "content")).1 := rfl
  rw [imagesOf, hcontent]
  cases item.get? "content" with
  | none => rfl
  | some content =>
    cases content with
    | arr items =>
      rw [parseMessageContent, Chat.itemsOf]
      show (Spoken.partsOf (if (items.filterMap fun p ↦ (parseInputContentPart p).1).isEmpty then
        none else some (.parts _))).filter _ = _
      split
      · rename_i hempty
        exact congrArg (List.filter _) (List.isEmpty_iff.1 hempty).symm
      · rfl
    | _ => rfl

theorem itemImages_ne_nil [SerdeJson] (item : Value) :
    itemImages item ≠ [] ↔ HasInputImage item := by
  have hmessage : imagesOf (parseMessageItem item).1 ≠ [] ↔
      ∃ p ∈ Chat.itemsOf (item.get? "content"), IsInputImage p := by
    rw [imagesOf_parseMessageItem, Ne, List.filter_eq_nil_iff]
    push Not
    constructor
    · intro ⟨part, hpart, himage⟩
      obtain ⟨p, hp, hread⟩ := List.mem_filterMap.1 hpart
      exact ⟨p, hp, (isImage_parseInputContentPart p).1 ⟨part, hread, himage⟩⟩
    · intro ⟨p, hp, himage⟩
      obtain ⟨part, hread, hpart⟩ := (isImage_parseInputContentPart p).2 himage
      exact ⟨part, List.mem_filterMap.2 ⟨p, hp, hread⟩, hpart⟩
  rw [itemImages, HasInputImage, ← hmessage]
  obtain ⟨hitem, hnothing⟩ | ⟨htype, hitem⟩ | ⟨htype, hitem⟩ | ⟨htype, hitem⟩ :=
    parseInputItem_cases item
  · rw [hitem, hmessage]
    refine iff_of_false (fun h ↦ h rfl) fun ⟨htype, p, hp, _⟩ ↦ ?_
    rcases hnothing with hreasoning | hnone
    · exact htype (by rw [hreasoning]; decide)
    · rw [hnone] at hp
      exact List.not_mem_nil hp
  · rw [hitem]
    exact iff_of_false (fun h ↦ h rfl) fun h ↦ h.1 (by rw [htype]; decide)
  · rw [hitem]
    exact iff_of_false (fun h ↦ h rfl) fun h ↦ h.1 (by rw [htype]; decide)
  · rw [hitem]
    exact (and_iff_right htype).symm

/-- The items of an input, one by one. -/
theorem images_pushItem [SerdeJson] (messages : List IrMessage) (item : Value) :
    (pushItem messages item).flatMap imagesOf = messages.flatMap imagesOf ++ itemImages item := by
  rw [pushItem, itemImages]
  obtain ⟨hitem, -⟩ | ⟨-, hitem⟩ | ⟨-, hitem⟩ | ⟨-, hitem⟩ := parseInputItem_cases item
  · rw [hitem]
    exact (List.append_nil _).symm
  · rw [hitem]
    refine flatMap_pushMessage imagesOf messages fun _ _ last _ ↦ ?_
    exact (List.append_nil _).symm
  · rw [hitem]
    exact flatMap_pushMessage imagesOf messages fun hrole ↦ nomatch hrole
  · rw [hitem]
    exact flatMap_pushMessage imagesOf messages fun _ hcalls ↦ absurd rfl hcalls

/-- The images of the messages of an object. -/
theorem images_messagesOf [SerdeJson] (m : Map) :
    (messagesOf m).flatMap imagesOf =
      match Map.get? m "input" with
      | some (.arr items) => items.flatMap itemImages
      | some (.obj item) => itemImages (.obj item)
      | _ => [] := by
  have hinstructions : (instructionMessages (.obj m)).flatMap imagesOf = [] := by
    refine imagesOf_silent fun msg hmsg ↦ ?_
    rw [instructionMessages] at hmsg
    split at hmsg
    · split at hmsg
      · exact absurd hmsg List.not_mem_nil
      · rw [List.mem_singleton.1 hmsg]
        exact ⟨_, rfl⟩
    · exact absurd hmsg List.not_mem_nil
  have hitems (items : List Value) (messages : List IrMessage) :
      (items.foldl pushItem messages).flatMap imagesOf =
        messages.flatMap imagesOf ++ items.flatMap itemImages := by
    induction items generalizing messages with
    | nil => exact (List.append_nil _).symm
    | cons item rest ih =>
      rw [List.foldl_cons, ih, images_pushItem, List.flatMap_cons, List.append_assoc]
  rw [messagesOf]
  cases Map.get? m "input" with
  | none => exact hinstructions
  | some input =>
    cases input with
    | arr items =>
      show (items.foldl pushItem _).flatMap imagesOf = _
      rw [hitems, hinstructions]
      rfl
    | obj item =>
      show (pushItem _ (.obj item)).flatMap imagesOf = _
      rw [images_pushItem, hinstructions]
      rfl
    | str s =>
      show (_ ++ [_]).flatMap imagesOf = _
      rw [List.flatMap_append, hinstructions]
      rfl
    | _ => exact hinstructions

end Responses

/-! ### Anthropic -/

namespace Anthropic

/-- The images of the blocks of a message. -/
def blockImages (msg : Value) : List IrPart :=
  ((blocksIn msg).filterMap blockPart).filter IrPart.isImage

theorem images_readMessages [SerdeJson] (msg : Value) :
    (readMessages msg).flatMap imagesOf = blockImages msg := by
  have hown (role : IrRole) (blocks : List Value) : imagesOf (ownMessage role blocks) =
      (blocks.filterMap blockPart).filter IrPart.isImage := by
    rw [imagesOf, ownMessage, partsOf_partsContent]
  rw [readMessages, blockImages, blocksIn]
  cases msg.get? "content" with
  | none => rfl
  | some content =>
    cases content with
    | arr blocks =>
      have hresults : (blocks.filterMap blockResult).flatMap imagesOf = [] := by
        refine imagesOf_silent fun m hm ↦ ?_
        obtain ⟨block, -, hblock⟩ := List.mem_filterMap.1 hm
        rw [blockResult] at hblock
        split at hblock
        · rw [← Option.some.inj hblock]
          exact ⟨_, rfl⟩
        · cases hblock
      dsimp only
      rw [List.flatMap_append, hresults, List.append_nil, Option.bind_some]
      split
      · rw [List.flatMap_singleton]
        exact hown _ blocks
      · rename_i hsilent
        rw [Speaks, Bool.not_eq_true, Bool.or_eq_false_iff, Bool.or_eq_false_iff,
          Option.isSome_eq_false_iff, Option.isNone_iff_eq_none] at hsilent
        have hnone : imagesOf (ownMessage (parseRole msg["role"].strOrEmpty).1 blocks) = [] := by
          rw [imagesOf, hsilent.1.1]
          rfl
        exact hnone.symm.trans (hown _ blocks)
    | _ => rfl

/-- An image comes from a block of type `image`. -/
theorem type_of_image {block : Value} {part : IrPart} (h : blockPart block = some part)
    (himage : part.isImage = true) : block["type"].asStr = some "image" := by
  rw [blockPart] at h
  split at h
  · rw [← Option.some.inj h] at himage
    cases himage
  · exact asStr_of_strOrEmpty ‹_› (by decide)
  · cases h

/-- The message that `system` makes has no images. -/
theorem images_readSystem (v : Value) : (readSystem v).1.messages.flatMap imagesOf = [] := by
  have hleft := readSystem_left v
  generalize (readSystem v).1.messages = messages at *
  generalize (readSystem v).1.ext.cacheControl = cacheControl at *
  cases hleft with
  | nothing => rfl
  | message text cc h => rfl

end Anthropic

/-! ### Gemini -/

namespace Gemini

/-- A part with the data of an image. -/
def IsInlineImage (p : Value) : Prop :=
  p["text"].asStr = none ∧ ∃ id, p.get? "inlineData" = some id ∧
    (id["mimeType"].strOrEmpty = "" ∨ "image/".toList <+: id["mimeType"].strOrEmpty.toList)

/-- The images of the parts of a content. -/
def inlineImages (c : Value) : List IrPart :=
  ((partsOf c).filterMap (mediumOf hasPlace)).filter IrPart.isImage

theorem isImage_mediumOf (p : Value) :
    (∃ part, mediumOf hasPlace p = some part ∧ part.isImage = true) ↔ IsInlineImage p := by
  rw [IsInlineImage]
  cases htext : p["text"].asStr with
  | some t =>
    refine iff_of_false ?_ fun h ↦ Option.some_ne_none t h.1
    rintro ⟨part, hpart, himage⟩
    rw [mediumOf, partOf, htext] at hpart
    dsimp only at hpart
    split at hpart
    · cases hpart
    · rw [Option.filter_some] at hpart
      cases hpart
  | none =>
    rw [and_iff_right rfl]
    cases hinline : p.get? "inlineData" with
    | some id =>
      rw [mediumOf_inline htext hinline]
      have hplace (data : String) : hasPlace (.imageInline id["mimeType"].strOrEmpty data) = true ↔
          id["mimeType"].strOrEmpty = "" ∨
            "image/".toList <+: id["mimeType"].strOrEmpty.toList := by
        rw [hasPlace, decide_eq_true_eq]
      constructor
      · rintro ⟨part, hpart, -⟩
        refine ⟨id, rfl, (hplace id["data"].strOrEmpty).1 ?_⟩
        split at hpart
        · assumption
        · cases hpart
      · rintro ⟨id', hid, hmime⟩
        obtain rfl := Option.some.inj hid
        rw [if_pos ((hplace _).2 hmime)]
        exact ⟨_, rfl, rfl⟩
    | none =>
      refine iff_of_false ?_ fun h ↦ ?_
      swap
      · obtain ⟨id, hid, -⟩ := h
        cases hid
      rintro ⟨part, hpart, himage⟩
      cases hfile : p.get? "fileData" with
      | some fd =>
        rw [mediumOf_file htext hinline hfile] at hpart
        split at hpart
        · rw [← Option.some.inj hpart] at himage
          cases himage
        · cases hpart
      | none =>
        rw [mediumOf_other htext hinline hfile] at hpart
        cases hpart

theorem images_parseContent [SerdeJson] {acc acc' : ContentsAcc} {c : Value}
    (h : parseContent acc c = .ok acc') :
    acc'.messages.flatMap imagesOf = acc.messages.flatMap imagesOf ++ inlineImages c := by
  obtain ⟨role, ctx, -, hacc⟩ := parseContent_ok h
  dsimp only at hacc
  have hheaps := heaps_foldl_parsePart (partsOf c) { callIds := acc.callIds, ctx := ctx }
  generalize (partsOf c).foldl parsePart { callIds := acc.callIds, ctx := ctx } = read at *
  obtain ⟨results, hmessages, hresults⟩ := messages_pushResponses read.functionResponses
    { messages := acc.messages ++ mainMessages role read, callIds := read.callIds, ctx := read.ctx }
  have htexts (texts : List String) : (texts.map IrPart.text).filter IrPart.isImage = [] := by
    rw [List.filter_eq_nil_iff]
    intro part hpart
    obtain ⟨t, -, rfl⟩ := List.mem_map.1 hpart
    exact Bool.false_ne_true
  have hparts (ps : List IrPart) : Spoken.partsOf (partsContent ps) = ps := by
    unfold partsContent
    split <;> rfl
  have hmedia : read.mediaParts = (partsOf c).filterMap (mediumOf hasPlace) := by
    rw [foldl_add] at hheaps
    exact (Heaps.mk.inj hheaps).2.1
  have hmain : imagesOf (mainMessage role read) = inlineImages c := by
    rw [imagesOf, mainMessage, hparts, List.filter_append, htexts, hmedia]
    rfl
  have hmains : (mainMessages role read).flatMap imagesOf = inlineImages c := by
    rw [mainMessages]
    split
    · rw [List.flatMap_singleton, hmain]
    · rename_i hempty
      rw [Bool.not_eq_true, Bool.or_eq_false_iff, Bool.or_eq_false_iff,
        Option.isSome_eq_false_iff, Option.isNone_iff_eq_none] at hempty
      rw [← hmain, imagesOf, hempty.1.1]
      rfl
  rw [hacc, hmessages, List.flatMap_append, List.flatMap_append, hmains,
    imagesOf_silent fun m hm ↦ (hresults m hm).2, List.append_nil]

theorem images_parseContents [SerdeJson] {contents : List Value} {acc acc' : ContentsAcc}
    (h : contents.foldlM parseContent acc = .ok acc') :
    acc'.messages.flatMap imagesOf =
      acc.messages.flatMap imagesOf ++ contents.flatMap inlineImages := by
  induction contents generalizing acc with
  | nil =>
    rw [List.foldlM_nil] at h
    rw [← Except.ok.inj h]
    exact (List.append_nil _).symm
  | cons c rest ih =>
    rw [List.foldlM_cons] at h
    obtain ⟨mid, hmid, h⟩ := bind_eq_ok.1 h
    rw [ih h, images_parseContent hmid, List.flatMap_cons, List.append_assoc]

end Gemini

/-! ### All readers -/

/-- The images of a request, where its protocol has them. -/
def requestImages [SerdeJson] : Protocol → Value → List IrPart
  | .openaiChat, v => (Chat.itemsOf (v.get? "messages")).flatMap Chat.imageParts
  | .openaiResponses, v =>
    match v.get? "input" with
    | some (.arr items) => items.flatMap Responses.itemImages
    | some (.obj item) => Responses.itemImages (.obj item)
    | _ => []
  | .anthropic, v => (Anthropic.messagesIn v).flatMap Anthropic.blockImages
  | .gemini, v => (Gemini.contentsOf v).flatMap Gemini.inlineImages

/-- The messages that are read have the images of the request. -/
theorem images_of_requestToIr [SerdeJson] {p : Protocol} {v : Value} {req : IrRequest}
    {ctx : ConvCtx} (h : requestToIr p v = .ok (req, ctx)) :
    req.messages.flatMap imagesOf = requestImages p v := by
  cases p with
  | openaiChat =>
    obtain ⟨m, messages, tools, rfl, hmessages, -, rfl⟩ := Chat.requestToIr_eq_ok.1 ⟨ctx, h⟩
    show messages.flatMap imagesOf = _
    rw [Chat.messages_of_readMessages hmessages, List.flatMap_map]
    exact List.flatMap_congr fun msg _ ↦ Chat.imagesOf_messageOf msg
  | openaiResponses =>
    obtain ⟨m, tools, rfl, -, rfl⟩ := Responses.requestToIr_eq_ok.1 ⟨ctx, h⟩
    exact Responses.images_messagesOf m
  | anthropic =>
    obtain ⟨m, messages, ext, tools, rfl, hmessages, -, rfl⟩ :=
      Anthropic.requestToIr_eq_ok.1 ⟨ctx, h⟩
    show ((Anthropic.readSystem (.obj m)).1.messages ++ messages).flatMap imagesOf = _
    rw [Anthropic.messages_of_readConversation hmessages, List.flatMap_append,
      Anthropic.images_readSystem, List.nil_append, List.flatMap_assoc]
    exact List.flatMap_congr fun msg _ ↦ Anthropic.images_readMessages msg
  | gemini =>
    obtain ⟨systemCtx, read, hread, hmessages⟩ := Gemini.requestToIr_ok h
    rw [hmessages, Gemini.images_parseContents hread,
      imagesOf_silent fun m hm ↦ (Gemini.systemMessages_silent v m hm).2]
    rfl

end NextApi
