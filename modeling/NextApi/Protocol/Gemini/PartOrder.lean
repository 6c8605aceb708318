import NextApi.Protocol.Gemini.CallPairing
import NextApi.Protocol.RequestReaders
import NextApi.Protocol.Spoken

/-!
# The order of parts in Gemini contents

A reader sorts the parts of a content into texts and media and keeps the last thought (`Heaps.add`,
the same for requests and responses but for the media that have a place). The content comes back as
it was when the parts were sorted before (`Orderly`).
-/

set_option autoImplicit false

namespace NextApi.Gemini

open Json Ir

/-! ### What a content says -/

def isThought (p : Value) : Bool := p["thought"].asBool.getD false

/-- A file by its address or its data. -/
def fileOf (fd : Value) : IrPart :=
  .file fd["displayName"].strOrEmpty
    (if fd["fileUri"].strOrEmpty = "" then none else some fd["fileUri"].strOrEmpty) fd["data"].asStr

/-- The text or medium that a part is. -/
def partOf (p : Value) : Option IrPart :=
  match p["text"].asStr with
  | some t => if isThought p then none else some (.text t)
  | none =>
    match p.get? "inlineData", p.get? "fileData" with
    | some id, _ => some (.imageInline id["mimeType"].strOrEmpty id["data"].strOrEmpty)
    | none, some fd => some (fileOf fd)
    | none, none => none

/-- The thought that a part is. -/
def thoughtOf (p : Value) : Option String := if isThought p then p["text"].asStr else none

/-- What a content says. -/
def spokenOf (c : Value) : Spoken :=
  ⟨(partsOf c).filterMap partOf, String.join ((partsOf c).filterMap thoughtOf)⟩

/-! ### Sorting the parts -/

def isText : IrPart → Bool
  | .text _ => true
  | _ => false

/-- The media that have a place: inline data when it is an image, and files. -/
def hasPlace : IrPart → Bool
  | .imageInline mime _ => decide (mime = "" ∨ "image/".toList <+: mime.toList)
  | _ => true

/-- In a response files have no place. -/
def hasResponsePlace : IrPart → Bool
  | .file _ _ _ => false
  | part => hasPlace part

/-- The medium that a part is, when it has a place. -/
def mediumOf (place : IrPart → Bool) (p : Value) : Option IrPart :=
  (partOf p).filter fun part ↦ !isText part && place part

def textOf (p : Value) : Option String :=
  match partOf p with
  | some (.text t) => some t
  | _ => none

/-- The parts that were sorted: texts, media and the last thought. -/
@[ext] structure Heaps where
  texts : List String := []
  media : List IrPart := []
  thought : Option String := none

/-- Sorts one part. -/
def Heaps.add (place : IrPart → Bool) (h : Heaps) (p : Value) : Heaps where
  texts := h.texts ++ (textOf p).toList
  media := h.media ++ (mediumOf place p).toList
  thought := (thoughtOf p).or h.thought

def PartsAcc.heaps (acc : PartsAcc) : Heaps := ⟨acc.textParts, acc.mediaParts, acc.reasoning⟩

def ResponsePartsAcc.heaps (acc : ResponsePartsAcc) : Heaps :=
  ⟨acc.textParts, acc.mediaParts, acc.reasoning⟩

/-- Sorting a list of parts. -/
theorem foldl_add (place : IrPart → Bool) (ps : List Value) (h : Heaps) :
    ps.foldl (Heaps.add place) h =
      { texts := h.texts ++ ps.filterMap textOf
        media := h.media ++ ps.filterMap (mediumOf place)
        thought := (ps.filterMap thoughtOf).getLast?.or h.thought } := by
  induction ps generalizing h with
  | nil => simp
  | cons p rest ih =>
    have hthought : ((p :: rest).filterMap thoughtOf).getLast? =
        ((rest.filterMap thoughtOf).getLast?).or (thoughtOf p) := by
      rw [List.filterMap_cons]
      cases thoughtOf p with
      | none => rw [Option.or_none]
      | some t =>
        dsimp only
        rw [List.getLast?_cons]
        cases (rest.filterMap thoughtOf).getLast? <;> rfl
    have hcons {α : Type} (f : Value → Option α) :
        (p :: rest).filterMap f = (f p).toList ++ rest.filterMap f := by
      rw [List.filterMap_cons]
      cases f p <;> rfl
    rw [List.foldl_cons, ih, hthought, hcons textOf, hcons (mediumOf place), Heaps.add]
    simp only [List.append_assoc, Option.or_assoc]

/-- A part with a text is a thought or a text. -/
theorem add_of_text {place : IrPart → Bool} {p : Value} {t : String} (h : p["text"].asStr = some t)
    (heaps : Heaps) : heaps.add place p =
      if isThought p then { heaps with thought := some t }
      else { heaps with texts := heaps.texts ++ [t] } := by
  rw [Heaps.add, mediumOf, textOf, partOf, h, thoughtOf, h]
  cases isThought p with
  | true => simp
  | false => simp [isText]

/-- A part without a text is neither a text nor a thought. -/
theorem textOf_eq_none {p : Value} (h : p["text"].asStr = none) :
    textOf p = none ∧ thoughtOf p = none := by
  constructor
  · rw [textOf, partOf, h]
    cases p.get? "inlineData" with
    | some id => rfl
    | none => cases p.get? "fileData" <;> rfl
  · rw [thoughtOf, h, ite_self]

/-- A part without a text is no thought; it is a medium, or nothing. -/
theorem add_of_no_text {place : IrPart → Bool} {p : Value} (h : p["text"].asStr = none)
    (heaps : Heaps) : heaps.add place p =
      { heaps with media := heaps.media ++ (mediumOf place p).toList } := by
  obtain ⟨htext, hthought⟩ := textOf_eq_none h
  rw [Heaps.add, htext, hthought, Option.none_or, Option.toList_none, List.append_nil]

theorem mediumOf_inline {place : IrPart → Bool} {p id : Value} (h : p["text"].asStr = none)
    (hid : p.get? "inlineData" = some id) : mediumOf place p =
      if place (.imageInline id["mimeType"].strOrEmpty id["data"].strOrEmpty) then
        some (.imageInline id["mimeType"].strOrEmpty id["data"].strOrEmpty) else none := by
  rw [mediumOf, partOf, h, hid]
  exact Option.filter_some

theorem mediumOf_file {place : IrPart → Bool} {p fd : Value} (h : p["text"].asStr = none)
    (hid : p.get? "inlineData" = none) (hfd : p.get? "fileData" = some fd) :
    mediumOf place p = if place (fileOf fd) then some (fileOf fd) else none := by
  rw [mediumOf, partOf, h, hid, hfd]
  exact Option.filter_some

theorem mediumOf_other {place : IrPart → Bool} {p : Value} (h : p["text"].asStr = none)
    (hid : p.get? "inlineData" = none) (hfd : p.get? "fileData" = none) :
    mediumOf place p = none := by
  rw [mediumOf, partOf, h, hid, hfd]
  rfl

/-- Inline data has a place when it is an image. -/
theorem hasPlace_inline (mime data : String) :
    hasPlace (.imageInline mime data) = true ↔ ¬ (mime ≠ "" ∧ ¬ "image/".toList <+: mime.toList) := by
  rw [hasPlace, decide_eq_true_eq, not_and, not_not]
  exact Decidable.or_iff_not_imp_left

theorem heaps_parseInlineData (acc : PartsAcc) (id : Value) :
    (parseInlineData acc id).heaps = { acc.heaps with
      media := acc.heaps.media ++
        (if hasPlace (.imageInline id["mimeType"].strOrEmpty id["data"].strOrEmpty) then
          some (IrPart.imageInline id["mimeType"].strOrEmpty id["data"].strOrEmpty)
        else none).toList } := by
  have hplace := hasPlace_inline id["mimeType"].strOrEmpty id["data"].strOrEmpty
  rw [parseInlineData]
  dsimp only
  split
  · rename_i hdropped
    rw [if_neg (fun h ↦ hplace.1 h hdropped), Option.toList_none, List.append_nil]
    rfl
  · rename_i hkept
    rw [if_pos (hplace.2 hkept)]
    rfl

section Readers

variable [SerdeJson]

/-- Reading one part of a request sorts it. -/
theorem heaps_parsePart (acc : PartsAcc) (p : Value) :
    (parsePart acc p).heaps = acc.heaps.add hasPlace p := by
  cases htext : p["text"].asStr with
  | some t =>
    obtain ⟨m, rfl, -⟩ := Value.eq_obj_of_asStr htext
    rw [add_of_text htext, parsePart, if_pos (Value.isObject_obj m), htext]
    dsimp only
    rw [isThought]
    split <;> rfl
  | none =>
    rw [add_of_no_text htext]
    cases hobj : p.isObject with
    | false =>
      have hget (key : String) : p.get? key = none := by
        cases p with
        | obj m => cases hobj
        | _ => rfl
      rw [mediumOf_other htext (hget _) (hget _), parsePart, hobj]
      exact congrArg (fun media ↦ { acc.heaps with media := media }) (List.append_nil _).symm
    | true =>
      rw [parsePart, if_pos hobj, htext]
      dsimp only
      cases hid : p.get? "inlineData" with
      | some id =>
        rw [mediumOf_inline htext hid]
        exact heaps_parseInlineData acc id
      | none =>
        cases hfd : p.get? "fileData" with
        | some fd =>
          rw [mediumOf_file htext hid hfd]
          rfl
        | none =>
          rw [mediumOf_other htext hid hfd, Option.toList_none, List.append_nil]
          cases p.get? "functionCall" with
          | some fc => rfl
          | none => cases p.get? "functionResponse" <;> rfl

omit [SerdeJson] in
theorem heaps_parseResponseInlineData (acc : ResponsePartsAcc) (id : Value) :
    (parseResponseInlineData acc id).heaps = { acc.heaps with
      media := acc.heaps.media ++
        (if hasResponsePlace (.imageInline id["mimeType"].strOrEmpty id["data"].strOrEmpty) then
          some (IrPart.imageInline id["mimeType"].strOrEmpty id["data"].strOrEmpty)
        else none).toList } := by
  have hplace := hasPlace_inline id["mimeType"].strOrEmpty id["data"].strOrEmpty
  rw [parseResponseInlineData, hasResponsePlace]
  · dsimp only
    split
    · rename_i hdropped
      rw [if_neg (fun h ↦ hplace.1 h hdropped), Option.toList_none, List.append_nil]
      rfl
    · rename_i hkept
      rw [if_pos (hplace.2 hkept)]
      rfl
  · exact fun _ _ _ h ↦ nomatch h

/-- Reading one part of a response sorts it. -/
theorem heaps_parseResponsePart (acc : ResponsePartsAcc) (p : Value) :
    (parseResponsePart acc p).heaps = acc.heaps.add hasResponsePlace p := by
  cases htext : p["text"].asStr with
  | some t =>
    rw [add_of_text htext, parseResponsePart, htext]
    dsimp only
    rw [isThought]
    split <;> rfl
  | none =>
    rw [add_of_no_text htext, parseResponsePart, htext]
    dsimp only
    cases hid : p.get? "inlineData" with
    | some id =>
      rw [mediumOf_inline htext hid]
      exact heaps_parseResponseInlineData acc id
    | none =>
      have hmedium : mediumOf hasResponsePlace p = none := by
        cases hfd : p.get? "fileData" with
        | some fd =>
          rw [mediumOf_file htext hid hfd]
          rfl
        | none => exact mediumOf_other htext hid hfd
      rw [hmedium, Option.toList_none, List.append_nil]
      cases p.get? "functionCall" <;> rfl

theorem heaps_foldl_parsePart (ps : List Value) (acc : PartsAcc) :
    (ps.foldl parsePart acc).heaps = ps.foldl (Heaps.add hasPlace) acc.heaps := by
  induction ps generalizing acc with
  | nil => rfl
  | cons p rest ih => rw [List.foldl_cons, ih, heaps_parsePart, List.foldl_cons]

theorem heaps_foldl_parseResponsePart (ps : List Value) (acc : ResponsePartsAcc) :
    (ps.foldl parseResponsePart acc).heaps = ps.foldl (Heaps.add hasResponsePlace) acc.heaps := by
  induction ps generalizing acc with
  | nil => rfl
  | cons p rest ih => rw [List.foldl_cons, ih, heaps_parseResponsePart, List.foldl_cons]

end Readers

/-! ### What comes back -/

/-- What is left of a content: the texts before the media, and the last thought. -/
def keptOf (place : IrPart → Bool) (c : Value) : Spoken where
  parts := ((partsOf c).filterMap partOf).filter isText ++
    ((partsOf c).filterMap partOf).filter fun part ↦ !isText part && place part
  thought := ((partsOf c).filterMap thoughtOf).getLast?.getD ""

/-- The message that is read of a content says what is left of it. -/
theorem ofMessage_heaps {place : IrPart → Bool} {c : Value} {heaps : Heaps} {m : IrMessage}
    (h : heaps = (partsOf c).foldl (Heaps.add place) {})
    (hcontent : m.content = partsContent (heaps.texts.map .text ++ heaps.media))
    (hreasoning : m.reasoningContent = heaps.thought) : Spoken.ofMessage m = keptOf place c := by
  have hparts (ps : List IrPart) : Spoken.partsOf (partsContent ps) = ps := by
    unfold partsContent
    split <;> rfl
  have htexts (ps : List Value) : (ps.filterMap textOf).map .text =
      (ps.filterMap partOf).filter isText := by
    rw [List.map_filterMap, List.filter_filterMap]
    refine List.filterMap_congr fun p _ ↦ ?_
    rw [textOf]
    cases partOf p with
    | none => rfl
    | some part => cases part <;> rfl
  have hmedia (ps : List Value) : ps.filterMap (mediumOf place) =
      (ps.filterMap partOf).filter fun part ↦ !isText part && place part := by
    rw [List.filter_filterMap]
    rfl
  rw [foldl_add] at h
  subst h
  simp only [List.nil_append, Option.or_none] at hcontent hreasoning
  rw [Spoken.ofMessage, hcontent, hreasoning, hparts, htexts, hmedia, keptOf]

/-- The parts of a content are sorted: a place for every medium, no text after a medium, and no
thought but the last one. -/
structure Sorted (place : IrPart → Bool) (c : Value) : Prop where
  placed : ∀ part ∈ (partsOf c).filterMap partOf, isText part = true ∨ place part = true
  textsFirst : ((partsOf c).filterMap partOf).Pairwise fun x y ↦ isText y = true → isText x = true
  thoughts : ∀ t ∈ ((partsOf c).filterMap thoughtOf).dropLast, t = ""

theorem keptOf_eq_iff (place : IrPart → Bool) (c : Value) :
    keptOf place c = spokenOf c ↔ Sorted place c := by
  have hdisjoint (part : IrPart) (h : isText part = true) :
      (!isText part && place part) = false := by
    rw [h]
    rfl
  have hheap (part : IrPart) : (!isText part && place part) = true ∨ isText part = true ↔
      isText part = true ∨ place part = true := by
    cases isText part <;> simp
  rw [keptOf, spokenOf, Spoken.mk.injEq, filter_append_filter_eq_self hdisjoint,
    getLast_eq_join_iff]
  constructor
  · intro ⟨⟨hall, hsorted⟩, hthoughts⟩
    exact ⟨fun part hpart ↦ (hheap part).1 (hall part hpart).symm, hsorted, hthoughts⟩
  · intro h
    exact ⟨⟨fun part hpart ↦ ((hheap part).2 (h.placed part hpart)).symm, h.textsFirst⟩,
      h.thoughts⟩

/-! ### Writing a message -/

/-- A part that the readers give. -/
def Native : IrPart → Prop
  | .text _ | .imageInline _ _ => True
  | .file _ url _ => url ≠ some ""
  | _ => False

theorem native_partOf {p : Value} {part : IrPart} (h : partOf p = some part) : Native part := by
  unfold partOf at h
  split at h
  · split at h
    · exact nomatch h
    · rw [← Option.some.inj h]
      trivial
  · split at h
    · rw [← Option.some.inj h]
      trivial
    · rw [← Option.some.inj h]
      show (if _ then none else some _) ≠ some ""
      split
      · exact fun heq ↦ nomatch heq
      · rename_i hne
        exact fun heq ↦ hne (Option.some.inj heq)
    · exact nomatch h

/-- The content of a message that was read: a lone text is plain. -/
structure Read (content : Option IrContent) : Prop where
  native : ∀ part ∈ Spoken.partsOf content, Native part
  plain : ∀ t, content ≠ some (.parts [.text t])

/-- What comes back of a message: a lone empty text does not. -/
def backOf (s : Spoken) : Spoken := if s.parts = [.text ""] then { s with parts := [] } else s

/-- The members of a file that is written. -/
def fileMembers (name : String) (url data : Option String) : List (String × Option Value) :=
  [("fileUri", url.map .str), ("data", data.map .str),
    ("displayName", if name = "" then none else some (.str name))]

theorem fileOf_written {name : String} {url : Option String} (hurl : url ≠ some "")
    (data : Option String) :
    fileOf (.obj (Map.insertPresent [] (fileMembers name url data))) = .file name url data := by
  have hmember (key : String) : (Value.obj (Map.insertPresent [] (fileMembers name url data)))[key] =
      (Map.written (fileMembers name url data) key).getD .null := by
    rw [Value.getElem_eq, Value.get?_obj, Map.get?_insertPresent (by simp [fileMembers]),
      Map.get?_nil, Option.or_none]
  have hname : ((if name = "" then none else some (Value.str name)).getD .null).strOrEmpty =
      name := by
    split
    · rename_i heq
      exact heq.symm
    · rfl
  have haddress : (if ((url.map Value.str).getD .null).strOrEmpty = "" then none
      else some ((url.map Value.str).getD .null).strOrEmpty) = url := by
    cases url with
    | none => rfl
    | some u => exact if_neg fun heq ↦ hurl (congrArg some heq)
  have hdata : ((data.map Value.str).getD .null).asStr = data := asStr_map_str data
  rw [fileOf, hmember, hmember, hmember]
  exact congr (congr (congrArg IrPart.file hname) haddress) hdata

theorem partOf_partToJson {part : IrPart} (h : Native part) :
    (partToJson part).1.bind partOf = some part := by
  cases part with
  | text t => rfl
  | imageInline mime data => rfl
  | file name url data => exact congrArg some (fileOf_written h data)
  | imageUrl url => exact h.elim
  | inputAudio data format => exact h.elim

theorem thoughtOf_partToJson (part : IrPart) : (partToJson part).1.bind thoughtOf = none := by
  cases part <;> rfl

theorem partOf_contentToParts {content : Option IrContent} (h : Read content) (thought : String) :
    (contentToParts content).1.filterMap partOf = (backOf ⟨Spoken.partsOf content, thought⟩).parts ∧
      (contentToParts content).1.filterMap thoughtOf = [] := by
  match content, h with
  | none, _ => exact ⟨rfl, rfl⟩
  | some (.text t), _ =>
    by_cases ht : t = ""
    · subst ht
      exact ⟨rfl, rfl⟩
    · have hback : (backOf ⟨[.text t], thought⟩).parts = [.text t] := by
        rw [backOf, if_neg]
        exact fun heq ↦ ht (IrPart.text.inj (List.cons.inj heq).1)
      have hwritten : (contentToParts (some (.text t))).1 = [textPart t] := if_neg ht
      rw [hwritten]
      exact ⟨hback.symm, rfl⟩
  | some (.parts ps), h =>
    have hback : (backOf ⟨ps, thought⟩).parts = ps := by
      rw [backOf, if_neg fun heq ↦ h.plain "" (by rw [show ps = [.text ""] from heq])]
    have hwritten : (contentToParts (some (.parts ps))).1 =
        ps.filterMap fun part ↦ (partToJson part).1 := rfl
    rw [hwritten, List.filterMap_filterMap, List.filterMap_filterMap]
    constructor
    · rw [show Spoken.partsOf (some (.parts ps)) = ps from rfl, hback]
      calc ps.filterMap (fun part ↦ (partToJson part).1.bind partOf)
          = ps.filterMap some :=
            List.filterMap_congr fun part hpart ↦ partOf_partToJson (h.native part hpart)
        _ = ps := List.filterMap_some
    · simp only [thoughtOf_partToJson, List.filterMap_none]

section Writers

variable [SerdeJson]

/-- What a message of the conversation comes back as; system messages and tool results have no
text or media of their own. -/
def writtenOf (m : IrMessage) : Spoken :=
  if m.role = .system then {} else ((messageToContent m).1.map spokenOf).getD {}

/-- What a list of parts says. -/
def spokenParts (parts : List Value) : Spoken :=
  ⟨parts.filterMap partOf, String.join (parts.filterMap thoughtOf)⟩

omit [SerdeJson] in
theorem spokenParts_append (xs ys : List Value) :
    spokenParts (xs ++ ys) =
      ⟨(spokenParts xs).parts ++ (spokenParts ys).parts,
        (spokenParts xs).thought ++ (spokenParts ys).thought⟩ := by
  rw [spokenParts, List.filterMap_append, List.filterMap_append, String.join_append]
  rfl

omit [SerdeJson] in
/-- The calls of a message say nothing. -/
theorem spokenParts_calls {α : Type} (calls : List α) (name : α → String) (args : α → Value) :
    spokenParts (calls.map fun call ↦ functionCallPart (name call) (args call)) = {} := by
  induction calls with
  | nil => rfl
  | cons call rest ih => exact ih

omit [SerdeJson] in
theorem spokenParts_thought (reasoning : Option String) :
    spokenParts (reasoning.map thoughtPart).toList = ⟨[], reasoning.getD ""⟩ := by
  cases reasoning with
  | none => rfl
  | some t =>
    show Spoken.mk [] (String.join [t]) = ⟨[], t⟩
    rw [String.join_cons, String.join_nil, String.append_empty]

omit [SerdeJson] in
theorem spokenParts_content {m : IrMessage} (h : Read m.content) :
    spokenParts (contentToParts m.content).1 = ⟨(backOf (Spoken.ofMessage m)).parts, ""⟩ := by
  obtain ⟨hparts, hthoughts⟩ := partOf_contentToParts h (m.reasoningContent.getD "")
  rw [spokenParts, hparts, hthoughts]
  rfl

omit [SerdeJson] in
theorem backOf_ofMessage (m : IrMessage) : backOf (Spoken.ofMessage m) =
    ⟨(backOf (Spoken.ofMessage m)).parts, m.reasoningContent.getD ""⟩ := by
  rw [backOf]
  split <;> rfl

/-- A message that was read comes back but for a lone empty text. -/
theorem spokenParts_messageToParts {m : IrMessage} (h : Read m.content) :
    spokenParts (messageToParts m).1 = backOf (Spoken.ofMessage m) := by
  have hcalls : spokenParts ((m.toolCalls.map toolCallPart).map Prod.fst) = {} := by
    rw [List.map_map]
    exact spokenParts_calls m.toolCalls IrToolCall.name fun call ↦
      (argsStringToValue call.arguments "tool_call.arguments").1
  rw [messageToParts, spokenParts_append, spokenParts_append, hcalls, spokenParts_thought,
    spokenParts_content h, backOf_ofMessage]
  simp

/-- In a response the thought comes first. -/
theorem spokenParts_messageToResponseParts {m : IrMessage} (h : Read m.content) :
    spokenParts (messageToResponseParts m).1 = backOf (Spoken.ofMessage m) := by
  have hcalls : spokenParts ((m.toolCalls.map fun tc ↦
      (functionCallPart tc.name (argsStringToValue tc.arguments "tool_call.arguments").1,
        (argsStringToValue tc.arguments "tool_call.arguments").2)).map Prod.fst) = {} := by
    rw [List.map_map]
    exact spokenParts_calls m.toolCalls IrToolCall.name fun call ↦
      (argsStringToValue call.arguments "tool_call.arguments").1
  rw [messageToResponseParts, spokenParts_append, spokenParts_append, hcalls, spokenParts_thought,
    spokenParts_content h, backOf_ofMessage]
  simp

theorem writtenOf_eq {m : IrMessage} (h : Read m.content) :
    writtenOf m = backOf (Spoken.inConversation m) := by
  have hwritten (parts : List Value) (role : String) :
      ((if parts.isEmpty then none
        else some (Value.object [("role", .str role), ("parts", .arr parts)])).map spokenOf).getD {} =
      spokenParts parts := by
    cases parts with
    | nil => rfl
    | cons p rest => rfl
  rw [writtenOf]
  cases hrole : m.role with
  | system =>
    rw [if_pos rfl, Spoken.inConversation, hrole]
    rfl
  | tool =>
    rw [if_neg IrRole.noConfusion, Spoken.inConversation, hrole, messageToContent, hrole,
      if_pos rfl]
    exact hwritten [(toolMessagePart m).1] _
  | user =>
    rw [if_neg IrRole.noConfusion, Spoken.inConversation, hrole, if_pos (Or.inl rfl),
      messageToContent, hrole, if_neg IrRole.noConfusion]
    exact (hwritten _ _).trans (spokenParts_messageToParts h)
  | assistant =>
    rw [if_neg IrRole.noConfusion, Spoken.inConversation, hrole, if_pos (Or.inr rfl),
      messageToContent, hrole, if_neg IrRole.noConfusion]
    exact (hwritten _ _).trans (spokenParts_messageToParts h)

/-! ### Requests -/

omit [SerdeJson] in
theorem role_parseRole (role : Option String) :
    (parseRole role).1 = .user ∨ (parseRole role).1 = .assistant := by
  rw [parseRole.eq_def]
  split
  · exact Or.inl rfl
  · exact Or.inr rfl
  · exact Or.inr rfl
  · exact Or.inr rfl
  · exact Or.inl rfl
  · exact Or.inl rfl

omit [SerdeJson] in
/-- The responses of a content are texts of their own. -/
theorem messages_pushResponses (responses : List (String × String)) (acc : ContentsAcc) :
    ∃ results, (responses.foldl pushResponse acc).messages = acc.messages ++ results ∧
      ∀ m ∈ results, m.role = .tool ∧ ∃ t, m.content = some (.text t) := by
  induction responses generalizing acc with
  | nil => exact ⟨[], (List.append_nil _).symm, fun m hm ↦ (List.not_mem_nil hm).elim⟩
  | cons response rest ih =>
    obtain ⟨results, hmessages, hresults⟩ := ih (pushResponse acc response)
    obtain ⟨name, text⟩ := response
    refine ⟨responseMessage name text (popCall acc.callIds name).1 :: results, ?_, ?_⟩
    · rw [List.foldl_cons, hmessages, pushResponse, List.append_assoc]
      rfl
    · exact List.forall_mem_cons.2 ⟨⟨rfl, text, rfl⟩, hresults⟩

omit [SerdeJson] in
theorem read_text {content : Option IrContent} {t : String} (h : content = some (.text t)) :
    Read content := by
  subst h
  exact ⟨fun part hpart ↦ by rw [List.mem_singleton.1 hpart]; trivial, fun t ↦ by simp⟩

omit [SerdeJson] in
theorem read_partsContent {ps : List IrPart} (h : ∀ part ∈ ps, Native part) :
    Read (partsContent ps) := by
  unfold partsContent
  split
  · exact ⟨fun part hpart ↦ (List.not_mem_nil hpart).elim, fun t ↦ by simp⟩
  · exact read_text rfl
  · rename_i _ hne
    refine ⟨h, fun t heq ↦ ?_⟩
    exact hne t (IrContent.parts.inj (Option.some.inj heq))

omit [SerdeJson] in
/-- The parts of heaps are parts of the content. -/
theorem native_heaps (place : IrPart → Bool) (ps : List Value) :
    let heaps := ps.foldl (Heaps.add place) {}
    ∀ part ∈ heaps.texts.map .text ++ heaps.media, Native part := by
  dsimp only
  rw [foldl_add]
  intro part hpart
  rcases List.mem_append.1 hpart with hpart | hpart
  · obtain ⟨t, -, rfl⟩ := List.mem_map.1 hpart
    trivial
  · rw [List.nil_append] at hpart
    obtain ⟨p, -, hp⟩ := List.mem_filterMap.1 hpart
    exact native_partOf (Option.eq_some_of_filter_eq_some hp)

/-- Reading a content adds a message that says what is left of it, unless nothing is, and results. -/
theorem parseContent_spoken {acc acc' : ContentsAcc} {c : Value} (h : parseContent acc c = .ok acc') :
    ∃ added, acc'.messages = acc.messages ++ added ∧ (∀ m ∈ added, Read m.content) ∧
      ∀ w : Spoken → Spoken, w {} = {} →
        Spoken.all (added.map fun m ↦ w (Spoken.inConversation m)) =
          Spoken.all [w (keptOf hasPlace c)] := by
  obtain ⟨role, ctx, hrole, hacc⟩ := parseContent_ok h
  dsimp only at hacc
  have hheaps := heaps_foldl_parsePart (partsOf c) { callIds := acc.callIds, ctx := ctx }
  generalize (partsOf c).foldl parsePart { callIds := acc.callIds, ctx := ctx } = read at *
  obtain ⟨results, hmessages, hresults⟩ := messages_pushResponses read.functionResponses
    { messages := acc.messages ++ mainMessages role read, callIds := read.callIds, ctx := read.ctx }
  have hnative : ∀ part ∈ read.heaps.texts.map .text ++ read.heaps.media, Native part := by
    rw [hheaps]
    exact native_heaps hasPlace (partsOf c)
  have hspoken : Spoken.inConversation (mainMessage role read) = keptOf hasPlace c := by
    have hconversation : (mainMessage role read).role = .user ∨
        (mainMessage role read).role = .assistant := by
      rw [show (mainMessage role read).role = role from rfl, hrole]
      exact role_parseRole _
    rw [Spoken.inConversation, if_pos hconversation]
    exact ofMessage_heaps hheaps rfl rfl
  refine ⟨mainMessages role read ++ results, ?_, ?_, fun w hw ↦ ?_⟩
  · rw [hacc, hmessages, List.append_assoc]
  · intro m hm
    rcases List.mem_append.1 hm with hm | hm
    · rw [mainMessages] at hm
      split at hm
      · rw [List.mem_singleton.1 hm]
        exact read_partsContent hnative
      · exact (List.not_mem_nil hm).elim
    · obtain ⟨-, t, ht⟩ := hresults m hm
      exact read_text ht
  · have hsilent : Spoken.all (results.map fun m ↦ w (Spoken.inConversation m)) = [] := by
      refine Spoken.all_eq_nil fun s hs ↦ ?_
      obtain ⟨m, hm, rfl⟩ := List.mem_map.1 hs
      rw [Spoken.inConversation, (hresults m hm).1]
      exact hw
    rw [List.map_append, Spoken.all_append, hsilent, List.append_nil, mainMessages]
    split
    · rw [← hspoken]
      rfl
    · rename_i hempty
      simp only [Bool.or_eq_true, not_or, Bool.not_eq_true, Option.isSome_eq_false_iff,
        Option.isNone_iff_eq_none] at hempty
      have hnothing : keptOf hasPlace c = {} := by
        rw [← hspoken, Spoken.inConversation]
        split
        · rw [Spoken.ofMessage, hempty.1.1, hempty.2]
          rfl
        · rfl
      rw [hnothing, hw, Spoken.all_cons_silent]
      rfl

/-- What the messages of a conversation say is what is left of its contents. -/
theorem parseContents_say {contents : List Value} {acc acc' : ContentsAcc}
    (h : contents.foldlM parseContent acc = .ok acc') :
    ∃ added, acc'.messages = acc.messages ++ added ∧ (∀ m ∈ added, Read m.content) ∧
      ∀ w : Spoken → Spoken, w {} = {} →
        Spoken.all (added.map fun m ↦ w (Spoken.inConversation m)) =
          Spoken.all (contents.map fun c ↦ w (keptOf hasPlace c)) := by
  induction contents generalizing acc with
  | nil =>
    rw [List.foldlM_nil] at h
    refine ⟨[], ?_, fun m hm ↦ (List.not_mem_nil hm).elim, fun w _ ↦ rfl⟩
    rw [← Except.ok.inj h, List.append_nil]
  | cons c rest ih =>
    rw [List.foldlM_cons] at h
    obtain ⟨mid, hmid, h⟩ := bind_eq_ok.1 h
    obtain ⟨first, hfirst, hread, hspoken⟩ := parseContent_spoken hmid
    obtain ⟨others, hothers, hreads, hsay⟩ := ih h
    refine ⟨first ++ others, ?_, ?_, fun w hw ↦ ?_⟩
    · rw [hothers, hfirst, List.append_assoc]
    · intro m hm
      exact (List.mem_append.1 hm).elim (hread m) (hreads m)
    · rw [List.map_append, Spoken.all_append, hspoken w hw, hsay w hw, ← Spoken.all_append]
      rfl

omit [SerdeJson] in
/-- The system message can be written. -/
theorem systemMessages_silent (v : Value) :
    ∀ m ∈ (systemMessages v).1, m.role = .system ∧ ∃ t, m.content = some (.text t) := by
  intro m hm
  have hmessage {text : String} (hm : m ∈ (if text = "" then [] else
      [({ role := .system, content := some (.text text) } : IrMessage)])) :
      m.role = .system ∧ ∃ t, m.content = some (.text t) := by
    split at hm
    · exact (List.not_mem_nil hm).elim
    · rw [List.mem_singleton.1 hm]
      exact ⟨rfl, text, rfl⟩
  rw [systemMessages] at hm
  cases hsi : v.get? "systemInstruction" with
  | none =>
    rw [hsi] at hm
    exact (List.not_mem_nil hm).elim
  | some si =>
    rw [hsi] at hm
    cases hparts : si.get? "parts" with
    | none =>
      simp only [hparts] at hm
      exact hmessage hm
    | some parts =>
      simp only [hparts] at hm
      exact hmessage hm

/-- What the contents of a request say. -/
def spokenContents (v : Value) : List Spoken := Spoken.all ((contentsOf v).map spokenOf)

/-- What the written contents say. -/
theorem spokenContents_requestFromIr {req : IrRequest} (hextra : Map.get? req.extra "contents" = none)
    (hread : ∀ m ∈ req.messages, Read m.content) :
    spokenContents (requestFromIr req).1 =
      Spoken.all (req.messages.map fun m ↦ backOf (Spoken.inConversation m)) := by
  have hcontents : contentsOf (requestFromIr req).1 = (messagesToContents req).1 := by
    have hget := get?_requestFromIr .gemini req "contents"
    have hlaid : Map.get? (laidDown .gemini req) "contents" = none := by
      rw [laidDown, Map.get?_remove, if_neg (by decide), hextra]
    rw [hlaid, Option.or_none] at hget
    have hwritten : (requestFromIr req).1.get? "contents" =
        if (messagesToContents req).1.isEmpty then none else some (.arr (messagesToContents req).1) :=
      hget
    rw [contentsOf, hwritten]
    cases (messagesToContents req).1 <;> rfl
  have hmessage (messages : List IrMessage) (hread : ∀ m ∈ messages, Read m.content) :
      Spoken.all (((messages.filter fun m ↦ decide (m.role ≠ .system)).filterMap
        fun m ↦ (messageToContent m).1).map spokenOf) =
      Spoken.all (messages.map fun m ↦ backOf (Spoken.inConversation m)) := by
    induction messages with
    | nil => rfl
    | cons m rest ih =>
      rw [List.forall_mem_cons] at hread
      rw [List.map_cons, ← writtenOf_eq hread.1, writtenOf]
      by_cases hrole : m.role = .system
      · rw [List.filter_cons_of_neg (by simpa using hrole), if_pos hrole, Spoken.all_cons_silent]
        exact ih hread.2
      · rw [List.filter_cons_of_pos (by simpa using hrole), if_neg hrole, List.filterMap_cons]
        cases (messageToContent m).1 with
        | none =>
          rw [Option.map_none, Option.getD_none, Spoken.all_cons_silent]
          exact ih hread.2
        | some content =>
          have hcons (s : Spoken) (xs : List Spoken) :
              Spoken.all (s :: xs) = Spoken.all [s] ++ Spoken.all xs := Spoken.all_append [s] xs
          dsimp only
          rw [List.map_cons, Option.map_some, Option.getD_some, hcons, ih hread.2, ← hcons]
  rw [spokenContents, hcontents]
  exact hmessage req.messages hread

/-- A content comes back as it was: it is sorted, and no lone empty text. -/
def Kept (place : IrPart → Bool) (c : Value) : Prop :=
  Sorted place c ∧ (spokenOf c).parts ≠ [.text ""]

omit [SerdeJson] in
theorem backOf_eq_self (s : Spoken) : backOf s = s ↔ s.parts ≠ [.text ""] := by
  rw [backOf]
  split
  · rename_i hlone
    refine iff_of_false (fun h ↦ ?_) fun h ↦ h hlone
    have hparts := congrArg Spoken.parts h
    rw [hlone] at hparts
    exact nomatch hparts
  · rename_i hlone
    exact iff_of_true rfl hlone

omit [SerdeJson] in
theorem kept_iff (place : IrPart → Bool) (c : Value) :
    keptOf place c = spokenOf c ∧ backOf (keptOf place c) = spokenOf c ↔ Kept place c := by
  rw [Kept, ← keptOf_eq_iff]
  refine and_congr_right fun h ↦ ?_
  rw [h, backOf_eq_self]

omit [SerdeJson] in
/-- Of a content that says nothing, nothing is left. -/
theorem keptOf_silent {place : IrPart → Bool} {c : Value} (h : spokenOf c = {}) :
    keptOf place c = {} := by
  obtain ⟨hparts, hthought⟩ := Spoken.mk.inj h
  have hempty := join_eq_empty.1 hthought
  have hlast : ((partsOf c).filterMap thoughtOf).getLast?.getD "" = "" := by
    cases hget : ((partsOf c).filterMap thoughtOf).getLast? with
    | none => rfl
    | some t => exact hempty t (List.mem_of_getLast? hget)
  rw [keptOf, hparts, hlast]
  rfl

/-- A request is read and written back with its texts, media and thoughts in order exactly when each
of its contents is kept. -/
theorem requestOrder_iff {v : Value} {req : IrRequest} {ctx : ConvCtx}
    (hread : requestToIr v = .ok (req, ctx)) :
    (Spoken.all (req.messages.map Spoken.inConversation) = spokenContents v ∧
      spokenContents (requestFromIr req).1 = spokenContents v) ↔
      ∀ c ∈ contentsOf v, Kept hasPlace c := by
  obtain ⟨systemCtx, read, hrun, hmessages⟩ := requestToIr_ok hread
  obtain ⟨added, hadded, hnative, hsay⟩ := parseContents_say hrun
  have hsystem := systemMessages_silent v
  have hall (w : Spoken → Spoken) (hw : w {} = {}) :
      Spoken.all (req.messages.map fun m ↦ w (Spoken.inConversation m)) =
        Spoken.all ((contentsOf v).map fun c ↦ w (keptOf hasPlace c)) := by
    have hsilent : Spoken.all ((systemMessages v).1.map fun m ↦ w (Spoken.inConversation m)) = [] := by
      refine Spoken.all_eq_nil fun s hs ↦ ?_
      obtain ⟨m, hm, rfl⟩ := List.mem_map.1 hs
      rw [Spoken.inConversation, (hsystem m hm).1]
      exact hw
    rw [hmessages, hadded, List.map_append, Spoken.all_append, hsilent, List.nil_append, hsay w hw]
  have hextra : Map.get? req.extra "contents" = none := by
    obtain ⟨m, messages, tools, rfl, -, -, rfl⟩ := requestToIr_eq_ok.1 ⟨ctx, hread⟩
    show Map.get? (Map.insertAll _ (Map.without m knownRequestFields)) "contents" = none
    rw [Map.get?_insertAll_of_notMem (Map.notMem_keys_without m (by decide)), Map.get?_insertOpt,
      if_neg (by decide), Map.get?_nil]
  have hreads : ∀ m ∈ req.messages, Read m.content := by
    intro m hm
    rw [hmessages, hadded] at hm
    rcases List.mem_append.1 hm with hm | hm
    · obtain ⟨-, t, ht⟩ := hsystem m hm
      exact read_text ht
    · exact hnative m hm
  rw [spokenContents_requestFromIr hextra hreads, hall backOf rfl]
  rw [show (req.messages.map Spoken.inConversation) =
    req.messages.map fun m ↦ id (Spoken.inConversation m) from rfl, hall id rfl, spokenContents]
  simp only [id_eq]
  rw [Spoken.all_map_eq_iff fun c _ h ↦ keptOf_silent h, Spoken.all_map_eq_iff fun c _ h ↦ by
    rw [keptOf_silent h]; rfl, ← forall₂_and]
  exact forall₂_congr fun c _ ↦ kept_iff hasPlace c

/-! ### Responses -/

/-- The candidates of a response. -/
def candidatesIn (v : Value) : List Value := ((v.get? "candidates").bind Value.asArray).getD []

/-- What a candidate says. -/
def spokenCandidate (c : Value) : Spoken := ((c.get? "content").map spokenOf).getD {}

/-- What is left of a candidate. -/
def keptCandidate (c : Value) : Spoken :=
  ((c.get? "content").map (keptOf hasResponsePlace)).getD {}

/-- The message of a candidate says what is left of it. -/
theorem parseCandidate_spoken (i : ℕ) (c : Value) :
    Spoken.ofMessage (parseCandidate i c).1.message = keptCandidate c ∧
      Read (parseCandidate i c).1.message.content := by
  rw [parseCandidate, keptCandidate]
  cases c.get? "content" with
  | none => exact ⟨rfl, fun part hpart ↦ (List.not_mem_nil hpart).elim, fun t ↦ by simp⟩
  | some content =>
    have hheaps := heaps_foldl_parseResponsePart (partsOf content) {}
    refine ⟨ofMessage_heaps hheaps rfl rfl, read_partsContent ?_⟩
    have hnative := native_heaps hasResponsePlace (partsOf content)
    rw [show Heaps.mk [] [] none = ({} : ResponsePartsAcc).heaps from rfl, ← hheaps] at hnative
    exact hnative

theorem choices_of_responseToIr {v : Value} {resp : IrResponse} {ctx : ConvCtx}
    (hread : responseToIr v = .ok (resp, ctx)) :
    resp.choices = ((candidatesIn v).mapIdx parseCandidate).map Prod.fst := by
  cases v with
  | obj m =>
    obtain ⟨candidates, hcandidates, h⟩ := bind_eq_ok.1 hread
    rw [← (Prod.mk.inj (Except.ok.inj h)).1]
    have hsame : candidatesIn (.obj m) = candidates := by
      rw [candidatesIn]
      cases hget : (Value.obj m).get? "candidates" with
      | none =>
        rw [hget] at hcandidates
        exact Except.ok.inj hcandidates
      | some w =>
        rw [hget] at hcandidates
        cases w with
        | arr items => exact Except.ok.inj hcandidates
        | _ => exact nomatch hcandidates
    rw [hsame]
  | _ => exact nomatch hread

omit [SerdeJson] in
/-- The parts of a candidate that is written. -/
theorem partsOf_candidateToJson (parts : List Value) (index : UInt32)
    (finishReason : Option String) :
    ((candidateToJson parts index finishReason).get? "content").map partsOf = some parts := by
  have hcontent : (candidateToJson parts index finishReason).get? "content" =
      some (candidateContent parts) := by
    rw [candidateToJson, Value.get?_obj, Map.get?_insertPresent (by simp)]
    rfl
  rw [hcontent, Option.map_some, partsOf, candidateContent, Value.get?_obj,
    Map.get?_insertPresent (by simp)]
  cases parts <;> rfl

omit [SerdeJson] in
/-- A candidate that is written says what its message says, but for a lone empty text. -/
theorem spokenCandidate_candidateToJson (parts : List Value) (index : UInt32)
    (finishReason : Option String) :
    spokenCandidate (candidateToJson parts index finishReason) = spokenParts parts := by
  obtain ⟨content, hcontent, hparts⟩ :=
    Option.map_eq_some_iff.1 (partsOf_candidateToJson parts index finishReason)
  rw [spokenCandidate, hcontent, Option.map_some, Option.getD_some, spokenOf, hparts, spokenParts]

/-- A response is read and written back with its texts, media and thoughts in order exactly when
the content of each of its candidates is kept. -/
theorem responseOrder_iff {v : Value} {resp : IrResponse} {ctx : ConvCtx}
    (hread : responseToIr v = .ok (resp, ctx)) :
    (resp.choices.map (fun choice ↦ Spoken.ofMessage choice.message) =
        (candidatesIn v).map spokenCandidate ∧
      (candidatesIn (responseFromIr resp).1).map spokenCandidate =
        (candidatesIn v).map spokenCandidate) ↔
      ∀ c ∈ candidatesIn v, ∀ content, c.get? "content" = some content →
        Kept hasResponsePlace content := by
  have hchoices := choices_of_responseToIr hread
  have hmap (f : IrChoice → Spoken) (g : Value → Spoken)
      (h : ∀ i c, f (parseCandidate i c).1 = g c) :
      resp.choices.map f = (candidatesIn v).map g := by
    rw [hchoices, List.map_map]
    refine List.ext_getElem (by simp) fun i hi _ ↦ ?_
    simp only [List.getElem_map, List.getElem_mapIdx, Function.comp_apply, h]
  have hspoken := hmap (fun choice ↦ Spoken.ofMessage choice.message) keptCandidate
    fun i c ↦ (parseCandidate_spoken i c).1
  have hwritten : (candidatesIn (responseFromIr resp).1).map spokenCandidate =
      (candidatesIn v).map fun c ↦ backOf (keptCandidate c) := by
    have hcandidates : candidatesIn (responseFromIr resp).1 = resp.choices.map fun choice ↦
        candidateToJson (messageToResponseParts choice.message).1 choice.index
          choice.finishReason := by
      rw [candidatesIn, responseFromIr]
      dsimp only
      rw [Value.get?_obj, Map.get?_insertPresent (by simp), List.map_map]
      rfl
    rw [hcandidates, List.map_map]
    refine hmap _ _ fun i c ↦ ?_
    obtain ⟨hsay, hnative⟩ := parseCandidate_spoken i c
    rw [Function.comp_apply, spokenCandidate_candidateToJson,
      spokenParts_messageToResponseParts hnative, hsay]
  rw [hspoken, hwritten, List.map_inj_left, List.map_inj_left, ← forall₂_and]
  refine forall₂_congr fun c _ ↦ ?_
  rw [keptCandidate, spokenCandidate]
  cases c.get? "content" with
  | none => exact iff_of_true ⟨rfl, rfl⟩ fun content h ↦ nomatch h
  | some content =>
    refine (kept_iff hasResponsePlace content).trans ?_
    exact ⟨fun h content' hcontent ↦ Option.some.inj hcontent ▸ h, fun h ↦ h content rfl⟩

end Writers

end NextApi.Gemini
