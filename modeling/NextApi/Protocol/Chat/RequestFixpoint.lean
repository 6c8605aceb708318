import Mathlib.Data.List.Forall2
import Mathlib.Data.List.TakeWhile
import NextApi.Json.Compact
import NextApi.Protocol.RequestReaders

/-!
# A Chat request, read, written and read again

Reading gives parts of a content that the writer can write so that they are read again
(`parsePart_partToJson`), and so do messages, tools and options. What does not come back is a tool
choice in the flat form of Responses, which is written in the form of Chat.

An image is written as `image_url` with an object that has the `url`, unless its data is inline:
then the address is written in the place of the object (`again_and_shaped_iff`).
-/

set_option autoImplicit false

namespace NextApi.Chat

open Json Ir

/-! ### Parts -/

/-- The parts that reading gives. -/
def Readable : IrPart → Prop
  | .text _ | .inputAudio _ _ => True
  | .imageUrl url => url ≠ "" ∧ ¬ "data:".toList <+: url.toList
  | .imageInline mediaType _ => ';' ∉ mediaType.toList
  | .file name url data => ¬ (name = "" ∧ url = none ∧ data = none)

theorem splitOnce_append {c : Char} {before : List Char} (h : c ∉ before) (after : List Char) :
    splitOnce c (before ++ c :: after) = some (before, after) := by
  have hne : ∀ x ∈ before, decide (x ≠ c) = true := fun x hx ↦ by
    rw [decide_eq_true_eq]
    exact fun heq ↦ h (heq ▸ hx)
  rw [splitOnce, if_pos (List.mem_append_right _ List.mem_cons_self),
    List.takeWhile_append_of_pos hne, List.dropWhile_append_of_pos hne,
    List.takeWhile_cons_of_neg (by simp), List.dropWhile_cons_of_neg (by simp), List.append_nil,
    List.tail_cons]

theorem notMem_of_splitOnce {c : Char} {text before after : List Char}
    (h : splitOnce c text = some (before, after)) : c ∉ before := by
  rw [splitOnce] at h
  split at h
  · rw [← (Prod.mk.inj (Option.some.inj h)).1]
    intro hmem
    have hne := List.mem_takeWhile_imp hmem
    exact absurd rfl (of_decide_eq_true hne)
  · exact nomatch h

/-- The media type of an address that is split has no semicolon. -/
theorem notMem_splitDataUrl (rest : String) : ';' ∉ (splitDataUrl rest).1.toList := by
  have hdefault : ';' ∉ mediaDefault.toList := by decide
  unfold splitDataUrl
  split
  · rename_i media after hsplit
    have hmedia := notMem_of_splitOnce hsplit
    split <;> simpa using hmedia
  · split <;> exact hdefault

/-- An address with inline data is split into what it was made of. -/
theorem splitDataUrl_written {mediaType data : String} (h : ';' ∉ mediaType.toList) :
    splitDataUrl (mediaType ++ ";base64," ++ data) = (mediaType, data) := by
  have hlist : (mediaType ++ ";base64," ++ data).toList =
      mediaType.toList ++ ';' :: ("base64".toList ++ ',' :: data.toList) := by
    simp
  rw [splitDataUrl, hlist, splitOnce_append h]
  dsimp only
  rw [splitOnce_append (show ',' ∉ "base64".toList by decide)]
  simp

theorem parseImageUrl_readable {v : Value} {p : IrPart} (h : (parseImageUrl v).1 = some p) :
    Readable p ∧ (((∃ media data, p = .imageInline media data) ↔
      ∃ url, (imageUrlOf v).1 = some url ∧ "data:".toList <+: url.toList)) := by
  unfold parseImageUrl at h
  split at h
  · exact nomatch h
  · rename_i url ctx hurl
    have haddress : (imageUrlOf v).1 = some url := by rw [hurl]
    split at h
    · exact nomatch h
    · rename_i hne
      split at h
      · rename_i hdata
        rw [← Option.some.inj h]
        exact ⟨notMem_splitDataUrl _, iff_of_true ⟨_, _, rfl⟩ ⟨url, haddress, hdata⟩⟩
      · rename_i hdata
        rw [← Option.some.inj h]
        refine ⟨⟨hne, hdata⟩, iff_of_false (fun ⟨_, _, heq⟩ ↦ nomatch heq) ?_⟩
        intro ⟨url', hurl', hdata'⟩
        rw [Option.some.inj (haddress.symm.trans hurl')] at hdata
        exact hdata hdata'

/-- A part that carries an image inline. -/
def IsInline (p : Value) : Prop :=
  p["type"].strOrEmpty = "image_url" ∧
    ∃ url, (imageUrlOf p["image_url"]).1 = some url ∧ "data:".toList <+: url.toList

/-- A part that is kept can be written, and is an inline image when it was one. -/
theorem parsePart_readable {p : Value} {part : IrPart} (h : (parsePart p).1 = some part) :
    Readable part ∧ ((∃ media data, part = .imageInline media data) ↔ IsInline p) := by
  unfold parsePart at h
  split at h
  · split at h
    · rename_i htype
      rw [← Option.some.inj h]
      refine ⟨trivial, iff_of_false (fun ⟨_, _, heq⟩ ↦ nomatch heq) fun hinline ↦ ?_⟩
      exact absurd (htype.symm.trans hinline.1) (by decide)
    · rename_i htype
      obtain ⟨hreadable, hinline⟩ := parseImageUrl_readable h
      rw [hinline, IsInline, htype]
      exact ⟨hreadable, (and_iff_right rfl).symm⟩
    · rename_i htype
      rw [← Option.some.inj h]
      refine ⟨trivial, iff_of_false (fun ⟨_, _, heq⟩ ↦ nomatch heq) fun hinline ↦ ?_⟩
      exact absurd (htype.symm.trans hinline.1) (by decide)
    · rename_i htype
      rw [parseFile] at h
      split at h
      · dsimp only at h
        split at h
        · exact nomatch h
        · rename_i hempty
          rw [← Option.some.inj h]
          refine ⟨hempty, iff_of_false (fun ⟨_, _, heq⟩ ↦ nomatch heq) fun hinline ↦ ?_⟩
          exact absurd (htype.symm.trans hinline.1) (by decide)
      · exact nomatch h
    · exact nomatch h
  · exact nomatch h

/-- An inline image is kept. -/
theorem isSome_parsePart {p : Value} (h : IsInline p) : (parsePart p).1.isSome = true := by
  obtain ⟨htype, url, hurl, hdata⟩ := h
  have hobj : p.isObject = true := by
    cases p with
    | obj m => rfl
    | _ => exact absurd (show "" = "image_url" from htype) (by decide)
  have hne : url ≠ "" := by
    intro heq
    rw [heq] at hdata
    exact absurd hdata (by decide)
  rw [parsePart, if_pos hobj, htype]
  show (parseImageUrl p["image_url"]).1.isSome = true
  unfold parseImageUrl
  split
  · rename_i hnone
    rw [hnone] at hurl
    exact nomatch hurl
  · rename_i url' ctx hsome
    rw [hsome] at hurl
    rw [Option.some.inj hurl, if_neg hne, if_pos hdata]
    rfl

/-- The members of a file that is written. -/
def fileMembers (name : String) (url data : Option String) : Map :=
  Map.insertPresent []
    [("file_name", if name = "" then none else some (.str name)), ("file_url", url.map .str),
      ("file_data", data.map .str)]

theorem parseFile_fileMembers (name : String) (url data : Option String) :
    parseFile (.obj (fileMembers name url data)) =
      if name = "" ∧ url = none ∧ data = none then
        (none, degrade "content.file" "file part 无内容")
      else (some (.file name url data), []) := by
  have hmember (key : String) : (Value.obj (fileMembers name url data))[key].asStr =
      (Map.written [("file_name", if name = "" then none else some (Value.str name)),
        ("file_url", url.map .str), ("file_data", data.map .str)] key).bind Value.asStr := by
    rw [Value.getElem_eq, Value.get?_obj, fileMembers, Map.get?_insertPresent (by simp),
      Map.get?_nil, Option.or_none]
    cases Map.written _ key <;> rfl
  rw [parseFile, if_pos (Value.isObject_obj _)]
  simp only [hmember, Map.written_cons, Map.written_nil, String.reduceEq, if_false, if_true]
  by_cases hname : name = ""
  · subst hname
    cases url <;> cases data <;> rfl
  · rw [if_neg hname]
    cases url <;> cases data <;> rfl

/-- A part that can be written is read again. -/
theorem parsePart_partToJson {p : IrPart} (h : Readable p) : parsePart (partToJson p) = (some p, [])
    := by
  cases p with
  | text text => rfl
  | inputAudio data format => rfl
  | imageUrl url =>
    show parseImageUrl (.object [("url", .str url)]) = _
    have hread : imageUrlOf (.object [("url", .str url)]) = (some url, []) := rfl
    rw [parseImageUrl, hread]
    dsimp only
    rw [if_neg h.1, if_neg h.2]
  | imageInline mediaType data =>
    show parseImageUrl (.str ("data:" ++ mediaType ++ ";base64," ++ data)) = _
    have hlist : ("data:" ++ mediaType ++ ";base64," ++ data).toList =
        "data:".toList ++ (mediaType ++ ";base64," ++ data).toList := by
      simp
    have hne : "data:" ++ mediaType ++ ";base64," ++ data ≠ "" := by
      intro heq
      rw [heq] at hlist
      exact absurd hlist (by simp)
    have hdrop : String.ofList (("data:" ++ mediaType ++ ";base64," ++ data).toList.drop 5) =
        mediaType ++ ";base64," ++ data := by
      rw [hlist, List.drop_left' (by decide), String.ofList_toList]
    rw [parseImageUrl, imageUrlOf]
    dsimp only
    rw [if_neg hne, if_pos (hlist ▸ List.prefix_append _ _), hdrop,
      splitDataUrl_written h]
  | file name url data =>
    show parseFile (.obj (fileMembers name url data)) = _
    rw [parseFile_fileMembers, if_neg h]

/-! ### Messages -/

/-- The parts of a content. -/
def partsOf : Option IrContent → List IrPart
  | some (.parts ps) => ps
  | _ => []

/-- The content is not an empty list of parts, and its parts can be written. -/
structure ReadableContent (content : Option IrContent) : Prop where
  nonempty : content ≠ some (.parts [])
  parts : ∀ p ∈ partsOf content, Readable p

/-- The items of an array. -/
def itemsOf (v : Option Value) : List Value := (v.bind Value.asArray).getD []

theorem partsOf_parseContent (v : Option Value) :
    partsOf (parseContent v).1 = (itemsOf v).filterMap fun p ↦ (parsePart p).1 := by
  unfold parseContent
  split
  · rfl
  · rfl
  · rfl
  · rename_i items
    show partsOf (if ((items.filterMap fun p ↦ (parsePart p).1)).isEmpty then none else _) = _
    split
    · rename_i hempty
      exact (List.isEmpty_iff.1 hempty).symm
    · rfl
  · rename_i w hnull hstr harr
    cases w with
    | arr items => exact absurd rfl (harr items)
    | _ => rfl

/-- The content that reading gives can be written. -/
theorem readable_parseContent (v : Option Value) : ReadableContent (parseContent v).1 := by
  refine ⟨fun h ↦ ?_, fun p hp ↦ ?_⟩
  · unfold parseContent at h
    split at h
    · exact nomatch h
    · exact nomatch h
    · exact nomatch h
    · rename_i items
      have hread : (if (items.filterMap fun p ↦ (parsePart p).1).isEmpty then none
          else some (IrContent.parts (items.filterMap fun p ↦ (parsePart p).1))) =
            some (.parts []) := h
      split at hread
      · exact nomatch hread
      · rename_i hne
        exact hne (List.isEmpty_iff.2 (IrContent.parts.inj (Option.some.inj hread)))
    · exact nomatch h
  · rw [partsOf_parseContent] at hp
    obtain ⟨item, -, hitem⟩ := List.mem_filterMap.1 hp
    exact (parsePart_readable hitem).1

/-- Some part is an image inline. -/
def HasInline (ps : List IrPart) : Prop := ∃ mediaType data, IrPart.imageInline mediaType data ∈ ps

theorem hasInline_parseContent (v : Option Value) :
    HasInline (partsOf (parseContent v).1) ↔ ∃ p ∈ itemsOf v, IsInline p := by
  rw [partsOf_parseContent]
  constructor
  · intro ⟨mediaType, data, hmem⟩
    obtain ⟨item, hitem, hpart⟩ := List.mem_filterMap.1 hmem
    exact ⟨item, hitem, (parsePart_readable hpart).2.1 ⟨mediaType, data, rfl⟩⟩
  · intro ⟨item, hitem, hinline⟩
    obtain ⟨part, hpart⟩ := Option.isSome_iff_exists.1 (isSome_parsePart hinline)
    obtain ⟨mediaType, data, rfl⟩ := (parsePart_readable hpart).2.2 hinline
    exact ⟨mediaType, data, List.mem_filterMap.2 ⟨item, hitem, hpart⟩⟩

/-- A content that can be written is read again. -/
theorem parseContent_contentToJson {content : Option IrContent} (h : ReadableContent content) :
    (parseContent (content.map contentToJson)).1 = content := by
  match content, h with
  | none, _ => rfl
  | some (.text s), _ => rfl
  | some (.parts ps), h =>
    have hread : (ps.map partToJson).filterMap (fun p ↦ (parsePart p).1) = ps := by
      rw [List.filterMap_map]
      calc ps.filterMap ((fun p ↦ (parsePart p).1) ∘ partToJson)
          = ps.filterMap some := List.filterMap_congr fun p hp ↦ by
            rw [Function.comp_apply, parsePart_partToJson (h.parts p hp)]
        _ = ps := List.filterMap_some
    have hne : ps.isEmpty = false := by
      rw [List.isEmpty_eq_false_iff]
      exact fun hnil ↦ h.nonempty (by rw [hnil])
    show (if (List.filterMap (fun p ↦ (parsePart p).1) (ps.map partToJson)).isEmpty then none
      else some (IrContent.parts _)) = _
    rw [hread, hne]
    rfl

section Messages

variable [SerdeJson]

/-- The message that is read from an object. -/
def messageOf (v : Value) : IrMessage where
  role := (parseRole v["role"].asStr).1
  name := v["name"].asStr
  content := (parseContent (v.get? "content")).1
  toolCallId := v["tool_call_id"].asStr
  reasoningContent := v["reasoning_content"].asStr
  toolCalls := (((v.get? "tool_calls").bind Value.asArray).getD []).filterMap
    fun tc ↦ (parseToolCall tc).1

theorem parseMessage_eq_ok {v : Value} {m : IrMessage} :
    (∃ ctx, parseMessage v = .ok (m, ctx)) ↔ v.isObject = true ∧ m = messageOf v := by
  have hobj (h : v.isObject = true) : ∃ ctx, parseMessage v = .ok (messageOf v, ctx) := by
    rw [parseMessage, if_pos h]
    exact ⟨_, rfl⟩
  constructor
  · intro ⟨ctx, h⟩
    cases hv : v.isObject with
    | true =>
      obtain ⟨ctx', hok⟩ := hobj hv
      exact ⟨rfl, (Prod.mk.inj (Except.ok.inj (h.symm.trans hok))).1⟩
    | false =>
      rw [parseMessage, hv] at h
      exact nomatch h
  · intro ⟨hv, hm⟩
    rw [hm]
    exact hobj hv

omit [SerdeJson] in
theorem parseRole_roleToStr (role : IrRole) : (parseRole (some (roleToStr role))).1 = role := by
  cases role <;> rfl

/-- A message whose content can be written is read again. -/
theorem parseMessage_messageToJson {m : IrMessage} (h : ReadableContent m.content) :
    ∃ ctx, parseMessage (messageToJson m) = .ok (m, ctx) := by
  refine parseMessage_eq_ok.2 ⟨rfl, ?_⟩
  have hget (key : String) : (messageToJson m).get? key =
      Map.written [("role", some (.str (roleToStr m.role))), ("content", m.content.map contentToJson),
        ("name", m.name.map .str),
        ("tool_calls",
          if m.toolCalls.isEmpty then none else some (.arr (m.toolCalls.map toolCallToJson))),
        ("tool_call_id", m.toolCallId.map .str),
        ("reasoning_content", m.reasoningContent.map .str)] key := by
    rw [messageToJson, Value.get?_obj, Map.get?_insertPresent (by simp), Map.get?_nil,
      Option.or_none]
  have hcalls : ((((messageToJson m).get? "tool_calls").bind Value.asArray).getD []).filterMap
      (fun tc ↦ (parseToolCall tc).1) = m.toolCalls := by
    rw [show (messageToJson m).get? "tool_calls" = if m.toolCalls.isEmpty then none
      else some (.arr (m.toolCalls.map toolCallToJson)) from hget "tool_calls"]
    cases hempty : m.toolCalls.isEmpty with
    | true => exact (List.isEmpty_iff.1 hempty).symm
    | false =>
      show (m.toolCalls.map toolCallToJson).filterMap (fun tc ↦ (parseToolCall tc).1) = m.toolCalls
      rw [List.filterMap_map]
      exact List.filterMap_some
  have hstr (key : String) (s : Option String) (hkey : (messageToJson m).get? key = s.map .str) :
      (messageToJson m)[key].asStr = s := by
    rw [Value.getElem_eq, hkey]
    exact asStr_map_str s
  have hrole := hstr "role" (some (roleToStr m.role)) (hget "role")
  have hname := hstr "name" m.name (hget "name")
  have hid := hstr "tool_call_id" m.toolCallId (hget "tool_call_id")
  have hreasoning := hstr "reasoning_content" m.reasoningContent (hget "reasoning_content")
  have hcontent : (parseContent ((messageToJson m).get? "content")).1 = m.content := by
    rw [hget]
    exact parseContent_contentToJson h
  rw [messageOf, hrole, hname, hid, hreasoning, hcontent, hcalls, parseRole_roleToStr]

/-- Messages are read from objects, and one by one. -/
theorem map_readMessages_eq_ok {v : Value} {items : List Value}
    (h : v.get? "messages" = some (.arr items)) {messages : List IrMessage} :
    (readMessages v).map Prod.fst = .ok messages ↔
      (∀ msg ∈ items, msg.isObject = true) ∧ messages = items.map messageOf := by
  have hone (x : Value) (m : IrMessage) : (∃ y, parseMessage x = .ok y ∧ y.1 = m) ↔
      x.isObject = true ∧ m = messageOf x := by
    rw [← parseMessage_eq_ok]
    exact ⟨fun ⟨y, hy, hm⟩ ↦ ⟨y.2, by rw [hy, ← hm]⟩, fun ⟨ctx, hctx⟩ ↦ ⟨(m, ctx), hctx, rfl⟩⟩
  have hread : readMessages v = (items.mapM parseMessage).map fun read ↦
      (read.map Prod.fst, read.flatMap Prod.snd) := by
    rw [readMessages, h]
    rfl
  rw [hread, ← exists_mapM_eq_ok hone]
  constructor
  · intro hok
    obtain ⟨pair, hpair, rfl⟩ := map_eq_ok.1 hok
    obtain ⟨read, hitems, rfl⟩ := map_eq_ok.1 hpair
    exact ⟨read, hitems, rfl⟩
  · intro ⟨read, hitems, hmessages⟩
    rw [hitems, ← hmessages]
    rfl

/-- The messages of a request that was read. -/
theorem messages_of_readMessages {v : Value} {messages : List IrMessage}
    (h : (readMessages v).map Prod.fst = .ok messages) :
    messages = (itemsOf (v.get? "messages")).map messageOf := by
  cases hmsgs : v.get? "messages" with
  | none =>
    rw [readMessages, hmsgs] at h
    exact (Except.ok.inj h).symm
  | some msgs =>
    cases msgs with
    | arr items => exact ((map_readMessages_eq_ok hmsgs).1 h).2
    | _ =>
      rw [readMessages, hmsgs] at h
      exact nomatch h

end Messages

/-! ### Tools and options -/

theorem readTools_written {v : Value} {tools : List IrTool}
    (h : v.get? "tools" = if tools.isEmpty then none else some (.arr (tools.map toolToJson))) :
    (readTools v).map Prod.fst = .ok tools := by
  have htool (t : IrTool) : parseTool (toolToJson t) = (some t, []) := by
    have hget (key : String) : (toolToJson t)["function"].get? key =
        Map.written [("name", some (.str t.name)), ("description", t.description.map .str),
          ("parameters", some t.parameters)] key := by
      show Map.get? (Map.insertPresent [] _) key = _
      rw [Map.get?_insertPresent (by simp), Map.get?_nil, Option.or_none]
    rw [parseTool, if_pos (show (toolToJson t)["type"].strOrEmpty = "function" from rfl)]
    simp only [Value.getElem_eq _ "name", Value.getElem_eq _ "description", hget, Map.written_cons,
      String.reduceEq, if_false, if_true]
    rw [asStr_map_str]
    rfl
  rw [readTools, h]
  cases tools with
  | nil => rfl
  | cons t rest =>
    have hread : ((t :: rest).map toolToJson).filterMap (fun t ↦ (parseTool t).1) = t :: rest := by
      rw [List.filterMap_map]
      calc (t :: rest).filterMap ((fun t ↦ (parseTool t).1) ∘ toolToJson)
          = (t :: rest).filterMap some := List.filterMap_congr fun t _ ↦ by
            rw [Function.comp_apply, htool]
        _ = t :: rest := List.filterMap_some
    show Except.ok (((t :: rest).map toolToJson).filterMap fun t ↦ (parseTool t).1) = _
    rw [hread]

/-- A tool choice names a function in the form of Responses. -/
def Flat (tc : Value) : Prop :=
  tc["type"].asStr = some "function" ∧ tc.get? "function" = none ∧ (tc.get? "name").isSome = true

/-- A tool choice is written as it is unless it is in the form of Responses. -/
theorem wrapToolChoice_eq_self (tc : Value) : wrapToolChoice tc = tc ↔ ¬ Flat tc := by
  cases tc with
  | obj m =>
    have htype : (Value.obj m)["type"].asStr = (Map.get? m "type").bind Value.asStr := by
      rw [Value.getElem_eq, Value.get?_obj]
      cases Map.get? m "type" <;> rfl
    rw [Flat, htype, Value.get?_obj, Value.get?_obj, wrapToolChoice]
    by_cases hflat : (Map.get? m "type").bind Value.asStr = some "function" ∧
        Map.get? m "function" = none
    · rw [if_pos hflat]
      cases hname : Map.get? m "name" with
      | none => exact iff_of_true rfl fun h ↦ nomatch h.2.2
      | some name =>
        refine iff_of_false (fun h ↦ ?_) fun h ↦ h ⟨hflat.1, hflat.2, rfl⟩
        have hget : (namedChoice name).get? "function" = none := by
          rw [show namedChoice name = .obj m from h]
          exact hflat.2
        exact nomatch hget
    · rw [if_neg hflat]
      exact iff_of_true rfl fun h ↦ hflat ⟨h.1, h.2.1⟩
  | _ => exact iff_of_true rfl fun h ↦ nomatch h.2.2

/-- A signed number that was read is read again. -/
theorem asI64_map_int_asI64 (v : Value) : ((v.asI64.map Value.int).getD .null).asI64 = v.asI64 := by
  cases v with
  | int i =>
    by_cases h : i < 2 ^ 63
    · rw [Value.asI64, if_pos h, Option.map_some, Option.getD_some, Value.asI64, if_pos h]
    · rw [Value.asI64, if_neg h]
      rfl
  | _ => rfl

/-- A limit under one of its names is read. -/
theorem readMaxTokens_written {v : Value} {field : MaxTokensField} {limit : Option ℕ}
    (h : ∀ f, v.get? (maxTokensKey f) = if f = field then limit.map .ofNat else none) :
    readMaxTokens v = limit := by
  have hcompletion : v.get? "max_completion_tokens" = _ := h .maxCompletionTokens
  have hplain : v.get? "max_tokens" = _ := h .maxTokens
  cases field <;> cases limit <;>
    simp only [reduceCtorEq, if_true, if_false, Option.map_some,
      Option.map_none] at hcompletion hplain <;>
    simp [readMaxTokens, maxTokensField, given, maxTokensKey, hcompletion, hplain, Value.isNull,
      Value.ofNat, Value.asU64]

/-! ### The theorem -/

/-- Two requests say the same. -/
structure SameRequest (req req' : IrRequest) : Prop where
  model : req'.model = req.model
  messages : req'.messages = req.messages
  tools : req'.tools = req.tools
  toolChoice : req'.toolChoice = req.toolChoice
  responseFormat : req'.responseFormat = req.responseFormat
  temperature : req'.temperature = req.temperature
  topP : req'.topP = req.topP
  maxTokens : req'.maxTokens = req.maxTokens
  stop : req'.stop = req.stop
  seed : req'.seed = req.seed
  n : req'.n = req.n
  user : req'.user = req.user
  stream : req'.stream = req.stream
  streamIncludeUsage : req'.streamIncludeUsage = req.streamIncludeUsage

/-- Every image of a written request is an object that has the address. -/
def ImagesShaped (v : Value) : Prop :=
  ∀ msg ∈ itemsOf (v.get? "messages"), ∀ p ∈ itemsOf (msg.get? "content"),
    p["type"].asStr = some "image_url" →
      ∃ url, p = .object [("type", .str "image_url"), ("image_url", .object [("url", .str url)])]

/-- Some message of a request has an image inline. -/
def CarriesInline (v : Value) : Prop :=
  ∃ msg ∈ itemsOf (v.get? "messages"), ∃ p ∈ itemsOf (msg.get? "content"), IsInline p

section Requests

variable [SerdeJson] {req : IrRequest}

/-- A written request has the members that are written, whatever it carries. -/
theorem get?_requestFromIr {m : Map} {messages : List IrMessage} {tools : List IrTool}
    (hreq : req = requestOf m messages tools) {key : String} (hkey : key ∈ knownRequestFields) :
    (requestFromIr req).1.get? key = Map.written (requestMembers req) key := by
  have hcarried : Map.get? req.extra key = none := by
    rw [hreq]
    show Map.get? (Map.insertAll [] (Map.without m knownRequestFields)) key = none
    rw [Map.get?_insertAll_of_notMem (Map.notMem_keys_without m hkey), Map.get?_nil]
  have hget := NextApi.get?_requestFromIr .openaiChat req key
  rw [show laidDown .openaiChat req = req.extra from rfl, hcarried, Option.or_none] at hget
  exact hget

omit [SerdeJson] in
/-- A written part has the shape of an image unless it is an image inline. -/
theorem partToJson_shaped (p : IrPart) :
    ((partToJson p)["type"].asStr = some "image_url" →
      ∃ url, partToJson p =
        .object [("type", .str "image_url"), ("image_url", .object [("url", .str url)])]) ↔
      ¬ ∃ mediaType data, p = .imageInline mediaType data := by
  cases p with
  | imageUrl url => exact iff_of_true (fun _ ↦ ⟨url, rfl⟩) fun ⟨_, _, h⟩ ↦ nomatch h
  | imageInline mediaType data =>
    refine iff_of_false (fun h ↦ ?_) fun h ↦ h ⟨mediaType, data, rfl⟩
    obtain ⟨url, hurl⟩ := h rfl
    have hget := congrArg (fun v ↦ v.get? "image_url") hurl
    exact nomatch hget
  | text text =>
    refine iff_of_true (fun h ↦ absurd (Option.some.inj h) ?_) fun ⟨_, _, h⟩ ↦ nomatch h
    decide
  | inputAudio data format =>
    refine iff_of_true (fun h ↦ absurd (Option.some.inj h) ?_) fun ⟨_, _, h⟩ ↦ nomatch h
    decide
  | file name url data =>
    refine iff_of_true (fun h ↦ absurd (Option.some.inj h) ?_) fun ⟨_, _, h⟩ ↦ nomatch h
    decide

omit [SerdeJson] in
theorem itemsOf_messageToJson (m : IrMessage) :
    itemsOf ((messageToJson m).get? "content") = (partsOf m.content).map partToJson := by
  have hget : (messageToJson m).get? "content" = m.content.map contentToJson := by
    rw [messageToJson, Value.get?_obj, Map.get?_insertPresent (by simp)]
    simp
  rw [hget]
  match m.content with
  | none => rfl
  | some (.text s) => rfl
  | some (.parts ps) => rfl

omit [SerdeJson] in
/-- The images are shaped when none is inline. -/
theorem imagesShaped_iff {v : Value} (h : v.get? "messages" =
    some (.arr (req.messages.map messageToJson))) :
    ImagesShaped v ↔ ∀ m ∈ req.messages, ¬ HasInline (partsOf m.content) := by
  have hitems : itemsOf (v.get? "messages") = req.messages.map messageToJson := by
    rw [h]
    rfl
  rw [ImagesShaped, hitems, List.forall_mem_map]
  refine forall₂_congr fun m _ ↦ ?_
  rw [itemsOf_messageToJson, List.forall_mem_map]
  constructor
  · intro hshaped ⟨mediaType, data, hmem⟩
    exact (partToJson_shaped _).1 (hshaped _ hmem) ⟨mediaType, data, rfl⟩
  · intro hnone p hp
    refine (partToJson_shaped p).2 ?_
    rintro ⟨mediaType, data, rfl⟩
    exact hnone ⟨mediaType, data, hp⟩

omit [SerdeJson] in
/-- A member of another name does not matter. -/
theorem written_append_cons {before after : List (String × Option Value)} {name key : String}
    (h : name ≠ key) (v : Option Value) :
    Map.written (before ++ (name, v) :: after) key = Map.written (before ++ after) key := by
  induction before with
  | nil => exact if_neg h
  | cons member rest ih =>
    rw [List.cons_append, List.cons_append, Map.written_cons, Map.written_cons, ih]

omit [SerdeJson] in
/-- The name of the token limit does not matter for the other members. -/
theorem written_other (req : IrRequest) {key : String} (h : ∀ f, maxTokensKey f ≠ key) :
    Map.written (requestMembers req) key =
      Map.written (requestMembers { req with maxTokensField := none }) key := by
  have hsplit (field : Option MaxTokensField) :
      requestMembers { req with maxTokensField := field } = (requestMembers req).take 6 ++
        (maxTokensKey (field.getD .maxTokens), req.maxTokens.map .ofNat) ::
          (requestMembers req).drop 7 := rfl
  calc Map.written (requestMembers req) key
      = Map.written ((requestMembers req).take 6 ++ (requestMembers req).drop 7) key := by
        conv_lhs => rw [show requestMembers req = _ from hsplit req.maxTokensField]
        exact written_append_cons (h _) _
    _ = _ := by
        rw [hsplit]
        exact (written_append_cons (h _) _).symm

omit [SerdeJson] in
/-- The token limit of a request that was read is written under the name that it came with. -/
theorem written_maxTokens (req : IrRequest) (f : MaxTokensField) :
    Map.written (requestMembers req) (maxTokensKey f) =
      if f = req.maxTokensField.getD .maxTokens then req.maxTokens.map .ofNat else none := by
  rw [requestMembers]
  cases req.maxTokensField.getD .maxTokens <;> cases f <;> rfl

omit [SerdeJson] in
theorem maxTokensKey_ne {key : String} (h₁ : "max_tokens" ≠ key)
    (h₂ : "max_completion_tokens" ≠ key) (f : MaxTokensField) : maxTokensKey f ≠ key := by
  cases f with
  | maxTokens => exact h₁
  | maxCompletionTokens => exact h₂

omit [SerdeJson] in
/-- Every option of what was written is read again. -/
theorem sameRequest_requestOf {m₀ m : Map} {messages₀ : List IrMessage} {tools₀ : List IrTool}
    (hreq : req = requestOf m₀ messages₀ tools₀)
    (hwritten : ∀ key ∈ knownRequestFields,
      (Value.obj m).get? key = Map.written (requestMembers req) key)
    (hchoice : req.toolChoice.map wrapToolChoice = req.toolChoice) :
    SameRequest req (requestOf m req.messages req.tools) where
  model := by
    show (Value.obj m)["model"].strOrEmpty = req.model
    rw [Value.getElem_eq, hwritten _ (by decide)]
    rfl
  messages := rfl
  tools := rfl
  toolChoice := by
    show (Value.obj m).get? "tool_choice" = req.toolChoice
    rw [hwritten _ (by decide)]
    exact hchoice
  responseFormat := by
    show (Value.obj m).get? "response_format" = req.responseFormat
    rw [hwritten _ (by decide), written_other req (maxTokensKey_ne (by decide) (by decide))]
    rfl
  temperature := by
    show (Value.obj m)["temperature"].asF64 = req.temperature
    rw [Value.getElem_eq, hwritten _ (by decide)]
    exact asF64_map_float req.temperature
  topP := by
    show (Value.obj m)["top_p"].asF64 = req.topP
    rw [Value.getElem_eq, hwritten _ (by decide)]
    exact asF64_map_float req.topP
  maxTokens := by
    show readMaxTokens (.obj m) = req.maxTokens
    refine readMaxTokens_written fun f ↦ (hwritten _ ?_).trans (written_maxTokens req f)
    cases f <;> decide
  stop := by
    show ((Value.obj m).get? "stop").bind parseStop = req.stop
    rw [hwritten _ (by decide), written_other req (maxTokensKey_ne (by decide) (by decide))]
    show (req.stop.map fun stop ↦ Value.arr (stop.map .str)).bind parseStop = req.stop
    cases req.stop with
    | none => rfl
    | some stop => exact congrArg some (filterMap_asStr stop)
  seed := by
    show (Value.obj m)["seed"].asI64 = req.seed
    rw [Value.getElem_eq, hwritten _ (by decide),
      written_other req (maxTokensKey_ne (by decide) (by decide))]
    show ((req.seed.map Value.int).getD .null).asI64 = req.seed
    rw [hreq]
    exact asI64_map_int_asI64 _
  n := by
    show (Value.obj m)["n"].asU32 = req.n
    rw [Value.getElem_eq, hwritten _ (by decide),
      written_other req (maxTokensKey_ne (by decide) (by decide))]
    exact asU32_map_ofNat req.n
  user := by
    show (Value.obj m)["user"].asStr = req.user
    rw [Value.getElem_eq, hwritten _ (by decide),
      written_other req (maxTokensKey_ne (by decide) (by decide))]
    exact asStr_map_str req.user
  stream := by
    show (Value.obj m)["stream"].asBool.getD false = req.stream
    rw [Value.getElem_eq, hwritten _ (by decide),
      written_other req (maxTokensKey_ne (by decide) (by decide))]
    rfl
  streamIncludeUsage := by
    show readIncludeUsage (.obj m) = req.streamIncludeUsage
    rw [readIncludeUsage, hwritten _ (by decide),
      written_other req (maxTokensKey_ne (by decide) (by decide))]
    show ((((if req.streamIncludeUsage then some (Value.object [("include_usage", .bool true)])
      else none : Option Value).bind Value.asObject).bind fun so ↦
        (Map.get? so "include_usage").bind Value.asBool)).getD false = req.streamIncludeUsage
    cases req.streamIncludeUsage <;> rfl

/-- A request that was read says the same when it is written and read again, and its images are
shaped, exactly when it has no image inline and its tool choice is not in the form of Responses. -/
theorem again_and_shaped_iff {v : Value} {ctx : ConvCtx} (hread : requestToIr v = .ok (req, ctx)) :
    ((∃ req' ctx', requestToIr (requestFromIr req).1 = .ok (req', ctx') ∧ SameRequest req req') ∧
      ImagesShaped (requestFromIr req).1) ↔
      ¬ CarriesInline v ∧ ∀ tc, v.get? "tool_choice" = some tc → ¬ Flat tc := by
  obtain ⟨m₀, messages₀, tools₀, rfl, hmessages₀, -, hreq⟩ := requestToIr_eq_ok.1 ⟨ctx, hread⟩
  have hmsgs : req.messages = (itemsOf ((Value.obj m₀).get? "messages")).map messageOf := by
    rw [hreq]
    exact messages_of_readMessages hmessages₀
  have hwritten {key : String} (hkey : key ∈ knownRequestFields) :=
    get?_requestFromIr hreq hkey
  obtain ⟨m, hobj⟩ : ∃ m, (requestFromIr req).1 = .obj m := ⟨_, rfl⟩
  rw [hobj] at hwritten ⊢
  -- the messages and the tools are read again
  have harr : (Value.obj m).get? "messages" = some (.arr (req.messages.map messageToJson)) :=
    hwritten (by decide)
  have hagain : (readMessages (.obj m)).map Prod.fst = .ok req.messages := by
    refine (map_readMessages_eq_ok harr).2 ⟨fun msg hmsg ↦ ?_, ?_⟩
    · obtain ⟨m', -, rfl⟩ := List.mem_map.1 hmsg
      rfl
    · rw [List.map_map]
      conv_lhs => rw [← List.map_id req.messages]
      refine List.map_congr_left fun m' hm' ↦ ?_
      rw [hmsgs] at hm'
      obtain ⟨item, -, rfl⟩ := List.mem_map.1 hm'
      exact (parseMessage_eq_ok.1 (parseMessage_messageToJson (readable_parseContent _))).2
  have htools : (readTools (.obj m)).map Prod.fst = .ok req.tools :=
    readTools_written (hwritten (by decide))
  obtain ⟨ctx', hok⟩ := requestToIr_eq_ok.2 ⟨m, req.messages, req.tools, rfl, hagain, htools, rfl⟩
  -- the images and the tool choice
  have hshaped : ImagesShaped (.obj m) ↔ ¬ CarriesInline (.obj m₀) := by
    rw [imagesShaped_iff harr, hmsgs, List.forall_mem_map, CarriesInline]
    push Not
    refine forall₂_congr fun msg _ ↦ ?_
    rw [show (messageOf msg).content = (parseContent (msg.get? "content")).1 from rfl,
      hasInline_parseContent]
    push Not
    exact Iff.rfl
  have hchoice : req.toolChoice.map wrapToolChoice = req.toolChoice ↔
      ∀ tc, (Value.obj m₀).get? "tool_choice" = some tc → ¬ Flat tc := by
    rw [show req.toolChoice = (Value.obj m₀).get? "tool_choice" by rw [hreq]; rfl]
    cases (Value.obj m₀).get? "tool_choice" with
    | none => exact iff_of_true rfl fun tc h ↦ nomatch h
    | some tc =>
      rw [Option.map_some, Option.some_inj, wrapToolChoice_eq_self]
      exact ⟨fun h tc' htc ↦ Option.some.inj htc ▸ h, fun h ↦ h tc rfl⟩
  rw [hshaped, ← hchoice, and_comm]
  refine and_congr_right fun _ ↦ ⟨fun ⟨req', ctx'', hread', hsame⟩ ↦ ?_, fun h ↦ ?_⟩
  · rw [← (Prod.mk.inj (Except.ok.inj (hok.symm.trans hread'))).1] at hsame
    have hget : (Value.obj m).get? "tool_choice" = req.toolChoice.map wrapToolChoice :=
      hwritten (by decide)
    exact hget.symm.trans hsame.toolChoice
  · exact ⟨_, ctx', hok, sameRequest_requestOf hreq (fun key hkey ↦ hwritten hkey) h⟩

end Requests

section Concrete

local instance pictureCodec : SerdeJson := Compact.codec

/-- A question with a picture. -/
def picture (url : String) : Value :=
  .object
    [("messages", .arr [.object
      [("role", .str "user"),
        ("content", .arr [.object
          [("type", .str "image_url"), ("image_url", .object [("url", .str url)])]])]])]

/-- A picture by its address keeps its shape. -/
theorem again_and_shaped_address :
    ∃ req ctx, requestToIr (picture "https://a/b.png") = .ok (req, ctx) ∧
      (∃ req' ctx', requestToIr (requestFromIr req).1 = .ok (req', ctx') ∧ SameRequest req req') ∧
        ImagesShaped (requestFromIr req).1 := by
  obtain ⟨req, ctx, hread⟩ : ∃ req ctx,
      requestToIr (picture "https://a/b.png") = .ok (req, ctx) := ⟨_, _, rfl⟩
  have hchoice : (picture "https://a/b.png").get? "tool_choice" = none := rfl
  refine ⟨req, ctx, hread, (again_and_shaped_iff hread).2 ⟨?_, fun tc h ↦ ?_⟩⟩
  · rintro ⟨msg, hmsg, p, hp, -, url, hurl, hdata⟩
    obtain rfl := List.mem_singleton.1 hmsg
    obtain rfl := List.mem_singleton.1 hp
    rw [← Option.some.inj hurl] at hdata
    exact absurd hdata (by decide)
  · rw [hchoice] at h
    exact nomatch h

/-- A picture with its data inline is written without the object. -/
theorem not_shaped_inline :
    ∃ req ctx, requestToIr (picture "data:image/png;base64,AAAA") = .ok (req, ctx) ∧
      itemsOf ((requestFromIr req).1.get? "messages") = [.object
        [("role", .str "user"),
          ("content", .arr [.object
            [("type", .str "image_url"), ("image_url", .str "data:image/png;base64,AAAA")]])]] ∧
      ¬ ImagesShaped (requestFromIr req).1 := by
  refine ⟨_, _, rfl, rfl, fun h ↦ ?_⟩
  obtain ⟨url, hurl⟩ := h _ List.mem_cons_self _ List.mem_cons_self rfl
  have hget := congrArg (fun v ↦ v.get? "image_url") hurl
  exact nomatch hget

end Concrete

end NextApi.Chat
