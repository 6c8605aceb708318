import NextApi.Json.Compact
import NextApi.Protocol.Responses.Request

/-!
# The items of a Responses request

What an item of the `input` says is its `Item`: a message with its texts, a call, or the output of
a call. A message of the representation stands for a list of items (`itemsOf`). Reading an item adds
what it says at the end (`pushItem_items`), also where a call joins the assistant message before it,
and a message is written as the items it stands for (`inputItemsOf_items`), so that reading a
request and writing it again keeps its items and their order (`items_roundTrip`).
-/

set_option autoImplicit false

namespace NextApi.Responses

open Json Ir

/-! ### What an item says -/

inductive Item where
  | message (role : IrRole) (texts : List String)
  | call (call : IrToolCall)
  | output (callId text : String)
  deriving DecidableEq

/-- A value as text: a string itself, nothing for `null`, JSON for any other. -/
def asText [SerdeJson] : Value → String
  | .str s => s
  | .null => ""
  | v => SerdeJson.toText v

/-- The text of a part, if it is neither an image nor a file. -/
def partText (p : Value) : Option String :=
  match p["type"].strOrEmpty with
  | "input_text" => some p["text"].strOrEmpty
  | "input_image" | "input_file" => none
  | _ => (p.get? "text").bind Value.asStr

/-- The texts of a content: one string, or the texts of its parts. -/
def contentTexts : Option Value → Option (List String)
  | some (.str s) => some [s]
  | some (.arr parts) => some (parts.filterMap partText)
  | _ => none

/-- The two roles that messages have beside the instructions. -/
def speaker : Option String → Option IrRole
  | some "user" => some .user
  | some "assistant" => some .assistant
  | _ => none

/-- A message is what has a role and content; its type may be left out. -/
def readMessage (item : Value) : Option Item := do
  let role ← speaker item["role"].asStr
  let texts ← contentTexts (item.get? "content")
  return .message role texts

/-- A part that can be carried over: a text, an image with an address, or a file. -/
def Usable (p : Value) : Prop :=
  match p["type"].strOrEmpty with
  | "input_image" => imageUrlOf p["image_url"] ≠ ""
  | "input_file" =>
    (p["filename"].asStr.or p["file_id"].asStr).getD "" ≠ "" ∨
      (p["file_url"].asStr.or p["url"].asStr).isSome ∨ (p["file_data"].asStr.or p["data"].asStr).isSome
  | _ => (partText p).isSome

/-- The content is a string, or has a part that can be carried over. -/
def HasContent (item : Value) : Prop :=
  ∀ parts, item.get? "content" = some (.arr parts) → ∃ p ∈ parts, Usable p

/-- What an item of a request says. -/
def readItem [SerdeJson] (item : Value) : Option Item :=
  match item["type"].strOrEmpty with
  | "function_call" =>
    some (.call
      { id := (item["call_id"].asStr.or item["id"].asStr).getD ""
        name := item["name"].strOrEmpty
        arguments := asText item["arguments"] })
  | "function_call_output" => some (.output item["call_id"].strOrEmpty (asText item["output"]))
  | "reasoning" => none
  | _ => readMessage item

/-- An item says this, and is no message without content. -/
structure Says [SerdeJson] (item : Value) (i : Item) : Prop where
  read : readItem item = some i
  hasContent : ∀ role texts, i = .message role texts → HasContent item

/-! ### What a message stands for -/

/-- The text that a part is written as; audio becomes an empty one. -/
def partTextOf : IrPart → Option String
  | .text text => some text
  | .inputAudio _ _ => some ""
  | _ => none

def textsOf : IrContent → List String
  | .text s => [s]
  | .parts ps => ps.filterMap partTextOf

/-- The items that a message stands for: its content, and then its calls. -/
def itemsOf (m : IrMessage) : List Item :=
  match m.role with
  | .system => []
  | .user | .assistant =>
    (m.content.map fun content ↦ Item.message m.role (textsOf content)).toList ++
      m.toolCalls.map .call
  | .tool => [.output (m.toolCallId.getD "") (contentAsText m.content)]

/-! ### Reading an item -/

theorem parseArgumentsAny_eq [SerdeJson] (v : Value) : parseArgumentsAny v = asText v := by
  cases v <;> rfl

theorem functionCallOutputText_eq [SerdeJson] (v : Value) :
    (functionCallOutputText v).1 = asText v := by
  cases v <;> rfl

/-- What is no object has no type. -/
theorem typeOf_eq_empty {v : Value} (h : v.isObject ≠ true) : v["type"].strOrEmpty = "" := by
  cases v with
  | obj m => exact absurd rfl h
  | _ => rfl

theorem partTextOf_parseInputImage (p : Value) :
    (parseInputImage p).1.bind partTextOf = none := by
  rw [parseInputImage]
  split
  · rfl
  · rw [imagePart]
    dsimp only
    split <;> rfl

theorem partTextOf_parseInputFile (p : Value) :
    (parseInputFile p).1.bind partTextOf = none := by
  rw [parseInputFile]
  split <;> rfl

/-- A part that is kept has the text of the one it was read from, and no text is dropped. -/
theorem partText_parse (p : Value) :
    (parseInputContentPart p).1.bind partTextOf = partText p := by
  by_cases hobject : p.isObject = true
  · rw [parseInputContentPart, if_pos hobject, partText]
    generalize p["type"].strOrEmpty = t
    by_cases htext : t = "input_text"
    · subst htext
      rfl
    by_cases himage : t = "input_image"
    · subst himage
      exact partTextOf_parseInputImage p
    by_cases hfile : t = "input_file"
    · subst hfile
      exact partTextOf_parseInputFile p
    split
    · exact absurd rfl htext
    · exact absurd rfl himage
    · exact absurd rfl hfile
    · cases (p.get? "text").bind Value.asStr <;> simp [partTextOf]
  · rw [parseInputContentPart, if_neg hobject, partText, typeOf_eq_empty hobject]
    cases p with
    | obj m => exact absurd rfl hobject
    | _ => rfl

/-- What can be carried over is not dropped. -/
theorem parse_of_usable {p : Value} (h : Usable p) : (parseInputContentPart p).1.isSome = true := by
  by_cases hobject : p.isObject = true
  · have htext (hpart : (partText p).isSome = true) :
        (parseInputContentPart p).1.isSome = true := by
      rw [← partText_parse] at hpart
      cases hparse : (parseInputContentPart p).1 with
      | none =>
        rw [hparse] at hpart
        exact hpart
      | some part => rfl
    rw [Usable] at h
    split at h
    · next htype =>
      rw [parseInputContentPart, if_pos hobject, htype]
      show (parseInputImage p).1.isSome = true
      rw [Value.getElem_eq] at h
      rw [parseInputImage, if_neg h]
      rfl
    · next htype =>
      rw [parseInputContentPart, if_pos hobject, htype]
      show (parseInputFile p).1.isSome = true
      rw [parseInputFile, if_neg]
      · rfl
      · rintro ⟨hname, hurl, hdata⟩
        rw [hname, hurl, hdata] at h
        exact absurd h (by simp)
    · exact htext h
  · cases p with
    | obj m => exact absurd rfl hobject
    | _ => exact absurd h Bool.false_ne_true

theorem texts_parse (content : List Value) :
    ((filterMapCtx parseInputContentPart content).1).filterMap partTextOf =
      content.filterMap partText := by
  rw [filterMapCtx, List.filterMap_filterMap]
  exact List.filterMap_congr fun p _ ↦ partText_parse p

/-- Content with a part that can be carried over is kept with all its texts. -/
theorem contentTexts_parse {item : Value} {texts : List String}
    (h : contentTexts (item.get? "content") = some texts) (hne : HasContent item) :
    ∃ c, (parseMessageContent (item.get? "content")).1 = some c ∧ textsOf c = texts := by
  cases hcontent : item.get? "content" with
  | none =>
    rw [hcontent] at h
    exact absurd h (by simp [contentTexts])
  | some v =>
    rw [hcontent] at h
    cases v with
    | str s =>
      refine ⟨.text s, rfl, ?_⟩
      exact Option.some.inj h
    | arr parts =>
      have htexts : parts.filterMap partText = texts := Option.some.inj h
      rw [← texts_parse] at htexts
      have hparts : (filterMapCtx parseInputContentPart parts).1 ≠ [] := by
        obtain ⟨p, hp, husable⟩ := hne parts hcontent
        obtain ⟨part, hpart⟩ := Option.isSome_iff_exists.1 (parse_of_usable husable)
        exact List.ne_nil_of_mem (List.mem_filterMap.2 ⟨p, hp, hpart⟩)
      refine ⟨.parts (filterMapCtx parseInputContentPart parts).1, if_neg ?_, htexts⟩
      rw [List.isEmpty_iff]
      exact hparts
    | _ => exact absurd h (by simp [contentTexts])

theorem speaker_parse {role : Option String} {speakerRole : IrRole}
    (h : speaker role = some speakerRole) :
    (parseResponseRole role).1 = speakerRole ∧ (speakerRole = .user ∨ speakerRole = .assistant) := by
  unfold speaker at h
  split at h
  · rw [← Option.some.inj h]
    exact ⟨rfl, Or.inl rfl⟩
  · rw [← Option.some.inj h]
    exact ⟨rfl, Or.inr rfl⟩
  · exact absurd h (by simp)

/-- A message that stands for one item: it speaks or it calls, and the assistant does the calls. -/
structure StandsFor (m : IrMessage) (item : Item) : Prop where
  items : itemsOf m = [item]
  content_or_calls : m.toolCalls ≠ [] → m.content = none
  caller : m.toolCalls ≠ [] → m.role = .assistant

theorem readMessage_parse {item : Value} {i : Item} (h : readMessage item = some i)
    (hne : HasContent item) : StandsFor (parseMessageItem item).1 i := by
  rw [readMessage] at h
  obtain ⟨role, hrole, h⟩ := Option.bind_eq_some_iff.1 h
  obtain ⟨texts, htexts, h⟩ := Option.bind_eq_some_iff.1 h
  rw [← Option.some.inj h]
  obtain ⟨content, hcontent, hkept⟩ := contentTexts_parse htexts hne
  obtain ⟨hparsed, hspeaks⟩ := speaker_parse hrole
  have hmessage : (parseMessageItem item).1 = { role := role, content := some content } := by
    show ({ role := (parseResponseRole item["role"].asStr).1, content := _ } : IrMessage) = _
    rw [hparsed]
    exact congrArg (fun content ↦ ({ role := role, content := content } : IrMessage)) hcontent
  refine ⟨?_, ?_, ?_⟩
  · rw [hmessage, itemsOf]
    rcases hspeaks with hspeaks | hspeaks
    · subst hspeaks
      simp [hkept]
    · subst hspeaks
      simp [hkept]
  · rw [hmessage]
    exact fun h ↦ absurd rfl h
  · rw [hmessage]
    exact fun h ↦ absurd rfl h

/-- An item makes the message that stands for it. -/
theorem Says.parse [SerdeJson] {item : Value} {i : Item} (hsaid : Says item i) :
    ∃ m, (parseInputItem item).1 = some m ∧ StandsFor m i := by
  have h := hsaid.read
  have hobject : item.isObject = true := by
    by_contra hobject
    rw [readItem, typeOf_eq_empty hobject] at h
    cases item with
    | obj m => exact hobject rfl
    | _ => exact absurd h (by simp [readMessage, speaker, Value.get?])
  have hcontent (hread : readMessage item = some i) : HasContent item := by
    obtain ⟨role, -, hread⟩ := Option.bind_eq_some_iff.1 hread
    obtain ⟨texts, -, hread⟩ := Option.bind_eq_some_iff.1 hread
    exact hsaid.hasContent role texts (Option.some.inj hread).symm
  rw [parseInputItem, if_pos hobject]
  rw [readItem] at h
  generalize item["type"].strOrEmpty = t at h ⊢
  by_cases hmessage : t = "message"
  · subst hmessage
    exact ⟨_, rfl, readMessage_parse h (hcontent h)⟩
  by_cases hcall : t = "function_call"
  · subst hcall
    refine ⟨_, rfl, ?_, fun _ ↦ rfl, fun _ ↦ rfl⟩
    rw [← Option.some.inj h, ← parseArgumentsAny_eq]
    rfl
  by_cases houtput : t = "function_call_output"
  · subst houtput
    refine ⟨_, rfl, ?_, fun hcalls ↦ absurd rfl hcalls, fun hcalls ↦ absurd rfl hcalls⟩
    rw [← Option.some.inj h]
    rw [← functionCallOutputText_eq]
    rfl
  by_cases hreasoning : t = "reasoning"
  · subst hreasoning
    exact absurd h (by simp)
  have hread : readMessage item = some i := by
    split at h
    · exact absurd rfl hcall
    · exact absurd rfl houtput
    · exact absurd rfl hreasoning
    · exact h
  have hrole : (item.get? "role").isSome = true := by
    obtain ⟨role, hrole, -⟩ := Option.bind_eq_some_iff.1 hread
    cases hget : item.get? "role" with
    | none => exact absurd hrole (by simp [hget, speaker])
    | some v => rfl
  refine ⟨(parseMessageItem item).1, ?_, readMessage_parse hread (hcontent hread)⟩
  split
  · exact absurd rfl hmessage
  · exact absurd rfl hcall
  · exact absurd rfl houtput
  · exact absurd rfl hreasoning
  · rw [hrole, Bool.true_or, if_pos rfl]

/-! ### Reading the input -/

/-- Only the assistant calls. -/
def CalledByAssistant (messages : List IrMessage) : Prop :=
  ∀ m ∈ messages, m.toolCalls ≠ [] → m.role = .assistant

theorem itemsOf_addCalls {m : IrMessage} (hrole : m.role = .assistant) (calls : List IrToolCall) :
    itemsOf { m with toolCalls := m.toolCalls ++ calls } = itemsOf m ++ calls.map .call := by
  simp [itemsOf, hrole]

/-- The calls of a message without content are all it stands for. -/
theorem itemsOf_calls {m : IrMessage} (hrole : m.role = .assistant) (hcontent : m.content = none) :
    itemsOf m = m.toolCalls.map .call := by
  simp [itemsOf, hrole, hcontent]

/-- A message that is added, or whose calls are, adds the item it stands for at the end. -/
theorem pushMessage_items (messages : List IrMessage) {msg : IrMessage} {i : Item}
    (h : StandsFor msg i) :
    (pushMessage messages msg).flatMap itemsOf = messages.flatMap itemsOf ++ [i] := by
  rw [pushMessage]
  cases hlast : messages.getLast? with
  | none => simp [h.items]
  | some last =>
    dsimp only
    by_cases hjoin : msg.role = .assistant ∧ msg.toolCalls ≠ [] ∧ last.role = .assistant
    · obtain ⟨hrole, hcalls, hassistant⟩ := hjoin
      have hmessages : messages = messages.dropLast ++ [last] :=
        (List.dropLast_append_getLast? last hlast).symm
      have hitems := h.items
      rw [itemsOf_calls hrole (h.content_or_calls hcalls)] at hitems
      rw [if_pos ⟨hrole, hcalls, hassistant⟩, List.flatMap_append, List.flatMap_singleton,
        itemsOf_addCalls hassistant, hitems]
      nth_rewrite 2 [hmessages]
      rw [List.flatMap_append, List.flatMap_singleton, List.append_assoc]
    · rw [if_neg hjoin, List.flatMap_append, List.flatMap_singleton, h.items]

theorem CalledByAssistant.pushMessage {messages : List IrMessage} (h : CalledByAssistant messages)
    {msg : IrMessage} (hmsg : msg.toolCalls ≠ [] → msg.role = .assistant) :
    CalledByAssistant (pushMessage messages msg) := by
  have hadd : CalledByAssistant (messages ++ [msg]) := by
    intro m hm
    rcases List.mem_append.1 hm with hm | hm
    · exact h m hm
    · rw [List.mem_singleton.1 hm]
      exact hmsg
  rw [Responses.pushMessage]
  cases hlast : messages.getLast? with
  | none => exact hadd
  | some last =>
    dsimp only
    split
    · next hjoin =>
      intro m hm hcalls
      rcases List.mem_append.1 hm with hm | hm
      · exact h m (List.dropLast_subset _ hm) hcalls
      · rw [List.mem_singleton.1 hm]
        exact hjoin.2.2
    · exact hadd

theorem pushItem_items [SerdeJson] (messages : List IrMessage) {item : Value} {i : Item}
    (h : Says item i) :
    (pushItem messages item).flatMap itemsOf = messages.flatMap itemsOf ++ [i] := by
  obtain ⟨m, hm, hstands⟩ := h.parse
  rw [pushItem, hm]
  exact pushMessage_items messages hstands

theorem CalledByAssistant.pushItem [SerdeJson] {messages : List IrMessage}
    (h : CalledByAssistant messages) {item : Value} {i : Item} (hsaid : Says item i) :
    CalledByAssistant (pushItem messages item) := by
  obtain ⟨m, hm, hstands⟩ := hsaid.parse
  rw [Responses.pushItem, hm]
  exact h.pushMessage hstands.caller

/-- Reading the items of a request adds what they say, in order. -/
theorem pushItems_items [SerdeJson] {items : List Value} {said : List Item}
    (hsaid : List.Forall₂ Says items said) {messages : List IrMessage}
    (h : CalledByAssistant messages) :
    (items.foldl pushItem messages).flatMap itemsOf = messages.flatMap itemsOf ++ said ∧
      CalledByAssistant (items.foldl pushItem messages) := by
  induction hsaid generalizing messages with
  | nil => exact ⟨(List.append_nil _).symm, h⟩
  | cons hfirst hrest ih =>
    obtain ⟨hitems, hcalled⟩ := ih (h.pushItem hfirst)
    refine ⟨?_, hcalled⟩
    rw [List.foldl_cons, hitems, pushItem_items messages hfirst, List.append_assoc]
    rfl

/-! ### Writing the input -/

theorem partText_written (textType : String)
    (htype : textType = "input_text" ∨ textType = "output_text") (p : IrPart) :
    partText (irPartToInputPart textType p).1 = partTextOf p := by
  have htext (text : String) : partText (textPart textType text) = some text := by
    rcases htype with rfl | rfl <;> simp [partText, textPart]
  cases p with
  | text text => exact htext text
  | imageUrl url => simp [partText, irPartToInputPart, partTextOf]
  | imageInline mediaType data => simp [partText, irPartToInputPart, partTextOf]
  | inputAudio data format => exact htext ""
  | file name url data => simp [partText, irPartToInputPart, partTextOf]

theorem partTexts_written {textType : String}
    (htype : textType = "input_text" ∨ textType = "output_text") (ps : List IrPart) :
    (ps.map fun p ↦ (irPartToInputPart textType p).1).filterMap partText =
      ps.filterMap partTextOf := by
  rw [List.filterMap_map]
  exact List.filterMap_congr fun p _ ↦ partText_written textType htype p

/-- A message item with these parts says their texts. -/
theorem readItem_messageItem [SerdeJson] {roleStr textType : String} {role : IrRole}
    (hrole : speaker (some roleStr) = some role)
    (htype : textType = "input_text" ∨ textType = "output_text") (ps : List IrPart) :
    readItem (.object
        [("type", .str "message"), ("role", .str roleStr),
          ("content", .arr (ps.map fun p ↦ (irPartToInputPart textType p).1))]) =
      some (.message role (ps.filterMap partTextOf)) := by
  rw [← partTexts_written htype]
  simp [readItem, readMessage, contentTexts, hrole]

theorem readItem_requestMessageItem [SerdeJson] {role : IrRole}
    (hrole : role = .user ∨ role = .assistant) (content : IrContent) :
    readItem (requestMessageItem role content).1 = some (.message role (textsOf content)) := by
  rcases hrole with rfl | rfl
  · have hspeaker : speaker (some "user") = some .user := rfl
    cases content with
    | text s => exact readItem_messageItem hspeaker (Or.inl rfl) [.text s]
    | parts ps => exact readItem_messageItem hspeaker (Or.inl rfl) ps
  · have hspeaker : speaker (some "assistant") = some .assistant := rfl
    cases content with
    | text s => exact readItem_messageItem hspeaker (Or.inr rfl) [.text s]
    | parts ps => exact readItem_messageItem hspeaker (Or.inr rfl) ps

theorem readItem_functionCallInputItem [SerdeJson] (tc : IrToolCall) :
    readItem (functionCallInputItem tc) = some (.call tc) := by
  simp [readItem, functionCallInputItem, asText]

theorem readItem_functionCallOutputItem [SerdeJson] (m : IrMessage) :
    readItem (functionCallOutputItem m) =
      some (.output (m.toolCallId.getD "") (contentAsText m.content)) := by
  simp [readItem, functionCallOutputItem, asText]

/-- A message is written as the items it stands for. -/
theorem inputItemsOf_items [SerdeJson] (m : IrMessage) :
    (inputItemsOf m).1.map readItem = (itemsOf m).map some := by
  have hspoken (hrole : m.role = .user ∨ m.role = .assistant)
      (hwritten : (inputItemsOf m).1 =
        (m.content.map fun content ↦ (requestMessageItem m.role content).1).toList ++
          m.toolCalls.map functionCallInputItem)
      (hitems : itemsOf m =
        (m.content.map fun content ↦ Item.message m.role (textsOf content)).toList ++
          m.toolCalls.map .call) :
      (inputItemsOf m).1.map readItem = (itemsOf m).map some := by
    rw [hwritten, hitems, List.map_append, List.map_append, List.map_map, List.map_map]
    refine congrArg₂ (· ++ ·) ?_ ?_
    · cases m.content with
      | none => rfl
      | some content => exact congrArg ([·]) (readItem_requestMessageItem hrole content)
    · exact List.map_congr_left fun tc _ ↦ readItem_functionCallInputItem tc
  cases hrole : m.role with
  | system =>
    rw [inputItemsOf, itemsOf, hrole]
    rfl
  | user =>
    refine hspoken (Or.inl hrole) ?_ ?_
    · rw [inputItemsOf, hrole]
      cases m.content <;> rfl
    · rw [itemsOf, hrole]
  | assistant =>
    refine hspoken (Or.inr hrole) ?_ ?_
    · rw [inputItemsOf, hrole]
      cases m.content <;> rfl
    · rw [itemsOf, hrole]
  | tool =>
    rw [inputItemsOf, itemsOf, hrole]
    exact congrArg ([·]) (readItem_functionCallOutputItem m)

theorem inputItems_items [SerdeJson] (messages : List IrMessage) :
    (messages.flatMap fun m ↦ (inputItemsOf m).1).map readItem =
      (messages.flatMap itemsOf).map some := by
  rw [List.map_flatMap, List.map_flatMap]
  exact List.flatMap_congr fun m _ ↦ inputItemsOf_items m

/-! ### The theorem -/

/-- Every result stands for an output of the request, and comes after the assistant message with
the call it answers if that output came after the call. -/
def AnswersInOrder (said : List Item) (messages : List IrMessage) : Prop :=
  ∀ before m after, messages = before ++ m :: after → m.role = .tool →
    ∃ text later,
      said = before.flatMap itemsOf ++ .output (m.toolCallId.getD "") text :: later ∧
      ∀ call, .call call ∈ before.flatMap itemsOf → call.id = m.toolCallId.getD "" →
        ∃ caller ∈ before, caller.role = .assistant ∧ call ∈ caller.toolCalls

theorem mem_toolCalls_of_mem_itemsOf {m : IrMessage} {call : IrToolCall}
    (h : .call call ∈ itemsOf m) : call ∈ m.toolCalls := by
  have hspoken : .call call ∈
      (m.content.map fun content ↦ Item.message m.role (textsOf content)).toList ++
        m.toolCalls.map .call → call ∈ m.toolCalls := by
    intro h
    rcases List.mem_append.1 h with h | h
    · cases hcontent : m.content <;> rw [hcontent] at h <;> simp at h
    · obtain ⟨tc, hmem, heq⟩ := List.mem_map.1 h
      rw [← Item.call.inj heq]
      exact hmem
  rw [itemsOf] at h
  cases hrole : m.role <;> rw [hrole] at h hspoken
  · exact absurd h List.not_mem_nil
  · exact hspoken h
  · exact hspoken h
  · exact absurd (List.mem_singleton.1 h) (by simp)

theorem answersInOrder {said : List Item} {messages : List IrMessage}
    (hitems : messages.flatMap itemsOf = said) (hcalled : CalledByAssistant messages) :
    AnswersInOrder said messages := by
  intro before m after hsplit hrole
  refine ⟨contentAsText m.content, after.flatMap itemsOf, ?_, ?_⟩
  · rw [← hitems, hsplit, List.flatMap_append, List.flatMap_cons]
    congr 1
    rw [itemsOf, hrole]
    rfl
  · intro call hmem _
    obtain ⟨caller, hcaller, hcall⟩ := List.mem_flatMap.1 hmem
    have hin := mem_toolCalls_of_mem_itemsOf hcall
    refine ⟨caller, hcaller, hcalled caller ?_ (List.ne_nil_of_mem hin), hin⟩
    rw [hsplit]
    exact List.mem_append_left _ hcaller

theorem instructionMessages_items (v : Value) :
    (instructionMessages v).flatMap itemsOf = [] ∧ CalledByAssistant (instructionMessages v) := by
  rw [instructionMessages]
  split
  · split
    · exact ⟨rfl, fun m hm ↦ absurd hm List.not_mem_nil⟩
    · refine ⟨rfl, fun m hm hcalls ↦ ?_⟩
      rw [List.mem_singleton.1 hm] at hcalls
      exact absurd rfl hcalls
  · exact ⟨rfl, fun m hm ↦ absurd hm List.not_mem_nil⟩

theorem requestToIr_ok [SerdeJson] {v : Value} {items : List Value}
    (hinput : v.get? "input" = some (.arr items))
    (htools : ∀ tools, v.get? "tools" = some tools → tools.isArray = true) :
    ∃ req ctx, requestToIr v = .ok (req, ctx) ∧
      req.messages = items.foldl pushItem (instructionMessages v) := by
  cases v with
  | obj m =>
    cases htool : (Value.obj m).get? "tools" with
    | none =>
      simp only [requestToIr, hinput, htool]
      exact ⟨_, _, rfl, rfl⟩
    | some tools =>
      have harray := htools tools htool
      cases tools with
      | arr definitions =>
        simp only [requestToIr, hinput, htool]
        exact ⟨_, _, rfl, rfl⟩
      | _ => exact absurd harray (by simp [Value.isArray])
  | _ => exact absurd hinput (by simp [Value.get?])

/-- Reading a request and writing it again keeps its items and their order, and no result comes
before its call that did not before. -/
theorem items_roundTrip [SerdeJson] (v : Value) (items : List Value) (said : List Item)
    (hinput : v.get? "input" = some (.arr items)) (hsaid : List.Forall₂ Says items said)
    (htools : ∀ tools, v.get? "tools" = some tools → tools.isArray = true) :
    ∃ req ctx written, requestToIr v = .ok (req, ctx) ∧
      (requestFromIr req).1.get? "input" = some (.arr written) ∧
      written.map readItem = said.map some ∧ AnswersInOrder said req.messages := by
  obtain ⟨req, ctx, hreq, hmessages⟩ := requestToIr_ok hinput htools
  obtain ⟨hnothing, hnone⟩ := instructionMessages_items v
  obtain ⟨hitems, hcalled⟩ := pushItems_items hsaid hnone
  rw [← hmessages, hnothing, List.nil_append] at hitems
  rw [← hmessages] at hcalled
  refine ⟨req, ctx, req.messages.flatMap fun m ↦ (inputItemsOf m).1, hreq, ?_, ?_,
    answersInOrder hitems hcalled⟩
  · simp [requestFromIr, requestMembers]
  · rw [inputItems_items, hitems]

section Codec

local instance : SerdeJson := Compact.codec

/-- A question, two calls, an answer to the second call, a remark, and one to the first. -/
def twoCities : List Value :=
  [.object [("type", .str "message"), ("role", .str "user"), ("content", .str "天气?")],
    .object [("type", .str "function_call"), ("call_id", .str "a"), ("name", .str "weather"),
      ("arguments", .str "北京")],
    .object [("type", .str "function_call"), ("call_id", .str "b"), ("name", .str "weather"),
      ("arguments", .str "上海")],
    .object [("type", .str "function_call_output"), ("call_id", .str "b"), ("output", .str "晴")],
    .object [("role", .str "assistant"), ("content", .arr [.object
      [("type", .str "output_text"), ("text", .str "上海晴。")]])],
    .object [("type", .str "function_call_output"), ("call_id", .str "a"), ("output", .str "雨")]]

def twoCitiesSaid : List Item :=
  [.message .user ["天气?"], .call { id := "a", name := "weather", arguments := "北京" },
    .call { id := "b", name := "weather", arguments := "上海" }, .output "b" "晴",
    .message .assistant ["上海晴。"], .output "a" "雨"]

theorem items_roundTrip_twoCities :
    ∃ req ctx written, requestToIr (.object [("input", .arr twoCities)]) = .ok (req, ctx) ∧
      (requestFromIr req).1.get? "input" = some (.arr written) ∧
      written.map readItem = twoCitiesSaid.map some ∧ AnswersInOrder twoCitiesSaid req.messages := by
  have hparts : HasContent (.object [("role", .str "assistant"), ("content", .arr [.object
      [("type", .str "output_text"), ("text", .str "上海晴。")]])]) := by
    intro parts hparts
    refine ⟨.object [("type", .str "output_text"), ("text", .str "上海晴。")], ?_, ?_⟩
    · rw [← Value.arr.inj (Option.some.inj hparts)]
      exact List.mem_singleton_self _
    · show (partText _).isSome = true
      decide +kernel
  have hsaid : List.Forall₂ Says twoCities twoCitiesSaid := by
    refine .cons ⟨by decide +kernel, fun _ _ _ parts h ↦ ?_⟩ (.cons ⟨by decide +kernel, ?_⟩
      (.cons ⟨by decide +kernel, ?_⟩ (.cons ⟨by decide +kernel, ?_⟩
      (.cons ⟨by decide +kernel, fun _ _ _ ↦ hparts⟩ (.cons ⟨by decide +kernel, ?_⟩ .nil)))))
    · exact absurd h (by simp)
    all_goals exact fun _ _ h ↦ Item.noConfusion h
  exact items_roundTrip (.object [("input", .arr twoCities)]) twoCities twoCitiesSaid
    (by simp) hsaid (fun tools h ↦ absurd h (by simp))

/-- A message of the user with an image that was uploaded before. -/
def uploadedImage : Value :=
  .object [("type", .str "message"), ("role", .str "user"), ("content", .arr [.object
    [("type", .str "input_image"), ("file_id", .str "file-1")]])]

/-- The message of an uploaded image is lost. -/
theorem not_items_roundTrip_uploadedImage :
    readItem uploadedImage = some (.message .user []) ∧
      ∃ req ctx, requestToIr (.object [("input", .arr [uploadedImage])]) = .ok (req, ctx) ∧
        (requestFromIr req).1.get? "input" = some (.arr []) := by
  refine ⟨by decide +kernel, _, _, rfl, ?_⟩
  decide +kernel

end Codec

end NextApi.Responses
