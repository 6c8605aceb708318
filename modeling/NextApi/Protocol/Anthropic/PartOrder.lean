import NextApi.Protocol.Anthropic.RequestFixpoint
import NextApi.Protocol.Spoken

/-!
# The order of blocks in Anthropic messages

A reader keeps the texts and images of a message in one list, in order, and the last of its
thoughts. The writer puts thoughts into messages of the assistant only. So a message comes back as
it was when no thought but the last one says anything, and none at all in a message of the user
(`requestOrder_iff`, `responseOrder_iff`).
-/

set_option autoImplicit false

namespace NextApi.Anthropic

open Json Ir

/-! ### What a message says -/

/-- The image of a source. A source of another type than address and data has no image in the
representation, and stands here as a file without a name. -/
def imageOf (src : Value) : IrPart :=
  match src["type"].strOrEmpty with
  | "base64" => .imageInline src["media_type"].strOrEmpty src["data"].strOrEmpty
  | "url" => .imageUrl src["url"].strOrEmpty
  | _ => .file "" none none

/-- The text or medium that a block is; a document stands as a file without a name. -/
def partOf (block : Value) : Option IrPart :=
  match block["type"].strOrEmpty with
  | "text" => some (.text block["text"].strOrEmpty)
  | "image" => some (imageOf block["source"])
  | "document" => some (.file "" none none)
  | _ => none

/-- The blocks of a message. -/
def blocksIn (msg : Value) : List Value := ((msg.get? "content").bind Value.asArray).getD []

/-- What a list of blocks says. -/
def spokenBlocks (blocks : List Value) : Spoken :=
  ⟨blocks.filterMap partOf, String.join (blocks.filterMap blockThinking)⟩

/-- What a message says. -/
def spokenOf (msg : Value) : Spoken :=
  match msg.get? "content" with
  | some (.str s) => ⟨[.text s], ""⟩
  | _ => spokenBlocks (blocksIn msg)

/-! ### What is left of it -/

/-- The representation has a place for texts and images. -/
def hasPlace : IrPart → Bool
  | .file _ _ _ => false
  | _ => true

/-- In a response only texts have a place. -/
def hasResponsePlace : IrPart → Bool
  | .text _ => true
  | _ => false

/-- What is left of a list of blocks: the parts that have a place, and the last thought. -/
def keptBlocks (place : IrPart → Bool) (blocks : List Value) : Spoken :=
  ⟨(blocks.filterMap partOf).filter place, (lastThinking blocks).getD ""⟩

/-- The blocks are kept: a place for every part, and no thought but the last one. -/
structure Kept (place : IrPart → Bool) (blocks : List Value) : Prop where
  placed : ∀ part ∈ blocks.filterMap partOf, place part = true
  thoughts : ∀ t ∈ (blocks.filterMap blockThinking).dropLast, t = ""

theorem keptBlocks_eq_iff (place : IrPart → Bool) (blocks : List Value) :
    keptBlocks place blocks = spokenBlocks blocks ↔ Kept place blocks := by
  rw [keptBlocks, spokenBlocks, Spoken.mk.injEq, List.filter_eq_self, lastThinking,
    getLast_eq_join_iff]
  exact ⟨fun h ↦ ⟨h.1, h.2⟩, fun h ↦ ⟨h.placed, h.thoughts⟩⟩

/-- What is left of a message of a request. -/
def keptOf (msg : Value) : Spoken :=
  match msg.get? "content" with
  | some (.str s) => ⟨[.text s], ""⟩
  | _ => keptBlocks hasPlace (blocksIn msg)

/-- What of it is sent: thoughts of the assistant only. -/
def sentOf (msg : Value) : Spoken :=
  if (parseRole msg["role"].strOrEmpty).1 = .assistant then keptOf msg
  else { keptOf msg with thought := "" }

/-- The image that a source is read as is the one that it is, when that has a place. -/
theorem image_eq (src : Value) :
    (match src["type"].strOrEmpty with
      | "base64" =>
        some (IrPart.imageInline src["media_type"].strOrEmpty src["data"].strOrEmpty)
      | "url" => some (.imageUrl src["url"].strOrEmpty)
      | _ => none) = (some (imageOf src)).filter hasPlace := by
  rw [imageOf]
  generalize src["type"].strOrEmpty = kind
  split
  · rfl
  · rfl
  · rfl

/-- The part that a block is read as is the one that it is, when that has a place. -/
theorem blockPart_eq (block : Value) : blockPart block = (partOf block).filter hasPlace := by
  rw [blockPart, partOf]
  generalize block["type"].strOrEmpty = kind
  split
  · rfl
  · exact image_eq block["source"]
  · rename_i htext himage
    split
    · exact absurd rfl htext
    · exact absurd rfl himage
    · rfl
    · rfl

theorem filterMap_blockPart (blocks : List Value) :
    blocks.filterMap blockPart = (blocks.filterMap partOf).filter hasPlace := by
  rw [List.filter_filterMap]
  exact List.filterMap_congr fun block _ ↦ blockPart_eq block

theorem partsOf_partsContent (ps : List IrPart) : Spoken.partsOf (partsContent ps) = ps := by
  unfold partsContent
  split <;> rfl

theorem role_parseRole (role : String) :
    (parseRole role).1 = .user ∨ (parseRole role).1 = .assistant := by
  unfold parseRole
  split
  · exact Or.inl rfl
  · exact Or.inr rfl
  · exact Or.inl rfl

/-- What a message of the conversation is sent as. -/
def sentMessage (m : IrMessage) : Spoken :=
  if m.role = .assistant then Spoken.inConversation m
  else { Spoken.inConversation m with thought := "" }

theorem sentMessage_of_ne {m : IrMessage} (h : Spoken.inConversation m = {}) :
    sentMessage m = {} := by
  rw [sentMessage, h]
  split <;> rfl

/-- The results of a message say nothing. -/
theorem blockResults_silent (blocks : List Value) :
    ∀ m ∈ blocks.filterMap blockResult, Spoken.inConversation m = {} := by
  intro m hm
  obtain ⟨block, -, hblock⟩ := List.mem_filterMap.1 hm
  rw [blockResult] at hblock
  split at hblock
  · rw [← Option.some.inj hblock]
    rfl
  · cases hblock

section Readers

variable [SerdeJson]

theorem ofMessage_ownMessage (role : IrRole) (blocks : List Value) :
    Spoken.ofMessage (ownMessage role blocks) = keptBlocks hasPlace blocks := by
  rw [Spoken.ofMessage, ownMessage, partsOf_partsContent, filterMap_blockPart, keptBlocks]

/-- The messages that are read of one say what is left of it. -/
theorem readMessages_say (msg : Value) :
    Spoken.all ((readMessages msg).map Spoken.inConversation) = Spoken.all [keptOf msg] ∧
      Spoken.all ((readMessages msg).map sentMessage) = Spoken.all [sentOf msg] := by
  -- one message of the role, which says what is left
  have hone {m : IrMessage} (hrole : m.role = (parseRole msg["role"].strOrEmpty).1)
      (hspoken : Spoken.ofMessage m = keptOf msg) :
      Spoken.inConversation m = keptOf msg ∧ sentMessage m = sentOf msg := by
    have hconversation : Spoken.inConversation m = keptOf msg := by
      rw [Spoken.inConversation, hrole, if_pos (role_parseRole _), hspoken]
    exact ⟨hconversation, by rw [sentMessage, sentOf, hconversation, hrole]⟩
  have hsingle {m : IrMessage} (hrole : m.role = (parseRole msg["role"].strOrEmpty).1)
      (hspoken : Spoken.ofMessage m = keptOf msg) :
      Spoken.all ([m].map Spoken.inConversation) = Spoken.all [keptOf msg] ∧
        Spoken.all ([m].map sentMessage) = Spoken.all [sentOf msg] := by
    obtain ⟨hconversation, hsent⟩ := hone hrole hspoken
    rw [List.map_singleton, List.map_singleton, hconversation, hsent]
    exact ⟨rfl, rfl⟩
  rw [readMessages]
  split
  · rename_i s hcontent
    refine hsingle rfl ?_
    rw [keptOf, hcontent]
    rfl
  · rename_i blocks hcontent
    have hkept : keptOf msg = keptBlocks hasPlace blocks := by
      rw [keptOf, hcontent, blocksIn, hcontent]
      rfl
    have hsilent (f : IrMessage → Spoken) (hf : ∀ m, Spoken.inConversation m = {} → f m = {}) :
        Spoken.all ((blocks.filterMap blockResult).map f) = [] := by
      refine Spoken.all_eq_nil fun s hs ↦ ?_
      obtain ⟨m, hm, rfl⟩ := List.mem_map.1 hs
      exact hf m (blockResults_silent blocks m hm)
    rw [List.map_append, List.map_append, Spoken.all_append, Spoken.all_append,
      hsilent _ fun _ h ↦ h, hsilent _ fun _ h ↦ sentMessage_of_ne h, List.append_nil,
      List.append_nil]
    have hown := ofMessage_ownMessage (parseRole msg["role"].strOrEmpty).1 blocks
    split
    · exact hsingle rfl (hown.trans hkept.symm)
    · rename_i hquiet
      rw [Speaks, Bool.not_eq_true, Bool.or_eq_false_iff, Bool.or_eq_false_iff] at hquiet
      have hnothing : keptOf msg = {} := by
        rw [hkept, ← hown, Spoken.ofMessage,
          Option.isNone_iff_eq_none.1 (Option.isSome_eq_false_iff.1 hquiet.1.1),
          Option.isNone_iff_eq_none.1 (Option.isSome_eq_false_iff.1 hquiet.2)]
        rfl
      have hsent : sentOf msg = {} := by
        rw [sentOf, hnothing]
        split <;> rfl
      rw [hnothing, hsent]
      exact ⟨(Spoken.all_cons_silent []).symm, (Spoken.all_cons_silent []).symm⟩
  · rename_i hstr harr
    refine hsingle rfl ?_
    rw [keptOf]
    split
    · exact absurd ‹_› (hstr _)
    · have hblocks : blocksIn msg = [] := by
        rw [blocksIn]
        cases hcontent : msg.get? "content" with
        | none => rfl
        | some content =>
          cases content with
          | arr blocks => exact absurd hcontent (harr blocks)
          | _ => rfl
      rw [hblocks]
      rfl

/-- The parts of a message that was read have a block. -/
theorem sendable_readMessages (msg : Value) :
    ∀ m ∈ readMessages msg, ∀ part ∈ Spoken.partsOf m.content, Sendable part := by
  have htext (s : String) : ∀ part ∈ Spoken.partsOf (some (.text s)), Sendable part := by
    intro part hpart
    rw [List.mem_singleton.1 hpart]
    trivial
  intro m hm
  rw [readMessages] at hm
  split at hm
  · rw [List.mem_singleton.1 hm]
    exact htext _
  · rcases List.mem_append.1 hm with hm | hm
    · split at hm
      · rw [List.mem_singleton.1 hm]
        intro part hpart
        rw [ownMessage, partsOf_partsContent] at hpart
        obtain ⟨block, -, hblock⟩ := List.mem_filterMap.1 hpart
        exact sendable_blockPart hblock
      · exact (List.not_mem_nil hm).elim
    · obtain ⟨block, -, hblock⟩ := List.mem_filterMap.1 hm
      rw [blockResult] at hblock
      split at hblock
      · rw [← Option.some.inj hblock]
        exact htext _
      · cases hblock
  · rw [List.mem_singleton.1 hm]
    exact fun part hpart ↦ (List.not_mem_nil hpart).elim

end Readers

/-! ### Writing messages -/

theorem spokenBlocks_append (xs ys : List Value) :
    spokenBlocks (xs ++ ys) =
      ⟨(spokenBlocks xs).parts ++ (spokenBlocks ys).parts,
        (spokenBlocks xs).thought ++ (spokenBlocks ys).thought⟩ := by
  rw [spokenBlocks, List.filterMap_append, List.filterMap_append, String.join_append]
  rfl

theorem spokenBlocks_silent_append {xs : List Value} (h : spokenBlocks xs = {}) (ys : List Value) :
    spokenBlocks (xs ++ ys) = spokenBlocks ys := by
  rw [spokenBlocks_append, h, List.nil_append, String.empty_append]

theorem spokenOf_anthMessage (role : String) (blocks : List Value) :
    spokenOf (anthMessage role blocks) = spokenBlocks blocks := rfl

theorem partOf_partToAnthBlock {part : IrPart} (h : Sendable part) :
    (partToAnthBlock part).1.bind partOf = some part ∧
      (partToAnthBlock part).1.bind blockThinking = none := by
  cases part with
  | text t => exact ⟨rfl, rfl⟩
  | imageUrl url => exact ⟨rfl, rfl⟩
  | imageInline mediaType data => exact ⟨rfl, rfl⟩
  | inputAudio data format => exact h.elim
  | file name url data => exact h.elim

/-- Content that can be sent is written as it is. -/
theorem spokenBlocks_contentBlocks {content : Option IrContent}
    (h : ∀ part ∈ Spoken.partsOf content, Sendable part) :
    spokenBlocks (contentBlocks content) = ⟨Spoken.partsOf content, ""⟩ := by
  match content, h with
  | none, _ => rfl
  | some (.text t), _ => rfl
  | some (.parts ps), h =>
    have hwritten : contentBlocks (some (.parts ps)) =
        ps.filterMap fun part ↦ (partToAnthBlock part).1 := rfl
    have hparts : ps.filterMap (fun part ↦ (partToAnthBlock part).1.bind partOf) = ps := by
      calc ps.filterMap (fun part ↦ (partToAnthBlock part).1.bind partOf)
          = ps.filterMap some :=
            List.filterMap_congr fun part hpart ↦ (partOf_partToAnthBlock (h part hpart)).1
        _ = ps := List.filterMap_some
    have hthoughts : ps.filterMap (fun part ↦ (partToAnthBlock part).1.bind blockThinking) = [] :=
      List.filterMap_eq_nil_iff.2 fun part hpart ↦ (partOf_partToAnthBlock (h part hpart)).2
    rw [hwritten, spokenBlocks, List.filterMap_filterMap, List.filterMap_filterMap, hparts,
      hthoughts]
    rfl

section Writers

variable [SerdeJson] (req : IrRequest)

theorem spokenBlocks_calls (calls : List IrToolCall) :
    spokenBlocks (calls.map toolUseBlock) = {} := by
  induction calls with
  | nil => rfl
  | cons call rest ih => exact ih

omit [SerdeJson] in
theorem thinkingBlock_spoken (rc : String) :
    partOf (thinkingBlock rc req) = none ∧ blockThinking (thinkingBlock rc req) = some rc := by
  rw [thinkingBlock]
  cases (Map.get? req.ext.extra "thinking_signature").bind Value.asStr <;> exact ⟨rfl, rfl⟩

omit [SerdeJson] in
theorem spokenBlocks_thinking (reasoning : Option String) :
    spokenBlocks (reasoning.map fun rc ↦ thinkingBlock rc req).toList =
      ⟨[], reasoning.getD ""⟩ := by
  cases reasoning with
  | none => rfl
  | some rc =>
    obtain ⟨hpart, hthought⟩ := thinkingBlock_spoken req rc
    rw [Option.map_some, Option.toList_some, spokenBlocks, List.filterMap_cons_none hpart,
      List.filterMap_cons_some hthought, List.filterMap_nil, List.filterMap_nil, String.join_cons,
      String.join_nil, String.append_empty]
    rfl

/-- A message of the assistant is written with all that it says. -/
theorem spokenOf_messageToAnthropic {m : IrMessage}
    (h : ∀ part ∈ Spoken.partsOf m.content, Sendable part) :
    spokenOf (messageToAnthropic m req).1 = Spoken.ofMessage m := by
  have hmessage : (messageToAnthropic m req).1 = anthMessage "assistant"
      ((m.reasoningContent.map fun rc ↦ thinkingBlock rc req).toList ++ contentBlocks m.content ++
        m.toolCalls.map toolUseBlock) := rfl
  rw [hmessage, spokenOf_anthMessage, spokenBlocks_append, spokenBlocks_append,
    spokenBlocks_thinking, spokenBlocks_contentBlocks h, spokenBlocks_calls, Spoken.ofMessage]
  simp

omit [SerdeJson] in
theorem spokenBlocks_result (m : IrMessage) : spokenBlocks [(toolResultBlock m).1] = {} := rfl

/-- What the messages say that were written so far. -/
def saidSoFar (acc : MessagesAcc) : List Spoken := Spoken.all (acc.out.map spokenOf)

omit [SerdeJson] in
/-- Flushing results says nothing. -/
theorem saidSoFar_flush {acc : MessagesAcc} (h : spokenBlocks acc.pendingToolResults = {}) :
    saidSoFar acc.flush = saidSoFar acc ∧ acc.flush.pendingToolResults = [] := by
  rw [MessagesAcc.flush]
  split
  · rename_i hempty
    exact ⟨rfl, List.isEmpty_iff.1 hempty⟩
  · refine ⟨?_, rfl⟩
    show Spoken.all ((acc.out ++ [anthMessage "user" acc.pendingToolResults]).map spokenOf) = _
    rw [List.map_append, Spoken.all_append, List.map_singleton, spokenOf_anthMessage, h,
      Spoken.all_cons_silent, Spoken.all_nil, List.append_nil]
    rfl

/-- Writing a message says what it is sent as. -/
theorem saidSoFar_writeMessage {acc : MessagesAcc} {m : IrMessage}
    (hpending : spokenBlocks acc.pendingToolResults = {})
    (h : ∀ part ∈ Spoken.partsOf m.content, Sendable part) :
    saidSoFar (writeMessage req acc m) = saidSoFar acc ++ Spoken.all [sentMessage m] ∧
      spokenBlocks (writeMessage req acc m).pendingToolResults = {} := by
  have hquiet (hsilent : sentMessage m = {}) :
      saidSoFar acc ++ Spoken.all [sentMessage m] = saidSoFar acc := by
    rw [hsilent, Spoken.all_cons_silent, Spoken.all_nil, List.append_nil]
  cases hrole : m.role with
  | system =>
    rw [hquiet (by rw [sentMessage, Spoken.inConversation, hrole]; rfl), writeMessage, hrole]
    exact ⟨rfl, hpending⟩
  | tool =>
    rw [hquiet (by rw [sentMessage, Spoken.inConversation, hrole]; rfl), writeMessage, hrole]
    refine ⟨rfl, ?_⟩
    show spokenBlocks (acc.pendingToolResults ++ [(toolResultBlock m).1]) = {}
    rw [spokenBlocks_silent_append hpending, spokenBlocks_result]
  | user =>
    have hsent : sentMessage m = ⟨Spoken.partsOf m.content, ""⟩ := by
      rw [sentMessage, Spoken.inConversation, hrole]
      rfl
    rw [hsent, writeMessage, hrole]
    refine ⟨?_, rfl⟩
    show Spoken.all ((acc.out ++ [anthMessage "user"
      (acc.pendingToolResults ++ contentBlocks m.content)]).map spokenOf) = _
    rw [List.map_append, Spoken.all_append, List.map_singleton, spokenOf_anthMessage,
      spokenBlocks_silent_append hpending, spokenBlocks_contentBlocks h]
    rfl
  | assistant =>
    obtain ⟨hflush, hnone⟩ := saidSoFar_flush hpending
    have hsent : sentMessage m = Spoken.ofMessage m := by
      rw [sentMessage, Spoken.inConversation, hrole]
      rfl
    obtain ⟨hout, hpend⟩ := writeMessage_assistant req acc hrole
    rw [saidSoFar, hout, hpend, List.map_append, Spoken.all_append, List.map_singleton,
      spokenOf_messageToAnthropic req h, hsent, ← hflush]
    exact ⟨rfl, rfl⟩

/-- A run of the writer says what its messages are sent as. -/
theorem saidSoFar_foldl {messages : List IrMessage} {acc : MessagesAcc}
    (hpending : spokenBlocks acc.pendingToolResults = {})
    (h : ∀ m ∈ messages, ∀ part ∈ Spoken.partsOf m.content, Sendable part) :
    saidSoFar (messages.foldl (writeMessage req) acc) =
        saidSoFar acc ++ Spoken.all (messages.map sentMessage) ∧
      spokenBlocks (messages.foldl (writeMessage req) acc).pendingToolResults = {} := by
  induction messages generalizing acc with
  | nil => exact ⟨(List.append_nil _).symm, hpending⟩
  | cons m rest ih =>
    rw [List.forall_mem_cons] at h
    obtain ⟨hsaid, hpend⟩ := saidSoFar_writeMessage req hpending h.1
    obtain ⟨hrest, hlast⟩ := ih hpend h.2
    rw [List.foldl_cons, hrest, hsaid, List.append_assoc, ← Spoken.all_append]
    exact ⟨rfl, hlast⟩

end Writers

/-! ### Requests -/

section Requests

variable [SerdeJson] {req : IrRequest}

/-- The messages of a request. -/
def messagesIn (v : Value) : List Value := ((v.get? "messages").bind Value.asArray).getD []

/-- What the messages of a request say. -/
def spokenMessages (v : Value) : List Spoken := Spoken.all ((messagesIn v).map spokenOf)

/-- A conversation is read message by message. -/
theorem messages_of_readConversation {m : Map} {messages : List IrMessage} {ext : IrExt}
    (h : (readConversation m).map (fun read ↦ (read.1, read.2.1)) = .ok (messages, ext)) :
    messages = (messagesIn (.obj m)).flatMap readMessages := by
  obtain ⟨read, hread, hpair⟩ := map_eq_ok.1 h
  rw [← (Prod.mk.inj hpair).1, messagesIn, Value.get?_obj]
  rw [readConversation] at hread
  cases hget : Map.get? m "messages" with
  | none =>
    rw [hget] at hread
    rw [← Except.ok.inj hread]
    rfl
  | some msgs =>
    rw [hget] at hread
    cases harr : msgs.asArray with
    | none =>
      simp only [harr] at hread
      cases hread
    | some items =>
      simp only [harr] at hread
      obtain ⟨ext', ctx', hparse, -⟩ := parseMessages_reads (isObject_of_parseMessages hread)
        (readSystem (.obj m)).1.ext
      rw [Option.bind_some, harr, ← Except.ok.inj (hparse.symm.trans hread)]
      rfl

/-- What the written messages say. -/
theorem spokenMessages_requestFromIr
    (h : ∀ m ∈ req.messages, ∀ part ∈ Spoken.partsOf m.content, Sendable part) :
    spokenMessages (requestFromIr req).1 = Spoken.all (req.messages.map sentMessage) := by
  have hnone : spokenBlocks ({} : MessagesAcc).pendingToolResults = {} := rfl
  obtain ⟨hsaid, hpending⟩ := saidSoFar_foldl req hnone h
  have hget : (requestFromIr req).1.get? "messages" = some (messagesToAnthropic req).1 :=
    (get?_requestFromIr .anthropic req "messages").trans rfl
  have hout : messagesIn (requestFromIr req).1 =
      (req.messages.foldl (writeMessage req) {}).flush.out := by
    rw [messagesIn, hget]
    rfl
  rw [spokenMessages, hout]
  exact (saidSoFar_flush hpending).1.trans hsaid

omit [SerdeJson] in
/-- A message that says nothing leaves nothing. -/
theorem keptOf_silent {msg : Value} (h : spokenOf msg = {}) : keptOf msg = {} := by
  rw [spokenOf] at h
  rw [keptOf]
  split
  · rename_i s hcontent
    rw [hcontent] at h
    exact nomatch (Spoken.mk.inj h).1
  · have hblocks : spokenBlocks (blocksIn msg) = {} := by
      split at h
      · exact nomatch (Spoken.mk.inj h).1
      · exact h
    obtain ⟨hparts, hthought⟩ := Spoken.mk.inj hblocks
    have hempty := join_eq_empty.1 hthought
    have hlast : (lastThinking (blocksIn msg)).getD "" = "" := by
      cases hget : lastThinking (blocksIn msg) with
      | none => rfl
      | some t => exact hempty t (List.mem_of_getLast? hget)
    rw [keptBlocks, hparts, hlast]
    rfl

/-- A message comes back as it was: its blocks are kept, and only the assistant thinks. -/
def KeptMessage (msg : Value) : Prop :=
  Kept hasPlace (blocksIn msg) ∧
    ((parseRole msg["role"].strOrEmpty).1 = .assistant ∨
      ∀ t ∈ (blocksIn msg).filterMap blockThinking, t = "")

omit [SerdeJson] in
theorem keptMessage_iff (msg : Value) :
    keptOf msg = spokenOf msg ∧ sentOf msg = spokenOf msg ↔ KeptMessage msg := by
  have hkept : keptOf msg = spokenOf msg ↔ Kept hasPlace (blocksIn msg) := by
    rw [keptOf, spokenOf]
    split
    · rename_i s hcontent
      have hblocks : blocksIn msg = [] := by
        rw [blocksIn, hcontent]
        rfl
      rw [hblocks]
      exact iff_of_true rfl ⟨fun part hpart ↦ (List.not_mem_nil hpart).elim,
        fun t ht ↦ (List.not_mem_nil ht).elim⟩
    · exact keptBlocks_eq_iff hasPlace (blocksIn msg)
  have hthought : (spokenOf msg).thought = "" ↔
      ∀ t ∈ (blocksIn msg).filterMap blockThinking, t = "" := by
    rw [spokenOf]
    split
    · rename_i s hcontent
      have hblocks : blocksIn msg = [] := by
        rw [blocksIn, hcontent]
        rfl
      rw [hblocks]
      exact iff_of_true rfl fun t ht ↦ (List.not_mem_nil ht).elim
    · exact join_eq_empty
  rw [KeptMessage, ← hkept, ← hthought]
  refine and_congr_right fun h ↦ ?_
  rw [sentOf, h]
  split
  · rename_i hrole
    exact iff_of_true rfl (Or.inl hrole)
  · rename_i hrole
    rw [or_iff_right hrole]
    constructor
    · intro heq
      exact (congrArg Spoken.thought heq).symm
    · intro heq
      rw [← heq]

/-- A request is read and written back with its texts, images and thoughts in order exactly when
each of its messages is kept. -/
theorem requestOrder_iff {v : Value} {ctx : ConvCtx} (hread : requestToIr v = .ok (req, ctx)) :
    (Spoken.all (req.messages.map Spoken.inConversation) = spokenMessages v ∧
      spokenMessages (requestFromIr req).1 = spokenMessages v) ↔
      ∀ msg ∈ messagesIn v, KeptMessage msg := by
  obtain ⟨m, messages, ext, tools, rfl, hconversation, -, hreq⟩ :=
    requestToIr_eq_ok.1 ⟨ctx, hread⟩
  have hmessages : req.messages = (readSystem (.obj m)).1.messages ++
      (messagesIn (.obj m)).flatMap readMessages := by
    rw [← messages_of_readConversation hconversation, hreq]
    rfl
  -- the system message says nothing in the conversation
  have hsystem : ∀ msg ∈ (readSystem (.obj m)).1.messages,
      Spoken.inConversation msg = {} ∧ ∀ part ∈ Spoken.partsOf msg.content, Sendable part := by
    have hleft := readSystem_left (.obj m)
    revert hleft
    generalize (readSystem (.obj m)).1.messages = messages
    generalize (readSystem (.obj m)).1.ext.cacheControl = cacheControl
    intro hleft msg hmsg
    cases hleft with
    | nothing => exact (List.not_mem_nil hmsg).elim
    | message text cc h =>
      rw [List.mem_singleton.1 hmsg]
      refine ⟨rfl, fun part hpart ↦ ?_⟩
      rw [List.mem_singleton.1 hpart]
      trivial
  have hall (f : IrMessage → Spoken) (g : Value → Spoken)
      (hf : ∀ msg, Spoken.inConversation msg = {} → f msg = {})
      (h : ∀ msg, Spoken.all ((readMessages msg).map f) = Spoken.all [g msg]) :
      Spoken.all (req.messages.map f) = Spoken.all ((messagesIn (.obj m)).map g) := by
    have hsilent : Spoken.all ((readSystem (.obj m)).1.messages.map f) = [] := by
      refine Spoken.all_eq_nil fun s hs ↦ ?_
      obtain ⟨msg, hmsg, rfl⟩ := List.mem_map.1 hs
      exact hf msg (hsystem msg hmsg).1
    rw [hmessages, List.map_append, Spoken.all_append, hsilent, List.nil_append]
    induction messagesIn (.obj m) with
    | nil => rfl
    | cons msg rest ih =>
      rw [List.flatMap_cons, List.map_append, Spoken.all_append, h msg, ih, ← Spoken.all_append]
      rfl
  have hsend : ∀ msg ∈ req.messages, ∀ part ∈ Spoken.partsOf msg.content, Sendable part := by
    intro msg hmsg
    rw [hmessages] at hmsg
    rcases List.mem_append.1 hmsg with hmsg | hmsg
    · exact (hsystem msg hmsg).2
    · obtain ⟨item, -, hitem⟩ := List.mem_flatMap.1 hmsg
      exact sendable_readMessages item msg hitem
  have hkept := hall Spoken.inConversation keptOf (fun _ h ↦ h) fun msg ↦ (readMessages_say msg).1
  have hsent := hall sentMessage sentOf (fun _ h ↦ sentMessage_of_ne h) fun msg ↦
    (readMessages_say msg).2
  rw [spokenMessages_requestFromIr hsend, hkept, hsent, spokenMessages,
    Spoken.all_map_eq_iff fun msg _ h ↦ keptOf_silent h, Spoken.all_map_eq_iff fun msg _ h ↦ by
      rw [sentOf, keptOf_silent h]; split <;> rfl, ← forall₂_and]
  exact forall₂_congr fun msg _ ↦ keptMessage_iff msg

end Requests

/-! ### Responses -/

section Responses

variable [SerdeJson]

/-- The parts and the thought that were read of a response. -/
structure ReadsParts (acc acc' : ResponseAcc) (blocks : List Value) : Prop where
  parts : acc'.parts = acc.parts ++ (blocks.filterMap partOf).filter hasResponsePlace
  reasoning : acc'.reasoning = (lastThinking blocks).or acc.reasoning

omit [SerdeJson] in
theorem partOf_of_other {block : Value} (h : block["type"].strOrEmpty ≠ "text") :
    (partOf block).filter hasResponsePlace = none := by
  rw [partOf]
  split
  · exact absurd ‹_› h
  · rw [imageOf]
    split <;> rfl
  · rfl
  · rfl

/-- Reading one block of a response. -/
theorem parseResponseBlock_reads (acc : ResponseAcc) (block : Value) :
    ReadsParts acc (parseResponseBlock acc block) [block] := by
  have hparts : (List.filterMap partOf [block]).filter hasResponsePlace =
      ((partOf block).filter hasResponsePlace).toList := by
    cases hpart : partOf block with
    | none => rw [List.filterMap_cons_none hpart]; rfl
    | some part =>
      rw [List.filterMap_cons_some hpart, List.filterMap_nil, List.filter_singleton,
        Option.filter_some]
      cases hasResponsePlace part <;> rfl
  have hthought : lastThinking [block] = blockThinking block := by
    rw [lastThinking]
    cases hthinking : blockThinking block with
    | none => rw [List.filterMap_cons_none hthinking]; rfl
    | some t => rw [List.filterMap_cons_some hthinking]; rfl
  -- a block of another type is neither a text nor a thought
  have hother {acc' : ResponseAcc} (htext : block["type"].strOrEmpty ≠ "text")
      (hthinking : block["type"].strOrEmpty ≠ "thinking") (hsame : acc'.parts = acc.parts)
      (hreasoning : acc'.reasoning = acc.reasoning) : ReadsParts acc acc' [block] := by
    constructor
    · rw [hparts, partOf_of_other htext, Option.toList_none, List.append_nil, hsame]
    · rw [hthought, blockThinking, if_neg hthinking, Option.none_or, hreasoning]
  rw [parseResponseBlock]
  split
  · split
    · rename_i htype
      constructor
      · rw [hparts, partOf, htype]
        rfl
      · rw [hthought, blockThinking, if_neg (htype ▸ by decide), Option.none_or]
    · rename_i htype
      exact hother (htype ▸ by decide) (htype ▸ by decide) rfl rfl
    · rename_i htype
      constructor
      · rw [hparts, partOf_of_other (htype ▸ by decide), Option.toList_none, List.append_nil]
        dsimp only
        split <;> rfl
      · rw [hthought, blockThinking, if_pos htype, Option.some_or]
        dsimp only
        split <;> rfl
    · rename_i htext _ hthinking
      exact hother htext hthinking rfl rfl
  · rename_i hobj
    have htype := type_of_not_object hobj
    exact hother (htype ▸ by decide) (htype ▸ by decide) rfl rfl

theorem foldl_parseResponseBlock_reads (blocks : List Value) (acc : ResponseAcc) :
    ReadsParts acc (blocks.foldl parseResponseBlock acc) blocks := by
  induction blocks generalizing acc with
  | nil => exact ⟨(List.append_nil _).symm, rfl⟩
  | cons block rest ih =>
    have hone := parseResponseBlock_reads acc block
    have hrest := ih (parseResponseBlock acc block)
    have happend {β : Type} (f : Value → Option β) :
        (block :: rest).filterMap f = [block].filterMap f ++ rest.filterMap f := by
      rw [← List.filterMap_append]
      rfl
    constructor
    · rw [List.foldl_cons, hrest.parts, hone.parts, List.append_assoc, ← List.filter_append,
        ← happend]
    · rw [List.foldl_cons, hrest.reasoning, hone.reasoning, ← Option.or_assoc, lastThinking,
        lastThinking, lastThinking, happend, List.getLast?_append]

/-- The message of a response says what is left of its blocks. -/
theorem ofMessage_parseResponseContent (content : Value) :
    Spoken.ofMessage (parseResponseContent content).1 =
      keptBlocks hasResponsePlace (content.asArray.getD []) := by
  rw [parseResponseContent]
  cases content.asArray with
  | none => rfl
  | some blocks =>
    have hreads := foldl_parseResponseBlock_reads blocks {}
    dsimp only [Option.getD_some]
    rw [Spoken.ofMessage, partsOf_partsContent, hreads.parts, hreads.reasoning, Option.or_none,
      keptBlocks]
    rfl

/-- A response is read as one message, or none when it has no content. -/
theorem choices_of_responseToIr {v : Value} {resp : IrResponse} {ctx : ConvCtx}
    (hread : responseToIr v = .ok (resp, ctx)) :
    resp.choices.map (fun choice ↦ choice.message) =
      ((v.get? "content").map fun content ↦ (parseResponseContent content).1).toList := by
  cases v with
  | obj m =>
    rw [← (Prod.mk.inj (Except.ok.inj hread)).1]
    cases (Value.obj m).get? "content" <;> rfl
  | _ => exact nomatch hread

/-- The blocks of a written response. -/
theorem blocksIn_responseFromIr (resp : IrResponse) :
    blocksIn (responseFromIr resp).1 =
      (responseBlocks ((resp.choices.map fun choice ↦ choice.message).head?.getD {}) resp).1 := by
  rw [blocksIn, responseFromIr]
  dsimp only
  rw [Value.get?_obj, Map.get?_insertPresent (by simp)]
  cases resp.choices <;> rfl

theorem spokenBlocks_responseBlocks {m : IrMessage} (resp : IrResponse)
    (h : ∀ part ∈ Spoken.partsOf m.content, Sendable part) :
    spokenBlocks (responseBlocks m resp).1 = Spoken.ofMessage m := by
  obtain ⟨thinking, hblocks, hthinking⟩ : ∃ thinking, (responseBlocks m resp).1 =
      thinking ++ contentBlocks m.content ++ m.toolCalls.map toolUseBlock ∧
      spokenBlocks thinking = ⟨[], m.reasoningContent.getD ""⟩ := by
    refine ⟨_, rfl, ?_⟩
    cases m.reasoningContent with
    | none => rfl
    | some rc =>
      cases (Map.get? resp.extra "thinking_signature").bind Value.asStr <;>
        exact congrArg (Spoken.mk []) (String.empty_append)
  rw [hblocks, spokenBlocks_append, spokenBlocks_append, hthinking, spokenBlocks_contentBlocks h,
    spokenBlocks_calls, Spoken.ofMessage]
  simp

/-- A response is read and written back with its texts and thoughts in order exactly when its
blocks are kept. -/
theorem responseOrder_iff {v : Value} {resp : IrResponse} {ctx : ConvCtx}
    (hread : responseToIr v = .ok (resp, ctx)) :
    (Spoken.all (resp.choices.map fun choice ↦ Spoken.ofMessage choice.message) =
        Spoken.all [spokenBlocks (blocksIn v)] ∧
      spokenBlocks (blocksIn (responseFromIr resp).1) = spokenBlocks (blocksIn v)) ↔
      Kept hasResponsePlace (blocksIn v) := by
  have hchoices := choices_of_responseToIr hread
  -- the one message, which is empty when there is no content
  obtain ⟨m, hm, hspoken, hall⟩ : ∃ m : IrMessage,
      (resp.choices.map fun choice ↦ choice.message).head?.getD {} = m ∧
      Spoken.ofMessage m = keptBlocks hasResponsePlace (blocksIn v) ∧
      Spoken.all (resp.choices.map fun choice ↦ Spoken.ofMessage choice.message) =
        Spoken.all [Spoken.ofMessage m] := by
    refine ⟨_, rfl, ?_, ?_⟩
    · rw [hchoices, blocksIn]
      cases v.get? "content" with
      | none => rfl
      | some content => exact ofMessage_parseResponseContent content
    · have hmap : (resp.choices.map fun choice ↦ Spoken.ofMessage choice.message) =
          (resp.choices.map fun choice ↦ choice.message).map Spoken.ofMessage := by
        rw [List.map_map]
        rfl
      rw [hmap, hchoices]
      cases v.get? "content" with
      | none => exact (Spoken.all_cons_silent []).symm
      | some content => rfl
  have hsend : ∀ part ∈ Spoken.partsOf m.content, Sendable part := by
    have hparts := congrArg Spoken.parts hspoken
    rw [Spoken.ofMessage, keptBlocks] at hparts
    intro part hpart
    rw [show Spoken.partsOf m.content = _ from hparts] at hpart
    have hplace := (List.mem_filter.1 hpart).2
    cases part with
    | text t => trivial
    | _ => exact nomatch hplace
  have hlone (s t : Spoken) : s = t → Spoken.all [s] = Spoken.all [t] := fun h ↦ by rw [h]
  rw [hall, blocksIn_responseFromIr, hm, spokenBlocks_responseBlocks resp hsend, hspoken,
    ← keptBlocks_eq_iff]
  exact ⟨And.right, fun h ↦ ⟨hlone _ _ h, h⟩⟩

end Responses

end NextApi.Anthropic
