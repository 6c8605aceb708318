import Mathlib.Data.List.Chain
import Mathlib.Data.List.Induction
import NextApi.Json.Members
import NextApi.Protocol.Anthropic.Request

/-!
# The messages of a request, read and written back

What `parseAnthMessage` makes of one message depends on its blocks one by one: text and images
become parts, a tool use becomes a call, a thinking block the reasoning, and a tool result becomes
a message of its own (`readMessages`).

Messages that were read can be written and read again. The writer puts the tool results that wait
in front of the next user message, and the reader puts them behind it, so the order of the
messages survives exactly when no user message directly follows a tool message
(`read_writeMessages`).
-/

set_option autoImplicit false

namespace NextApi.Anthropic

open Json Ir

/-! ### What a block contributes -/

/-- The part that a text or an image becomes. -/
def blockPart (block : Value) : Option IrPart :=
  match block["type"].strOrEmpty with
  | "text" => some (.text block["text"].strOrEmpty)
  | "image" =>
    match block["source"]["type"].strOrEmpty with
    | "base64" =>
      some (.imageInline block["source"]["media_type"].strOrEmpty
        block["source"]["data"].strOrEmpty)
    | "url" => some (.imageUrl block["source"]["url"].strOrEmpty)
    | _ => none
  | _ => none

/-- The call that a tool use becomes. -/
def blockCall [SerdeJson] (block : Value) : Option IrToolCall :=
  if block["type"].strOrEmpty = "tool_use" then
    some
      { id := block["id"].strOrEmpty
        name := block["name"].strOrEmpty
        arguments := inputToArguments block["input"] }
  else none

/-- The message that a tool result becomes. -/
def blockResult (block : Value) : Option IrMessage :=
  if block["type"].strOrEmpty = "tool_result" then some (toolResultMessage block) else none

/-- The reasoning that a thinking block gives. -/
def blockThinking (block : Value) : Option String :=
  if block["type"].strOrEmpty = "thinking" then some block["thinking"].strOrEmpty else none

/-- A value that is no object contributes nothing. -/
theorem type_of_not_object {block : Value} (h : block.isObject ≠ true) :
    block["type"].strOrEmpty = "" := by
  cases block with
  | obj members => exact absurd rfl h
  | _ => rfl

/-- The running result after one more block. -/
structure ReadsBlock [SerdeJson] (acc acc' : BlockAcc) (block : Value) : Prop where
  parts : acc'.parts = acc.parts ++ (blockPart block).toList
  toolCalls : acc'.toolCalls = acc.toolCalls ++ (blockCall block).toList
  toolMsgs : acc'.toolMsgs = acc.toolMsgs ++ (blockResult block).toList
  reasoning : acc'.reasoning = (blockThinking block).or acc.reasoning
  cacheControl : acc'.ext.cacheControl = acc.ext.cacheControl

theorem parseImageSource_reads [SerdeJson] (acc : BlockAcc) {block : Value}
    (h : block["type"].strOrEmpty = "image") :
    ReadsBlock acc (parseImageSource acc block["source"]) block := by
  have hpart : (parseImageSource acc block["source"]).parts =
      acc.parts ++ (blockPart block).toList := by
    rw [parseImageSource, blockPart, h]
    generalize block["source"]["type"].strOrEmpty = kind
    by_cases hbase : kind = "base64"
    · subst hbase
      rfl
    by_cases hurl : kind = "url"
    · subst hurl
      rfl
    · simp
  refine ⟨hpart, ?_, ?_, ?_, ?_⟩
  all_goals
    simp only [blockCall, blockResult, blockThinking, h, String.reduceEq, if_false, parseImageSource]
    split <;> simp

theorem parseBlock_reads [SerdeJson] (acc : BlockAcc) (block : Value) :
    ReadsBlock acc (parseBlock acc block) block := by
  rw [parseBlock]
  split
  · dsimp only
    generalize hacc : (if (block.get? "cache_control").isSome = true then _ else acc) = acc₁
    have hsame : acc₁.parts = acc.parts ∧ acc₁.toolCalls = acc.toolCalls ∧
        acc₁.toolMsgs = acc.toolMsgs ∧ acc₁.reasoning = acc.reasoning ∧
        acc₁.ext.cacheControl = acc.ext.cacheControl := by
      rw [← hacc]
      split <;> exact ⟨rfl, rfl, rfl, rfl, rfl⟩
    clear hacc
    obtain ⟨hparts, hcalls, hmsgs, hreasoning, hcc⟩ := hsame
    split
    case h_2 =>
      have h := parseImageSource_reads acc₁ ‹block["type"].strOrEmpty = "image"›
      constructor
      · rw [h.parts, hparts]
      · rw [h.toolCalls, hcalls]
      · rw [h.toolMsgs, hmsgs]
      · rw [h.reasoning, hreasoning]
      · rw [h.cacheControl, hcc]
    case h_5 =>
      split <;> constructor <;> simp_all [blockPart, blockCall, blockResult, blockThinking]
    all_goals constructor <;> simp_all [blockPart, blockCall, blockResult, blockThinking]
  · rename_i hobj
    have hty := type_of_not_object hobj
    constructor <;> simp_all [blockPart, blockCall, blockResult, blockThinking]

/-- The reasoning of a list of blocks: the last thinking block counts. -/
def lastThinking (blocks : List Value) : Option String :=
  (blocks.filterMap blockThinking).getLast?

/-- The running result after a list of blocks. -/
structure ReadsBlocks [SerdeJson] (acc acc' : BlockAcc) (blocks : List Value) : Prop where
  parts : acc'.parts = acc.parts ++ blocks.filterMap blockPart
  toolCalls : acc'.toolCalls = acc.toolCalls ++ blocks.filterMap blockCall
  toolMsgs : acc'.toolMsgs = acc.toolMsgs ++ blocks.filterMap blockResult
  reasoning : acc'.reasoning = (lastThinking blocks).or acc.reasoning
  cacheControl : acc'.ext.cacheControl = acc.ext.cacheControl

theorem filterMap_concat {α β : Type} (f : α → Option β) (xs : List α) (x : α) :
    (xs ++ [x]).filterMap f = xs.filterMap f ++ (f x).toList := by
  rw [List.filterMap_append]
  cases h : f x <;> simp [h]

theorem foldl_parseBlock_reads [SerdeJson] (acc : BlockAcc) (blocks : List Value) :
    ReadsBlocks acc (blocks.foldl parseBlock acc) blocks := by
  induction blocks using List.reverseRecOn with
  | nil => exact ⟨by simp, by simp, by simp, by simp [lastThinking], rfl⟩
  | append_singleton blocks block ih =>
    rw [List.foldl_append, List.foldl_cons, List.foldl_nil]
    have h := parseBlock_reads (blocks.foldl parseBlock acc) block
    constructor
    · rw [h.parts, ih.parts, filterMap_concat, List.append_assoc]
    · rw [h.toolCalls, ih.toolCalls, filterMap_concat, List.append_assoc]
    · rw [h.toolMsgs, ih.toolMsgs, filterMap_concat, List.append_assoc]
    · rw [h.reasoning, ih.reasoning, lastThinking, lastThinking, filterMap_concat]
      cases blockThinking block <;> simp
    · rw [h.cacheControl, ih.cacheControl]

/-! ### What a message becomes -/

/-- The message made of the blocks that are not tool results. -/
def ownMessage [SerdeJson] (role : IrRole) (blocks : List Value) : IrMessage where
  role := role
  content := partsContent (blocks.filterMap blockPart)
  toolCalls := blocks.filterMap blockCall
  reasoningContent := lastThinking blocks

/-- A message says something: it has content, calls or reasoning. -/
def Speaks (m : IrMessage) : Bool :=
  m.content.isSome || !m.toolCalls.isEmpty || m.reasoningContent.isSome

/-- The messages that one message of the request becomes. -/
def readMessages [SerdeJson] (msg : Value) : List IrMessage :=
  let role := (parseRole msg["role"].strOrEmpty).1
  match msg.get? "content" with
  | some (.str s) => [{ role := role, content := some (.text s) }]
  | some (.arr blocks) =>
    (if Speaks (ownMessage role blocks) then [ownMessage role blocks] else []) ++
      blocks.filterMap blockResult
  | _ => [{ role := role }]

theorem parseAnthMessage_reads [SerdeJson] {msg : Value} (ext : IrExt) (h : msg.isObject = true) :
    ∃ ext' ctx, parseAnthMessage msg ext = .ok (readMessages msg, ext', ctx) ∧
      ext'.cacheControl = ext.cacheControl := by
  rw [parseAnthMessage, if_pos h, readMessages]
  cases msg.get? "content" with
  | none => exact ⟨_, _, rfl, rfl⟩
  | some content =>
    cases content with
    | arr blocks =>
      let acc := blocks.foldl parseBlock { ext := ext, ctx := (parseRole msg["role"].strOrEmpty).2 }
      have hreads : ReadsBlocks _ acc blocks := foldl_parseBlock_reads _ blocks
      refine ⟨acc.ext, acc.ctx, ?_, hreads.cacheControl⟩
      show Except.ok (blockMessages (parseRole msg["role"].strOrEmpty).1 acc, acc.ext, acc.ctx) = _
      rw [blockMessages, mainMessage, hreads.parts, hreads.toolCalls, hreads.toolMsgs,
        hreads.reasoning]
      simp only [List.nil_append, Option.or_none]
      rfl
    | _ => exact ⟨_, _, rfl, rfl⟩

/-- A request whose messages are all objects is read message by message. -/
theorem parseMessages_reads [SerdeJson] {items : List Value}
    (h : ∀ msg ∈ items, msg.isObject = true) (ext : IrExt) :
    ∃ ext' ctx, parseMessages items ext = .ok (items.flatMap readMessages, ext', ctx) ∧
      ext'.cacheControl = ext.cacheControl := by
  induction items generalizing ext with
  | nil => exact ⟨ext, [], rfl, rfl⟩
  | cons msg rest ih =>
    obtain ⟨ext₁, ctx₁, hfirst, hcc₁⟩ := parseAnthMessage_reads ext (h msg List.mem_cons_self)
    obtain ⟨ext₂, ctx₂, hrest, hcc₂⟩ := ih (fun m hm ↦ h m (List.mem_cons_of_mem _ hm)) ext₁
    refine ⟨ext₂, ctx₁ ++ ctx₂, ?_, hcc₂.trans hcc₁⟩
    rw [parseMessages, hfirst]
    show (parseMessages rest ext₁).bind _ = _
    rw [hrest]
    rfl

/-! ### Messages that can be written -/

/-- Text and images have a content block. -/
def Sendable : IrPart → Prop
  | .text _ | .imageUrl _ | .imageInline _ _ => True
  | .inputAudio _ _ | .file _ _ _ => False

/-- Content that a list of blocks gives. -/
def Plain (content : IrContent) : Prop :=
  ∃ parts, partsContent parts = some content ∧ ∀ p ∈ parts, Sendable p

/-- A tool message, as reading gives it. -/
def toolMessage (id text : String) : IrMessage :=
  { role := .tool, toolCallId := some id, content := some (.text text) }

/-- The messages that reading gives. -/
inductive Readable : IrMessage → Prop
  | user {content : IrContent} (h : Plain content) :
      Readable { role := .user, content := some content }
  | assistant {m : IrMessage} (hrole : m.role = .assistant) (hname : m.name = none)
      (hid : m.toolCallId = none) (hcontent : ∀ content, m.content = some content → Plain content)
      (hspeaks : Speaks m = true) : Readable m
  | tool (id text : String) : Readable (toolMessage id text)

/-- A message without the texts of its arguments, which are written as JSON. -/
def skeleton (m : IrMessage) : IrMessage :=
  { m with toolCalls := m.toolCalls.map fun call ↦ { call with arguments := "" } }

theorem sendable_blockPart {block : Value} {part : IrPart} (h : blockPart block = some part) :
    Sendable part := by
  unfold blockPart at h
  split at h
  · cases h
    trivial
  · split at h
    · cases h
      trivial
    · cases h
      trivial
    · exact absurd h (by simp)
  · exact absurd h (by simp)

theorem plain_of_blocks {blocks : List Value} {content : IrContent}
    (h : partsContent (blocks.filterMap blockPart) = some content) : Plain content := by
  refine ⟨_, h, fun part hpart ↦ ?_⟩
  obtain ⟨block, -, hblock⟩ := List.mem_filterMap.1 hpart
  exact sendable_blockPart hblock

theorem plain_text (s : String) : Plain (.text s) :=
  ⟨[.text s], rfl, fun p hp ↦ by rw [List.mem_singleton.1 hp]; trivial⟩

/-! ### Content blocks read back -/

/-- A block that is read as a part, and as nothing else. -/
structure IsPart [SerdeJson] (block : Value) (part : IrPart) : Prop where
  part : blockPart block = some part
  call : blockCall block = none
  result : blockResult block = none
  thinking : blockThinking block = none

theorem isPart_textBlock [SerdeJson] (text : String) : IsPart (textBlock text) (.text text) := by
  constructor <;> simp [textBlock, blockPart, blockCall, blockResult, blockThinking]

/-- A sendable part is written as a block that is read as the part. -/
theorem isPart_partToAnthBlock [SerdeJson] {part : IrPart} (h : Sendable part) :
    ∃ block, (partToAnthBlock part).1 = some block ∧ IsPart block part := by
  cases part with
  | text text => exact ⟨textBlock text, rfl, isPart_textBlock text⟩
  | imageUrl url =>
    refine ⟨_, rfl, ?_⟩
    constructor <;> simp [blockPart, blockCall, blockResult, blockThinking]
  | imageInline mediaType data =>
    refine ⟨_, rfl, ?_⟩
    constructor <;> simp [blockPart, blockCall, blockResult, blockThinking]
  | inputAudio data format => exact h.elim
  | file name url data => exact h.elim

/-- Blocks that are read as these parts, and as nothing else. -/
structure AreParts [SerdeJson] (blocks : List Value) (parts : List IrPart) : Prop where
  parts : blocks.filterMap blockPart = parts
  calls : blocks.filterMap blockCall = []
  results : blocks.filterMap blockResult = []
  thinking : blocks.filterMap blockThinking = []

theorem AreParts.nil [SerdeJson] : AreParts [] [] := ⟨rfl, rfl, rfl, rfl⟩

theorem AreParts.cons [SerdeJson] {block : Value} {part : IrPart} {blocks : List Value}
    {parts : List IrPart} (h : IsPart block part) (hs : AreParts blocks parts) :
    AreParts (block :: blocks) (part :: parts) := by
  constructor
  · rw [List.filterMap_cons_some h.part, hs.parts]
  · rw [List.filterMap_cons_none h.call, hs.calls]
  · rw [List.filterMap_cons_none h.result, hs.results]
  · rw [List.filterMap_cons_none h.thinking, hs.thinking]

theorem areParts_filterMap [SerdeJson] {parts : List IrPart} (h : ∀ p ∈ parts, Sendable p) :
    AreParts (filterMapCtx partToAnthBlock parts).1 parts := by
  induction parts with
  | nil => exact .nil
  | cons part rest ih =>
    obtain ⟨block, hblock, hpart⟩ := isPart_partToAnthBlock (h part List.mem_cons_self)
    show AreParts ((part :: rest).filterMap fun p ↦ (partToAnthBlock p).1) _
    simp only [List.filterMap_cons, hblock]
    exact .cons hpart (ih fun p hp ↦ h p (List.mem_cons_of_mem _ hp))

/-- The content of a message as blocks, no content being no blocks. -/
def contentBlocks (content : Option IrContent) : List Value :=
  ((content.map contentToAnthropicBlocks).getD ([], [])).1

/-- Content that was read is written as blocks that are read as the content. -/
theorem areParts_contentBlocks [SerdeJson] {content : Option IrContent}
    (h : ∀ c, content = some c → Plain c) :
    ∃ parts, AreParts (contentBlocks content) parts ∧ partsContent parts = content := by
  cases content with
  | none => exact ⟨[], .nil, rfl⟩
  | some c =>
    cases c with
    | text s => exact ⟨[.text s], .cons (isPart_textBlock s) .nil, rfl⟩
    | parts ps =>
      obtain ⟨parts, hparts, hsend⟩ := h _ rfl
      obtain rfl : parts = ps := by
        unfold partsContent at hparts
        split at hparts <;> simp_all
      exact ⟨parts, areParts_filterMap hsend, hparts⟩

/-! ### Messages read back -/

/-- The blocks of tool messages. -/
def resultBlocks (results : List IrMessage) : List Value :=
  results.map fun m ↦ (toolResultBlock m).1

/-- All these messages are tool messages as reading gives them. -/
def AreResults (results : List IrMessage) : Prop :=
  ∀ m ∈ results, ∃ id text, m = toolMessage id text

theorem blockResult_toolResultBlock (id text : String) :
    blockResult (toolResultBlock (toolMessage id text)).1 = some (toolMessage id text) := by
  simp [blockResult, toolResultBlock, toolMessage, toolResultMessage, toolResultText]

/-- The blocks of tool messages are read as the messages, and as nothing else. -/
theorem resultBlocks_reads [SerdeJson] {results : List IrMessage} (h : AreResults results) :
    (resultBlocks results).filterMap blockResult = results ∧
      (resultBlocks results).filterMap blockPart = [] ∧
      (resultBlocks results).filterMap blockCall = [] ∧
      (resultBlocks results).filterMap blockThinking = [] := by
  induction results with
  | nil => exact ⟨rfl, rfl, rfl, rfl⟩
  | cons m rest ih =>
    obtain ⟨hres, hpart, hcall, hthink⟩ := ih fun m hm ↦ h m (List.mem_cons_of_mem _ hm)
    obtain ⟨id, text, rfl⟩ := h m List.mem_cons_self
    rw [resultBlocks] at hres hpart hcall hthink ⊢
    rw [List.map_cons]
    refine ⟨?_, ?_, ?_, ?_⟩
    · rw [List.filterMap_cons_some (blockResult_toolResultBlock id text), hres]
    · rw [List.filterMap_cons_none, hpart]
      simp [blockPart, toolResultBlock, toolMessage]
    · rw [List.filterMap_cons_none, hcall]
      simp [blockCall, toolResultBlock, toolMessage]
    · rw [List.filterMap_cons_none, hthink]
      simp [blockThinking, toolResultBlock, toolMessage]

theorem readMessages_anthMessage [SerdeJson] (role : String) (blocks : List Value) :
    readMessages (anthMessage role blocks) =
      (if Speaks (ownMessage (parseRole role).1 blocks) then
        [ownMessage (parseRole role).1 blocks] else []) ++ blocks.filterMap blockResult := by
  simp [readMessages, anthMessage]

theorem isObject_anthMessage (role : String) (blocks : List Value) :
    (anthMessage role blocks).isObject = true := rfl

/-- A user message of tool results alone is read as the results. -/
theorem readMessages_results [SerdeJson] {results : List IrMessage} (h : AreResults results) :
    readMessages (anthMessage "user" (resultBlocks results)) = results := by
  obtain ⟨hres, hpart, hcall, hthink⟩ := resultBlocks_reads h
  rw [readMessages_anthMessage, hres, ownMessage, hpart, hcall, lastThinking, hthink]
  rfl

/-- A user message is written as one that is read as the message. -/
theorem readMessages_user [SerdeJson] {content : IrContent} (h : Plain content) :
    readMessages (anthMessage "user" (contentBlocks (some content))) =
      [{ role := .user, content := some content }] := by
  have hplain : ∀ c, some content = some c → Plain c := fun c hc ↦ Option.some.inj hc ▸ h
  obtain ⟨parts, hparts, hcontent⟩ := areParts_contentBlocks hplain
  rw [readMessages_anthMessage, ownMessage, hparts.parts, hparts.calls, hparts.results,
    lastThinking, hparts.thinking, hcontent]
  rfl

theorem blocks_toolUse [SerdeJson] (calls : List IrToolCall) :
    (calls.map toolUseBlock).filterMap blockPart = [] ∧
      (calls.map toolUseBlock).filterMap blockResult = [] ∧
      (calls.map toolUseBlock).filterMap blockThinking = [] ∧
      ((calls.map toolUseBlock).filterMap blockCall).map
        (fun call ↦ { call with arguments := "" }) =
          calls.map fun call ↦ { call with arguments := "" } := by
  induction calls with
  | nil => exact ⟨rfl, rfl, rfl, rfl⟩
  | cons call rest ih =>
    obtain ⟨hpart, hres, hthink, hcall⟩ := ih
    rw [List.map_cons]
    refine ⟨?_, ?_, ?_, ?_⟩
    · rw [List.filterMap_cons_none, hpart]
      simp [blockPart, toolUseBlock]
    · rw [List.filterMap_cons_none, hres]
      simp [blockResult, toolUseBlock]
    · rw [List.filterMap_cons_none, hthink]
      simp [blockThinking, toolUseBlock]
    · have hread : blockCall (toolUseBlock call) =
          some { id := call.id, name := call.name,
                 arguments := inputToArguments (toolUseBlock call)["input"] } := by
        simp [blockCall, toolUseBlock]
      rw [List.filterMap_cons_some hread, List.map_cons, List.map_cons, hcall]

/-- The thinking block is read as the reasoning, and as nothing else. -/
theorem blocks_thinking [SerdeJson] (reasoning : Option String) (req : IrRequest) :
    let blocks := (reasoning.map fun rc ↦ thinkingBlock rc req).toList
    blocks.filterMap blockPart = [] ∧ blocks.filterMap blockResult = [] ∧
      blocks.filterMap blockCall = [] ∧ blocks.filterMap blockThinking = reasoning.toList := by
  cases reasoning with
  | none => exact ⟨rfl, rfl, rfl, rfl⟩
  | some rc =>
    have htype : (thinkingBlock rc req)["type"].strOrEmpty = "thinking" ∧
        (thinkingBlock rc req)["thinking"].strOrEmpty = rc := by
      unfold thinkingBlock
      dsimp only
      split <;> simp [Value.object]
    simp only [Option.map_some, Option.toList_some, List.filterMap_cons, List.filterMap_nil,
      blockPart, blockResult, blockCall, blockThinking, htype.1, htype.2, String.reduceEq, if_true,
      if_false, and_self]
    exact ⟨rfl, trivial⟩

/-- An assistant message is written as one that is read as the message, up to the arguments. -/
theorem readMessages_assistant [SerdeJson] {m : IrMessage} (req : IrRequest)
    (hrole : m.role = .assistant) (hname : m.name = none) (hid : m.toolCallId = none)
    (hcontent : ∀ content, m.content = some content → Plain content) (hspeaks : Speaks m = true) :
    (readMessages (messageToAnthropic m req).1).map skeleton = [skeleton m] := by
  obtain ⟨parts, hparts, hback⟩ := areParts_contentBlocks hcontent
  obtain ⟨ht1, ht2, ht3, ht4⟩ := blocks_thinking m.reasoningContent req
  obtain ⟨hu1, hu2, hu3, hu4⟩ := blocks_toolUse m.toolCalls
  have hmessage : (messageToAnthropic m req).1 = anthMessage "assistant"
      ((m.reasoningContent.map fun rc ↦ thinkingBlock rc req).toList ++ contentBlocks m.content ++
        m.toolCalls.map toolUseBlock) := rfl
  rw [hmessage]
  generalize hblocks : (m.reasoningContent.map fun rc ↦ thinkingBlock rc req).toList ++
    contentBlocks m.content ++ m.toolCalls.map toolUseBlock = blocks
  have hpart : partsContent (blocks.filterMap blockPart) = m.content := by
    rw [← hblocks, List.filterMap_append, List.filterMap_append, ht1, hparts.parts, hu1,
      List.nil_append, List.append_nil, hback]
  have hresult : blocks.filterMap blockResult = [] := by
    rw [← hblocks, List.filterMap_append, List.filterMap_append, ht2, hparts.results, hu2]
    rfl
  have hthink : lastThinking blocks = m.reasoningContent := by
    rw [lastThinking, ← hblocks, List.filterMap_append, List.filterMap_append, ht4,
      hparts.thinking, hu3, List.append_nil, List.append_nil]
    cases m.reasoningContent <;> rfl
  have hcalls : (blocks.filterMap blockCall).map (fun call ↦ { call with arguments := "" }) =
      m.toolCalls.map fun call ↦ { call with arguments := "" } := by
    rw [← hblocks, List.filterMap_append, List.filterMap_append, ht3, hparts.calls,
      List.nil_append, List.nil_append, hu4]
  have hempty : (blocks.filterMap blockCall).isEmpty = m.toolCalls.isEmpty := by
    have hlength := congrArg List.length hcalls
    rw [List.length_map, List.length_map] at hlength
    rw [Bool.eq_iff_iff, List.isEmpty_iff_length_eq_zero, List.isEmpty_iff_length_eq_zero, hlength]
  have hspeaks' : Speaks (ownMessage (parseRole "assistant").1 blocks) = true := by
    rw [← hspeaks, Speaks, Speaks, ownMessage, hpart, hthink, hempty]
  rw [readMessages_anthMessage, if_pos hspeaks', hresult, List.append_nil, List.map_singleton,
    skeleton, skeleton, ownMessage, hpart, hthink, hcalls]
  obtain ⟨role, content, name, toolCalls, toolCallId, reasoning⟩ := m
  dsimp only at hrole hname hid
  rw [hrole, hname, hid]
  rfl

/-! ### A run of the writer -/

/-- Two neighbours may stand in this order: no user message directly follows a tool message. -/
def MayFollow (m next : IrMessage) : Prop := ¬ (m.role = .tool ∧ next.role = .user)

/-- Between these states the writer wrote objects that are read as these messages, up to the
arguments. -/
def Writes [SerdeJson] (acc acc' : MessagesAcc) (messages : List IrMessage) : Prop :=
  ∃ written, acc'.out = acc.out ++ written ∧ (∀ v ∈ written, v.isObject = true) ∧
    (written.flatMap readMessages).map skeleton = messages.map skeleton

theorem writeMessage_user [SerdeJson] (req : IrRequest) (acc : MessagesAcc)
    (content : IrContent) (h : acc.pendingToolResults = []) :
    (writeMessage req acc { role := .user, content := some content }).out =
        acc.out ++ [anthMessage "user" (contentBlocks (some content))] ∧
      (writeMessage req acc { role := .user, content := some content }).pendingToolResults = [] := by
  rw [writeMessage, h]
  exact ⟨rfl, rfl⟩

theorem writeMessage_tool [SerdeJson] (req : IrRequest) (acc : MessagesAcc) (id text : String) :
    (writeMessage req acc (toolMessage id text)).out = acc.out ∧
      (writeMessage req acc (toolMessage id text)).pendingToolResults =
        acc.pendingToolResults ++ resultBlocks [toolMessage id text] :=
  ⟨rfl, rfl⟩

theorem writeMessage_assistant [SerdeJson] (req : IrRequest) (acc : MessagesAcc) {m : IrMessage}
    (h : m.role = .assistant) :
    (writeMessage req acc m).out = acc.flush.out ++ [(messageToAnthropic m req).1] ∧
      (writeMessage req acc m).pendingToolResults = [] := by
  rw [writeMessage, h]
  refine ⟨rfl, ?_⟩
  show acc.flush.pendingToolResults = []
  rw [MessagesAcc.flush]
  split
  · exact List.isEmpty_iff.1 ‹_›
  · rfl

/-- Flushing writes the waiting results as one user message. -/
theorem flush_writes [SerdeJson] {acc : MessagesAcc} {results : List IrMessage}
    (hpending : acc.pendingToolResults = resultBlocks results) (h : AreResults results) :
    Writes acc acc.flush results := by
  rw [MessagesAcc.flush]
  split
  · rename_i hempty
    rw [hpending, List.isEmpty_iff, resultBlocks, List.map_eq_nil_iff] at hempty
    subst hempty
    exact ⟨[], by rw [List.append_nil], fun v hv ↦ absurd hv List.not_mem_nil, rfl⟩
  · refine ⟨[anthMessage "user" acc.pendingToolResults], rfl, fun v hv ↦ ?_, ?_⟩
    · rw [List.mem_singleton.1 hv]
      exact isObject_anthMessage _ _
    · rw [hpending, List.flatMap_singleton, readMessages_results h]

theorem Writes.trans [SerdeJson] {acc₁ acc₂ acc₃ : MessagesAcc} {first second : List IrMessage}
    (h₁ : Writes acc₁ acc₂ first) (h₂ : Writes acc₂ acc₃ second) :
    Writes acc₁ acc₃ (first ++ second) := by
  obtain ⟨w₁, hout₁, hobj₁, hread₁⟩ := h₁
  obtain ⟨w₂, hout₂, hobj₂, hread₂⟩ := h₂
  refine ⟨w₁ ++ w₂, by rw [hout₂, hout₁, List.append_assoc], fun v hv ↦ ?_, ?_⟩
  · exact (List.mem_append.1 hv).elim (hobj₁ v) (hobj₂ v)
  · rw [List.flatMap_append, List.map_append, List.map_append, hread₁, hread₂]

/-- A written message that is read as one message, up to the arguments. -/
theorem Writes.single [SerdeJson] {acc acc' : MessagesAcc} {written : Value} {m : IrMessage}
    (hout : acc'.out = acc.out ++ [written]) (hobj : written.isObject = true)
    (hread : (readMessages written).map skeleton = [skeleton m]) : Writes acc acc' [m] := by
  refine ⟨[written], hout, fun v hv ↦ List.mem_singleton.1 hv ▸ hobj, ?_⟩
  rw [List.flatMap_singleton, hread, List.map_singleton]

/-- Writing messages that were read, with some results waiting, and reading what was written gives
the results and the messages. The induction is on the messages, for all waiting results. -/
theorem foldl_writeMessage_writes [SerdeJson] (req : IrRequest) {messages : List IrMessage}
    (hreadable : ∀ m ∈ messages, Readable m) (acc : MessagesAcc) (results : List IrMessage)
    (hpending : acc.pendingToolResults = resultBlocks results) (hresults : AreResults results)
    (hchain : List.IsChain MayFollow (results ++ messages)) :
    Writes acc (messages.foldl (writeMessage req) acc).flush (results ++ messages) := by
  induction messages generalizing acc results with
  | nil =>
    rw [List.append_nil]
    exact flush_writes hpending hresults
  | cons m rest ih =>
    have hrest : ∀ m ∈ rest, Readable m := fun m hm ↦ hreadable m (List.mem_cons_of_mem _ hm)
    have htail : List.IsChain MayFollow rest := (List.isChain_append.1 hchain).2.1.tail
    rw [List.foldl_cons]
    cases hreadable m List.mem_cons_self with
    | @user content hplain =>
      -- the waiting results would stand before the user message
      obtain rfl : results = [] := by
        by_contra hne
        obtain ⟨last, hlast⟩ := Option.ne_none_iff_exists'.1
          (fun h ↦ hne (List.getLast?_eq_none_iff.1 h))
        obtain ⟨id, text, rfl⟩ := hresults last (List.mem_of_getLast? hlast)
        exact (List.isChain_append.1 hchain).2.2 _ hlast _ rfl ⟨rfl, rfl⟩
      obtain ⟨hout, hnone⟩ := writeMessage_user req acc content hpending
      have hmore := ih hrest _ [] hnone (fun m hm ↦ absurd hm List.not_mem_nil) htail
      have hmessage : Writes acc (writeMessage req acc { role := .user, content := some content })
          [{ role := .user, content := some content }] :=
        Writes.single hout (isObject_anthMessage _ _) (by rw [readMessages_user hplain]; rfl)
      exact hmessage.trans hmore
    | assistant hrole hname hid hcontent hspeaks =>
      obtain ⟨hout, hnone⟩ := writeMessage_assistant req acc hrole
      have hflush := flush_writes hpending hresults
      have hmessage : Writes acc.flush (writeMessage req acc m) [m] :=
        Writes.single hout (isObject_anthMessage _ _)
          (readMessages_assistant req hrole hname hid hcontent hspeaks)
      have hmore := ih hrest _ [] hnone (fun m hm ↦ absurd hm List.not_mem_nil) htail
      exact hflush.trans (hmessage.trans hmore)
    | tool id text =>
      obtain ⟨hout, hmore⟩ := writeMessage_tool req acc id text
      have hpending' : (writeMessage req acc (toolMessage id text)).pendingToolResults =
          resultBlocks (results ++ [toolMessage id text]) := by
        rw [hmore, hpending, resultBlocks, resultBlocks, resultBlocks, List.map_append]
      have hresults' : AreResults (results ++ [toolMessage id text]) := fun m hm ↦
        (List.mem_append.1 hm).elim (hresults m) fun h ↦ ⟨id, text, List.mem_singleton.1 h⟩
      have hwrites := ih hrest _ _ hpending' hresults' (by
        rw [List.append_assoc]
        exact hchain)
      rw [List.append_assoc] at hwrites
      obtain ⟨written, hwritten, hobj, hread⟩ := hwrites
      exact ⟨written, by rw [hwritten, hout], hobj, hread⟩

/-! ### A whole request -/

/-- A request is read when its tools, if any, are an array. -/
theorem requestToIr_reads [SerdeJson] {m : Map} {items : List Value}
    (hmessages : Map.get? m "messages" = some (.arr items))
    (hitems : ∀ msg ∈ items, msg.isObject = true)
    (htools : ∀ tools, Map.get? m "tools" = some tools → tools.isArray = true) :
    ∃ req ctx, requestToIr (.obj m) = .ok (req, ctx) ∧
      req.messages = (readSystem (.obj m)).1.messages ++ items.flatMap readMessages ∧
      req.ext.cacheControl = (readSystem (.obj m)).1.ext.cacheControl ∧ req.extra = carriedMembers m := by
  obtain ⟨ext, ctx, hparse, hcc⟩ := parseMessages_reads hitems (readSystem (.obj m)).1.ext
  unfold requestToIr
  simp only [Value.asObject, hmessages, Value.get?_obj, Value.asArray_arr, hparse]
  cases hget : Map.get? m "tools" with
  | none => exact ⟨_, _, rfl, rfl, hcc, rfl⟩
  | some tools =>
    cases tools with
    | arr ts => exact ⟨_, _, rfl, rfl, hcc, rfl⟩
    | _ => exact absurd (htools _ hget) (by simp [Value.isArray])

/-- What a request that was read looks like. -/
theorem isArray_tools_of_requestToIr [SerdeJson] {v : Value} {r : IrRequest × ConvCtx}
    (h : requestToIr v = .ok r) :
    ∃ m, v = .obj m ∧ ∀ tools, Map.get? m "tools" = some tools → tools.isArray = true := by
  cases v with
  | obj m =>
    refine ⟨m, rfl, fun tools hget ↦ ?_⟩
    by_contra harr
    have htools : parseTools tools = .error (.parse "tools 不是数组") := by
      rw [parseTools]
      cases tools with
      | arr ts => exact absurd rfl harr
      | _ => rfl
    unfold requestToIr at h
    simp only [Value.asObject, Value.get?_obj, hget, htools] at h
    split at h
    · split at h
      · rename_i items _
        generalize parseMessages items _ = parsed at h
        cases parsed <;> exact absurd h (by simp [bind, Except.bind])
      · exact absurd h (by simp [bind, Except.bind])
    · exact absurd h (by simp [bind, Except.bind])
  | _ => exact absurd h (by simp [requestToIr, Value.asObject])

/-! ### The system message -/

def systemMessage (text : String) : IrMessage := { role := .system, content := some (.text text) }

/-- What the system member leaves behind: nothing, or one message that is not empty or has a cache
control. -/
inductive SystemLeft : List IrMessage → Option Value → Prop
  | nothing : SystemLeft [] none
  | message (text : String) (cc : Option Value) (h : ¬ (text = "" ∧ cc = none)) :
      SystemLeft [systemMessage text] cc

theorem readSystem_left (v : Value) :
    SystemLeft (readSystem v).1.messages (readSystem v).1.ext.cacheControl := by
  unfold readSystem
  dsimp only
  split
  · rename_i sys _
    unfold parseSystem
    dsimp only
    split
    · exact .nothing
    · split
      · exact .nothing
      · rename_i h
        exact .message _ _ h
    · split
      · rename_i h
        dsimp only
        rw [h.2]
        exact .nothing
      · rename_i h
        exact .message _ _ h
    · exact .nothing
  · exact .nothing

/-- The members that are carried have no reader. -/
theorem get?_carriedMembers (m : Map) {key : String} (h : key ∈ knownRequestFields) :
    Map.get? (carriedMembers m) key = none := by
  show Map.get? (Map.insertAll [] (Map.without m knownRequestFields)) key = none
  rw [Map.get?_insertAll_of_notMem (Map.notMem_keys_without m h), Map.get?_nil]

theorem systemPieces_eq_nil {messages : List IrMessage} (h : ∀ m ∈ messages, m.role ≠ .system) :
    messages.flatMap systemPieces = [] := by
  rw [List.flatMap_eq_nil_iff]
  intro m hm
  rw [systemPieces, if_neg (h m hm)]

/-- The system message is written so that it is read again. -/
theorem readSystem_systemToAnthropic {req : IrRequest} {sys rest : List IrMessage} {m : Map}
    (hmessages : req.messages = sys ++ rest) (hleft : SystemLeft sys req.ext.cacheControl)
    (hrest : ∀ m ∈ rest, m.role ≠ .system)
    (hget : Map.get? m "system" = systemToAnthropic req) :
    (readSystem (.obj m)).1.messages = sys ∧
      (readSystem (.obj m)).1.ext.cacheControl = req.ext.cacheControl := by
  have hpieces : req.messages.flatMap systemPieces = sys.flatMap systemPieces := by
    rw [hmessages, List.flatMap_append, systemPieces_eq_nil hrest, List.append_nil]
  rw [systemToAnthropic, hpieces] at hget
  rw [readSystem, Value.get?_obj, hget]
  generalize req.ext.cacheControl = cc at hleft ⊢
  cases hleft with
  | nothing => exact ⟨rfl, rfl⟩
  | message text cc h =>
    cases cc with
    | none =>
      have htext : text ≠ "" := fun htext ↦ h ⟨htext, rfl⟩
      simp [systemMessage, systemPieces, parseSystem, htext]
    | some control =>
      simp [systemMessage, systemPieces, parseSystem, parseSystemBlock, textBlock, Value.object,
        String.join]

/-! ### A request written and read again -/

/-- A request that was read, with messages in an order that the writer keeps, is read again with
the same messages, up to the arguments. -/
theorem requestToIr_requestFromIr [SerdeJson] {m : Map} {req : IrRequest}
    {sys rest : List IrMessage} (hmessages : req.messages = sys ++ rest)
    (hleft : SystemLeft sys req.ext.cacheControl) (hextra : req.extra = carriedMembers m)
    (hreadable : ∀ m ∈ rest, Readable m) (hchain : List.IsChain MayFollow rest) :
    ∃ req' ctx', requestToIr (requestFromIr req).1 = .ok (req', ctx') ∧
      req'.messages.map skeleton = req.messages.map skeleton := by
  have hroles : ∀ m ∈ rest, m.role ≠ .system := fun m hm ↦ by
    cases hreadable m hm with
    | user h => exact IrRole.noConfusion
    | assistant hrole => exact hrole ▸ IrRole.noConfusion
    | tool id text => exact IrRole.noConfusion
  obtain ⟨written, hout, hobj, hread⟩ := foldl_writeMessage_writes req hreadable {} [] rfl
    (fun m hm ↦ absurd hm List.not_mem_nil) hchain
  have hsys (acc : MessagesAcc) : sys.foldl (writeMessage req) acc = acc := by
    generalize req.ext.cacheControl = cc at hleft
    cases hleft with
    | nothing => rfl
    | message text cc h => rfl
  have hwritten : (messagesToAnthropic req).1 = .arr written := by
    show Value.arr (req.messages.foldl (writeMessage req) {}).flush.out = _
    rw [hmessages, List.foldl_append, hsys, hout]
    rfl
  generalize hm' : Map.insertPresent req.extra
    (requestMembers req (req.maxTokens.getD defaultMaxTokens)) = m'
  have hfrom : (requestFromIr req).1 = .obj m' := by
    rw [requestFromIr, ← hm']
    cases req.maxTokens <;> rfl
  have hnone {key : String} (h : key ∈ knownRequestFields) : Map.get? req.extra key = none := by
    rw [hextra]
    exact get?_carriedMembers m h
  have hgetMessages : Map.get? m' "messages" = some (.arr written) := by
    rw [← hm', ← hwritten]
    simp [requestMembers]
  have hgetSystem : Map.get? m' "system" = systemToAnthropic req := by
    rw [← hm']
    simp [requestMembers, hnone (show "system" ∈ knownRequestFields by decide)]
  have hgetTools (tools : Value) (h : Map.get? m' "tools" = some tools) :
      tools.isArray = true := by
    rw [← hm'] at h
    simp only [requestMembers, Map.insertPresent_cons, Map.insertPresent_nil, Map.get?_insertOpt,
      hnone (show "tools" ∈ knownRequestFields by decide), String.reduceEq, if_false, if_true,
      Option.or_none] at h
    split at h
    · exact absurd h (by simp)
    · rw [← Option.some.inj h]
      rfl
  obtain ⟨req', ctx', hok, hmsgs, -, -⟩ := requestToIr_reads hgetMessages hobj hgetTools
  refine ⟨req', ctx', by rw [hfrom, hok], ?_⟩
  rw [hmsgs, (readSystem_systemToAnthropic hmessages hleft hroles hgetSystem).1, hmessages,
    List.map_append, List.map_append, hread]
  rfl

end NextApi.Anthropic
