import NextApi.Json.Compact
import NextApi.Protocol.Anthropic.RequestMessages

/-!
# Tool results behind their calls

In a conversation with tools, assistant turns that use tools alternate with user turns that answer
them, and a user turn may mix tool results with text and images (`Conversation`). Chat and
Responses want the answers directly behind the message that made the calls (`AnsweredAtOnce`).

`parseAnthMessage` puts the text and images of a turn in front of its tool results, so a turn that
mixes them puts a user message between a call and its answer. For a conversation whose user turns
do not mix (`Unmixed`) the answers stand directly behind the calls, and for no other
(`answeredAtOnce_iff_unmixed`). The order of the messages survives being written as a Messages
request and read again in either case.
-/

set_option autoImplicit false

namespace NextApi.Anthropic

open Json Ir

/-! ### Conversations -/

/-- The content blocks of a message of the request. -/
def blocksOf (msg : Value) : List Value := (msg["content"].asArray).getD []

def blockType (block : Value) : String := block["type"].strOrEmpty

/-- The ids of the tool uses of a turn. -/
def toolUseIds (msg : Value) : List String :=
  ((blocksOf msg).filter fun b ↦ blockType b = "tool_use").map fun b ↦ b["id"].strOrEmpty

/-- The ids that the tool results of a turn answer. -/
def toolResultIds (msg : Value) : List String :=
  ((blocksOf msg).filter fun b ↦ blockType b = "tool_result").map fun b ↦
    b["tool_use_id"].strOrEmpty

/-- A text block or an image from a source that is read. -/
def isTextOrImage (block : Value) : Prop :=
  blockType block = "text" ∨ blockType block = "image" ∧
    (block["source"]["type"].strOrEmpty = "base64" ∨ block["source"]["type"].strOrEmpty = "url")

/-- A turn has text or images, be it as a string or as blocks. -/
def HasContent (msg : Value) : Prop :=
  msg["content"].isString = true ∨ ∃ block ∈ blocksOf msg, isTextOrImage block

/-- A turn of the user: text, images and tool results in any order and number. -/
structure UserTurn (msg : Value) : Prop where
  role : msg["role"] = .str "user"
  content : msg["content"].isString = true ∨ msg["content"].isArray = true
  blocks : ∀ block ∈ blocksOf msg, blockType block ≠ "tool_use" ∧ blockType block ≠ "thinking"

/-- A turn of the assistant: text, images, thinking and tool uses in any order, at least one. -/
structure AssistantTurn (msg : Value) : Prop where
  role : msg["role"] = .str "assistant"
  content : msg["content"].isString = true ∨ msg["content"].isArray = true ∧
    ∃ block ∈ blocksOf msg, isTextOrImage block ∨ blockType block = "tool_use" ∨
      blockType block = "thinking"
  blocks : ∀ block ∈ blocksOf msg, blockType block ≠ "tool_result"

/-- Turns that alternate from an assistant turn on, each user turn answering every tool use of the
assistant turn before it. -/
inductive Alternates : List Value → Prop
  | nil : Alternates []
  | last {a : Value} (ha : AssistantTurn a) (hnone : toolUseIds a = []) : Alternates [a]
  | exchange {a u : Value} {rest : List Value} (ha : AssistantTurn a) (hu : UserTurn u)
      (hanswers : (toolResultIds u).Perm (toolUseIds a)) (hrest : Alternates rest) :
      Alternates (a :: u :: rest)

/-- A conversation may open with a turn of the user, who has nothing to answer yet. -/
inductive Conversation : List Value → Prop
  | assistant {turns : List Value} (h : Alternates turns) : Conversation turns
  | user {u : Value} {turns : List Value} (hu : UserTurn u) (hnone : toolResultIds u = [])
      (h : Alternates turns) : Conversation (u :: turns)

/-- No turn mixes tool results with text or images. -/
def Unmixed (turns : List Value) : Prop :=
  ∀ turn ∈ turns, HasContent turn → toolResultIds turn = []

/-! ### Answers -/

/-- The tool messages directly behind an assistant message answer its calls, each once. -/
def AnsweredAtOnce (messages : List IrMessage) : Prop :=
  ∀ (before after : List IrMessage) (m : IrMessage), messages = before ++ m :: after →
    m.role = .assistant →
      ((after.takeWhile fun t ↦ decide (t.role = .tool)).map IrMessage.toolCallId).Perm
        (m.toolCalls.map fun call ↦ some call.id)

theorem answeredAtOnce_nil : AnsweredAtOnce [] := by
  intro before after m h
  exact absurd h (by simp)

theorem answeredAtOnce_cons {m : IrMessage} {rest : List IrMessage} :
    AnsweredAtOnce (m :: rest) ↔
      (m.role = .assistant →
        ((rest.takeWhile fun t ↦ decide (t.role = .tool)).map IrMessage.toolCallId).Perm
          (m.toolCalls.map fun call ↦ some call.id)) ∧ AnsweredAtOnce rest := by
  constructor
  · intro h
    refine ⟨h [] rest m rfl, fun before after m' heq ↦ h (m :: before) after m' ?_⟩
    rw [heq, List.cons_append]
  · rintro ⟨hfirst, hrest⟩ before after m' heq
    cases before with
    | nil =>
      obtain ⟨rfl, rfl⟩ := List.cons.inj heq
      exact hfirst
    | cons first before =>
      obtain ⟨-, heq⟩ := List.cons.inj heq
      exact hrest before after m' heq

/-- Messages that are not of the assistant leave nothing to answer. -/
theorem answeredAtOnce_append {messages rest : List IrMessage}
    (h : ∀ m ∈ messages, m.role ≠ .assistant) :
    AnsweredAtOnce (messages ++ rest) ↔ AnsweredAtOnce rest := by
  induction messages with
  | nil => rfl
  | cons m messages ih =>
    rw [List.cons_append, answeredAtOnce_cons,
      ih fun m hm ↦ h m (List.mem_cons_of_mem _ hm)]
    exact and_iff_right fun hrole ↦ absurd hrole (h m List.mem_cons_self)

/-! ### What a turn becomes -/

theorem get?_content {msg : Value}
    (h : msg["content"].isString = true ∨ msg["content"].isArray = true) :
    (∃ s, msg.get? "content" = some (.str s)) ∨
      ∃ blocks, msg.get? "content" = some (.arr blocks) ∧ blocksOf msg = blocks := by
  rw [blocksOf]
  cases hget : msg.get? "content" with
  | none => simp [hget, Value.isString, Value.isArray] at h
  | some content =>
    cases content with
    | str s => exact Or.inl ⟨s, rfl⟩
    | arr blocks => exact Or.inr ⟨blocks, rfl, by simp [hget]⟩
    | _ => simp [hget, Value.isString, Value.isArray] at h

theorem isSome_blockPart {block : Value} : (blockPart block).isSome ↔ isTextOrImage block := by
  rw [blockPart, isTextOrImage, blockType]
  split
  · rename_i hty
    simp only [hty, Option.isSome_some, true_or]
  · rename_i hty
    rw [hty]
    split <;> simp_all
  · simp_all

theorem isObject_of_role {msg : Value} {role : String} (h : msg["role"] = .str role) :
    msg.isObject = true := by
  cases msg with
  | obj members => rfl
  | _ => exact absurd h (by simp [Value.get?])

/-- The results of a list of blocks, and the ids that they answer. -/
theorem filterMap_blockResult (blocks : List Value) :
    AreResults (blocks.filterMap blockResult) ∧
      (blocks.filterMap blockResult).map IrMessage.toolCallId =
        ((blocks.filter fun b ↦ blockType b = "tool_result").map fun b ↦
          b["tool_use_id"].strOrEmpty).map some := by
  induction blocks with
  | nil => exact ⟨fun m hm ↦ absurd hm List.not_mem_nil, rfl⟩
  | cons block rest ih =>
    obtain ⟨hresults, hids⟩ := ih
    by_cases hty : blockType block = "tool_result"
    · have hblock : blockResult block = some (toolResultMessage block) := if_pos hty
      rw [List.filterMap_cons_some hblock, List.filter_cons_of_pos (by simpa using hty)]
      refine ⟨fun m hm ↦ ?_, ?_⟩
      · rcases List.mem_cons.1 hm with rfl | hm
        · exact ⟨_, _, rfl⟩
        · exact hresults m hm
      · rw [List.map_cons, List.map_cons, List.map_cons, hids]
        rfl
    · have hblock : blockResult block = none := if_neg hty
      rw [List.filterMap_cons_none hblock, List.filter_cons_of_neg (by simpa using hty)]
      exact ⟨hresults, hids⟩

theorem filterMap_blockCall [SerdeJson] (blocks : List Value) :
    (blocks.filterMap blockCall).map (fun call ↦ call.id) =
      (blocks.filter fun b ↦ blockType b = "tool_use").map fun b ↦ b["id"].strOrEmpty := by
  induction blocks with
  | nil => rfl
  | cons block rest ih =>
    by_cases hty : blockType block = "tool_use"
    · have hblock : blockCall block =
          some { id := block["id"].strOrEmpty, name := block["name"].strOrEmpty,
                 arguments := inputToArguments block["input"] } := if_pos hty
      rw [List.filterMap_cons_some hblock, List.filter_cons_of_pos (by simpa using hty),
        List.map_cons, List.map_cons, ih]
    · have hblock : blockCall block = none := if_neg hty
      rw [List.filterMap_cons_none hblock, List.filter_cons_of_neg (by simpa using hty), ih]

theorem partsContent_eq_none {parts : List IrPart} : partsContent parts = none ↔ parts = [] := by
  unfold partsContent
  split <;> simp_all

/-- The messages of a user turn: its text and images, if any, and then its tool results. -/
theorem readMessages_userTurn [SerdeJson] {u : Value} (h : UserTurn u) :
    ∃ own results, readMessages u = own ++ results ∧ AreResults results ∧
      results.map IrMessage.toolCallId = (toolResultIds u).map some ∧
      (own = [] ∧ ¬ HasContent u ∨
        HasContent u ∧ ∃ content, own = [{ role := .user, content := some content }] ∧
          Plain content) := by
  have hrole : (parseRole u["role"].strOrEmpty).1 = .user := by
    rw [h.role]
    rfl
  unfold readMessages
  dsimp only
  rw [hrole]
  rcases get?_content h.content with ⟨s, hget⟩ | ⟨blocks, hget, hblocks⟩
  · rw [hget]
    have hstring : u["content"] = .str s := by simp [hget]
    have hnone : toolResultIds u = [] := by
      rw [toolResultIds, blocksOf, hstring]
      rfl
    refine ⟨[{ role := .user, content := some (.text s) }], [], rfl,
      fun m hm ↦ absurd hm List.not_mem_nil, by rw [hnone]; rfl, Or.inr ⟨?_, _, rfl, plain_text s⟩⟩
    exact Or.inl (by rw [hstring]; rfl)
  · rw [hget]
    dsimp only
    obtain ⟨hresults, hids⟩ := filterMap_blockResult blocks
    have hcalls : blocks.filterMap blockCall = [] := by
      rw [List.filterMap_eq_nil_iff]
      exact fun b hb ↦ if_neg (h.blocks b (hblocks ▸ hb)).1
    have hthink : lastThinking blocks = none := by
      rw [lastThinking, List.getLast?_eq_none_iff, List.filterMap_eq_nil_iff]
      exact fun b hb ↦ if_neg (h.blocks b (hblocks ▸ hb)).2
    have hcontent : HasContent u ↔ partsContent (blocks.filterMap blockPart) ≠ none := by
      have hstring : u["content"].isString = false := by simp [hget, Value.isString]
      rw [HasContent, hstring, hblocks, Ne, partsContent_eq_none, List.filterMap_eq_nil_iff]
      simp only [Bool.false_eq_true, false_or, not_forall, ← isSome_blockPart,
        Option.isSome_iff_ne_none, exists_prop, ne_eq]
    refine ⟨_, _, rfl, hresults, by rw [toolResultIds, hblocks, hids], ?_⟩
    rw [Speaks, ownMessage, hcalls, hthink, hcontent]
    cases hparts : partsContent (blocks.filterMap blockPart) with
    | none => exact Or.inl ⟨rfl, fun hne ↦ hne rfl⟩
    | some content => exact Or.inr ⟨Option.some_ne_none _, content, rfl, plain_of_blocks hparts⟩

/-- The message of an assistant turn. -/
theorem readMessages_assistantTurn [SerdeJson] {a : Value} (h : AssistantTurn a) :
    ∃ m, readMessages a = [m] ∧ Readable m ∧ m.role = .assistant ∧
      m.toolCalls.map (fun call ↦ some call.id) = (toolUseIds a).map some := by
  have hrole : (parseRole a["role"].strOrEmpty).1 = .assistant := by
    rw [h.role]
    rfl
  unfold readMessages
  dsimp only
  rw [hrole]
  rcases get?_content (h.content.imp_right And.left) with ⟨s, hget⟩ | ⟨blocks, hget, hblocks⟩
  · rw [hget]
    have hstring : a["content"] = .str s := by simp [hget]
    refine ⟨{ role := .assistant, content := some (.text s) }, rfl,
      .assistant rfl rfl rfl (fun c hc ↦ Option.some.inj hc ▸ plain_text s) rfl, rfl, ?_⟩
    rw [toolUseIds, blocksOf, hstring]
    rfl
  · rw [hget]
    dsimp only
    have hresults : blocks.filterMap blockResult = [] := by
      rw [List.filterMap_eq_nil_iff]
      exact fun b hb ↦ if_neg (h.blocks b (hblocks ▸ hb))
    have hstring : a["content"].isString = false := by simp [hget, Value.isString]
    obtain ⟨-, block, hblock, hsays⟩ := h.content.resolve_left (by rw [hstring]; exact Bool.noConfusion)
    rw [hblocks] at hblock
    have hspeaks : Speaks (ownMessage .assistant blocks) = true := by
      rw [Speaks, Bool.or_eq_true, Bool.or_eq_true]
      rcases hsays with hpart | huse | hthink
      · refine Or.inl (Or.inl ?_)
        rw [Option.isSome_iff_ne_none, ownMessage, Ne, partsContent_eq_none,
          List.filterMap_eq_nil_iff]
        exact fun hnone ↦ absurd (isSome_blockPart.2 hpart) (by rw [hnone block hblock]; simp)
      · refine Or.inl (Or.inr ?_)
        rw [Bool.not_eq_true', List.isEmpty_eq_false_iff, ownMessage, Ne,
          List.filterMap_eq_nil_iff]
        intro hnone
        have := hnone block hblock
        rw [blockCall, if_pos (show block["type"].strOrEmpty = "tool_use" from huse)] at this
        exact absurd this (by simp)
      · refine Or.inr ?_
        rw [Option.isSome_iff_ne_none, ownMessage, lastThinking, Ne, List.getLast?_eq_none_iff,
          List.filterMap_eq_nil_iff]
        intro hnone
        have := hnone block hblock
        rw [blockThinking, if_pos (show block["type"].strOrEmpty = "thinking" from hthink)] at this
        exact absurd this (by simp)
    refine ⟨ownMessage .assistant blocks, ?_, .assistant rfl rfl rfl (fun c hc ↦ plain_of_blocks hc)
      hspeaks, rfl, ?_⟩
    · rw [if_pos hspeaks, hresults]
      rfl
    · rw [toolUseIds, hblocks, ← filterMap_blockCall, List.map_map]
      rfl

/-! ### What a conversation becomes -/

theorem toolResultIds_assistantTurn {a : Value} (h : AssistantTurn a) : toolResultIds a = [] := by
  rw [toolResultIds, List.map_eq_nil_iff, List.filter_eq_nil_iff]
  exact fun block hblock ↦ by simpa using h.blocks block hblock

theorem unmixed_cons {turn : Value} {turns : List Value} :
    Unmixed (turn :: turns) ↔ (HasContent turn → toolResultIds turn = []) ∧ Unmixed turns := by
  simp only [Unmixed, List.forall_mem_cons]

theorem role_of_areResults {results : List IrMessage} (h : AreResults results) :
    ∀ m ∈ results, m.role = .tool := by
  intro m hm
  obtain ⟨id, text, rfl⟩ := h m hm
  rfl

/-- The tool messages at the front, when an assistant message or nothing follows them. -/
theorem takeWhile_results {results rest : List IrMessage} (h : AreResults results)
    (hhead : ∀ m ∈ rest.head?, m.role = .assistant) :
    (results ++ rest).takeWhile (fun t ↦ decide (t.role = .tool)) = results := by
  rw [List.takeWhile_append_of_pos fun m hm ↦ by simpa using role_of_areResults h m hm]
  cases rest with
  | nil => rw [List.takeWhile_nil, List.append_nil]
  | cons m rest =>
    rw [List.takeWhile_cons_of_neg, List.append_nil]
    rw [hhead m rfl]
    decide

/-- Tool messages and what may follow them stand in a good order. -/
theorem isChain_results {results rest : List IrMessage} (h : AreResults results)
    (hhead : ∀ m ∈ rest.head?, m.role = .assistant) (hrest : List.IsChain MayFollow rest) :
    List.IsChain MayFollow (results ++ rest) := by
  induction results with
  | nil => exact hrest
  | cons m results ih =>
    have htail : AreResults results := fun m hm ↦ h m (List.mem_cons_of_mem _ hm)
    refine List.isChain_cons.2 ⟨fun next hnext hbad ↦ ?_, ih htail⟩
    have hrole : next.role = .tool ∨ next.role = .assistant := by
      cases results with
      | nil => exact Or.inr (hhead next hnext)
      | cons first results =>
        have heq : first = next := Option.mem_some_iff.1 hnext
        exact Or.inl (heq ▸ role_of_areResults htail first List.mem_cons_self)
    rw [hbad.2] at hrole
    exact absurd hrole (by decide)

/-- What the turns of a conversation become: messages that can be written again, in an order that
the writer keeps, answered at once exactly when no turn mixes. -/
structure TurnsRead [SerdeJson] (turns : List Value) : Prop where
  answered : AnsweredAtOnce (turns.flatMap readMessages) ↔ Unmixed turns
  readable : ∀ m ∈ turns.flatMap readMessages, Readable m
  chain : List.IsChain MayFollow (turns.flatMap readMessages)

theorem readable_of_areResults {results : List IrMessage} (h : AreResults results) :
    ∀ m ∈ results, Readable m := by
  intro m hm
  obtain ⟨id, text, rfl⟩ := h m hm
  exact .tool id text

/-- A user turn in front of a conversation that goes on with the assistant. -/
theorem userTurn_reads [SerdeJson] {u : Value} {turns : List Value} (hu : UserTurn u)
    (h : TurnsRead turns)
    (hhead : ∀ m ∈ (turns.flatMap readMessages).head?, m.role = .assistant) :
    (AnsweredAtOnce ((u :: turns).flatMap readMessages) ↔ Unmixed turns) ∧
      (∀ m ∈ (u :: turns).flatMap readMessages, Readable m) ∧
      List.IsChain MayFollow ((u :: turns).flatMap readMessages) ∧
      ((((u :: turns).flatMap readMessages).takeWhile fun t ↦ decide (t.role = .tool)).map
        IrMessage.toolCallId = [] ∧ HasContent u ∨
      (((u :: turns).flatMap readMessages).takeWhile fun t ↦ decide (t.role = .tool)).map
        IrMessage.toolCallId = (toolResultIds u).map some ∧ ¬ HasContent u) := by
  obtain ⟨own, results, hreads, hresults, hids, hown⟩ := readMessages_userTurn hu
  have hroles : ∀ m ∈ own, m.role = .user := by
    rcases hown with ⟨rfl, -⟩ | ⟨-, content, rfl, -⟩
    · exact fun m hm ↦ absurd hm List.not_mem_nil
    · exact fun m hm ↦ List.mem_singleton.1 hm ▸ rfl
  rw [List.flatMap_cons, hreads]
  refine ⟨?_, ?_, ?_, ?_⟩
  · rw [← h.answered]
    refine answeredAtOnce_append fun m hm ↦ ?_
    rcases List.mem_append.1 hm with hm | hm
    · rw [hroles m hm]
      exact IrRole.noConfusion
    · rw [role_of_areResults hresults m hm]
      exact IrRole.noConfusion
  · intro m hm
    rcases List.mem_append.1 hm with hm | hm
    · rcases List.mem_append.1 hm with hm | hm
      · rcases hown with ⟨rfl, -⟩ | ⟨-, content, rfl, hplain⟩
        · exact absurd hm List.not_mem_nil
        · exact List.mem_singleton.1 hm ▸ .user hplain
      · exact readable_of_areResults hresults m hm
    · exact h.readable m hm
  · have hchain := isChain_results hresults hhead h.chain
    rcases hown with ⟨rfl, -⟩ | ⟨-, content, rfl, hplain⟩
    · exact hchain
    · rw [List.append_assoc, List.singleton_append]
      exact List.isChain_cons.2 ⟨fun next _ hbad ↦ absurd hbad.1 IrRole.noConfusion, hchain⟩
  · rcases hown with ⟨rfl, hno⟩ | ⟨hyes, content, rfl, -⟩
    · exact Or.inr ⟨by rw [List.nil_append, takeWhile_results hresults hhead, hids], hno⟩
    · exact Or.inl ⟨rfl, hyes⟩

theorem Alternates.reads [SerdeJson] {turns : List Value} (h : Alternates turns) :
    TurnsRead turns ∧ ∀ m ∈ (turns.flatMap readMessages).head?, m.role = .assistant := by
  induction h with
  | nil =>
    refine ⟨⟨iff_of_true answeredAtOnce_nil fun turn hturn ↦ absurd hturn List.not_mem_nil,
      fun m hm ↦ absurd hm List.not_mem_nil, .nil⟩, fun m hm ↦ absurd hm (by simp)⟩
  | @last a ha hnone =>
    obtain ⟨m, hreads, hreadable, hrole, hids⟩ := readMessages_assistantTurn ha
    rw [hnone] at hids
    refine ⟨⟨?_, ?_, ?_⟩, ?_⟩ <;> rw [List.flatMap_singleton, hreads]
    · refine iff_of_true (answeredAtOnce_cons.2 ⟨fun _ ↦ ?_, answeredAtOnce_nil⟩) ?_
      · rw [hids]
        exact List.Perm.refl _
      · exact unmixed_cons.2 ⟨fun _ ↦ toolResultIds_assistantTurn ha,
          fun turn hturn ↦ absurd hturn List.not_mem_nil⟩
    · exact fun m' hm' ↦ List.mem_singleton.1 hm' ▸ hreadable
    · exact List.isChain_singleton m
    · exact fun m' hm' ↦ Option.mem_some_iff.1 hm' ▸ hrole
  | @exchange a u rest ha hu hanswers hrest ih =>
    obtain ⟨m, hreads, hreadable, hrole, hids⟩ := readMessages_assistantTurn ha
    obtain ⟨hanswered, hmore, hchain, hfront⟩ := userTurn_reads hu ih.1 ih.2
    have hflat : (a :: u :: rest).flatMap readMessages =
        m :: (u :: rest).flatMap readMessages := by
      rw [List.flatMap_cons, hreads, List.singleton_append]
    refine ⟨⟨?_, ?_, ?_⟩, ?_⟩ <;> rw [hflat]
    · rw [answeredAtOnce_cons, hanswered, hids, unmixed_cons, unmixed_cons,
        and_iff_right fun _ ↦ toolResultIds_assistantTurn ha]
      refine and_congr_left fun _ ↦ ?_
      rcases hfront with ⟨hfront, hyes⟩ | ⟨hfront, hno⟩ <;> rw [hfront]
      · -- the text comes first: nothing is answered at once
        constructor
        · intro hperm _
          have hcalls : toolUseIds a = [] := by simpa using hperm hrole
          exact (hcalls ▸ hanswers).eq_nil
        · intro hnone _
          have hresults : toolResultIds u = [] := hnone hyes
          have hcalls : toolUseIds a = [] := (hresults ▸ hanswers.symm).eq_nil
          rw [hcalls]
          exact List.Perm.refl _
      · exact iff_of_true (fun _ ↦ hanswers.map some) fun hyes ↦ absurd hyes hno
    · exact fun m' hm' ↦ (List.mem_cons.1 hm').elim (fun heq ↦ heq ▸ hreadable) (hmore m')
    · refine List.isChain_cons.2 ⟨fun next _ hbad ↦ ?_, hchain⟩
      rw [hrole] at hbad
      exact absurd hbad.1 IrRole.noConfusion
    · exact fun m' hm' ↦ Option.mem_some_iff.1 hm' ▸ hrole

theorem Conversation.reads [SerdeJson] {turns : List Value} (h : Conversation turns) :
    TurnsRead turns := by
  cases h with
  | assistant h => exact h.reads.1
  | @user u turns hu hnone h =>
    obtain ⟨hanswered, hreadable, hchain, -⟩ := userTurn_reads hu h.reads.1 h.reads.2
    refine ⟨?_, hreadable, hchain⟩
    rw [hanswered, unmixed_cons, and_iff_right fun _ ↦ hnone]

theorem Conversation.isObject {turns : List Value} (h : Conversation turns) :
    ∀ turn ∈ turns, turn.isObject = true := by
  have halternates {turns : List Value} (h : Alternates turns) :
      ∀ turn ∈ turns, turn.isObject = true := by
    induction h with
    | nil => exact fun turn hturn ↦ absurd hturn List.not_mem_nil
    | last ha hnone => exact fun turn hturn ↦ List.mem_singleton.1 hturn ▸ isObject_of_role ha.role
    | exchange ha hu hanswers hrest ih =>
      exact List.forall_mem_cons.2 ⟨isObject_of_role ha.role,
        List.forall_mem_cons.2 ⟨isObject_of_role hu.role, ih⟩⟩
  cases h with
  | assistant h => exact halternates h
  | user hu hnone h => exact List.forall_mem_cons.2 ⟨isObject_of_role hu.role, halternates h⟩

/-- The request has its answers directly behind the calls, and its messages and pairings survive
being written as a Messages request and read again. -/
def KeepsPairing [SerdeJson] (req : IrRequest) : Prop :=
  AnsweredAtOnce req.messages ∧
    ∃ req' ctx', requestToIr (requestFromIr req).1 = .ok (req', ctx') ∧
      req'.messages.map skeleton = req.messages.map skeleton

/-- A conversation with tools keeps its pairing exactly when no user turn mixes tool results with
text or images. -/
theorem keepsPairing_iff_unmixed [SerdeJson] {v : Value} {turns : List Value} {req : IrRequest}
    {ctx : ConvCtx} (hread : requestToIr v = .ok (req, ctx))
    (hturns : v.get? "messages" = some (.arr turns)) (hconversation : Conversation turns) :
    KeepsPairing req ↔ Unmixed turns := by
  obtain ⟨m, rfl, htools⟩ := isArray_tools_of_requestToIr hread
  obtain ⟨req₁, ctx₁, hok, hmessages, hcc, hextra⟩ :=
    requestToIr_reads hturns hconversation.isObject htools
  obtain ⟨rfl, rfl⟩ : req₁ = req ∧ ctx₁ = ctx := by
    rw [hread] at hok
    exact ⟨(Prod.mk.inj (Except.ok.inj hok)).1.symm, (Prod.mk.inj (Except.ok.inj hok)).2.symm⟩
  have hreads : TurnsRead turns := hconversation.reads
  have hleft := readSystem_left (.obj m)
  rw [← hcc] at hleft
  have hback := requestToIr_requestFromIr hmessages hleft hextra hreads.readable hreads.chain
  have hsystem : ∀ m' ∈ (readSystem (.obj m)).1.messages, m'.role ≠ .assistant := by
    generalize (readSystem (.obj m)).1.messages = sys at hleft ⊢
    generalize req₁.ext.cacheControl = cc at hleft
    cases hleft with
    | nothing => exact fun m hm ↦ absurd hm List.not_mem_nil
    | message text cc h => exact fun m hm ↦ List.mem_singleton.1 hm ▸ IrRole.noConfusion
  rw [KeepsPairing, and_iff_left hback, hmessages, answeredAtOnce_append hsystem]
  exact hreads.answered

/-! ### Two conversations -/

section Concrete

local instance : SerdeJson := Compact.codec

def weatherCall : Value :=
  anthMessage "assistant"
    [.object [("type", .str "tool_use"), ("id", .str "t1"), ("name", .str "weather"),
      ("input", .object [])]]

def weatherResult : Value :=
  .object [("type", .str "tool_result"), ("tool_use_id", .str "t1"), ("content", .str "sun")]

/-- The answer, with or without a text behind it. -/
def weatherAnswer (texts : List String) : Value :=
  anthMessage "user" (weatherResult :: texts.map textBlock)

def weatherRequest (texts : List String) : Map :=
  Map.ofList [("model", .str "m"), ("messages", .arr [weatherCall, weatherAnswer texts])]

theorem toolResultIds_weatherAnswer (texts : List String) :
    toolResultIds (weatherAnswer texts) = ["t1"] := by
  have hnone : (texts.map textBlock).filter (fun b ↦ decide (blockType b = "tool_result")) = [] := by
    rw [List.filter_eq_nil_iff]
    intro block hblock
    obtain ⟨text, -, rfl⟩ := List.mem_map.1 hblock
    simp [textBlock, blockType]
  have hblocks : blocksOf (weatherAnswer texts) = weatherResult :: texts.map textBlock := by
    simp [blocksOf, weatherAnswer, anthMessage]
  rw [toolResultIds, hblocks, List.filter_cons_of_pos (by simp [weatherResult, blockType]), hnone]
  simp [weatherResult]

theorem conversation_weather (texts : List String) :
    Conversation [weatherCall, weatherAnswer texts] := by
  have hcall : AssistantTurn weatherCall := by
    refine ⟨by simp [weatherCall, anthMessage], Or.inr ⟨by rfl, ?_⟩, ?_⟩
    · simp [weatherCall, anthMessage, blocksOf, blockType]
    · simp [weatherCall, anthMessage, blocksOf, blockType]
  have hanswer : UserTurn (weatherAnswer texts) := by
    refine ⟨by simp [weatherAnswer, anthMessage], Or.inr (by rfl), ?_⟩
    simp [weatherAnswer, weatherResult, anthMessage, blocksOf, blockType, textBlock]
  refine .assistant (.exchange hcall hanswer ?_ .nil)
  rw [toolResultIds_weatherAnswer]
  simp [toolUseIds, weatherCall, anthMessage, blocksOf, blockType]

/-- A text behind the answer is put in front of it: the call is not answered at once. -/
theorem weather_not_answeredAtOnce :
    Conversation [weatherCall, weatherAnswer ["and tomorrow?"]] ∧
      ∃ req ctx, requestToIr (.obj (weatherRequest ["and tomorrow?"])) = .ok (req, ctx) ∧
        ¬ AnsweredAtOnce req.messages := by
  refine ⟨conversation_weather _, ?_⟩
  have hmessages : (requestToIr (.obj (weatherRequest ["and tomorrow?"]))).toOption.map
      (fun r ↦ r.1.messages) =
      some [{ role := .assistant
              toolCalls := [{ id := "t1", name := "weather", arguments := "\x7b\x7d" }] },
        { role := .user, content := some (.text "and tomorrow?") },
        { role := .tool, toolCallId := some "t1", content := some (.text "sun") }] := by
    decide +kernel
  cases hread : requestToIr (.obj (weatherRequest ["and tomorrow?"])) with
  | error e =>
    rw [hread] at hmessages
    exact absurd hmessages (by simp [Except.toOption])
  | ok r =>
    rw [hread] at hmessages
    refine ⟨r.1, r.2, rfl, fun hanswered ↦ ?_⟩
    have hperm := hanswered [] _ _ (Option.some.inj hmessages) rfl
    exact absurd hperm.length_eq (by decide)

/-- Without a text the pairing is kept. -/
theorem weather_keepsPairing :
    ∃ req ctx, requestToIr (.obj (weatherRequest [])) = .ok (req, ctx) ∧ KeepsPairing req := by
  have hconversation := conversation_weather []
  have hturns : Map.get? (weatherRequest []) "messages" =
      some (.arr [weatherCall, weatherAnswer []]) := by
    simp [weatherRequest]
  obtain ⟨req, ctx, hread, -⟩ := requestToIr_reads hturns hconversation.isObject
    (by simp [weatherRequest])
  refine ⟨req, ctx, hread, (keepsPairing_iff_unmixed hread hturns hconversation).2 ?_⟩
  have hcall : toolResultIds weatherCall = [] := by
    simp [toolResultIds, weatherCall, anthMessage, blocksOf, blockType]
  have hanswer : ¬ HasContent (weatherAnswer []) := by
    simp [HasContent, isTextOrImage, weatherAnswer, weatherResult, anthMessage, blocksOf,
      blockType, Value.isString]
  rw [unmixed_cons, unmixed_cons]
  exact ⟨fun _ ↦ hcall, fun h ↦ absurd h hanswer, fun turn hturn ↦ absurd hturn List.not_mem_nil⟩

end Concrete

end NextApi.Anthropic
