import Mathlib.Data.List.Induction
import NextApi.Protocol.Responses.Stream

/-!
# The items of a Responses stream

A Responses stream keeps its contract (`Contract`) when it ends with its only terminal event, every
delta refers to an item that was announced before and is not done, and the terminal event has every
announced item at its output index, with the text that its deltas make.

What an encoder does to the items is a list of operations (`Op`): the first one on a key announces
an item, which takes the next index, and one with a text sends a delta. `itemEvents` are the events
of a list of operations; they announce the items in the order of `openings`, refer to announced
items only (`deltasAnnounced_itemEvents`), and their deltas make the texts of the operations
(`deltaText_itemEvents`).
-/

set_option autoImplicit false

namespace NextApi.Responses

open Json Ir

/-! ### Events as the contract sees them -/

/-- What an event says about the item it is about. -/
structure ItemRef where
  index : ℕ
  id : String
  type : String
  deriving DecidableEq

inductive ItemEvent where
  | added (ref : ItemRef)
  | delta (ref : ItemRef) (text : String)
  | done (ref : ItemRef)
  | terminal (output : List Value)
  | other

/-- The item that `output_item.added` or `output_item.done` is about. -/
def wholeItemRef (v : Value) : ItemRef :=
  ⟨v["output_index"].asU64.getD 0, v["item"]["id"].strOrEmpty, v["item"]["type"].strOrEmpty⟩

/-- The item that a delta is about, and its text. -/
def deltaOf (type : String) (v : Value) : ItemEvent :=
  .delta ⟨v["output_index"].asU64.getD 0, v["item_id"].strOrEmpty, type⟩ v["delta"].strOrEmpty

def viewEvent (v : Value) : ItemEvent :=
  match v["type"].strOrEmpty with
  | "response.output_item.added" => .added (wholeItemRef v)
  | "response.output_item.done" => .done (wholeItemRef v)
  | "response.output_text.delta" => deltaOf "message" v
  | "response.reasoning_summary_text.delta" => deltaOf "reasoning" v
  | "response.function_call_arguments.delta" => deltaOf "function_call" v
  | "response.completed" | "response.incomplete" | "response.failed" =>
    .terminal (v["response"]["output"].asArray.getD [])
  | _ => .other

/-! ### The contract -/

/-- The texts of the parts of an item. -/
def partsText (parts : Value) : String :=
  String.join ((parts.asArray.getD []).map fun part ↦ part["text"].strOrEmpty)

/-- The text of a message or of the reasoning, the arguments of a call. -/
def itemText (item : Value) : String :=
  match item["type"].strOrEmpty with
  | "message" => partsText item["content"]
  | "reasoning" => partsText item["summary"]
  | _ => item["arguments"].strOrEmpty

/-- The deltas of an item. -/
def deltasFor (ref : ItemRef) : ItemEvent → Option String
  | .delta r text => if r = ref then some text else none
  | _ => none

/-- What the deltas of an item make. -/
def deltaText (events : List ItemEvent) (ref : ItemRef) : String :=
  String.join (events.filterMap (deltasFor ref))

/-- Every delta refers to an item that was announced before, and is not done. -/
def DeltasAnnounced (events : List ItemEvent) : Prop :=
  ∀ pre ref text post, events = pre ++ .delta ref text :: post →
    .added ref ∈ pre ∧ .done ref ∉ pre

/-- The output has every announced item at its index, with the text of its deltas. -/
def Snapshot (events : List ItemEvent) (output : List Value) : Prop :=
  ∀ ref, .added ref ∈ events → ∃ item, output[ref.index]? = some item ∧
    item["id"].strOrEmpty = ref.id ∧ item["type"].strOrEmpty = ref.type ∧
    itemText item = deltaText events ref

/-- The contract of a Responses stream. -/
def Contract (events : List Value) : Prop :=
  ∃ before output, events.map viewEvent = before ++ [.terminal output] ∧
    (∀ output', .terminal output' ∉ before) ∧ DeltasAnnounced before ∧ Snapshot before output

/-! ### Operations on items -/

/-- What an item is made for. -/
inductive Key where
  | message
  | reasoning
  | tool (idx : UInt32)
  deriving DecidableEq

namespace Key

def type : Key → String
  | .message => "message"
  | .reasoning => "reasoning"
  | .tool _ => "function_call"

/-- What the id of the item begins with. -/
def stem : Key → String
  | .message => "msg_"
  | .reasoning => "rs_"
  | .tool _ => "fc_"

/-- The place in the terminal event. -/
def rank : Key → ℕ
  | .message => 0
  | .reasoning => 1
  | .tool _ => 2

end Key

/-- Makes sure that there is an item for the key, and sends a text to it, if there is one. -/
structure Op where
  key : Key
  text : Option String

/-- The keys that have an item after an operation. -/
def keysAfter (keys : List Key) (op : Op) : List Key :=
  if op.key ∈ keys then keys else keys ++ [op.key]

/-- The keys in the order in which their items are announced. -/
def openings (ops : List Op) : List Key := ops.foldl keysAfter []

/-- The texts sent to a key. -/
def textOf (ops : List Op) (key : Key) : String :=
  String.join ((ops.filter fun op ↦ op.key = key).filterMap Op.text)

section Events

variable [RandSuffix]

/-- The item that is announced as the one with this number. -/
def itemRef (n : ℕ) (key : Key) : ItemRef :=
  ⟨(UInt32.ofNat n).toNat, key.stem ++ RandSuffix.suffix n, key.type⟩

/-- The events of one operation. -/
def opEvents (keys : List Key) (op : Op) : List ItemEvent :=
  (if op.key ∈ keys then [] else [.added (itemRef keys.length op.key)]) ++
    (op.text.map fun text ↦
      ItemEvent.delta (itemRef ((keysAfter keys op).idxOf op.key) op.key) text).toList

/-- The events of a list of operations, when these keys have items already. -/
def eventsFrom (keys : List Key) : List Op → List ItemEvent
  | [] => []
  | op :: rest => opEvents keys op ++ eventsFrom (keysAfter keys op) rest

/-- The events of a list of operations. -/
def itemEvents (ops : List Op) : List ItemEvent := eventsFrom [] ops

end Events

/-! ### The keys -/

theorem openings_concat (ops : List Op) (op : Op) :
    openings (ops ++ [op]) = keysAfter (openings ops) op :=
  List.foldl_concat ..

theorem mem_keysAfter {keys : List Key} {op : Op} {key : Key} :
    key ∈ keysAfter keys op ↔ key ∈ keys ∨ key = op.key := by
  rw [keysAfter]
  split
  · next h =>
    constructor
    · exact Or.inl
    · rintro (hmem | rfl)
      · exact hmem
      · exact h
  · rw [List.mem_append, List.mem_singleton]

theorem nodup_keysAfter {keys : List Key} (h : keys.Nodup) (op : Op) :
    (keysAfter keys op).Nodup := by
  rw [keysAfter]
  split
  · exact h
  · next hnew =>
    refine h.append (List.nodup_singleton _) fun key hmem hkey ↦ ?_
    exact hnew (List.mem_singleton.1 hkey ▸ hmem)

theorem nodup_openings (ops : List Op) : (openings ops).Nodup := by
  induction ops using List.reverseRecOn with
  | nil => exact List.nodup_nil
  | append_singleton ops op ih =>
    rw [openings_concat]
    exact nodup_keysAfter ih op

/-- An item keeps its number. -/
theorem idxOf_keysAfter {keys : List Key} {key : Key} (h : key ∈ keys) (op : Op) :
    (keysAfter keys op).idxOf key = keys.idxOf key := by
  rw [keysAfter]
  split
  · rfl
  · exact List.idxOf_append_of_mem h

theorem textOf_concat (ops : List Op) (op : Op) (key : Key) :
    textOf (ops ++ [op]) key =
      if op.key = key then textOf ops key ++ op.text.getD "" else textOf ops key := by
  rw [textOf, List.filter_append, List.filterMap_append, String.join_append, ← textOf]
  by_cases h : op.key = key
  · rw [if_pos h, List.filter_cons_of_pos (by simpa using h)]
    cases htext : op.text <;> simp [htext]
  · rw [if_neg h, List.filter_cons_of_neg (by simpa using h)]
    simp

/-! ### The events -/

section Events

variable [RandSuffix]

theorem eventsFrom_append (keys : List Key) (ops more : List Op) :
    eventsFrom keys (ops ++ more) =
      eventsFrom keys ops ++ eventsFrom (ops.foldl keysAfter keys) more := by
  induction ops generalizing keys with
  | nil => rfl
  | cons op rest ih =>
    rw [List.cons_append, eventsFrom, eventsFrom, ih, List.append_assoc]
    rfl

theorem itemEvents_append (ops more : List Op) :
    itemEvents (ops ++ more) = itemEvents ops ++ eventsFrom (openings ops) more :=
  eventsFrom_append [] ops more

theorem itemEvents_concat (ops : List Op) (op : Op) :
    itemEvents (ops ++ [op]) = itemEvents ops ++ opEvents (openings ops) op := by
  rw [itemEvents_append, eventsFrom, eventsFrom, List.append_nil]

/-- The announced items are those of the keys, in their order. -/
theorem added_mem_itemEvents {ops : List Op} {ref : ItemRef} :
    .added ref ∈ itemEvents ops ↔
      ∃ key ∈ openings ops, ref = itemRef ((openings ops).idxOf key) key := by
  induction ops using List.reverseRecOn with
  | nil => simp [itemEvents, eventsFrom, openings]
  | append_singleton ops op ih =>
    have hold : (∃ key ∈ openings ops, ref = itemRef ((openings ops).idxOf key) key) ↔
        ∃ key ∈ openings ops, ref = itemRef ((keysAfter (openings ops) op).idxOf key) key := by
      refine exists_congr fun key ↦ and_congr_right fun hmem ↦ ?_
      rw [idxOf_keysAfter hmem]
    rw [itemEvents_concat, List.mem_append, ih, openings_concat, hold, opEvents, List.mem_append]
    have hdelta : ItemEvent.added ref ∉ (op.text.map fun text ↦ ItemEvent.delta
        (itemRef ((keysAfter (openings ops) op).idxOf op.key) op.key) text).toList := by
      cases op.text <;> simp
    by_cases hmem : op.key ∈ openings ops
    · rw [if_pos hmem, keysAfter, if_pos hmem]
      rw [keysAfter, if_pos hmem] at hdelta
      simp [hdelta]
    · rw [if_neg hmem, keysAfter, if_neg hmem]
      rw [keysAfter, if_neg hmem] at hdelta
      have hlast : (openings ops ++ [op.key]).idxOf op.key = (openings ops).length := by
        rw [List.idxOf_append_of_notMem hmem]
        simp
      constructor
      · rintro (⟨key, hkey, href⟩ | (hadded | hdelta'))
        · exact ⟨key, List.mem_append_left _ hkey, href⟩
        · refine ⟨op.key, List.mem_append_right _ List.mem_cons_self, ?_⟩
          rw [hlast]
          exact ItemEvent.added.inj (List.mem_singleton.1 hadded)
        · exact absurd hdelta' hdelta
      · rintro ⟨key, hkey, href⟩
        rcases List.mem_append.1 hkey with hkey | hkey
        · exact Or.inl ⟨key, hkey, href⟩
        · rw [List.mem_singleton.1 hkey, hlast] at href
          exact Or.inr (Or.inl (List.mem_singleton.2 (congrArg ItemEvent.added href)))

/-- Operations announce and send deltas, and do nothing else. -/
theorem itemEvents_shape {ops : List Op} {e : ItemEvent} (h : e ∈ itemEvents ops) :
    (∃ ref, e = .added ref) ∨ ∃ ref text, e = .delta ref text := by
  induction ops using List.reverseRecOn with
  | nil => exact absurd h List.not_mem_nil
  | append_singleton ops op ih =>
    rw [itemEvents_concat, List.mem_append] at h
    rcases h with h | h
    · exact ih h
    · rw [opEvents, List.mem_append] at h
      rcases h with h | h
      · split at h
        · exact absurd h List.not_mem_nil
        · exact Or.inl ⟨_, List.mem_singleton.1 h⟩
      · cases htext : op.text with
        | none =>
          rw [htext] at h
          exact absurd h List.not_mem_nil
        | some text =>
          rw [htext] at h
          exact Or.inr ⟨_, _, List.mem_singleton.1 h⟩

omit [RandSuffix] in
/-- The events may go on with a delta of an item that was announced. -/
theorem DeltasAnnounced.concat {events : List ItemEvent} (h : DeltasAnnounced events)
    {e : ItemEvent}
    (he : ∀ ref text, e = .delta ref text → .added ref ∈ events ∧ .done ref ∉ events) :
    DeltasAnnounced (events ++ [e]) := by
  intro pre ref text post hsplit
  rcases List.eq_nil_or_concat post with rfl | ⟨post, last, rfl⟩
  · obtain ⟨hpre, hlast⟩ := List.append_inj' hsplit rfl
    rw [← hpre]
    exact he ref text (List.singleton_inj.1 hlast)
  · rw [List.concat_eq_append, ← List.cons_append, ← List.append_assoc] at hsplit
    obtain ⟨hevents, -⟩ := List.append_inj' hsplit rfl
    exact h pre ref text post hevents

theorem done_notMem_itemEvents (ops : List Op) (ref : ItemRef) :
    .done ref ∉ itemEvents ops := by
  intro h
  rcases itemEvents_shape h with ⟨r, hr⟩ | ⟨r, text, hr⟩
  · exact ItemEvent.noConfusion hr
  · exact ItemEvent.noConfusion hr

/-- Operations send deltas to announced items. -/
theorem deltasAnnounced_itemEvents (ops : List Op) : DeltasAnnounced (itemEvents ops) := by
  induction ops using List.reverseRecOn with
  | nil =>
    intro pre ref text post hsplit
    exact absurd hsplit (by simp [itemEvents, eventsFrom])
  | append_singleton ops op ih =>
    -- first the item is announced, by an event without a text
    let silent : Op := { op with text := none }
    have hsilent : itemEvents (ops ++ [silent]) = itemEvents ops ++
        if op.key ∈ openings ops then [] else [.added (itemRef (openings ops).length op.key)] := by
      rw [itemEvents_concat, opEvents]
      exact congrArg (itemEvents ops ++ ·) (List.append_nil _)
    have hannounced : DeltasAnnounced (itemEvents (ops ++ [silent])) := by
      rw [hsilent]
      split
      · rw [List.append_nil]
        exact ih
      · exact ih.concat fun ref text h ↦ ItemEvent.noConfusion h
    have hevents : itemEvents (ops ++ [op]) = itemEvents (ops ++ [silent]) ++
        (op.text.map fun text ↦ ItemEvent.delta
          (itemRef ((keysAfter (openings ops) op).idxOf op.key) op.key) text).toList := by
      rw [hsilent, itemEvents_concat, opEvents, List.append_assoc]
    rw [hevents]
    cases op.text with
    | none =>
      rw [Option.map_none, Option.toList_none, List.append_nil]
      exact hannounced
    | some text =>
      refine hannounced.concat fun ref text' h ↦ ⟨?_, done_notMem_itemEvents _ _⟩
      rw [← (ItemEvent.delta.inj h).1, added_mem_itemEvents, openings_concat]
      exact ⟨op.key, mem_keysAfter.2 (Or.inr rfl), rfl⟩

/-! ### The texts -/

omit [RandSuffix] in
theorem deltaText_append (events more : List ItemEvent) (ref : ItemRef) :
    deltaText (events ++ more) ref = deltaText events ref ++ deltaText more ref := by
  rw [deltaText, List.filterMap_append, String.join_append]
  rfl

/-- The numbers of two items fit into 32 bits, so that their references differ. -/
theorem itemRef_inj {keys : List Key} (hfew : keys.length ≤ 2 ^ 32) {key key' : Key}
    (hkey : key ∈ keys) (hkey' : key' ∈ keys)
    (h : itemRef (keys.idxOf key) key = itemRef (keys.idxOf key') key') : key = key' := by
  have hindex := congrArg ItemRef.index h
  have hlt := List.idxOf_lt_length_of_mem hkey
  have hlt' := List.idxOf_lt_length_of_mem hkey'
  rw [itemRef, itemRef] at hindex
  dsimp only at hindex
  rw [UInt32.toNat_ofNat_of_lt' (Nat.lt_of_lt_of_le hlt hfew),
    UInt32.toNat_ofNat_of_lt' (Nat.lt_of_lt_of_le hlt' hfew)] at hindex
  exact (List.idxOf_inj hkey).1 hindex

/-- The deltas of one operation make its text. -/
theorem deltaText_opEvents {keys all : List Key} {op : Op} (hstart : keysAfter keys op <+: all)
    (hfew : all.length ≤ 2 ^ 32) {key : Key} (hkey : key ∈ all) :
    deltaText (opEvents keys op) (itemRef (all.idxOf key) key) =
      if op.key = key then op.text.getD "" else "" := by
  have hop : op.key ∈ keysAfter keys op := mem_keysAfter.2 (Or.inr rfl)
  have hidx : (keysAfter keys op).idxOf op.key = all.idxOf op.key := by
    obtain ⟨rest, rfl⟩ := hstart
    exact (List.idxOf_append_of_mem hop).symm
  have hsilent : deltaText (if op.key ∈ keys then []
      else [.added (itemRef keys.length op.key)]) (itemRef (all.idxOf key) key) = "" := by
    split <;> rfl
  rw [opEvents, deltaText_append, hsilent, String.empty_append, hidx]
  cases op.text with
  | none => exact (ite_self _).symm
  | some text =>
    by_cases h : op.key = key
    · rw [if_pos h, h]
      simp [deltaText, deltasFor]
    · have hne : itemRef (all.idxOf op.key) op.key ≠ itemRef (all.idxOf key) key :=
        fun heq ↦ h (itemRef_inj hfew (hstart.subset hop) hkey heq)
      rw [if_neg h]
      simp [deltaText, deltasFor, hne]

/-- The deltas of an item make the text that was sent to its key. -/
theorem deltaText_itemEvents {ops : List Op} {all : List Key} (hstart : openings ops <+: all)
    (hfew : all.length ≤ 2 ^ 32) {key : Key} (hkey : key ∈ all) :
    deltaText (itemEvents ops) (itemRef (all.idxOf key) key) = textOf ops key := by
  induction ops using List.reverseRecOn with
  | nil => rfl
  | append_singleton ops op ih =>
    rw [openings_concat] at hstart
    have hstep : openings ops <+: keysAfter (openings ops) op := by
      rw [keysAfter]
      split
      · exact List.prefix_rfl
      · exact List.prefix_append _ _
    rw [itemEvents_concat, deltaText_append, ih (hstep.trans hstart),
      deltaText_opEvents hstart hfew hkey, textOf_concat]
    split
    · rfl
    · exact String.append_empty

end Events

end NextApi.Responses
