import Mathlib.Data.List.GetD
import NextApi.Protocol.Responses.Stream

/-!
# The function calls of a Responses stream

A Responses stream announces a function call once, with its id and its name, and sends its arguments
in any number of deltas. The decoder repeats the id and the name with every delta that is not empty,
and the reader of the chunks appends all three, so that a call with `k` such deltas is read with `k`
copies of its id and of its name (`Collects`). What is collected is what was announced exactly when
every call has one delta that is not empty (`collectedCalls_iff`).
-/

set_option autoImplicit false

namespace NextApi.Responses

open Json Ir

/-! ### What a stream says about its calls -/

/-- A function call that an event announces. -/
structure Announcement where
  itemId : String
  callId : String
  name : String
  deriving DecidableEq

def announcement (v : Value) : Option Announcement :=
  if v["type"].strOrEmpty = "response.output_item.added" ∧
      v["item"]["type"].asStr = some "function_call" then
    some ⟨v["item"]["id"].strOrEmpty, v["item"]["call_id"].strOrEmpty, v["item"]["name"].strOrEmpty⟩
  else none

/-- The item and the text of a delta of arguments. -/
def argumentsDelta (v : Value) : Option (String × String) :=
  if v["type"].strOrEmpty = "response.function_call_arguments.delta" then
    some (v["item_id"].strOrEmpty, v["delta"].strOrEmpty)
  else none

/-- The item and the name of a function call that is done. -/
def completion (v : Value) : Option (String × String) :=
  if v["type"].strOrEmpty = "response.output_item.done" ∧
      v["item"]["type"].asStr = some "function_call" then
    some (v["item"]["id"].strOrEmpty, v["item"]["name"].strOrEmpty)
  else none

def announced (events : List Value) : List Announcement := events.filterMap announcement

/-- The deltas of an item. -/
def deltasOf (events : List Value) (itemId : String) : List String :=
  ((events.filterMap argumentsDelta).filter fun delta ↦ delta.1 = itemId).map Prod.snd

/-- The number of deltas of an item that are not empty. -/
def spokenDeltas (events : List Value) (itemId : String) : ℕ :=
  ((deltasOf events itemId).filter fun text ↦ text ≠ "").length

/-- A call as the stream announces and completes it. -/
def announcedCall (events : List Value) (a : Announcement) : IrToolCall where
  id := a.callId
  name := a.name
  arguments := String.join (deltasOf events a.itemId)

/-- An event that may follow: a call has an id and an item of its own, and only what was announced
gets arguments or is done, under its name. -/
structure ValidNext (past : List Value) (v : Value) : Prop where
  fresh : ∀ a, announcement v = some a →
    a.callId ≠ "" ∧ a.itemId ∉ (announced past).map Announcement.itemId
  known : ∀ delta, argumentsDelta v = some delta →
    delta.1 ∈ (announced past).map Announcement.itemId
  completed : ∀ done, completion v = some done →
    ∃ a ∈ announced past, a.itemId = done.1 ∧ a.name = done.2

instance (past : List Value) (v : Value) : Decidable (ValidNext past v) :=
  decidable_of_iff
    ((∀ a ∈ announcement v,
        a.callId ≠ "" ∧ a.itemId ∉ (announced past).map Announcement.itemId) ∧
      (∀ delta ∈ argumentsDelta v, delta.1 ∈ (announced past).map Announcement.itemId) ∧
      ∀ done ∈ completion v, ∃ a ∈ announced past, a.itemId = done.1 ∧ a.name = done.2)
    ⟨fun h ↦ ⟨h.1, h.2.1, h.2.2⟩, fun h ↦ ⟨h.fresh, h.known, h.completed⟩⟩

/-- The events of a stream, as far as its function calls are concerned. -/
def ValidEvents (events : List Value) : Prop :=
  ∀ before v after, events = before ++ v :: after → ValidNext before v

theorem validEvents_of_getElem {events : List Value}
    (h : ∀ n : Fin events.length, ValidNext (events.take n) (events.get n)) :
    ValidEvents events := by
  intro before v after hsplit
  have hlt : before.length < events.length := by
    rw [hsplit, List.length_append, List.length_cons]
    omega
  have hnext := h ⟨before.length, hlt⟩
  subst hsplit
  simpa using hnext

/-- The chunks that a stream is decoded to. -/
def decodedChunks (events : List Value) : List IrChunk := (Stream.run decodeStep {} events).2

/-- The calls that a reader of the chunks collects. -/
def collectedCalls (events : List Value) : List IrToolCall :=
  (ToolCallAggregator.feedAll {} ((decodedChunks events).flatMap fun chunk ↦
    chunk.delta.toolCalls)).finish

/-! ### Collecting fragments -/

theorem length_feed (agg : ToolCallAggregator) (delta : IrToolCallDelta) :
    (agg.feed delta).calls.length = max agg.calls.length (delta.index.toNat + 1) := by
  rw [ToolCallAggregator.feed, List.length_modify, List.length_append, List.length_replicate]
  omega

/-- A fragment changes the call of its index only. -/
theorem getD_feed (agg : ToolCallAggregator) (delta : IrToolCallDelta) (n : ℕ) :
    (agg.feed delta).calls.getD n {} =
      if n = delta.index.toNat then ToolCallAggregator.append (agg.calls.getD n {}) delta
      else agg.calls.getD n {} := by
  have hpadded : (agg.calls ++ List.replicate (delta.index.toNat + 1 - agg.calls.length)
        ({} : IrToolCall))[n]? =
      if n < max agg.calls.length (delta.index.toNat + 1) then some (agg.calls.getD n {})
      else none := by
    rw [List.getElem?_append, List.getElem?_replicate, List.getD_eq_getElem?_getD]
    by_cases hn : n < agg.calls.length
    · rw [if_pos hn, if_pos (by omega), List.getElem?_eq_getElem hn, Option.getD_some]
    · rw [if_neg hn, List.getElem?_eq_none (Nat.not_lt.1 hn), Option.getD_none]
      by_cases hidx : n < delta.index.toNat + 1
      · rw [if_pos (by omega), if_pos (by omega)]
      · rw [if_neg (by omega), if_neg (by omega)]
  rw [ToolCallAggregator.feed, List.getD_eq_getElem?_getD, List.getElem?_modify, hpadded,
    Option.map_eq_map]
  by_cases hidx : n = delta.index.toNat
  · rw [if_pos hidx, if_pos (by omega), Option.map_some, Option.getD_some, if_pos hidx.symm]
  · rw [if_neg hidx]
    by_cases hn : n < max agg.calls.length (delta.index.toNat + 1)
    · rw [if_pos hn, Option.map_some, Option.getD_some, if_neg (Ne.symm hidx)]
    · rw [if_neg hn, Option.map_none, Option.getD_none, List.getD_eq_default _ _ (by omega)]

/-! ### Repeated texts -/

/-- A text, `k` times. -/
def times (k : ℕ) (s : String) : String := String.join (List.replicate k s)

theorem times_succ (k : ℕ) (s : String) : times (k + 1) s = times k s ++ s := by
  rw [times, List.replicate_succ', String.join_append, String.join_cons]
  simp [times]

theorem times_one (s : String) : times 1 s = s := by
  simp [times]

theorem length_times (k : ℕ) (s : String) : (times k s).length = k * s.length := by
  induction k with
  | zero => simp [times]
  | succ k ih => rw [times_succ, String.length_append, ih, Nat.succ_mul]

theorem times_eq_self_iff {k : ℕ} {s : String} (hs : s ≠ "") : times k s = s ↔ k = 1 := by
  constructor
  · intro h
    have hlength := congrArg String.length h
    rw [length_times] at hlength
    have hpos : 0 < s.length := by
      rw [Nat.pos_iff_ne_zero]
      intro hzero
      exact hs (String.length_eq_zero_iff.1 hzero)
    exact Nat.eq_of_mul_eq_mul_right hpos (hlength.trans (Nat.one_mul _).symm)
  · rintro rfl
    exact times_one s

/-! ### One event -/

theorem announced_concat (past : List Value) (v : Value) :
    announced (past ++ [v]) = announced past ++ (announcement v).toList := by
  rw [announced, List.filterMap_append, announced]
  cases h : announcement v <;> simp [h]

theorem deltasOf_concat (past : List Value) (v : Value) (itemId : String) :
    deltasOf (past ++ [v]) itemId = deltasOf past itemId ++
      (((argumentsDelta v).toList.filter fun delta ↦ delta.1 = itemId).map Prod.snd) := by
  rw [deltasOf, List.filterMap_append, List.filter_append, List.map_append, deltasOf]
  cases h : argumentsDelta v <;> simp [h]

/-- A call as the reader of the chunks has it: the id and the name once for every delta that is not
empty. -/
def collectedCall (past : List Value) (a : Announcement) : IrToolCall where
  id := times (spokenDeltas past a.itemId) a.callId
  name := times (spokenDeltas past a.itemId) a.name
  arguments := String.join (deltasOf past a.itemId)

/-- The event has no delta of this item. -/
def SilentOn (v : Value) (itemId : String) : Prop :=
  ∀ delta, argumentsDelta v = some delta → delta.1 ≠ itemId

namespace SilentOn

variable {past : List Value} {v : Value} {itemId : String}

theorem deltasOf (h : SilentOn v itemId) :
    Responses.deltasOf (past ++ [v]) itemId = Responses.deltasOf past itemId := by
  rw [deltasOf_concat]
  cases hdelta : argumentsDelta v with
  | none => exact List.append_nil _
  | some delta => simp [h delta hdelta]

theorem spokenDeltas (h : SilentOn v itemId) :
    Responses.spokenDeltas (past ++ [v]) itemId = Responses.spokenDeltas past itemId := by
  rw [Responses.spokenDeltas, h.deltasOf, Responses.spokenDeltas]

theorem collectedCall {a : Announcement} (h : SilentOn v a.itemId) :
    Responses.collectedCall (past ++ [v]) a = Responses.collectedCall past a := by
  rw [Responses.collectedCall, Responses.collectedCall, h.spokenDeltas, h.deltasOf]

end SilentOn

/-- After these events the decoder knows the announced calls, and the reader has collected them. -/
structure Collects (past : List Value) (st : StreamState) (agg : ToolCallAggregator) : Prop where
  counter : st.fnIndexCounter = UInt32.ofNat (announced past).length
  index : ∀ n a, (announced past)[n]? = some a →
    st.itemToIndex.lookup a.itemId = some (UInt32.ofNat n)
  metas : ∀ n a, (announced past)[n]? = some a →
    st.fnMeta.lookup (UInt32.ofNat n) = some (a.callId, a.name)
  ids : ∀ a ∈ announced past, a.callId ≠ ""
  distinct : ((announced past).map Announcement.itemId).Nodup
  known : ∀ itemId, deltasOf past itemId ≠ [] →
    itemId ∈ (announced past).map Announcement.itemId
  few : (announced past).length ≤ 2 ^ 32
  calls : ∀ n a, (announced past)[n]? = some a → agg.calls.getD n {} = collectedCall past a
  short : agg.calls.length ≤ (announced past).length
  reached : ∀ n a, (announced past)[n]? = some a → 0 < spokenDeltas past a.itemId →
    n < agg.calls.length

theorem collects_start : Collects [] {} {} where
  counter := rfl
  index n a h := absurd h (by simp [announced])
  metas n a h := absurd h (by simp [announced])
  ids a h := absurd h List.not_mem_nil
  distinct := List.nodup_nil
  known itemId h := absurd rfl h
  few := Nat.zero_le _
  calls n a h := absurd h (by simp [announced])
  short := Nat.le_refl 0
  reached n a h := absurd h (by simp [announced])

section Step

variable {past : List Value} {st : StreamState} {agg : ToolCallAggregator} {v : Value}

/-- An event that says nothing about calls leaves the calls as they are. -/
theorem Collects.quiet (h : Collects past st agg) (hannounced : announcement v = none)
    (hdelta : argumentsDelta v = none) {st' : StreamState}
    (hcounter : st'.fnIndexCounter = st.fnIndexCounter)
    (hindex : st'.itemToIndex = st.itemToIndex)
    (hmeta : ∀ n, st'.fnMeta.lookup n = st.fnMeta.lookup n) : Collects (past ++ [v]) st' agg := by
  have hsame : announced (past ++ [v]) = announced past := by
    rw [announced_concat, hannounced, Option.toList_none, List.append_nil]
  have hsilent (itemId : String) : SilentOn v itemId := fun delta hd ↦
    absurd (hdelta.symm.trans hd) (Option.some_ne_none delta).symm
  constructor
  · rw [hsame, hcounter, h.counter]
  · rw [hsame, hindex]
    exact h.index
  · intro n a hn
    rw [hsame] at hn
    rw [hmeta]
    exact h.metas n a hn
  · rw [hsame]
    exact h.ids
  · rw [hsame]
    exact h.distinct
  · intro itemId
    rw [hsame, (hsilent itemId).deltasOf]
    exact h.known itemId
  · rw [hsame]
    exact h.few
  · intro n a hn
    rw [hsame] at hn
    rw [(hsilent a.itemId).collectedCall]
    exact h.calls n a hn
  · rw [hsame]
    exact h.short
  · intro n a hn
    rw [hsame] at hn
    rw [(hsilent a.itemId).spokenDeltas]
    exact h.reached n a hn

/-- Numbers that fit into 32 bits are different indices. -/
theorem ofNat_ne {m n : ℕ} (hm : m < 2 ^ 32) (hn : n < 2 ^ 32) (h : m ≠ n) :
    UInt32.ofNat m ≠ UInt32.ofNat n := by
  intro heq
  have hnat := congrArg UInt32.toNat heq
  rw [UInt32.toNat_ofNat_of_lt' hm, UInt32.toNat_ofNat_of_lt' hn] at hnat
  exact h hnat

/-- A call that is announced is known, and nothing of it is collected. -/
theorem Collects.announce (h : Collects past st agg) {a : Announcement}
    (hannounced : announcement v = some a) (hdelta : argumentsDelta v = none)
    (hfresh : a.callId ≠ "" ∧ a.itemId ∉ (announced past).map Announcement.itemId)
    (hfew : (announced past).length + 1 ≤ 2 ^ 32) {st' : StreamState}
    (hcounter : st'.fnIndexCounter = st.fnIndexCounter + 1)
    (hindex : st'.itemToIndex = st.itemToIndex.insert a.itemId st.fnIndexCounter)
    (hmeta : st'.fnMeta = st.fnMeta.insert st.fnIndexCounter (a.callId, a.name)) :
    Collects (past ++ [v]) st' agg := by
  have hnext : announced (past ++ [v]) = announced past ++ [a] := by
    rw [announced_concat, hannounced]
    rfl
  have hquiet (itemId : String) : SilentOn v itemId := fun delta hd ↦
    absurd (hdelta.symm.trans hd) (Option.some_ne_none delta).symm
  have hsilent : deltasOf past a.itemId = [] := by
    by_contra hne
    exact hfresh.2 (h.known a.itemId hne)
  -- an announced call is one of those before or the new one
  have hcases {n : ℕ} {b : Announcement} (hn : (announced (past ++ [v]))[n]? = some b) :
      (announced past)[n]? = some b ∧ n < (announced past).length ∨
        n = (announced past).length ∧ b = a := by
    rw [hnext, List.getElem?_append] at hn
    by_cases hlt : n < (announced past).length
    · rw [if_pos hlt] at hn
      exact Or.inl ⟨hn, hlt⟩
    · rw [if_neg hlt, List.getElem?_singleton] at hn
      split at hn
      · next hzero => exact Or.inr ⟨by omega, (Option.some.inj hn).symm⟩
      · exact absurd hn (by simp)
  constructor
  · rw [hcounter, hnext, List.length_append, h.counter, UInt32.ofNat_add]
    rfl
  · intro n b hn
    rw [hindex, Table.lookup_insert]
    rcases hcases hn with ⟨hold, hlt⟩ | ⟨rfl, rfl⟩
    · have hne : a.itemId ≠ b.itemId := by
        intro heq
        exact hfresh.2 (heq ▸ List.mem_map_of_mem (List.mem_of_getElem? hold))
      rw [if_neg hne]
      exact h.index n b hold
    · rw [if_pos rfl, h.counter]
  · intro n b hn
    rw [hmeta, Table.lookup_insert, h.counter]
    rcases hcases hn with ⟨hold, hlt⟩ | ⟨rfl, rfl⟩
    · rw [if_neg (ofNat_ne (by omega) (by omega) (by omega))]
      exact h.metas n b hold
    · rw [if_pos rfl]
  · intro b hb
    rw [hnext] at hb
    rcases List.mem_append.1 hb with hb | hb
    · exact h.ids b hb
    · rw [List.mem_singleton.1 hb]
      exact hfresh.1
  · rw [hnext, List.map_append]
    refine h.distinct.append (List.nodup_singleton _) ?_
    intro itemId hmem hnew
    rw [List.map_singleton, List.mem_singleton] at hnew
    exact hfresh.2 (hnew ▸ hmem)
  · intro itemId hne
    rw [(hquiet itemId).deltasOf] at hne
    rw [hnext, List.map_append]
    exact List.mem_append_left _ (h.known itemId hne)
  · rw [hnext, List.length_append]
    exact hfew
  · intro n b hn
    rw [(hquiet b.itemId).collectedCall]
    rcases hcases hn with ⟨hold, hlt⟩ | ⟨rfl, rfl⟩
    · exact h.calls n b hold
    · rw [List.getD_eq_default _ _ h.short, collectedCall, spokenDeltas, hsilent]
      rfl
  · rw [hnext, List.length_append]
    exact Nat.le_succ_of_le h.short
  · intro n b hn hpos
    rw [(hquiet b.itemId).spokenDeltas] at hpos
    rcases hcases hn with ⟨hold, hlt⟩ | ⟨rfl, rfl⟩
    · exact h.reached n b hold hpos
    · rw [spokenDeltas, hsilent] at hpos
      exact absurd hpos (Nat.lt_irrefl 0)

/-- The fragment that a delta of this call becomes. -/
def fragmentOf (n : ℕ) (a : Announcement) (text : String) : IrToolCallDelta where
  index := UInt32.ofNat n
  id := some a.callId
  name := if a.name = "" then none else some a.name
  arguments := some text

/-- A delta adds its text; unless it is empty, it adds the id and the name once more. -/
theorem Collects.arguments (h : Collects past st agg) {itemId text : String}
    (hannounced : announcement v = none) (hdelta : argumentsDelta v = some (itemId, text))
    {n : ℕ} {a : Announcement} (hn : (announced past)[n]? = some a) (hitem : a.itemId = itemId) :
    Collects (past ++ [v]) st (if text = "" then agg else agg.feed (fragmentOf n a text)) := by
  have hsame : announced (past ++ [v]) = announced past := by
    rw [announced_concat, hannounced, Option.toList_none, List.append_nil]
  have hlt : n < (announced past).length := by
    obtain ⟨hlt, -⟩ := List.getElem?_eq_some_iff.1 hn
    exact hlt
  have hown : deltasOf (past ++ [v]) itemId = deltasOf past itemId ++ [text] := by
    rw [deltasOf_concat, hdelta]
    simp
  have hothers {other : String} (hne : itemId ≠ other) : SilentOn v other := by
    intro delta hd
    rw [← Option.some.inj (hdelta.symm.trans hd)]
    exact hne
  -- items are distinct, so the delta belongs to the call at `n` alone
  have honly {m : ℕ} {b : Announcement} (hm : (announced past)[m]? = some b) (hmn : m ≠ n) :
      itemId ≠ b.itemId := by
    intro heq
    obtain ⟨hmlt, -⟩ := List.getElem?_eq_some_iff.1 hm
    refine hmn ((List.getElem?_inj (by simpa using hmlt) h.distinct).1 ?_)
    rw [List.getElem?_map, List.getElem?_map, hm, hn, Option.map_some, Option.map_some, hitem, heq]
  have hindex : (fragmentOf n a text).index.toNat = n :=
    UInt32.toNat_ofNat_of_lt' (Nat.lt_of_lt_of_le hlt h.few)
  constructor
  · rw [hsame]
    exact h.counter
  · rw [hsame]
    exact h.index
  · rw [hsame]
    exact h.metas
  · rw [hsame]
    exact h.ids
  · rw [hsame]
    exact h.distinct
  · intro other hne
    rw [hsame]
    by_cases hother : itemId = other
    · subst hother
      exact List.mem_map.2 ⟨a, List.mem_of_getElem? hn, hitem⟩
    · rw [(hothers hother).deltasOf] at hne
      exact h.known other hne
  · rw [hsame]
    exact h.few
  · intro m b hm
    rw [hsame] at hm
    by_cases hmn : m = n
    · subst hmn
      obtain rfl : a = b := Option.some.inj (hn.symm.trans hm)
      by_cases hempty : text = ""
      · rw [if_pos hempty, h.calls m a hn, collectedCall, collectedCall, spokenDeltas, spokenDeltas,
          hitem, hown, hempty]
        simp
      · rw [if_neg hempty, getD_feed, hindex, if_pos rfl, h.calls m a hn]
        have hspoken : spokenDeltas (past ++ [v]) itemId = spokenDeltas past itemId + 1 := by
          rw [spokenDeltas, hown, List.filter_append, List.length_append, ← spokenDeltas]
          simp [hempty]
        rw [collectedCall, collectedCall, hitem, hspoken, hown, times_succ, times_succ,
          String.join_append]
        have hname : (if a.name = "" then none else some a.name).getD "" = a.name := by
          by_cases hname : a.name = "" <;> simp [hname]
        simp [ToolCallAggregator.append, fragmentOf, hname, String.join_cons]
    · rw [(hothers (honly hm hmn)).collectedCall, ← h.calls m b hm]
      by_cases hempty : text = ""
      · rw [if_pos hempty]
      · rw [if_neg hempty, getD_feed, hindex, if_neg hmn]
  · rw [hsame]
    by_cases hempty : text = ""
    · rw [if_pos hempty]
      exact h.short
    · rw [if_neg hempty, length_feed, hindex]
      exact Nat.max_le.2 ⟨h.short, hlt⟩
  · intro m b hm hpos
    rw [hsame] at hm
    by_cases hmn : m = n
    · subst hmn
      obtain rfl : a = b := Option.some.inj (hn.symm.trans hm)
      by_cases hempty : text = ""
      · rw [if_pos hempty]
        refine h.reached m a hn ?_
        rw [spokenDeltas, hitem, hown, hempty] at hpos
        rw [spokenDeltas, hitem]
        simpa using hpos
      · rw [if_neg hempty, length_feed, hindex]
        omega
    · rw [(hothers (honly hm hmn)).spokenDeltas] at hpos
      have hreached := h.reached m b hm hpos
      by_cases hempty : text = ""
      · rw [if_pos hempty]
        exact hreached
      · rw [if_neg hempty, length_feed]
        omega

/-- The reader of the chunks of one event. -/
def feedChunk (agg : ToolCallAggregator) (chunk : IrChunk) : ToolCallAggregator :=
  agg.feedAll chunk.delta.toolCalls

/-- An event of no known kind says nothing about calls. -/
theorem silent_of_type {v : Value} (hadded : v["type"].strOrEmpty ≠ "response.output_item.added")
    (harguments : v["type"].strOrEmpty ≠ "response.function_call_arguments.delta") :
    announcement v = none ∧ argumentsDelta v = none :=
  ⟨if_neg fun h ↦ hadded h.1, if_neg harguments⟩

theorem Collects.readItemAdded (h : Collects past st agg) (hnext : ValidNext past v)
    (hfew : (announced (past ++ [v])).length ≤ 2 ^ 32)
    (htype : v["type"].strOrEmpty = "response.output_item.added") :
    Collects (past ++ [v]) (readItemAdded v st).st agg ∧ (readItemAdded v st).answer = .ok none := by
  have hdelta : argumentsDelta v = none := if_neg (by rw [htype]; decide)
  by_cases hcall : v["item"]["type"].asStr = some "function_call"
  · have hannounced : announcement v = some ⟨v["item"]["id"].strOrEmpty,
        v["item"]["call_id"].strOrEmpty, v["item"]["name"].strOrEmpty⟩ := if_pos ⟨htype, hcall⟩
    have hfresh := hnext.fresh _ hannounced
    rw [announced_concat, hannounced] at hfew
    have hid : itemCallId v["item"] = v["item"]["call_id"].strOrEmpty := by
      have hne : v["item"]["call_id"].asStr.getD "" ≠ "" := hfresh.1
      rw [itemCallId, Value.strOrEmpty]
      cases hstr : v["item"]["call_id"].asStr with
      | none =>
        rw [hstr] at hne
        exact absurd rfl hne
      | some s =>
        rw [hstr, Option.getD_some] at hne
        simp [Option.filter, hne]
    rw [Responses.readItemAdded, if_pos hcall]
    refine ⟨h.announce hannounced hdelta hfresh (by simpa using hfew) rfl rfl ?_, rfl⟩
    rw [← hid]
    rfl
  · have hannounced : announcement v = none := if_neg fun h ↦ hcall h.2
    rw [Responses.readItemAdded, if_neg hcall]
    exact ⟨h.quiet hannounced hdelta rfl rfl fun _ ↦ rfl, rfl⟩

/-- An announcement is complete already, so that nothing is filled in when the call is done. -/
theorem Collects.readItemDone (h : Collects past st agg) (hnext : ValidNext past v)
    (htype : v["type"].strOrEmpty = "response.output_item.done") :
    Collects (past ++ [v]) (readItemDone v st).st agg ∧ (readItemDone v st).answer = .ok none := by
  obtain ⟨hannounced, hdelta⟩ := silent_of_type (v := v) (by rw [htype]; decide)
    (by rw [htype]; decide)
  rw [Responses.readItemDone]
  by_cases hcall : v["item"]["type"].asStr = some "function_call"
  · obtain ⟨a, ha, hitem, hname⟩ := hnext.completed _ (if_pos ⟨htype, hcall⟩)
    dsimp only at hitem hname
    obtain ⟨n, hn⟩ := List.mem_iff_getElem?.1 ha
    have hindex := h.index n a hn
    have hmeta := h.metas n a hn
    have hid : a.callId ≠ "" := h.ids a ha
    rw [if_pos hcall, ← hitem, hindex]
    dsimp only
    rw [hmeta, Option.getD_some, if_neg hid]
    have hkeep : (if a.name = "" then v["item"]["name"].strOrEmpty else a.name) = a.name := by
      rw [← hname]
      exact ite_self _
    rw [hkeep]
    refine ⟨h.quiet hannounced hdelta rfl rfl fun m ↦ ?_, rfl⟩
    show (st.fnMeta.insert _ _).lookup m = _
    rw [Table.lookup_insert]
    by_cases hm : UInt32.ofNat n = m
    · rw [if_pos hm, ← hm, hmeta]
    · rw [if_neg hm]
  · rw [if_neg hcall]
    exact ⟨h.quiet hannounced hdelta rfl rfl fun _ ↦ rfl, rfl⟩

/-- A delta that is not empty becomes a chunk with the fragment of its call. -/
theorem Collects.readArgumentsDelta (h : Collects past st agg) (hnext : ValidNext past v)
    (htype : v["type"].strOrEmpty = "response.function_call_arguments.delta") :
    (readArgumentsDelta v st).st = st ∧
      Collects (past ++ [v]) st
        ((match (readArgumentsDelta v st).answer with
          | .ok (some chunk) => [chunk]
          | _ => []).foldl feedChunk agg) := by
  have hannounced : announcement v = none := if_neg fun hadded ↦
    absurd (htype.symm.trans hadded.1) (by decide)
  have hdelta : argumentsDelta v = some (v["item_id"].strOrEmpty, v["delta"].strOrEmpty) :=
    if_pos htype
  obtain ⟨a, ha, hitem⟩ := List.mem_map.1 (hnext.known _ hdelta)
  obtain ⟨n, hn⟩ := List.mem_iff_getElem?.1 ha
  have hcollects := h.arguments hannounced hdelta hn hitem
  rw [Responses.readArgumentsDelta]
  by_cases hempty : v["delta"].strOrEmpty = ""
  · rw [if_pos hempty] at hcollects ⊢
    exact ⟨rfl, hcollects⟩
  · dsimp only at hitem
    rw [if_neg hempty] at hcollects ⊢
    rw [← hitem, h.index n a hn]
    dsimp only
    rw [h.metas n a hn, Option.getD_some, if_neg (h.ids a ha)]
    exact ⟨rfl, hcollects⟩

/-- Every event of a stream keeps the reader in step. -/
theorem Collects.step (h : Collects past st agg) (hnext : ValidNext past v)
    (hfew : (announced (past ++ [v])).length ≤ 2 ^ 32) :
    Collects (past ++ [v]) (decodeStep st v).1 ((decodeStep st v).2.foldl feedChunk agg) := by
  by_cases hobject : v.isObject = true
  · by_cases hadded : v["type"].strOrEmpty = "response.output_item.added"
    · have hread : chunkToIr v st = Responses.readItemAdded v st := by
        rw [chunkToIr, if_pos hobject, hadded]
        rfl
      obtain ⟨hcollects, hanswer⟩ := h.readItemAdded hnext hfew hadded
      rw [decodeStep, hread, hanswer]
      exact hcollects
    by_cases hdone : v["type"].strOrEmpty = "response.output_item.done"
    · have hread : chunkToIr v st = Responses.readItemDone v st := by
        rw [chunkToIr, if_pos hobject, hdone]
        rfl
      obtain ⟨hcollects, hanswer⟩ := h.readItemDone hnext hdone
      rw [decodeStep, hread, hanswer]
      exact hcollects
    by_cases harguments : v["type"].strOrEmpty = "response.function_call_arguments.delta"
    · have hread : chunkToIr v st = Responses.readArgumentsDelta v st := by
        rw [chunkToIr, if_pos hobject, harguments]
        rfl
      obtain ⟨hst, hcollects⟩ := h.readArgumentsDelta hnext harguments
      rw [decodeStep, hread]
      show Collects _ (Responses.readArgumentsDelta v st).st _
      rw [hst]
      exact hcollects
    obtain ⟨hannounced, hdelta⟩ := silent_of_type hadded harguments
    have hquiet {st' : StreamState} := @Collects.quiet past st agg v h hannounced hdelta st'
    rw [decodeStep, chunkToIr, if_pos hobject]
    split
    · exact hquiet rfl rfl fun _ ↦ rfl
    · next heq => exact absurd heq hadded
    · next heq => exact absurd heq hdone
    · rw [readTextDelta]
      split <;> exact hquiet rfl rfl fun _ ↦ rfl
    · rw [readReasoningDelta]
      split <;> exact hquiet rfl rfl fun _ ↦ rfl
    · next heq => exact absurd heq harguments
    all_goals exact hquiet rfl rfl fun _ ↦ rfl
  · have htype : v["type"].strOrEmpty = "" := by
      cases v with
      | obj m => exact absurd rfl hobject
      | _ => rfl
    obtain ⟨hannounced, hdelta⟩ := silent_of_type (v := v) (by rw [htype]; decide)
      (by rw [htype]; decide)
    rw [decodeStep, chunkToIr, if_neg hobject]
    exact h.quiet hannounced hdelta rfl rfl fun _ ↦ rfl

end Step

/-! ### The theorem -/

/-- After a whole stream the reader holds the collected calls. -/
theorem collects_stream {events : List Value} (hvalid : ValidEvents events)
    (hfew : (announced events).length ≤ 2 ^ 32) :
    Collects events (Stream.run decodeStep {} events).1
      ((decodedChunks events).foldl feedChunk {}) := by
  have hall : ∀ before v after, events = before ++ v :: after →
      ValidNext ([] ++ before) v ∧ (announced ([] ++ before ++ [v])).length ≤ 2 ^ 32 := by
    intro before v after hsplit
    refine ⟨hvalid before v after hsplit, ?_⟩
    rw [hsplit, announced, List.filterMap_append, ← List.singleton_append, List.filterMap_append,
      ← List.append_assoc, List.length_append] at hfew
    rw [List.nil_append, announced, List.filterMap_append]
    exact Nat.le_of_add_right_le hfew
  exact Stream.run_follows_along decodeStep feedChunk
    (fun past v st agg
      (hv : ValidNext past v ∧ (announced (past ++ [v])).length ≤ 2 ^ 32) h ↦ h.step hv.1 hv.2)
    collects_start events hall

theorem collectedCalls_eq (events : List Value) :
    collectedCalls events = ((decodedChunks events).foldl feedChunk {}).calls := by
  rw [collectedCalls, ToolCallAggregator.finish, ToolCallAggregator.feedAll, List.foldl_flatMap]
  rfl

/-- Indices have 32 bits, and so has the number of collected calls. -/
theorem length_collectedCalls_le (events : List Value) :
    (collectedCalls events).length ≤ 2 ^ 32 := by
  rw [collectedCalls, ToolCallAggregator.finish]
  have hfold (deltas : List IrToolCallDelta) (agg : ToolCallAggregator)
      (h : agg.calls.length ≤ 2 ^ 32) :
      (agg.feedAll deltas).calls.length ≤ 2 ^ 32 := by
    induction deltas generalizing agg with
    | nil => exact h
    | cons delta rest ih =>
      refine ih (agg.feed delta) ?_
      rw [length_feed]
      exact Nat.max_le.2 ⟨h, delta.index.toNat_lt⟩
  exact hfold _ {} (Nat.zero_le _)

/-- The calls are collected as they were announced exactly when each has one delta that is not
empty, and indices do not run out. -/
theorem collectedCalls_iff (events : List Value) (hvalid : ValidEvents events) :
    collectedCalls events = (announced events).map (announcedCall events) ↔
      (announced events).length ≤ 2 ^ 32 ∧
        ∀ a ∈ announced events, spokenDeltas events a.itemId = 1 := by
  constructor
  · intro heq
    have hfew : (announced events).length ≤ 2 ^ 32 := by
      have := length_collectedCalls_le events
      rw [heq, List.length_map] at this
      exact this
    refine ⟨hfew, fun a ha ↦ ?_⟩
    obtain ⟨n, hn⟩ := List.mem_iff_getElem?.1 ha
    have hcollects := collects_stream hvalid hfew
    have hcall := hcollects.calls n a hn
    rw [← collectedCalls_eq, heq, List.getD_eq_getElem?_getD, List.getElem?_map, hn, Option.map_some,
      Option.getD_some] at hcall
    have hid : a.callId = times (spokenDeltas events a.itemId) a.callId :=
      congrArg IrToolCall.id hcall
    exact (times_eq_self_iff (hcollects.ids a ha)).1 hid.symm
  · rintro ⟨hfew, hone⟩
    have hcollects := collects_stream hvalid hfew
    have hlength : (collectedCalls events).length = (announced events).length := by
      rw [collectedCalls_eq]
      refine Nat.le_antisymm hcollects.short ?_
      cases hlast : (announced events).length with
      | zero => exact Nat.zero_le _
      | succ n =>
        have hn : n < (announced events).length := by omega
        exact hcollects.reached n _ (List.getElem?_eq_getElem hn) (by
          rw [hone _ (List.getElem_mem hn)]
          exact Nat.one_pos)
    refine List.ext_getElem? fun n ↦ ?_
    cases hn : (announced events)[n]? with
    | none =>
      rw [List.getElem?_map, hn]
      rw [List.getElem?_eq_none_iff] at hn
      exact List.getElem?_eq_none (hlength ▸ hn)
    | some a =>
      obtain ⟨hlt, -⟩ := List.getElem?_eq_some_iff.1 hn
      have hcall := hcollects.calls n a hn
      rw [← collectedCalls_eq, List.getD_eq_getElem?_getD,
        List.getElem?_eq_getElem (hlength ▸ hlt), Option.getD_some] at hcall
      rw [List.getElem?_map, hn, List.getElem?_eq_getElem (hlength ▸ hlt), hcall, Option.map_some,
        collectedCall, announcedCall, hone a (List.mem_of_getElem? hn), times_one, times_one]

/-! ### Two streams -/

def addedCall (itemId callId name : String) : Value :=
  .object [("type", .str "response.output_item.added"), ("item", .object
    [("type", .str "function_call"), ("id", .str itemId), ("call_id", .str callId),
      ("name", .str name)])]

def argumentsText (itemId text : String) : Value :=
  .object [("type", .str "response.function_call_arguments.delta"), ("item_id", .str itemId),
    ("delta", .str text)]

/-- Two calls whose arguments come in one piece each. -/
def wholeArguments : List Value :=
  [addedCall "fc_1" "call_1" "weather", addedCall "fc_2" "call_2" "time",
    argumentsText "fc_2" "[2]", argumentsText "fc_1" "[1]", argumentsText "fc_1" ""]

theorem collectedCalls_wholeArguments :
    collectedCalls wholeArguments =
      (announced wholeArguments).map (announcedCall wholeArguments) := by
  have hvalid : ValidEvents wholeArguments := validEvents_of_getElem (by decide +kernel)
  exact (collectedCalls_iff wholeArguments hvalid).2 ⟨by decide +kernel, by decide +kernel⟩

/-- A call whose arguments come in two pieces, and a call without arguments. -/
def piecedArguments : List Value :=
  [addedCall "fc_1" "call_1" "weather", argumentsText "fc_1" "[", argumentsText "fc_1" "1]",
    addedCall "fc_2" "call_2" "time"]

theorem collectedCalls_piecedArguments :
    ValidEvents piecedArguments ∧
      (announced piecedArguments).map (announcedCall piecedArguments) =
        [{ id := "call_1", name := "weather", arguments := "[1]" },
          { id := "call_2", name := "time", arguments := "" }] ∧
      collectedCalls piecedArguments =
        [{ id := "call_1call_1", name := "weatherweather", arguments := "[1]" }] :=
  ⟨validEvents_of_getElem (by decide +kernel), by decide +kernel, by decide +kernel⟩

end NextApi.Responses
