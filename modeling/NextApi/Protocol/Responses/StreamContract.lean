import Mathlib.Data.List.Perm.Subperm
import NextApi.Protocol.Responses.StreamTrace

/-!
# When a Responses stream keeps its contract

The terminal event has the items in a fixed order (`ranked`): the message, the reasoning and the
function calls. Their output indices are their places in the order of arrival (`openings`). The two
agree when the items arrive in the fixed order, as long as the indices fit into 32 bits
(`snapshot_iff`). Chunks after the terminal event are answered as before it, so nothing may be left
to announce or to send there (`contract_iff`).
-/

set_option autoImplicit false

namespace NextApi.Responses

open Json Ir

/-! ### The order of the terminal event -/

namespace Key

def toolIndex : Key → Option UInt32
  | .tool idx => some idx
  | _ => none

end Key

theorem toolIndex_eq {key : Key} {idx : UInt32} (h : key.toolIndex = some idx) :
    Key.tool idx = key := by
  cases key with
  | message => exact absurd h (Option.some_ne_none idx).symm
  | reasoning => exact absurd h (Option.some_ne_none idx).symm
  | tool idx' => rw [← Option.some.inj h]

theorem mem_toolIndices {keys : List Key} {idx : UInt32} :
    idx ∈ keys.filterMap Key.toolIndex ↔ Key.tool idx ∈ keys := by
  rw [List.mem_filterMap]
  constructor
  · rintro ⟨key, hkey, htool⟩
    rwa [toolIndex_eq htool]
  · intro hmem
    exact ⟨_, hmem, rfl⟩

/-- The message, the reasoning and the function calls. -/
def ranked (keys : List Key) : List Key :=
  keys.filter (· = .message) ++ keys.filter (· = .reasoning) ++
    (keys.filterMap Key.toolIndex).map .tool

/-- The items arrive in the order of the terminal event. -/
def InRank (keys : List Key) : Prop := keys.Pairwise fun a b ↦ a.rank ≤ b.rank

theorem inRank_ranked (keys : List Key) : InRank (ranked keys) := by
  have hfirst : ∀ key ∈ keys.filter (· = Key.message), key = .message := fun key hmem ↦
    of_decide_eq_true (List.mem_filter.1 hmem).2
  have hsecond : ∀ key ∈ keys.filter (· = Key.reasoning), key = .reasoning := fun key hmem ↦
    of_decide_eq_true (List.mem_filter.1 hmem).2
  have hthird : ∀ key ∈ (keys.filterMap Key.toolIndex).map Key.tool, key.rank = 2 := by
    intro key hmem
    obtain ⟨idx, -, rfl⟩ := List.mem_map.1 hmem
    rfl
  rw [InRank, ranked, List.pairwise_append, List.pairwise_append]
  refine ⟨⟨?_, ?_, ?_⟩, ?_, ?_⟩
  · refine List.pairwise_of_forall_mem_list fun a ha b hb ↦ ?_
    rw [hfirst a ha, hfirst b hb]
  · refine List.pairwise_of_forall_mem_list fun a ha b hb ↦ ?_
    rw [hsecond a ha, hsecond b hb]
  · intro a ha b hb
    rw [hfirst a ha, hsecond b hb]
    exact Nat.zero_le _
  · refine List.pairwise_of_forall_mem_list fun a ha b hb ↦ ?_
    rw [hthird a ha, hthird b hb]
  · intro a ha b hb
    rw [hthird b hb]
    rcases List.mem_append.1 ha with ha | ha
    · rw [hfirst a ha]
      exact Nat.zero_le _
    · rw [hsecond a ha]
      exact Nat.le_succ 1

theorem ranked_eq_self {keys : List Key} (h : InRank keys) : ranked keys = keys := by
  induction keys with
  | nil => rfl
  | cons key rest ih =>
    obtain ⟨hle, hrest⟩ := List.pairwise_cons.1 h
    have heq := ih hrest
    have hnone : ∀ other : Key, other.rank < key.rank → rest.filter (· = other) = [] := by
      intro other hlt
      rw [List.filter_eq_nil_iff]
      intro a ha hother
      rw [← of_decide_eq_true hother] at hlt
      exact absurd (hle a ha) (Nat.not_le.2 hlt)
    cases key with
    | message =>
      rw [ranked] at heq ⊢
      exact congrArg (Key.message :: ·) heq
    | reasoning =>
      have hmessage := hnone .message Nat.zero_lt_one
      rw [ranked, hmessage, List.nil_append] at heq
      rw [ranked, List.filter_cons_of_neg (by decide), hmessage, List.nil_append]
      exact congrArg (Key.reasoning :: ·) heq
    | tool idx =>
      have hmessage := hnone .message Nat.zero_lt_two
      have hreasoning := hnone .reasoning Nat.one_lt_two
      rw [ranked, hmessage, hreasoning, List.nil_append, List.nil_append] at heq
      rw [ranked, List.filter_cons_of_neg (by simp), List.filter_cons_of_neg (by simp), hmessage,
        hreasoning]
      exact congrArg (Key.tool idx :: ·) heq

/-! ### The items of the terminal event -/

/-- What the state has collected of a function call. -/
def toolState (st : StreamState) (idx : UInt32) : FnItemState :=
  (st.toolItems.lookup idx).getD default

/-- The item of a key in the terminal event. -/
def finalItem (st : StreamState) : Key → Value
  | .message => outputMessageItem st.messageText st.messageItemId
  | .reasoning => outputReasoningItem st.reasoningText st.reasoningItemId
  | .tool idx => outputFunctionCallItem (toolState st idx)

/-- A key that occurs once is all that is left of a list when it is filtered out. -/
theorem filter_eq_of_nodup {keys : List Key} (h : keys.Nodup) (key : Key) :
    keys.filter (· = key) = if key ∈ keys then [key] else [] := by
  rw [List.filter_eq, h.count]
  split <;> rfl

theorem nodup_toolIndices {keys : List Key} (h : keys.Nodup) :
    (keys.filterMap Key.toolIndex).Nodup := by
  refine h.filterMap fun a b idx ha hb ↦ ?_
  rw [← toolIndex_eq ha, ← toolIndex_eq hb]

section Final

variable [RandSuffix] {st : StreamState} {keys : List Key} {texts : Key → String}

theorem lookup_eq_toolState (h : Holds st keys texts) {idx : UInt32} (hkey : .tool idx ∈ keys) :
    st.toolItems.lookup idx = some (toolState st idx) := by
  have hsome := (h.mem_iff (.tool idx)).1 hkey
  rw [held, Option.isSome_map] at hsome
  obtain ⟨state, hstate⟩ := Option.isSome_iff_exists.1 hsome
  rw [toolState, hstate]
  rfl

theorem toolState_eq (h : Holds st keys texts) {idx : UInt32} (hkey : .tool idx ∈ keys) :
    (toolState st idx).outputIndex = UInt32.ofNat (keys.idxOf (.tool idx)) ∧
      (toolState st idx).itemId = "fc_" ++ RandSuffix.suffix (keys.idxOf (.tool idx)) ∧
      (toolState st idx).arguments = texts (.tool idx) := by
  have hheld := h.held_eq hkey
  rw [held, lookup_eq_toolState h hkey, Option.map_some, Option.some.injEq, Prod.mk.injEq,
    Prod.mk.injEq] at hheld
  exact hheld

/-- The function calls of the terminal event are those of the keys, in the order of arrival. -/
theorem sortedTools_eq (h : Holds st keys texts) (hnodup : keys.Nodup)
    (hfew : keys.length ≤ 2 ^ 32) :
    sortedTools st = (keys.filterMap Key.toolIndex).map (toolState st) := by
  have hindex : ∀ idx, Key.tool idx ∈ keys →
      (toolState st idx).outputIndex.toNat = keys.idxOf (.tool idx) := by
    intro idx hkey
    rw [(toolState_eq h hkey).1]
    exact UInt32.toNat_ofNat_of_lt'
      (Nat.lt_of_lt_of_le (List.idxOf_lt_length_of_mem hkey) hfew)
  have hperm : (sortedTools st).Perm ((keys.filterMap Key.toolIndex).map (toolState st)) := by
    refine (List.mergeSort_perm _ _).trans ?_
    have hpairs : st.toolItems.toList.Perm
        ((keys.filterMap Key.toolIndex).map fun idx ↦ (idx, toolState st idx)) := by
      have hkeys := (Table.nodup_keys_toList st.toolItems).of_map
      refine (List.perm_ext_iff_of_nodup hkeys ?_).2 ?_
      · exact (nodup_toolIndices hnodup).map fun a b hab ↦ (Prod.mk.inj hab).1
      · rintro ⟨idx, state⟩
        rw [Table.mem_toList, List.mem_map]
        constructor
        · intro hlookup
          have hkey : Key.tool idx ∈ keys := by
            rw [h.mem_iff, held, hlookup]
            rfl
          refine ⟨idx, mem_toolIndices.2 hkey, ?_⟩
          rw [toolState, hlookup]
          rfl
        · rintro ⟨idx', hidx, hpair⟩
          obtain ⟨rfl, rfl⟩ := Prod.mk.inj hpair
          exact lookup_eq_toolState h (mem_toolIndices.1 hidx)
    have hvalues := hpairs.map Prod.snd
    rw [List.map_map] at hvalues
    exact hvalues
  have hsorted : (sortedTools st).Pairwise fun a b ↦ a.outputIndex.toNat ≤ b.outputIndex.toNat := by
    have htrans : ∀ a b c : FnItemState, decide (a.outputIndex ≤ b.outputIndex) →
        decide (b.outputIndex ≤ c.outputIndex) → decide (a.outputIndex ≤ c.outputIndex) := by
      intro a b c hab hbc
      exact decide_eq_true (UInt32.le_trans (of_decide_eq_true hab) (of_decide_eq_true hbc))
    have htotal : ∀ a b : FnItemState, decide (a.outputIndex ≤ b.outputIndex) ||
        decide (b.outputIndex ≤ a.outputIndex) := by
      intro a b
      rw [Bool.or_eq_true, decide_eq_true_iff, decide_eq_true_iff]
      exact UInt32.le_total _ _
    have hmerge := List.pairwise_mergeSort htrans htotal (st.toolItems.toList.map Prod.snd)
    exact hmerge.imp fun hle ↦ of_decide_eq_true hle
  have harrival : ((keys.filterMap Key.toolIndex).map (toolState st)).Pairwise
      fun a b ↦ a.outputIndex.toNat ≤ b.outputIndex.toNat := by
    have hplaces : keys.Pairwise fun a b ↦ keys.idxOf a ≤ keys.idxOf b := by
      rw [List.pairwise_iff_getElem]
      intro i j hi hj hij
      rw [hnodup.idxOf_getElem i hi, hnodup.idxOf_getElem j hj]
      exact Nat.le_of_lt hij
    rw [List.pairwise_map, List.pairwise_filterMap]
    refine hplaces.imp_of_mem fun {a b} ha hb hab i hi j hj ↦ ?_
    have hi' : Key.tool i = a := toolIndex_eq hi
    have hj' : Key.tool j = b := toolIndex_eq hj
    rw [hindex i (hi' ▸ ha), hindex j (hj' ▸ hb), hi', hj']
    exact hab
  refine List.Perm.eq_of_pairwise (fun a b ha hb hab hba ↦ ?_) hsorted harrival hperm
  obtain ⟨idx, hidx, rfl⟩ := List.mem_map.1 (hperm.subset ha)
  obtain ⟨idx', hidx', rfl⟩ := List.mem_map.1 hb
  have hkey := mem_toolIndices.1 hidx
  have hkey' := mem_toolIndices.1 hidx'
  have heq := Nat.le_antisymm hab hba
  rw [hindex idx hkey, hindex idx' hkey'] at heq
  rw [Key.tool.inj ((List.idxOf_inj hkey).1 heq)]

theorem messageItemAdded_iff (h : Holds st keys texts) :
    st.messageItemAdded = true ↔ Key.message ∈ keys := by
  rw [h.mem_iff, held]
  by_cases hadded : st.messageItemAdded = true
  · rw [if_pos hadded]
    exact iff_of_true hadded rfl
  · rw [if_neg hadded]
    exact iff_of_false hadded Bool.false_ne_true

theorem reasoningItemAdded_iff (h : Holds st keys texts) :
    st.reasoningItemAdded = true ↔ Key.reasoning ∈ keys := by
  rw [h.mem_iff, held]
  by_cases hadded : st.reasoningItemAdded = true
  · rw [if_pos hadded]
    exact iff_of_true hadded rfl
  · rw [if_neg hadded]
    exact iff_of_false hadded Bool.false_ne_true

/-- The output of the terminal event. -/
theorem finalOutput_eq (h : Holds st keys texts) (hnodup : keys.Nodup)
    (hfew : keys.length ≤ 2 ^ 32) : finalOutput st = (ranked keys).map (finalItem st) := by
  rw [finalOutput, sortedTools_eq h hnodup hfew, ranked, List.map_append, List.map_append,
    filter_eq_of_nodup hnodup, filter_eq_of_nodup hnodup, List.map_map, List.map_map]
  have hmessage : (if st.messageItemAdded then
      [outputMessageItem st.messageText st.messageItemId] else []) =
        (if Key.message ∈ keys then [Key.message] else []).map (finalItem st) := by
    by_cases hmem : Key.message ∈ keys
    · rw [if_pos hmem, if_pos ((messageItemAdded_iff h).2 hmem)]
      rfl
    · rw [if_neg hmem, if_neg fun hadded ↦ hmem ((messageItemAdded_iff h).1 hadded)]
      rfl
  have hreasoning : (if st.reasoningItemAdded then
      [outputReasoningItem st.reasoningText st.reasoningItemId] else []) =
        (if Key.reasoning ∈ keys then [Key.reasoning] else []).map (finalItem st) := by
    by_cases hmem : Key.reasoning ∈ keys
    · rw [if_pos hmem, if_pos ((reasoningItemAdded_iff h).2 hmem)]
      rfl
    · rw [if_neg hmem, if_neg fun hadded ↦ hmem ((reasoningItemAdded_iff h).1 hadded)]
      rfl
  rw [hmessage, hreasoning]
  rfl

omit [RandSuffix] in
theorem partsText_textParts (type text : String) : partsText (textParts type text) = text := by
  rw [textParts]
  by_cases hempty : text = ""
  · rw [if_pos hempty, hempty]
    rfl
  · rw [if_neg hempty]
    simp [partsText]

omit [RandSuffix] in
theorem type_finalItem (st : StreamState) (key : Key) :
    (finalItem st key)["type"].strOrEmpty = key.type := by
  cases key <;> simp [finalItem, outputMessageItem, outputReasoningItem, outputFunctionCallItem,
    Key.type]

theorem id_finalItem (h : Holds st keys texts) {key : Key} (hkey : key ∈ keys) :
    (finalItem st key)["id"].strOrEmpty = key.stem ++ RandSuffix.suffix (keys.idxOf key) := by
  have hheld := h.held_eq hkey
  cases key with
  | message =>
    rw [held, if_pos ((messageItemAdded_iff h).2 hkey), Option.some.injEq, Prod.mk.injEq,
      Prod.mk.injEq] at hheld
    rw [← hheld.2.1]
    simp [finalItem, outputMessageItem]
  | reasoning =>
    rw [held, if_pos ((reasoningItemAdded_iff h).2 hkey), Option.some.injEq, Prod.mk.injEq,
      Prod.mk.injEq] at hheld
    rw [← hheld.2.1]
    simp [finalItem, outputReasoningItem]
  | tool idx =>
    refine Eq.trans ?_ (toolState_eq h hkey).2.1
    simp [finalItem, outputFunctionCallItem]

theorem itemText_finalItem (h : Holds st keys texts) {key : Key} (hkey : key ∈ keys) :
    itemText (finalItem st key) = texts key := by
  have hheld := h.held_eq hkey
  cases key with
  | message =>
    rw [held, if_pos ((messageItemAdded_iff h).2 hkey), Option.some.injEq, Prod.mk.injEq,
      Prod.mk.injEq] at hheld
    rw [← hheld.2.2]
    simp [finalItem, outputMessageItem, itemText, partsText_textParts]
  | reasoning =>
    rw [held, if_pos ((reasoningItemAdded_iff h).2 hkey), Option.some.injEq, Prod.mk.injEq,
      Prod.mk.injEq] at hheld
    rw [← hheld.2.2]
    simp [finalItem, outputReasoningItem, itemText, partsText_textParts]
  | tool idx =>
    refine Eq.trans ?_ (toolState_eq h hkey).2.2
    simp [finalItem, outputFunctionCallItem, itemText]

end Final

/-! ### Output indices -/

theorem length_le_of_nodup {indices : List UInt32} (h : indices.Nodup) :
    indices.length ≤ 2 ^ 32 := by
  have hnats : (indices.map UInt32.toNat).Nodup := h.map fun a b hab ↦ UInt32.toNat_inj.1 hab
  have hsubset : indices.map UInt32.toNat ⊆ List.range (2 ^ 32) := by
    intro n hn
    obtain ⟨idx, -, rfl⟩ := List.mem_map.1 hn
    exact List.mem_range.2 idx.toNat_lt
  have hle := (hnats.subperm hsubset).length_le
  rwa [List.length_map, List.length_range] at hle

/-- There are at most as many function calls as indices for them. -/
theorem length_le_of_tools {keys : List Key} (hnodup : keys.Nodup) (hmessage : .message ∉ keys)
    (hreasoning : .reasoning ∉ keys) : keys.length ≤ 2 ^ 32 := by
  have htools : ∀ key ∈ keys, key.rank = 2 := by
    intro key hkey
    cases key with
    | message => exact absurd hkey hmessage
    | reasoning => exact absurd hkey hreasoning
    | tool idx => rfl
  have hrank : InRank keys := List.pairwise_of_forall_mem_list fun a ha b hb ↦ by
    rw [htools a ha, htools b hb]
  have heq := ranked_eq_self hrank
  rw [ranked, filter_eq_of_nodup hnodup, filter_eq_of_nodup hnodup, if_neg hmessage,
    if_neg hreasoning, List.nil_append, List.nil_append] at heq
  rw [← heq, List.length_map]
  exact length_le_of_nodup (nodup_toolIndices hnodup)

theorem rank_eq_of_type_eq {key key' : Key} (h : key.type = key'.type) : key.rank = key'.rank := by
  cases key <;> cases key' <;> first | rfl | simp [Key.type] at h

theorem tool_of_type_eq {key key' : Key} (hne : key ≠ key') (h : key.type = key'.type) :
    key.type = "function_call" := by
  cases key <;> cases key' <;> first | rfl | exact absurd rfl hne | simp [Key.type] at h

section Snapshot

variable [RandSuffix]

theorem added_mem_opened {chunks : List IrChunk} {ops : List Op} {ref : ItemRef} :
    .added ref ∈ opening chunks ++ itemEvents ops ↔
      ∃ key ∈ openings ops, ref = itemRef ((openings ops).idxOf key) key := by
  rw [List.mem_append, added_mem_itemEvents]
  refine or_iff_right fun hopening ↦ ?_
  rw [opening] at hopening
  split at hopening
  · exact List.not_mem_nil hopening
  · exact ItemEvent.noConfusion (List.mem_singleton.1 hopening)

theorem deltaText_opened (chunks : List IrChunk) (ops : List Op) (ref : ItemRef) :
    deltaText (opening chunks ++ itemEvents ops) ref = deltaText (itemEvents ops) ref := by
  have hopening : deltaText (opening chunks) ref = "" := by
    rw [opening]
    split <;> rfl
  rw [deltaText_append, hopening, String.empty_append]

/-- The type of an item at an output index. -/
theorem Snapshot.type_eq {chunks : List IrChunk} {ops : List Op} {output : List Value}
    (h : Snapshot (opening chunks ++ itemEvents ops) output) {i : ℕ}
    (hi : i < (openings ops).length) :
    ∃ item, output[(UInt32.ofNat i).toNat]? = some item ∧
      item["type"].strOrEmpty = (openings ops)[i].type := by
  obtain ⟨item, hitem, -, htype, -⟩ := h (itemRef i (openings ops)[i]) (by
    rw [added_mem_opened]
    refine ⟨_, List.getElem_mem hi, ?_⟩
    rw [(nodup_openings ops).idxOf_getElem i hi])
  exact ⟨item, hitem, htype⟩

/-- More items than output indices: two of them share the first index, and one of a message or of
the reasoning comes first in the output. -/
theorem Snapshot.few {chunks : List IrChunk} {ops : List Op} {st : StreamState}
    (hholds : Holds st (openings ops) (textOf ops))
    (h : Snapshot (opening chunks ++ itemEvents ops) (finalOutput st)) :
    (openings ops).length ≤ 2 ^ 32 := by
  by_contra hmany
  rw [Nat.not_le] at hmany
  have hzero : 0 < (openings ops).length := Nat.zero_lt_of_lt hmany
  obtain ⟨item, hitem, htype⟩ := h.type_eq hzero
  obtain ⟨item', hitem', htype'⟩ := h.type_eq hmany
  have hsame : item' = item := by
    have hindex : UInt32.ofNat (2 ^ 32) = UInt32.ofNat 0 := rfl
    rw [hindex, hitem] at hitem'
    exact (Option.some.inj hitem').symm
  have hne : (openings ops)[0] ≠ (openings ops)[2 ^ 32] := by
    intro heq
    have hplace := congrArg (openings ops).idxOf heq
    rw [(nodup_openings ops).idxOf_getElem 0 hzero, (nodup_openings ops).idxOf_getElem _ hmany]
      at hplace
    exact absurd hplace (by decide)
  rw [hsame, htype] at htype'
  rw [tool_of_type_eq hne htype'] at htype
  have hother : Key.message ∈ openings ops ∨ Key.reasoning ∈ openings ops := by
    by_contra hnone
    rw [not_or] at hnone
    exact absurd (length_le_of_tools (nodup_openings ops) hnone.1 hnone.2) (Nat.not_le.2 hmany)
  by_cases hmessage : st.messageItemAdded = true
  · rw [finalOutput, if_pos hmessage] at hitem
    obtain rfl : outputMessageItem st.messageText st.messageItemId = item := Option.some.inj hitem
    exact absurd ((type_finalItem st .message).symm.trans htype) (by decide)
  · have hreasoning : st.reasoningItemAdded = true := by
      rcases hother with hmem | hmem
      · exact absurd ((messageItemAdded_iff hholds).2 hmem) hmessage
      · exact (reasoningItemAdded_iff hholds).2 hmem
    rw [finalOutput, if_neg hmessage, if_pos hreasoning] at hitem
    obtain rfl : outputReasoningItem st.reasoningText st.reasoningItemId = item :=
      Option.some.inj hitem
    exact absurd ((type_finalItem st .reasoning).symm.trans htype) (by decide)

/-- The terminal event agrees with the events before it when the items arrived in its order. -/
theorem snapshot_iff {chunks : List IrChunk} {ops : List Op} {st : StreamState}
    (hholds : Holds st (openings ops) (textOf ops)) :
    Snapshot (opening chunks ++ itemEvents ops) (finalOutput st) ↔
      InRank (openings ops) ∧ (openings ops).length ≤ 2 ^ 32 := by
  have hnodup := nodup_openings ops
  constructor
  · intro h
    have hfew := h.few hholds
    refine ⟨?_, hfew⟩
    -- the item at an output index has the type of the key there
    have hrank : ∀ i (hi : i < (openings ops).length), ∃ key,
        (ranked (openings ops))[i]? = some key ∧ key.rank = (openings ops)[i].rank := by
      intro i hi
      obtain ⟨item, hitem, htype⟩ := h.type_eq hi
      rw [UInt32.toNat_ofNat_of_lt' (Nat.lt_of_lt_of_le hi hfew),
        finalOutput_eq hholds hnodup hfew, List.getElem?_map, Option.map_eq_some_iff] at hitem
      obtain ⟨key, hkey, rfl⟩ := hitem
      rw [type_finalItem] at htype
      exact ⟨key, hkey, rank_eq_of_type_eq htype⟩
    rw [InRank, List.pairwise_iff_getElem]
    intro i j hi hj hij
    obtain ⟨key, hkey, hkeyRank⟩ := hrank i hi
    obtain ⟨key', hkey', hkeyRank'⟩ := hrank j hj
    obtain ⟨hi', rfl⟩ := List.getElem?_eq_some_iff.1 hkey
    obtain ⟨hj', rfl⟩ := List.getElem?_eq_some_iff.1 hkey'
    rw [← hkeyRank, ← hkeyRank']
    exact List.pairwise_iff_getElem.1 (inRank_ranked _) i j hi' hj' hij
  · rintro ⟨hrank, hfew⟩ ref hadded
    obtain ⟨key, hkey, rfl⟩ := added_mem_opened.1 hadded
    have hlt := List.idxOf_lt_length_of_mem hkey
    refine ⟨finalItem st key, ?_, ?_, ?_, ?_⟩
    · rw [finalOutput_eq hholds hnodup hfew, ranked_eq_self hrank]
      show (List.map _ _)[(UInt32.ofNat _).toNat]? = _
      rw [UInt32.toNat_ofNat_of_lt' (Nat.lt_of_lt_of_le hlt hfew), List.getElem?_map,
        List.getElem?_eq_getElem hlt, List.getElem_idxOf]
      rfl
    · exact id_finalItem hholds hkey
    · exact type_finalItem st key
    · rw [itemText_finalItem hholds hkey, deltaText_opened,
        deltaText_itemEvents List.prefix_rfl hfew hkey]

end Snapshot

/-! ### Streams -/

/-- The operations up to the terminal event. -/
def headOps (chunks : List IrChunk) : List Op := (headOf chunks).flatMap chunkOps

/-- The operations after it. -/
def tailOps (chunks : List IrChunk) : List Op := (tailOf chunks).flatMap chunkOps

/-- The operation announces and sends nothing when these keys have items. -/
def Idle (keys : List Key) (op : Op) : Prop := op.key ∈ keys ∧ op.text = none

section Contract

variable [RandSuffix]

theorem opEvents_eq_nil {keys : List Key} {op : Op} : opEvents keys op = [] ↔ Idle keys op := by
  rw [opEvents, List.append_eq_nil_iff, Option.toList_eq_nil_iff, Option.map_eq_none_iff, Idle]
  refine and_congr_left fun _ ↦ ?_
  by_cases hkey : op.key ∈ keys
  · rw [if_pos hkey]
    exact iff_of_true rfl hkey
  · rw [if_neg hkey]
    exact iff_of_false (List.cons_ne_nil _ _) hkey

theorem eventsFrom_eq_nil {keys : List Key} {ops : List Op} :
    eventsFrom keys ops = [] ↔ ∀ op ∈ ops, Idle keys op := by
  induction ops with
  | nil => exact iff_of_true rfl fun op hop ↦ absurd hop List.not_mem_nil
  | cons op rest ih =>
    rw [eventsFrom, List.append_eq_nil_iff, opEvents_eq_nil, List.forall_mem_cons]
    refine and_congr_right fun hidle ↦ ?_
    rw [keysAfter, if_pos hidle.1, ih]

theorem terminal_notMem_opEvents (keys : List Key) (op : Op) (output : List Value) :
    .terminal output ∉ opEvents keys op := by
  intro h
  rw [opEvents, List.mem_append] at h
  rcases h with h | h
  · split at h
    · exact List.not_mem_nil h
    · exact ItemEvent.noConfusion (List.mem_singleton.1 h)
  · obtain ⟨text, -, htext⟩ := Option.map_eq_some_iff.1 (Option.mem_toList.1 h)
    exact ItemEvent.noConfusion htext

theorem terminal_notMem_eventsFrom (keys : List Key) (ops : List Op) (output : List Value) :
    .terminal output ∉ eventsFrom keys ops := by
  induction ops generalizing keys with
  | nil => exact List.not_mem_nil
  | cons op rest ih =>
    rw [eventsFrom, List.mem_append, not_or]
    exact ⟨terminal_notMem_opEvents keys op output, ih _⟩

theorem terminal_notMem_opened (chunks : List IrChunk) (ops : List Op) (output : List Value) :
    .terminal output ∉ opening chunks ++ itemEvents ops := by
  rw [List.mem_append, not_or]
  refine ⟨?_, terminal_notMem_eventsFrom [] ops output⟩
  rw [opening]
  split
  · exact List.not_mem_nil
  · exact fun h ↦ ItemEvent.noConfusion (List.mem_singleton.1 h)

omit [RandSuffix] in
/-- An event that is not a delta may come first. -/
theorem DeltasAnnounced.cons_other {events : List ItemEvent} (h : DeltasAnnounced events) :
    DeltasAnnounced (.other :: events) := by
  intro pre ref text post hsplit
  cases pre with
  | nil => exact ItemEvent.noConfusion (List.cons.inj hsplit).1
  | cons first pre =>
    obtain ⟨rfl, hrest⟩ := List.cons.inj hsplit
    obtain ⟨hadded, hdone⟩ := h pre ref text post hrest
    refine ⟨List.mem_cons_of_mem _ hadded, fun hmem ↦ ?_⟩
    rcases List.mem_cons.1 hmem with heq | hmem
    · exact ItemEvent.noConfusion heq
    · exact hdone hmem

theorem deltasAnnounced_opened (chunks : List IrChunk) (ops : List Op) :
    DeltasAnnounced (opening chunks ++ itemEvents ops) := by
  rw [opening]
  split
  · exact deltasAnnounced_itemEvents ops
  · exact (deltasAnnounced_itemEvents ops).cons_other

omit [RandSuffix] in
/-- When the events after a terminal event have no other one and a terminal event is last, there
are none. -/
theorem terminal_split {before after before' : List ItemEvent} {output output' : List Value}
    (hafter : ∀ out, .terminal out ∉ after)
    (h : before ++ [.terminal output] ++ after = before' ++ [.terminal output']) :
    after = [] ∧ before' = before ∧ output' = output := by
  rcases List.eq_nil_or_concat after with rfl | ⟨after, last, rfl⟩
  · rw [List.append_nil] at h
    obtain ⟨hpre, hlast⟩ := List.append_inj' h rfl
    exact ⟨rfl, hpre.symm, (ItemEvent.terminal.inj (List.singleton_inj.1 hlast)).symm⟩
  · rw [List.concat_eq_append, ← List.append_assoc] at h
    obtain ⟨-, hlast⟩ := List.append_inj' h rfl
    refine absurd ?_ (hafter output')
    rw [List.concat_eq_append, List.singleton_inj.1 hlast]
    exact List.mem_append_right _ List.mem_cons_self

/-- A stream keeps its contract when its items arrive in the order of the terminal event, their
output indices fit into 32 bits, and nothing is announced or sent after the terminal event. -/
theorem contract_iff (chunks : List IrChunk) (failed : Bool) :
    Contract (streamEvents chunks failed) ↔
      InRank (openings (headOps chunks)) ∧ (openings (headOps chunks)).length ≤ 2 ^ 32 ∧
        ∀ op ∈ tailOps chunks, Idle (openings (headOps chunks)) op := by
  obtain ⟨final, hholds, hviews⟩ := streamEvents_view chunks failed
  rw [← headOps] at hholds
  rw [← headOps, ← tailOps] at hviews
  have hsnapshot : Snapshot (opening (headOf chunks) ++ itemEvents (headOps chunks))
      (finalOutput final) ↔ _ := snapshot_iff hholds
  rw [← and_assoc, ← hsnapshot, ← eventsFrom_eq_nil]
  constructor
  · rintro ⟨before, output, hevents, -, -, hsnap⟩
    obtain ⟨hafter, rfl, rfl⟩ := terminal_split (terminal_notMem_eventsFrom _ _)
      (hviews.symm.trans hevents)
    exact ⟨hsnap, hafter⟩
  · rintro ⟨hsnap, hafter⟩
    rw [hafter, List.append_nil] at hviews
    exact ⟨_, _, hviews, terminal_notMem_opened _ _, deltasAnnounced_opened _ _, hsnap⟩

end Contract

/-! ### A thinking model -/

/-- Some reasoning, the answer, and the end of the stream. -/
def thoughtfulAnswer : List IrChunk :=
  [{ choices := [{ delta := { reasoningContent := some "2+2" } }] },
   { choices := [{ delta := { content := some "4" } }] },
   { choices := [{ finishReason := some "stop" }], usage := some {} }]

/-- Suffixes that count up. -/
@[reducible] def countedSuffix : RandSuffix := ⟨fun n ↦ toString n⟩

/-- The reasoning has the first output index, and the terminal event the message there. -/
theorem not_contract_thoughtfulAnswer :
    ¬ Contract (@streamEvents countedSuffix thoughtfulAnswer false) := by
  let _ : RandSuffix := countedSuffix
  rintro ⟨before, output, hevents, -, -, hsnap⟩
  obtain ⟨final, hholds, hviews⟩ := streamEvents_view thoughtfulAnswer false
  obtain ⟨-, rfl, rfl⟩ := terminal_split (terminal_notMem_eventsFrom _ _)
    (hviews.symm.trans hevents)
  have hrank := ((snapshot_iff hholds).1 hsnap).1
  have hkeys : openings ((headOf thoughtfulAnswer).flatMap chunkOps) = [.reasoning, .message] := by
    decide +kernel
  rw [hkeys, InRank, List.pairwise_cons] at hrank
  exact absurd (hrank.1 .message List.mem_cons_self) (by decide)

end NextApi.Responses
