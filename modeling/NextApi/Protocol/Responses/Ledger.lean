import NextApi.Protocol.Responses.StreamItems

/-!
# Items that are kept while they grow

A sender of a Responses stream keeps the items that it has announced, in an order of its own, with
the texts that it has sent (`Keeps`). Announcing an item that gets the next output index, and sending
a delta of an item, keep them (`Keeps.opened`, `Keeps.grown`). Put in the order of their output
indices, the items are what the terminal event has to have (`Keeps.snapshot`).
-/

set_option autoImplicit false

namespace NextApi.Responses

open Json

/-- The item that is announced. -/
def addedRef : ItemEvent → Option ItemRef
  | .added ref => some ref
  | _ => none

/-- The items are those that the events announce, with the texts of their deltas, and their output
indices count up. -/
structure Keeps (events : List ItemEvent) (items : List (ItemRef × String)) : Prop where
  refs : (items.map Prod.fst).Perm (events.filterMap addedRef)
  indices : (events.filterMap addedRef).map ItemRef.index = List.range items.length
  texts : ∀ item ∈ items, deltaText events item.1 = item.2
  deltas : DeltasAnnounced events
  undone : ∀ ref, .done ref ∉ events
  unfinished : ∀ output, .terminal output ∉ events

theorem keeps_nil : Keeps [] [] where
  refs := .nil
  indices := rfl
  texts item hitem := absurd hitem List.not_mem_nil
  deltas pre ref text post hsplit := absurd hsplit (by simp)
  undone ref := List.not_mem_nil
  unfinished output := List.not_mem_nil

theorem mem_addedRefs {events : List ItemEvent} {ref : ItemRef} :
    ref ∈ events.filterMap addedRef ↔ .added ref ∈ events := by
  rw [List.mem_filterMap]
  constructor
  · intro ⟨e, he, href⟩
    cases e with
    | added r => rwa [← Option.some.inj href]
    | delta r text => exact nomatch href
    | done r => exact nomatch href
    | terminal output => exact nomatch href
    | other => exact nomatch href
  · intro h
    exact ⟨_, h, rfl⟩

/-- Without an announcement there are no deltas. -/
theorem deltaText_eq_empty {events : List ItemEvent} (h : DeltasAnnounced events) {ref : ItemRef}
    (hnew : .added ref ∉ events) : deltaText events ref = "" := by
  have hnone : events.filterMap (deltasFor ref) = [] := by
    refine List.filterMap_eq_nil_iff.2 fun e he ↦ ?_
    cases e with
    | delta r text =>
      obtain ⟨pre, post, hsplit⟩ := List.append_of_mem he
      rw [deltasFor, if_neg]
      rintro rfl
      exact hnew (hsplit ▸ List.mem_append_left _ (h pre r text post hsplit).1)
    | added r => rfl
    | done r => rfl
    | terminal output => rfl
    | other => rfl
  rw [deltaText, hnone]
  rfl

theorem notMem_concat {events : List ItemEvent} {e e' : ItemEvent} (h : e ∉ events)
    (hne : e ≠ e') : e ∉ events ++ [e'] := by
  rw [List.mem_append, List.mem_singleton, not_or]
  exact ⟨h, hne⟩

namespace Keeps

variable {events : List ItemEvent} {items before after : List (ItemRef × String)} {ref : ItemRef}

/-- The announced items differ in their indices. -/
theorem nodup_indices (h : Keeps events items) :
    ((events.filterMap addedRef).map ItemRef.index).Nodup := by
  rw [h.indices]
  exact List.nodup_range

theorem nodup_refs (h : Keeps events items) : (items.map Prod.fst).Nodup :=
  h.refs.nodup_iff.2 (List.Nodup.of_map _ h.nodup_indices)

theorem length_eq (h : Keeps events items) :
    (events.filterMap addedRef).length = items.length := by
  rw [← h.refs.length_eq, List.length_map]

/-- Going on with an event about no item. -/
theorem other (h : Keeps events items) : Keeps (events ++ [.other]) items := by
  have hadded : (events ++ [ItemEvent.other]).filterMap addedRef = events.filterMap addedRef := by
    rw [List.filterMap_append]
    exact List.append_nil _
  refine ⟨?_, ?_, fun item hitem ↦ ?_, ?_, fun _ ↦ ?_, fun _ ↦ ?_⟩
  · rw [hadded]
    exact h.refs
  · rw [hadded]
    exact h.indices
  · rw [deltaText_append, h.texts item hitem]
    exact String.append_empty
  · exact h.deltas.concat fun ref text he ↦ ItemEvent.noConfusion he
  · exact notMem_concat (h.undone _) ItemEvent.noConfusion
  · exact notMem_concat (h.unfinished _) ItemEvent.noConfusion

/-- Announcing an item that gets the next index. -/
theorem opened (h : Keeps events (before ++ after))
    (hindex : ref.index = (before ++ after).length) :
    Keeps (events ++ [.added ref]) (before ++ (ref, "") :: after) := by
  have hadded : (events ++ [ItemEvent.added ref]).filterMap addedRef =
      events.filterMap addedRef ++ [ref] := by
    rw [List.filterMap_append]
    rfl
  have hperm : (before ++ (ref, "") :: after).Perm ((before ++ after) ++ [(ref, "")]) :=
    List.perm_middle.trans (List.perm_append_singleton _ _).symm
  have hnew : .added ref ∉ events := by
    intro hmem
    have hrange : ref.index ∈ List.range (before ++ after).length :=
      h.indices ▸ List.mem_map_of_mem (mem_addedRefs.2 hmem)
    rw [hindex] at hrange
    exact List.not_mem_range_self hrange
  refine ⟨?_, ?_, fun item hitem ↦ ?_, ?_, fun _ ↦ ?_, fun _ ↦ ?_⟩
  · rw [hadded]
    refine (hperm.map Prod.fst).trans ?_
    rw [List.map_append]
    exact h.refs.append_right _
  · have hlength : (before ++ (ref, "") :: after).length = (before ++ after).length + 1 :=
      hperm.length_eq.trans (List.length_append ..)
    rw [hadded, hlength, List.map_append, h.indices, List.range_succ, List.map_singleton, hindex]
  · rw [deltaText_append]
    have hnone : deltaText [.added ref] item.1 = "" := rfl
    rw [hnone, String.append_empty]
    rcases List.mem_append.1 (hperm.mem_iff.1 hitem) with hold | hlast
    · exact h.texts item hold
    · rw [List.mem_singleton.1 hlast]
      exact deltaText_eq_empty h.deltas hnew
  · exact h.deltas.concat fun r text he ↦ ItemEvent.noConfusion he
  · exact notMem_concat (h.undone _) ItemEvent.noConfusion
  · exact notMem_concat (h.unfinished _) ItemEvent.noConfusion

/-- Sending a delta of an item. -/
theorem grown {text : String} (h : Keeps events (before ++ (ref, text) :: after))
    (delta : String) :
    Keeps (events ++ [.delta ref delta]) (before ++ (ref, text ++ delta) :: after) := by
  have hadded : (events ++ [ItemEvent.delta ref delta]).filterMap addedRef =
      events.filterMap addedRef := by
    rw [List.filterMap_append]
    exact List.append_nil _
  have hkeys : (before ++ (ref, text ++ delta) :: after).map Prod.fst =
      (before ++ (ref, text) :: after).map Prod.fst := by
    rw [List.map_append, List.map_append]
    rfl
  have hlength : (before ++ (ref, text ++ delta) :: after).length =
      (before ++ (ref, text) :: after).length := by
    rw [List.length_append, List.length_append]
    rfl
  have hmem : (ref, text) ∈ before ++ (ref, text) :: after :=
    List.mem_append_right _ List.mem_cons_self
  have hother : ∀ item ∈ before ++ after, item.1 ≠ ref := by
    intro item hitem heq
    have hnodup := h.nodup_refs
    rw [List.map_append, List.map_cons, List.nodup_middle, List.nodup_cons,
      ← List.map_append] at hnodup
    exact hnodup.1 (List.mem_map.2 ⟨item, hitem, heq⟩)
  refine ⟨?_, ?_, fun item hitem ↦ ?_, ?_, fun _ ↦ ?_, fun _ ↦ ?_⟩
  · rw [hadded, hkeys]
    exact h.refs
  · rw [hadded, hlength]
    exact h.indices
  · rw [deltaText_append]
    rcases List.mem_cons.1 (List.perm_middle.mem_iff.1 hitem) with rfl | hold
    · rw [h.texts _ hmem]
      simp [deltaText, deltasFor]
    · have hne : ref ≠ item.1 := fun heq ↦ hother item hold heq.symm
      have hnone : deltaText [.delta ref delta] item.1 = "" := by simp [deltaText, deltasFor, hne]
      rw [hnone, String.append_empty]
      exact h.texts item (List.perm_middle.mem_iff.2 (List.mem_cons_of_mem _ hold))
  · refine h.deltas.concat fun r t he ↦ ?_
    obtain ⟨rfl, -⟩ := ItemEvent.delta.inj he
    exact ⟨mem_addedRefs.1 (h.refs.mem_iff.1 (List.mem_map_of_mem hmem)), h.undone _⟩
  · exact notMem_concat (h.undone _) ItemEvent.noConfusion
  · exact notMem_concat (h.unfinished _) ItemEvent.noConfusion

/-- By their indices, the items are in the order in which they were announced. -/
theorem index_of_sorted (h : Keeps events items) {sorted : List (ItemRef × String)}
    (hperm : sorted.Perm items)
    (hsorted : sorted.Pairwise fun a b ↦ a.1.index ≤ b.1.index) :
    sorted.map (fun item ↦ item.1.index) = List.range items.length := by
  have hindices : (sorted.map fun item ↦ item.1.index).Perm (List.range items.length) := by
    rw [← h.indices]
    have hmap := (hperm.map Prod.fst).trans h.refs |>.map ItemRef.index
    rwa [List.map_map] at hmap
  exact hindices.eq_of_pairwise (fun a b _ _ hle hge ↦ Nat.le_antisymm hle hge)
    (List.pairwise_map.2 hsorted) List.pairwise_le_range

/-- Events that end the items change nothing that the terminal event depends on. -/
theorem ended (h : Keeps events items) {dones : List ItemEvent}
    (hdones : ∀ e ∈ dones, e = .other ∨ ∃ ref, e = .done ref) :
    DeltasAnnounced (events ++ dones) ∧ (∀ output, .terminal output ∉ events ++ dones) ∧
      (events ++ dones).filterMap addedRef = events.filterMap addedRef ∧
      ∀ ref, deltaText (events ++ dones) ref = deltaText events ref := by
  induction dones using List.reverseRecOn with
  | nil =>
    rw [List.append_nil]
    exact ⟨h.deltas, h.unfinished, rfl, fun _ ↦ rfl⟩
  | append_singleton dones e ih =>
    obtain ⟨hdeltas, hterminal, hadded, htext⟩ :=
      ih fun e he ↦ hdones e (List.mem_append_left _ he)
    rw [← List.append_assoc]
    rcases hdones e (List.mem_append_right _ List.mem_cons_self) with rfl | ⟨ref, rfl⟩
    · refine ⟨hdeltas.concat fun r t he ↦ ItemEvent.noConfusion he,
        fun output ↦ notMem_concat (hterminal output) ItemEvent.noConfusion, ?_, fun r ↦ ?_⟩
      · rw [List.filterMap_append, hadded]
        exact List.append_nil _
      · rw [deltaText_append, htext]
        exact String.append_empty
    · refine ⟨hdeltas.concat fun r t he ↦ ItemEvent.noConfusion he,
        fun output ↦ notMem_concat (hterminal output) ItemEvent.noConfusion, ?_, fun r ↦ ?_⟩
      · rw [List.filterMap_append, hadded]
        exact List.append_nil _
      · rw [deltaText_append, htext]
        exact String.append_empty

end Keeps

/-! ### The terminal event -/

/-- An item of the terminal event, as the item at its place. -/
def entryOf (entry : ℕ × Value) : ItemRef × String :=
  (⟨entry.1, entry.2["id"].strOrEmpty, entry.2["type"].strOrEmpty⟩, itemText entry.2)

/-- The items in the order of their indices are what the terminal event has to have. -/
theorem Keeps.snapshot {events : List ItemEvent} {entries sorted : List (ℕ × Value)}
    (h : Keeps events (entries.map entryOf)) (hperm : sorted.Perm entries)
    (hsorted : sorted.Pairwise fun a b ↦ a.1 ≤ b.1) :
    Snapshot events (sorted.map Prod.snd) := by
  have hindices := h.index_of_sorted (hperm.map entryOf) (List.pairwise_map.2 hsorted)
  rw [List.map_map, List.length_map] at hindices
  intro ref hadded
  obtain ⟨item, hitem, href⟩ :=
    List.mem_map.1 (h.refs.mem_iff.2 (mem_addedRefs.2 hadded))
  obtain ⟨entry, hentry, rfl⟩ := List.mem_map.1 hitem
  obtain ⟨k, hk, hget⟩ := List.mem_iff_getElem.1 (hperm.mem_iff.2 hentry)
  -- the place of an item is its index
  have hindex : entry.1 = k := by
    have hkth := congrArg (fun l ↦ l[k]?) hindices
    have hlength : k < entries.length := hperm.length_eq ▸ hk
    simp only [List.getElem?_map, List.getElem?_eq_getElem hk, hget, Option.map_some,
      List.getElem?_range hlength] at hkth
    exact Option.some.inj hkth
  rw [← href]
  refine ⟨entry.2, ?_, rfl, rfl, ?_⟩
  · show (sorted.map Prod.snd)[entry.1]? = _
    rw [hindex, List.getElem?_map, List.getElem?_eq_getElem hk, hget]
    rfl
  · exact (h.texts _ hitem).symm

end NextApi.Responses
