import NextApi.Gateway.RunGateway
import NextApi.Stream.AnyOrder

/-!
# The order of the candidates

The candidates of a request are tried in the order of their priorities. In the group of a priority
the first is drawn by weight, and the others follow; then the candidate that is pinned may come to
the front, if it is of the best priority.

No candidate is lost or tried twice for all that, as long as the routes have different ids
(`orderedCandidates`): the drawn candidate is found again by its id, and its group has no other one
with it. A draw is below the sum of the weights of its group, and then it falls to a route
(`drawRoute_eq_some`), so the last route is never taken instead.
-/

set_option autoImplicit false

namespace NextApi.Gateway

open Routing
open Logging (Uuid)

namespace RoutedUpstream

def priority (c : RoutedUpstream) : ℤ := c.route.priority

/-- The candidates of a priority. -/
def groupAt (candidates : List RoutedUpstream) (prio : ℤ) : List RoutedUpstream :=
  candidates.filter fun c ↦ decide (c.priority = prio)

def totalWeight (group : List RoutedUpstream) : ℕ := (group.map fun c ↦ c.route.weightOf).sum

/-- The draw is below the weight of the candidate, after the weights of those before it. -/
def Draws (draw : ℕ) (group : List RoutedUpstream) (c : RoutedUpstream) : Prop :=
  ∃ before after, group = before ++ c :: after ∧ totalWeight before ≤ draw ∧
    draw < totalWeight before + c.route.weightOf

end RoutedUpstream

open RoutedUpstream

/-! ### A draw -/

/-- A draw below the sum of the weights falls to a route. -/
theorem drawRoute_eq_some {draw : ℕ} {group : List RoutedUpstream}
    (h : draw < totalWeight group) :
    ∃ c, Draws draw group c ∧ drawRoute draw (group.map route) = some c.route := by
  induction group generalizing draw with
  | nil => exact absurd h (Nat.not_lt_zero draw)
  | cons c rest ih =>
    rw [totalWeight, List.map_cons, List.sum_cons] at h
    rw [List.map_cons, drawRoute]
    by_cases hdraw : draw < c.route.weightOf
    · rw [if_pos hdraw]
      refine ⟨c, ⟨[], rest, rfl, Nat.zero_le draw, ?_⟩, rfl⟩
      rw [totalWeight, List.map_nil, List.sum_nil, Nat.zero_add]
      exact hdraw
    · have hrest : draw - c.route.weightOf < totalWeight rest := by
        rw [totalWeight]
        omega
      obtain ⟨c', ⟨before, after, hgroup, hle, hlt⟩, hpick⟩ := ih hrest
      rw [if_neg hdraw, hpick, hgroup]
      refine ⟨c', ⟨c :: before, after, rfl, ?_, ?_⟩, rfl⟩
      · rw [totalWeight, List.map_cons, List.sum_cons]
        rw [totalWeight] at hle
        omega
      · rw [totalWeight, List.map_cons, List.sum_cons]
        rw [totalWeight] at hlt
        omega

theorem weightedPick_eq {draw : ℕ} {routes : List ModelRouteRow} {r : ModelRouteRow}
    (h : drawRoute draw routes = some r) : weightedPick draw routes = some r := by
  rw [weightedPick, h, Option.some_or]

/-! ### A group -/

/-- The order of a group. -/
def orderGroup (draw : ℕ) (group : List RoutedUpstream) : List RoutedUpstream :=
  match weightedPick draw (group.map route) with
  | none => []
  | some primary =>
    match group.find? fun c ↦ decide (c.route.id = primary.id) with
    | none => []
    | some p =>
      p :: (group.filter fun c ↦ decide (c.route.id ≠ p.route.id)).mergeSort fun a b ↦
        decide (b.route.weight < a.route.weight ∨
          a.route.weight = b.route.weight ∧ a.route.sortOrder ≤ b.route.sortOrder)

/-- The priorities in their order. -/
def priorities (candidates : List RoutedUpstream) : List ℤ :=
  (candidates.map priority).dedup.mergeSort fun a b ↦ decide (a ≤ b)

theorem orderCandidates_eq (draw : ℤ → ℕ) (candidates : List RoutedUpstream) :
    orderCandidates draw candidates = (priorities candidates).flatMap fun prio ↦
      orderGroup (draw prio) (groupAt candidates prio) := rfl

theorem mem_priorities {candidates : List RoutedUpstream} {prio : ℤ} :
    prio ∈ priorities candidates ↔ ∃ c ∈ candidates, c.priority = prio := by
  rw [priorities, List.mem_mergeSort, List.mem_dedup, List.mem_map]

theorem nodup_priorities (candidates : List RoutedUpstream) : (priorities candidates).Nodup :=
  (List.mergeSort_perm _ _).nodup_iff.2 (List.nodup_dedup _)

theorem pairwise_priorities (candidates : List RoutedUpstream) :
    (priorities candidates).Pairwise (· ≤ ·) :=
  List.pairwise_mergeSort' (· ≤ ·) _

theorem mem_of_mem_orderGroup {draw : ℕ} {group : List RoutedUpstream} {c : RoutedUpstream}
    (h : c ∈ orderGroup draw group) : c ∈ group := by
  rw [orderGroup] at h
  split at h
  · exact absurd h List.not_mem_nil
  · split at h
    · exact absurd h List.not_mem_nil
    · next p hp =>
      rcases List.mem_cons.1 h with rfl | h
      · exact List.mem_of_find?_eq_some hp
      · exact (List.mem_filter.1 (List.mem_mergeSort.1 h)).1

/-- The drawn candidate comes first, and every candidate once. -/
theorem orderGroup_of_draws {draw : ℕ} {group : List RoutedUpstream} {c : RoutedUpstream}
    (hids : (group.map fun c ↦ c.route.id).Nodup) (hdraws : Draws draw group c)
    (hpick : drawRoute draw (group.map route) = some c.route) :
    (orderGroup draw group).head? = some c ∧ (orderGroup draw group).Perm group := by
  obtain ⟨before, after, rfl, -, -⟩ := hdraws
  have hmem : c ∈ before ++ c :: after := List.mem_append_right _ List.mem_cons_self
  have hsame := filter_eq_singleton hids hmem
  have hfind : (before ++ c :: after).find? (fun x ↦ decide (x.route.id = c.route.id)) =
      some c := by
    rw [← List.head?_filter, hsame]
    rfl
  rw [orderGroup, weightedPick_eq hpick]
  dsimp only
  rw [hfind]
  refine ⟨rfl, ?_⟩
  have hothers := List.filter_append_perm (fun x ↦ decide (x.route.id = c.route.id))
    (before ++ c :: after)
  rw [hsame, List.singleton_append] at hothers
  refine ((List.mergeSort_perm _ _).cons c).trans ?_
  simpa only [ne_eq, decide_not] using hothers

/-! ### All groups -/

section Ordered

variable {draw : ℤ → ℕ} {candidates : List RoutedUpstream}

/-- Every draw is below the sum of the weights of its group. -/
def InRange (draw : ℤ → ℕ) (candidates : List RoutedUpstream) : Prop :=
  ∀ c ∈ candidates, draw c.priority < totalWeight (groupAt candidates c.priority)

theorem mem_groupAt {prio : ℤ} {c : RoutedUpstream} :
    c ∈ groupAt candidates prio ↔ c ∈ candidates ∧ c.priority = prio := by
  rw [groupAt, List.mem_filter, decide_eq_true_eq]

theorem priority_of_mem_orderGroup {n : ℕ} {prio : ℤ} {c : RoutedUpstream}
    (h : c ∈ orderGroup n (groupAt candidates prio)) : c.priority = prio :=
  (mem_groupAt.1 (mem_of_mem_orderGroup h)).2

theorem nodup_groupAt (hids : (candidates.map fun c ↦ c.route.id).Nodup) (prio : ℤ) :
    ((groupAt candidates prio).map fun c ↦ c.route.id).Nodup :=
  (List.filter_sublist.map _).nodup hids

/-- What is drawn in the group of a priority that has a candidate. -/
theorem exists_drawn (hrange : InRange draw candidates) {prio : ℤ}
    (hprio : ∃ c ∈ candidates, c.priority = prio) :
    ∃ c, Draws (draw prio) (groupAt candidates prio) c ∧
      drawRoute (draw prio) ((groupAt candidates prio).map route) = some c.route := by
  obtain ⟨c, hc, rfl⟩ := hprio
  exact drawRoute_eq_some (hrange c hc)

theorem orderCandidates_perm (hids : (candidates.map fun c ↦ c.route.id).Nodup)
    (hrange : InRange draw candidates) : (orderCandidates draw candidates).Perm candidates := by
  rw [orderCandidates_eq]
  refine (List.Perm.flatMap_left _ fun prio hprio ↦ ?_).trans
    (perm_flatMap_filter (nodup_priorities candidates) fun c hc ↦ mem_priorities.2 ⟨c, hc, rfl⟩)
  obtain ⟨c, hdraws, hpick⟩ := exists_drawn hrange (mem_priorities.1 hprio)
  exact (orderGroup_of_draws (nodup_groupAt hids prio) hdraws hpick).2

/-- Priorities never decrease. -/
theorem pairwise_orderCandidates (draw : ℤ → ℕ) (candidates : List RoutedUpstream) :
    (orderCandidates draw candidates).Pairwise fun a b ↦ a.priority ≤ b.priority := by
  rw [orderCandidates_eq, List.pairwise_flatMap]
  constructor
  · intro prio _
    refine List.pairwise_of_forall_mem_list fun a ha b hb ↦ ?_
    rw [priority_of_mem_orderGroup ha, priority_of_mem_orderGroup hb]
  · refine (pairwise_priorities candidates).imp fun hle a ha b hb ↦ ?_
    rw [priority_of_mem_orderGroup ha, priority_of_mem_orderGroup hb]
    exact hle

/-- The first candidate of a priority is the first of its group. -/
theorem find?_orderCandidates {prio : ℤ} (hprio : ∃ c ∈ candidates, c.priority = prio) :
    (orderCandidates draw candidates).find? (fun c ↦ decide (c.priority = prio)) =
      (orderGroup (draw prio) (groupAt candidates prio)).head? := by
  rw [← List.head?_filter, orderCandidates_eq,
    filter_flatMap_eq (fun _ _ h ↦ priority_of_mem_orderGroup h) (nodup_priorities candidates),
    if_pos (mem_priorities.2 hprio)]

end Ordered

/-! ### The pinned candidate -/

/-- Either no candidate of the best priority has the upstream and nothing changes, or the first
one that has it comes to the front, and the others keep their order. -/
inductive Pinned (pin : Uuid) (ordered result : List RoutedUpstream) : Prop
  | absent (h : ∀ c ∈ ordered, c.upstream.id = pin → ∃ best ∈ ordered, best.priority < c.priority)
      (same : result = ordered)
  | front (before after : List RoutedUpstream) (c : RoutedUpstream)
      (place : ordered = before ++ c :: after) (upstream : c.upstream.id = pin)
      (best : ∀ a ∈ ordered, c.priority ≤ a.priority) (first : ∀ a ∈ before, a.upstream.id ≠ pin)
      (moved : result = c :: (before ++ after))

theorem pinned_reorder {ordered : List RoutedUpstream}
    (hsorted : ordered.Pairwise fun a b ↦ a.priority ≤ b.priority) (pin : Uuid) :
    Pinned pin ordered (reorderPinnedFirst ordered pin) := by
  cases ordered with
  | nil => exact Pinned.absent (fun c hc ↦ absurd hc List.not_mem_nil) rfl
  | cons head rest =>
    have hhead : ∀ a ∈ head :: rest, head.priority ≤ a.priority := by
      intro a ha
      rcases List.mem_cons.1 ha with rfl | ha
      · exact le_rfl
      · exact List.rel_of_pairwise_cons hsorted ha
    rw [reorderPinnedFirst]
    split
    · next hnone =>
      refine Pinned.absent (fun c hc hpin ↦ ⟨head, List.mem_cons_self, ?_⟩) rfl
      have hc' := List.findIdx?_eq_none_iff.1 hnone c hc
      rw [decide_eq_false_iff_not, not_and] at hc'
      exact lt_of_le_of_ne (hhead c hc) fun heq ↦ hc' hpin heq.symm
    · next pos hpos =>
      obtain ⟨hlt, hfound, hbefore⟩ := List.findIdx?_eq_some_iff_getElem.1 hpos
      obtain ⟨hpin, hprio⟩ := of_decide_eq_true hfound
      have hplace : head :: rest = (head :: rest).take pos ++
          (head :: rest)[pos] :: (head :: rest).drop (pos + 1) := by
        rw [← List.drop_eq_getElem_cons hlt, List.take_append_drop]
      have hbest : ∀ a ∈ head :: rest, (head :: rest)[pos].priority ≤ a.priority := by
        intro a ha
        exact (show _ = head.priority from hprio).le.trans (hhead a ha)
      refine Pinned.front _ _ _ hplace hpin hbest (fun a ha heq ↦ ?_) ?_
      · obtain ⟨j, hj, rfl⟩ := List.mem_take_iff_getElem.1 ha
        have hj' : j < pos := (lt_min_iff.1 hj).1
        refine hbefore j hj' (decide_eq_true ⟨heq, ?_⟩)
        -- Between the first candidate and the one that is found all have its priority.
        refine le_antisymm ?_ (hhead _ (List.getElem_mem _))
        refine le_trans ?_ (show _ = head.priority from hprio).le
        exact List.pairwise_iff_getElem.1 hsorted j pos _ hlt hj'
      · rw [List.getElem?_eq_getElem hlt, Option.getD_some, List.eraseIdx_eq_take_drop_succ]

theorem Pinned.perm {pin : Uuid} {ordered result : List RoutedUpstream}
    (h : Pinned pin ordered result) : result.Perm ordered := by
  cases h with
  | absent _ same => rw [same]
  | front before after c place _ _ _ moved =>
    rw [place, moved]
    exact List.perm_middle.symm

theorem Pinned.pairwise {pin : Uuid} {ordered result : List RoutedUpstream}
    (h : Pinned pin ordered result)
    (hsorted : ordered.Pairwise fun a b ↦ a.priority ≤ b.priority) :
    result.Pairwise fun a b ↦ a.priority ≤ b.priority := by
  cases h with
  | absent _ same =>
    rw [same]
    exact hsorted
  | front before after c place _ best _ moved =>
    rw [moved, List.pairwise_cons]
    rw [place] at hsorted best
    constructor
    · intro a ha
      refine best a ?_
      rcases List.mem_append.1 ha with ha | ha
      · exact List.mem_append_left _ ha
      · exact List.mem_append_right _ (List.mem_cons_of_mem c ha)
    · exact hsorted.sublist (List.Sublist.append_left (List.sublist_cons_self c after) before)

/-! ### The order -/

/-- Every candidate once, by priority. In every group that has a candidate the draw falls to one,
which is the one that is picked and comes first; then the pinned candidate comes to the front. -/
structure OrderedCandidates (draw : ℤ → ℕ) (candidates : List RoutedUpstream) (pin : Uuid)
    (result : List RoutedUpstream) : Prop where
  perm : result.Perm candidates
  priorities : result.Pairwise fun a b ↦ a.route.priority ≤ b.route.priority
  drawn (prio : ℤ) : (∃ c ∈ candidates, c.priority = prio) →
    ∃ c, Draws (draw prio) (groupAt candidates prio) c ∧
      drawRoute (draw prio) ((groupAt candidates prio).map route) = some c.route ∧
      weightedPick (draw prio) ((groupAt candidates prio).map route) = some c.route ∧
      (orderCandidates draw candidates).find? (fun c ↦ decide (c.priority = prio)) = some c
  pinned : Pinned pin (orderCandidates draw candidates) result

/-- The candidates of a request are ordered, whatever is drawn or pinned. -/
theorem orderedCandidates {draw : ℤ → ℕ} {candidates : List RoutedUpstream}
    (hids : (candidates.map fun c ↦ c.route.id).Nodup) (hrange : InRange draw candidates)
    (pin : Uuid) : OrderedCandidates draw candidates pin
      (reorderPinnedFirst (orderCandidates draw candidates) pin) := by
  have hsorted := pairwise_orderCandidates draw candidates
  have hpinned := pinned_reorder hsorted pin
  refine ⟨hpinned.perm.trans (orderCandidates_perm hids hrange), hpinned.pairwise hsorted,
    fun prio hprio ↦ ?_, hpinned⟩
  obtain ⟨c, hdraws, hpick⟩ := exists_drawn hrange hprio
  refine ⟨c, hdraws, hpick, weightedPick_eq hpick, ?_⟩
  rw [find?_orderCandidates hprio]
  exact (orderGroup_of_draws (nodup_groupAt hids prio) hdraws hpick).1

/-- Three routes of two priorities, one with a weight that counts as one. -/
def threeCandidates : List RoutedUpstream :=
  [⟨{ id := 1, modelPattern := "*", upstreamId := 1, priority := 1 }, { id := 1 }⟩,
    ⟨{ id := 2, modelPattern := "*", upstreamId := 2, weight := -3 }, { id := 2 }⟩,
    ⟨{ id := 3, modelPattern := "*", upstreamId := 3, weight := 7 }, { id := 3 }⟩]

/-- The draws are five and nought, and the second upstream is pinned. -/
theorem orderedCandidates_three :
    OrderedCandidates (fun prio ↦ if prio = 0 then 5 else 0) threeCandidates 2
      (reorderPinnedFirst
        (orderCandidates (fun prio ↦ if prio = 0 then 5 else 0) threeCandidates) 2) :=
  orderedCandidates (by decide) (by rw [InRange]; decide) 2

end NextApi.Gateway
