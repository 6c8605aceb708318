import Mathlib.Data.List.Induction
import NextApi.Idempotency.Begin
import NextApi.Stream.Run

/-!
# Runs of requests with the same key

A record that is live and being processed has one request that proceeds with it (`Exclusive`). A
record that was completed is replayed to every request with its keys and its fingerprint until it
expires (`Lasting`). A record that has expired is no reason for a conflict (`Unblocked`).

A failed record is found by one statement and taken over by another one, and in between a second
request may find it too; and a record that has expired is not found, but is in the way of a new
one until the next cleanup. A run is `Orderly` when neither comes up: a record is taken over only
while it is failed, and the last insert of a request does not meet a record that has expired. Then
the run has the three properties (`idempotent_of_orderly`).
-/

set_option autoImplicit false

namespace NextApi.Idempotency

open Json

/-! ### The properties -/

/-- A request that proceeds with a record, and has not finished. -/
def Call.Holds (c : Call) (rid : ℕ) : Prop := c.point = .answered (.proceed rid)

/-- Two requests have the same keys and the same fingerprint. -/
def Call.Same (c d : Call) : Prop :=
  c.keyId = d.keyId ∧ c.idemKey = d.idemKey ∧ c.fingerprint = d.fingerprint

namespace State

/-- At most one request proceeds with the live record of two keys. -/
def Exclusive (s : State) : Prop :=
  ∀ keyId idemKey r, s.db.select s.now keyId idemKey = some r →
    ∀ id c id' c', s.calls.lookup id = some c → s.calls.lookup id' = some c' →
      c.Holds r.id → c'.Holds r.id → id = id'

/-- Where a request is after its next statement. -/
def nextPoint (s : State) (id : ℕ) : Option Point :=
  ((s.step (.next id)).calls.lookup id).map Call.point

/-- Without a live record the next statement of a request is no reason for a conflict: it goes on
to make a record, and then proceeds or reads once more. -/
def Unblocked (s : State) (a : Action) : Prop :=
  ∀ id c, a = .next id → s.calls.lookup id = some c →
    s.db.select s.now c.keyId c.idemKey = none →
    (∀ left, c.point = .reading left → s.nextPoint id = some (.inserting left)) ∧
    (c.point = .inserting 0 → ∃ rid, s.nextPoint id = some (.answered (.proceed rid))) ∧
    (∀ left, c.point = .inserting (left + 1) →
      (∃ rid, s.nextPoint id = some (.answered (.proceed rid))) ∨
        s.nextPoint id = some (.reading left))

/-- After a request has completed, its response is replayed until the record expires. -/
def Lasting (s : State) (actions : List Action) : Prop :=
  ∀ id c rid r, s.calls.lookup id = some c → c.Holds rid → r ∈ s.db.rows → r.id = rid →
    ∀ status response taskId mid after,
      actions = .complete id status response taskId :: mid ++ after →
      (s.run (.complete id status response taskId :: mid)).now < r.expiresAt →
      ∀ id' c' left,
        (s.run (.complete id status response taskId :: mid)).calls.lookup id' = some c' →
        c'.Same c → c'.point = .reading left →
        (s.run (.complete id status response taskId :: mid)).nextPoint id' =
          some (.answered (.replay status response))

/-- Every state of a run is exclusive and lasting, and no action is blocked. -/
def Idempotent (s : State) (actions : List Action) : Prop :=
  (∀ before after, actions = before ++ after →
    (s.run before).Exclusive ∧ (s.run before).Lasting after) ∧
  ∀ before a after, actions = before ++ a :: after → (s.run before).Unblocked a

/-- The condition on an action: a record is taken over only while it is failed, and the last
insert of a request does not meet a record that has expired. -/
def Orderly (s : State) : Action → Prop
  | .next id =>
    ∀ c, s.calls.lookup id = some c →
      (∀ rid, c.point = .takingOver rid → ∀ r ∈ s.db.rows, r.id = rid → r.status = .failed) ∧
      (c.point = .inserting 0 →
        ∀ r ∈ s.db.rows, r.IsFor c.keyId c.idemKey → s.now < r.expiresAt)
  | _ => True

def OrderlyRun (s : State) (actions : List Action) : Prop :=
  ∀ before a after, actions = before ++ a :: after → (s.run before).Orderly a

end State

/-! ### The invariant -/

/-- A request that has found a record, or proceeds with one. -/
def Point.Refers (p : Point) (rid : ℕ) : Prop :=
  p = .takingOver rid ∨ p = .answered (.proceed rid)

/-- The record is one that the request made or took over. -/
def Call.Owns (c : Call) (r : Record) : Prop :=
  r.IsFor c.keyId c.idemKey ∧ r.fingerprint = c.fingerprint

/-- A record that a request proceeds with is being processed, and by no other request. -/
structure State.Inv (s : State) : Prop where
  issued : ∀ {id c rid}, s.calls.lookup id = some c → c.point.Refers rid → rid < s.db.nextId
  owned : ∀ {id c rid r}, s.calls.lookup id = some c → c.point.Refers rid → r ∈ s.db.rows →
    r.id = rid → c.Owns r
  processing : ∀ {id c rid r}, s.calls.lookup id = some c → c.Holds rid → r ∈ s.db.rows →
    r.id = rid → r.status = .processing
  unique : ∀ {id c id' c' rid r}, s.calls.lookup id = some c → s.calls.lookup id' = some c' →
    c.Holds rid → c'.Holds rid → r ∈ s.db.rows → r.id = rid → id = id'

namespace State

theorem inv_empty : ({} : State).Inv where
  issued h := absurd h (by simp)
  owned h := absurd h (by simp)
  processing h := absurd h (by simp)
  unique h := absurd h (by simp)

/-- A request is where it was, or is the one that was moved. -/
theorem lookup_move {s : State} {id other : ℕ} {c d : Call} {after : Db × Point}
    (h : (s.move id c after).calls.lookup other = some d) :
    (id = other ∧ d = { c with point := after.2 }) ∨ (id ≠ other ∧ s.calls.lookup other = some d) := by
  rw [move, Table.lookup_insert] at h
  split at h
  case isTrue hid => exact .inl ⟨hid, (Option.some.inj h).symm⟩
  case isFalse hid => exact .inr ⟨hid, h⟩

/-- A request goes on, and the table stays. It may have found a record of its own. -/
theorem Inv.move_point {s : State} {id : ℕ} {c : Call} (h : s.Inv) (p : Point)
    (hrefers : ∀ rid, p.Refers rid → rid < s.db.nextId ∧ ∀ r ∈ s.db.rows, r.id = rid → c.Owns r)
    (hholds : ∀ rid, p ≠ .answered (.proceed rid)) : (s.move id c (s.db, p)).Inv where
  issued hd hrid := by
    rcases lookup_move hd with ⟨-, rfl⟩ | ⟨-, hd⟩
    · exact (hrefers _ hrid).1
    · exact h.issued hd hrid
  owned hd hrid hr hid := by
    rcases lookup_move hd with ⟨-, rfl⟩ | ⟨-, hd⟩
    · exact (hrefers _ hrid).2 _ hr hid
    · exact h.owned hd hrid hr hid
  processing hd hrid hr hid := by
    rcases lookup_move hd with ⟨-, rfl⟩ | ⟨-, hd⟩
    · exact absurd hrid (hholds _)
    · exact h.processing hd hrid hr hid
  unique hd hd' hrid hrid' hr hid := by
    rcases lookup_move hd with ⟨-, rfl⟩ | ⟨-, hd⟩
    · exact absurd hrid (hholds _)
    rcases lookup_move hd' with ⟨-, rfl⟩ | ⟨-, hd'⟩
    · exact absurd hrid' (hholds _)
    · exact h.unique hd hd' hrid hrid' hr hid

/-- A request writes the record that no other request proceeds with, and goes on with it only if
it is being processed. -/
theorem Inv.move_update {s : State} {id rid : ℕ} {c : Call} (h : s.Inv)
    (hc : s.calls.lookup id = some c) (hrefers : c.point.Refers rid)
    (hothers : ∀ r ∈ s.db.rows, r.id = rid → ∀ other d, s.calls.lookup other = some d →
      d.Holds rid → id = other)
    (a : Record → Db.Assignment) (p : Point)
    (hp : p = .finished ∨ p = .answered (.proceed rid) ∧ ∀ r, (a r).status = .processing) :
    (s.move id c (s.db.update rid a, p)).Inv := by
  have hp_refers {q : ℕ} (hq : p.Refers q) : q = rid := by
    rcases hp with rfl | ⟨rfl, -⟩
    · rcases hq with hq | hq <;> exact absurd hq (by simp)
    · rcases hq with hq | hq
      · exact absurd hq (by simp)
      · exact (Begin.proceed.inj (Point.answered.inj hq)).symm
  have hold {r : Record} (hr : r ∈ (s.db.update rid a).rows) :
      ∃ r' ∈ s.db.rows, r'.id = r.id ∧ (∀ d : Call, d.Owns r' → d.Owns r) ∧
        (r.id ≠ rid → r = r') ∧ (r.id = rid → r = (a r').set r') := by
    obtain ⟨r', hr', ⟨hid, rfl⟩ | ⟨hid, rfl⟩⟩ := Db.mem_update.1 hr
    · exact ⟨r', hr', rfl, fun d hd ↦ hd, fun hne ↦ absurd hid hne, fun _ ↦ rfl⟩
    · exact ⟨r, hr', rfl, fun d hd ↦ hd, fun _ ↦ rfl, fun heq ↦ absurd heq hid⟩
  constructor
  case issued =>
    intro other d q hd hq
    rcases lookup_move hd with ⟨-, rfl⟩ | ⟨-, hd⟩
    · rw [hp_refers hq]
      exact h.issued hc hrefers
    · exact h.issued hd hq
  case owned =>
    intro other d q r hd hq hr hid
    obtain ⟨r', hr', hid', howns, -⟩ := hold hr
    rcases lookup_move hd with ⟨-, rfl⟩ | ⟨-, hd⟩
    · show c.Owns r
      exact howns c (h.owned hc hrefers hr' (hid'.trans (hid.trans (hp_refers hq))))
    · exact howns _ (h.owned hd hq hr' (hid'.trans hid))
  case processing =>
    intro other d q r hd hq hr hid
    obtain ⟨r', hr', hid', -, hsame, hset⟩ := hold hr
    rcases lookup_move hd with ⟨-, rfl⟩ | ⟨hne, hd⟩
    · rcases hp with rfl | ⟨-, hprocessing⟩
      · exact absurd hq (by simp [Call.Holds])
      · rw [hset (hid.trans (hp_refers (.inr hq)))]
        exact hprocessing r'
    · by_cases hrid : r.id = rid
      · refine absurd (hothers r' hr' (hid'.trans hrid) other d hd ?_) hne
        rw [← hrid, hid]
        exact hq
      · rw [hsame hrid]
        exact h.processing hd hq hr' (hid'.trans hid)
  case unique =>
    intro i d j d' q r hd hd' hq hq' hr hid
    obtain ⟨r', hr', hid', -⟩ := hold hr
    rcases lookup_move hd with ⟨rfl, rfl⟩ | ⟨-, hd⟩
    · rcases lookup_move hd' with ⟨rfl, -⟩ | ⟨-, hd'⟩
      · rfl
      · have hqr := hp_refers (.inr hq)
        exact hothers r' hr' (hid'.trans (hid.trans hqr)) j d' hd' (hqr ▸ hq')
    · rcases lookup_move hd' with ⟨rfl, rfl⟩ | ⟨-, hd'⟩
      · have hqr := hp_refers (.inr hq')
        exact (hothers r' hr' (hid'.trans (hid.trans hqr)) i d hd (hqr ▸ hq)).symm
      · exact h.unique hd hd' hq hq' hr' (hid'.trans hid)

/-- A request makes a record and proceeds with it. -/
theorem Inv.move_insert {s : State} {id rid : ℕ} {c : Call} {db : Db} (h : s.Inv)
    (hinsert : s.db.insert s.now c.keyId c.idemKey c.fingerprint = some (rid, db)) :
    (s.move id c (db, .answered (.proceed rid))).Inv := by
  obtain ⟨rfl, hnext, hrows⟩ := Db.insert_eq_some hinsert
  have hp_refers {q : ℕ} (hq : (Point.answered (.proceed s.db.nextId)).Refers q) :
      q = s.db.nextId := by
    rcases hq with hq | hq
    · exact absurd hq (by simp)
    · exact (Begin.proceed.inj (Point.answered.inj hq)).symm
  -- The new record has an id that no other request refers to.
  have hmem {r : Record} {q : ℕ} (hr : r ∈ db.rows) (hid : r.id = q) :
      (q = s.db.nextId ∧ r.status = .processing ∧ c.Owns r) ∨ (q ≠ s.db.nextId ∧ r ∈ s.db.rows) := by
    rw [hrows, List.mem_append, List.mem_singleton] at hr
    rcases hr with hr | rfl
    · exact .inr ⟨hid ▸ Nat.ne_of_lt (s.db.fresh r hr), hr⟩
    · exact .inl ⟨hid.symm, rfl, ⟨rfl, rfl⟩, rfl⟩
  constructor
  case issued =>
    intro other d q hd hq
    show q < db.nextId
    rw [hnext]
    rcases lookup_move hd with ⟨-, rfl⟩ | ⟨-, hd⟩
    · rw [hp_refers hq]
      exact Nat.lt_succ_self _
    · exact Nat.lt_succ_of_lt (h.issued hd hq)
  case owned =>
    intro other d q r hd hq hr hid
    rcases lookup_move hd with ⟨-, rfl⟩ | ⟨-, hd⟩
    · rcases hmem hr hid with ⟨-, -, howns⟩ | ⟨hne, -⟩
      · exact howns
      · exact absurd (hp_refers hq) hne
    · rcases hmem hr hid with ⟨hnew, -⟩ | ⟨-, hr⟩
      · exact absurd hnew (Nat.ne_of_lt (h.issued hd hq))
      · exact h.owned hd hq hr hid
  case processing =>
    intro other d q r hd hq hr hid
    rcases lookup_move hd with ⟨-, rfl⟩ | ⟨-, hd⟩
    · rcases hmem hr hid with ⟨-, hprocessing, -⟩ | ⟨hne, -⟩
      · exact hprocessing
      · exact absurd (hp_refers (.inr hq)) hne
    · rcases hmem hr hid with ⟨hnew, -⟩ | ⟨-, hr⟩
      · exact absurd hnew (Nat.ne_of_lt (h.issued hd (.inr hq)))
      · exact h.processing hd hq hr hid
  case unique =>
    intro i d j d' q r hd hd' hq hq' hr hid
    rcases lookup_move hd with ⟨rfl, rfl⟩ | ⟨-, hd⟩
    · rcases lookup_move hd' with ⟨rfl, -⟩ | ⟨-, hd'⟩
      · rfl
      · exact absurd (hp_refers (.inr hq)) (Nat.ne_of_lt (h.issued hd' (.inr hq')))
    · rcases lookup_move hd' with ⟨rfl, rfl⟩ | ⟨-, hd'⟩
      · exact absurd (hp_refers (.inr hq')) (Nat.ne_of_lt (h.issued hd (.inr hq)))
      · rcases hmem hr hid with ⟨hnew, -⟩ | ⟨-, hr⟩
        · exact absurd hnew (Nat.ne_of_lt (h.issued hd (.inr hq)))
        · exact h.unique hd hd' hq hq' hr hid

/-- A request stays where it is. -/
theorem Inv.move_same {s : State} {id : ℕ} {c : Call} (h : s.Inv)
    (hc : s.calls.lookup id = some c) : (s.move id c (s.db, c.point)).Inv := by
  have hsame {other : ℕ} {d : Call}
      (hd : (s.move id c (s.db, c.point)).calls.lookup other = some d) :
      s.calls.lookup other = some d := by
    rcases lookup_move hd with ⟨rfl, rfl⟩ | ⟨-, hd⟩
    · exact hc
    · exact hd
  exact ⟨fun hd ↦ h.issued (hsame hd), fun hd ↦ h.owned (hsame hd),
    fun hd ↦ h.processing (hsame hd), fun hd hd' ↦ h.unique (hsame hd) (hsame hd')⟩

/-- A request finishes. -/
theorem Inv.move_finish {s : State} {id : ℕ} {c : Call} (h : s.Inv)
    (hc : s.calls.lookup id = some c) {write : Db → ℕ → Db} (a : Record → Db.Assignment)
    (hwrite : ∀ rid, write s.db rid = s.db.update rid a) :
    (s.move id c (c.finish s.db write)).Inv := by
  rw [Call.finish]
  split
  case h_1 rid hpoint =>
    rw [hwrite]
    exact h.move_update hc (.inr hpoint)
      (fun r hr hid other d hd hholds ↦ h.unique hc hd hpoint hholds hr hid) a .finished (.inl rfl)
  case h_2 => exact h.move_same hc

/-- A request executes the next statement of `begin`. -/
theorem Inv.move_next {s : State} {id : ℕ} {c : Call} (h : s.Inv)
    (hc : s.calls.lookup id = some c)
    (hfailed : ∀ rid, c.point = .takingOver rid → ∀ r ∈ s.db.rows, r.id = rid →
      r.status = .failed) : (s.move id c (c.next s.db s.now)).Inv := by
  rw [Call.next]
  split
  case h_1 left hpoint =>
    rcases c.afterSelect_cases left (s.db.select s.now c.keyId c.idemKey) with
      ⟨-, hafter⟩ | ⟨r, hselect, hfp, -, hafter⟩ | ⟨status, response, hafter⟩ | ⟨message, hafter⟩
    case inr.inl =>
      obtain ⟨hr, hfor, -⟩ := Db.select_eq_some.1 hselect
      rw [hafter]
      refine h.move_point _ (fun rid hrid ↦ ?_) (by simp)
      obtain rfl : r.id = rid := by simpa [Point.Refers] using hrid
      refine ⟨s.db.fresh r hr, fun r' hr' hid ↦ ?_⟩
      rw [Db.eq_of_id hr' hr hid]
      exact ⟨hfor, hfp⟩
    all_goals
      rw [hafter]
      exact h.move_point _ (by simp [Point.Refers]) (by simp)
  case h_2 rid hpoint =>
    refine h.move_update hc (.inl hpoint) (fun r hr hid other d hd hholds ↦ ?_) _ _
      (.inr ⟨rfl, fun _ ↦ rfl⟩)
    have hprocessing := h.processing hd hholds hr hid
    rw [hfailed rid hpoint r hr hid] at hprocessing
    exact absurd hprocessing (by simp)
  case h_3 left hpoint =>
    split
    case h_1 rid db hinsert => exact h.move_insert hinsert
    case h_2 =>
      cases left with
      | zero => exact h.move_point (.answered _) (by simp [Point.Refers]) (by simp)
      | succ left => exact h.move_point (.reading left) (by simp [Point.Refers]) (by simp)
  case h_4 => exact h.move_same hc

/-- An orderly action keeps the invariant. -/
theorem Inv.step {s : State} (h : s.Inv) (a : Action) (ho : s.Orderly a) : (s.step a).Inv := by
  cases a with
  | tick d => exact ⟨h.issued, h.owned, h.processing, h.unique⟩
  | cleanupExpired =>
    have hmem {r : Record} (hr : r ∈ (s.db.cleanupExpired s.now).rows) : r ∈ s.db.rows :=
      (Db.mem_cleanupExpired.1 hr).1
    exact ⟨h.issued, fun hd hq hr ↦ h.owned hd hq (hmem hr),
      fun hd hq hr ↦ h.processing hd hq (hmem hr),
      fun hd hd' hq hq' hr ↦ h.unique hd hd' hq hq' (hmem hr)⟩
  | request id keyId idemKey fingerprint =>
    rw [State.step]
    cases s.calls.lookup id with
    | none =>
      exact h.move_point (c := ⟨keyId, idemKey, fingerprint, .reading 1⟩) (.reading 1)
        (by simp [Point.Refers]) (by simp)
    | some c => exact h
  | next id =>
    rw [State.step]
    cases hc : s.calls.lookup id with
    | none => exact h
    | some c => exact h.move_next hc (ho c hc).1
  | complete id status response taskId =>
    rw [State.step]
    cases hc : s.calls.lookup id with
    | none => exact h
    | some c => exact h.move_finish hc _ fun rid ↦ rfl
  | fail id =>
    rw [State.step]
    cases hc : s.calls.lookup id with
    | none => exact h
    | some c => exact h.move_finish hc _ fun rid ↦ rfl
  | broken id =>
    rw [State.step]
    cases s.calls.lookup id with
    | none => exact h
    | some c =>
      exact h.move_point .broken
        (by simp [Point.Refers]) (by simp)

/-- A prefix of an orderly run is orderly. -/
theorem OrderlyRun.left {s : State} {first second : List Action}
    (h : s.OrderlyRun (first ++ second)) : s.OrderlyRun first :=
  ((@Transition.eachStep_append _ _ step Orderly s first second).1 h).1


theorem OrderlyRun.right {s : State} {first second : List Action}
    (h : s.OrderlyRun (first ++ second)) : (s.run first).OrderlyRun second :=
  ((@Transition.eachStep_append _ _ step Orderly s first second).1 h).2


/-- A run that is orderly keeps the invariant. -/
theorem Inv.run {s : State} (h : s.Inv) {actions : List Action} (ho : s.OrderlyRun actions) :
    (s.run actions).Inv :=
  @Transition.run_of_eachStep _ _ State.step Orderly State.Inv (fun _ a ha h ↦ h.step a ha) s actions ho h


/-! ### Completed records -/

theorem now_le_step (s : State) (a : Action) : s.now ≤ (s.step a).now := by
  cases a with
  | tick d => exact Int.le_add_of_nonneg_right (Int.natCast_nonneg d)
  | cleanupExpired => exact Int.le_refl _
  | request id keyId idemKey fingerprint => rw [State.step]; split <;> exact Int.le_refl _
  | next id => rw [State.step]; split <;> exact Int.le_refl _
  | complete id status response taskId => rw [State.step]; split <;> exact Int.le_refl _
  | fail id => rw [State.step]; split <;> exact Int.le_refl _
  | broken id => rw [State.step]; split <;> exact Int.le_refl _

/-- A record that is not the one updated stays. -/
theorem mem_update_of_ne {db : Db} {rid : ℕ} {a : Record → Db.Assignment} {r : Record}
    (hr : r ∈ db.rows) (hne : r.id ≠ rid) : r ∈ (db.update rid a).rows :=
  Db.mem_update.2 ⟨r, hr, .inr ⟨hne, rfl⟩⟩

/-- An orderly action leaves a completed record as it is, until the record expires. -/
theorem Inv.completed_step {s : State} (h : s.Inv) {a : Action} (ho : s.Orderly a) {r : Record}
    (hr : r ∈ s.db.rows) (hcompleted : r.status = .completed)
    (hlive : (s.step a).now < r.expiresAt) : r ∈ (s.step a).db.rows := by
  have hfinish {id : ℕ} {c : Call} (hc : s.calls.lookup id = some c) {write : Db → ℕ → Db}
      (a : Record → Db.Assignment) (hwrite : ∀ rid, write s.db rid = s.db.update rid a) :
      r ∈ (c.finish s.db write).1.rows := by
    rw [Call.finish]
    split
    case h_1 rid hpoint =>
      rw [hwrite]
      refine mem_update_of_ne hr fun hid ↦ ?_
      rw [h.processing hc hpoint hr hid] at hcompleted
      exact absurd hcompleted (by simp)
    case h_2 => exact hr
  cases a with
  | tick d => exact hr
  | cleanupExpired => exact Db.mem_cleanupExpired.2 ⟨hr, hlive⟩
  | request id keyId idemKey fingerprint =>
    rw [State.step]
    split <;> exact hr
  | next id =>
    rw [State.step]
    split
    case h_2 => exact hr
    case h_1 c hc =>
      show r ∈ (c.next s.db s.now).1.rows
      rw [Call.next]
      split
      case h_1 => exact hr
      case h_2 rid hpoint =>
        refine mem_update_of_ne hr fun hid ↦ ?_
        rw [(ho c hc).1 rid hpoint r hr hid] at hcompleted
        exact absurd hcompleted (by simp)
      case h_3 left hpoint =>
        split
        case h_1 rid db hinsert =>
          rw [(Db.insert_eq_some hinsert).2.2]
          exact List.mem_append_left _ hr
        case h_2 => exact hr
      case h_4 => exact hr
  | complete id status response taskId =>
    rw [State.step]
    split
    case h_1 c hc => exact hfinish hc _ fun rid ↦ rfl
    case h_2 => exact hr
  | fail id =>
    rw [State.step]
    split
    case h_1 c hc => exact hfinish hc _ fun rid ↦ rfl
    case h_2 => exact hr
  | broken id =>
    rw [State.step]
    split <;> exact hr

/-- A completed record stays in an orderly run, until it expires. -/
theorem Inv.completed_run {s : State} (h : s.Inv) {actions : List Action}
    (ho : s.OrderlyRun actions) {r : Record} (hr : r ∈ s.db.rows)
    (hcompleted : r.status = .completed) (hlive : (s.run actions).now < r.expiresAt) :
    r ∈ (s.run actions).db.rows := by
  induction actions using List.reverseRecOn with
  | nil => exact hr
  | append_singleton actions a ih =>
    rw [run_concat] at hlive ⊢
    have hbefore := ih ho.left (Int.lt_of_le_of_lt (now_le_step _ a) hlive)
    exact (h.run ho.left).completed_step (ho actions a [] rfl) hbefore hcompleted hlive

/-! ### The properties of a run -/

theorem nextPoint_eq {s : State} {id : ℕ} {c : Call} (hc : s.calls.lookup id = some c) :
    s.nextPoint id = some (c.next s.db s.now).2 := by
  rw [nextPoint, State.step]
  simp only [hc]
  rw [move, Table.lookup_insert, if_pos rfl, Option.map_some]

theorem Inv.exclusive {s : State} (h : s.Inv) : s.Exclusive := by
  intro keyId idemKey r hselect id c id' c' hc hc' hholds hholds'
  exact h.unique hc hc' hholds hholds' (Db.select_eq_some.1 hselect).1 rfl

theorem orderlyRun_cons {s : State} {a : Action} {actions : List Action} (ho : s.Orderly a)
    (hrest : (s.step a).OrderlyRun actions) : s.OrderlyRun (a :: actions) :=
  (@Transition.eachStep_cons _ _ step Orderly s a actions).2 ⟨ho, hrest⟩


theorem unblocked_of_orderly {s : State} {a : Action} (ho : s.Orderly a) : s.Unblocked a := by
  rintro id c rfl hc hnone
  rw [nextPoint_eq hc, Call.next]
  refine ⟨fun left hpoint ↦ ?_, fun hpoint ↦ ?_, fun left hpoint ↦ ?_⟩
  · rw [hpoint]
    dsimp only
    rw [hnone]
    rfl
  · -- Neither a live nor an expired record is in the way.
    rw [hpoint]
    dsimp only
    cases hinsert : s.db.insert s.now c.keyId c.idemKey c.fingerprint with
    | some made => exact ⟨made.1, rfl⟩
    | none =>
      obtain ⟨r, hr, hfor⟩ := Db.insert_eq_none.1 hinsert
      have hlive := (ho c hc).2 hpoint r hr hfor
      have hexpired := Db.select_eq_none.1 hnone r hr hfor
      exact absurd hlive (Int.not_lt.2 hexpired)
  · rw [hpoint]
    dsimp only
    cases s.db.insert s.now c.keyId c.idemKey c.fingerprint with
    | some made => exact .inl ⟨made.1, rfl⟩
    | none => exact .inr rfl

/-- The record that a request completes, and what reading it answers. -/
theorem Inv.lasting {s : State} (h : s.Inv) {actions : List Action} (ho : s.OrderlyRun actions) :
    s.Lasting actions := by
  intro id c rid r hc hholds hr hid status response taskId mid after hsplit hlive id' c' left hc'
    hsame hpoint
  have horun : s.OrderlyRun (.complete id status response taskId :: mid) := by
    rw [hsplit] at ho
    exact ho.left
  obtain ⟨hfor, hfp⟩ := h.owned hc (.inr hholds) hr hid
  let done : Record := Db.Assignment.set ⟨.completed, some response, some status, taskId, r.expiresAt⟩ r
  have hdone : done ∈ (s.step (.complete id status response taskId)).db.rows := by
    rw [State.step]
    simp only [hc]
    show done ∈ (c.finish s.db fun db rid ↦ db.complete rid status response taskId).1.rows
    rw [Call.finish, hholds]
    exact Db.mem_update.2 ⟨r, hr, .inl ⟨hid, rfl⟩⟩
  have hinv := h.step (.complete id status response taskId) (horun [] _ mid rfl)
  have hrest : (s.run [.complete id status response taskId]).OrderlyRun mid := OrderlyRun.right horun
  have hkept := hinv.completed_run hrest hdone rfl hlive
  rw [nextPoint_eq hc', Call.next, hpoint]
  dsimp only
  have hselect : (s.run (.complete id status response taskId :: mid)).db.select
      (s.run (.complete id status response taskId :: mid)).now c'.keyId c'.idemKey = some done := by
    refine Db.select_eq_some.2 ⟨hkept, ?_, hlive⟩
    exact ⟨hfor.1.trans hsame.1.symm, hfor.2.trans hsame.2.1.symm⟩
  have hreplay : c'.afterSelect left (some done) = .answered (.replay status response) :=
    Call.afterSelect_completed (hfp.trans hsame.2.2.symm) rfl rfl rfl
  rw [hselect, hreplay]

end State

/-- An orderly run has the three properties. -/
theorem idempotent_of_orderly (actions : List Action) (ho : ({} : State).OrderlyRun actions) :
    ({} : State).Idempotent actions := by
  constructor
  · rintro before after rfl
    have hinv := State.inv_empty.run ho.left
    exact ⟨hinv.exclusive, hinv.lasting ho.right⟩
  · intro before a after hsplit
    exact State.unblocked_of_orderly (ho before a after hsplit)

/-- A request is answered with the response of one that was completed before it. -/
theorem idempotent_of_orderly_replay :
    ({} : State).Idempotent
      [.request 0 0 "order-2024" "a", .next 0, .next 0, .complete 0 200 .null none,
        .request 1 0 "order-2024" "a", .next 1] := by
  refine idempotent_of_orderly _ ?_
  have hnext {s : State} {id : ℕ} {c : Call} (hc : s.calls.lookup id = some c)
      (htaking : ∀ rid, c.point ≠ .takingOver rid) (hlast : c.point ≠ .inserting 0) :
      s.Orderly (.next id) := by
    intro d hd
    obtain rfl := Option.some.inj (hc.symm.trans hd)
    exact ⟨fun rid hrid ↦ absurd hrid (htaking rid), fun hpoint ↦ absurd hpoint hlast⟩
  refine State.orderlyRun_cons trivial ?_
  refine State.orderlyRun_cons (hnext rfl (fun rid ↦ Point.noConfusion) Point.noConfusion) ?_
  refine State.orderlyRun_cons (hnext rfl (fun rid ↦ Point.noConfusion)
    fun h ↦ absurd (Point.inserting.inj h) Nat.one_ne_zero) ?_
  refine State.orderlyRun_cons trivial ?_
  refine State.orderlyRun_cons trivial ?_
  refine State.orderlyRun_cons (hnext rfl (fun rid ↦ Point.noConfusion) Point.noConfusion) ?_
  exact Transition.eachStep_nil

/-! ### A run that is not orderly -/

/-- A request fails, and two others find its record before either takes it over. -/
def twoTakers : List Action :=
  [.request 0 0 "order-2024" "a", .next 0, .next 0, .fail 0,
    .request 1 0 "order-2024" "a", .request 2 0 "order-2024" "a", .next 1, .next 2, .next 1, .next 2]

/-- A request comes in a day after another one was completed, and before the cleanup. -/
def expiredInTheWay : List Action :=
  [.request 0 0 "order-2024" "a", .next 0, .next 0, .complete 0 200 .null none, .tick 86400000000000,
    .request 1 0 "order-2024" "a", .next 1, .next 1, .next 1]

/-- Two requests proceed with one record, and an expired record is a reason for a conflict. -/
theorem not_idempotent :
    ¬ ({} : State).Idempotent twoTakers ∧
      ¬ ({} : State).Idempotent (expiredInTheWay ++ [.next 1]) := by
  constructor
  · intro h
    have hexclusive := (h.1 twoTakers [] (List.append_nil _).symm).1
    exact absurd (hexclusive 0 "order-2024" _ rfl 1 _ 2 _ rfl rfl rfl rfl) (by decide)
  · intro h
    have hunblocked := h.2 expiredInTheWay (.next 1) [] rfl
    obtain ⟨rid, hproceeds⟩ := (hunblocked 1 _ rfl rfl rfl).2.1 rfl
    have hconflict : (({} : State).run expiredInTheWay).nextPoint 1 =
        some (.answered (.conflict "相同幂等键的请求正在处理中")) := rfl
    rw [hconflict] at hproceeds
    exact absurd hproceeds (by simp)

end NextApi.Idempotency
