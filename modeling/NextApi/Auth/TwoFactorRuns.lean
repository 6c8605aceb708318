import Mathlib.Data.Int.Order.Basic
import NextApi.Auth.TwoFactor

/-!
# Codes that are accepted twice

Enabling and disabling do not take the step of their code the way a login does, so that a code can
be accepted twice when requests interleave (`not_acceptsOnce_twoRequests`). What a login checks in
its statement is enough for all of them: in a run in which the statements of enabling and disabling
find the last step still before theirs, and disabling clears it while no other request is about to
take a step up to its own, the accepted steps grow (`acceptsOnce_of_careful`).
-/

set_option autoImplicit false

namespace NextApi.Auth

section Runs

variable [Crypto]

namespace State

/-- The condition on a statement that takes a step: enabling and disabling meet a last step before
their own, and no other request is about to take a step up to the one that disabling forgets. -/
def CarefulWrite (s : State) (id : ℕ) (step : ℤ) : Operation → Prop
  | .enable _ => Fresh s.user.lastTotpStep step
  | .disable _ _ => Fresh s.user.lastTotpStep step ∧
      ∀ other step', other ≠ id → s.Taking other step' → step < step'
  | .login _ _ | .sensitiveVerify _ _ => True

def Careful (s : State) : Action → Prop
  | .write id =>
    ∀ op step, s.requests.lookup id = some ⟨op, .taking step⟩ → s.CarefulWrite id step op
  | _ => True

omit [Crypto] in
/-- The condition for a request that is known. -/
theorem careful_write {s : State} {id : ℕ} (op : Operation) (step : ℤ)
    (hop : s.requests.lookup id = some ⟨op, .taking step⟩) (h : s.CarefulWrite id step op) :
    s.Careful (.write id) := by
  intro op' step' hop'
  have heq := Option.some.inj (hop.symm.trans hop')
  rw [Request.mk.injEq, Point.taking.injEq] at heq
  rw [← heq.1, ← heq.2]
  exact h

/-- Every action of a run is careful in the state that it meets. -/
def CarefulRun (s : State) (actions : List Action) : Prop :=
  ∀ before a after, actions = before ++ a :: after → (s.run before).Careful a

omit [Crypto] in
/-- After a request has moved to another point. -/
theorem taking_insert {s : State} {id other : ℕ} {r : Request} {user : AdminUser}
    {accepted : List Accepted} {step : ℤ}
    (h : Taking ⟨user, s.requests.insert id r, accepted⟩ other step) :
    (id = other ∧ r.point = .taking step) ∨ (other ≠ id ∧ s.Taking other step) := by
  obtain ⟨op, hop⟩ := h
  rw [Table.lookup_insert] at hop
  split at hop
  · next hid => exact Or.inl ⟨hid, by rw [Option.some.inj hop]⟩
  · next hid => exact Or.inr ⟨Ne.symm hid, op, hop⟩

omit [Crypto] in
/-- A request that is not about to write is not waited for. -/
theorem taking_of_insert {s : State} {id other : ℕ} {r : Request} {user : AdminUser}
    {accepted : List Accepted} {step : ℤ} (hr : ∀ step, r.point ≠ .taking step)
    (h : Taking ⟨user, s.requests.insert id r, accepted⟩ other step) :
    other ≠ id ∧ s.Taking other step :=
  (taking_insert h).resolve_left fun hid ↦ hr step hid.2

end State

/-- A code is checked against the secret that was read. -/
theorem Operation.secret_of_check {user : AdminUser} {now : ℕ} {op : Operation} {step : ℤ}
    (h : op.check user now = .ok (some step)) : user.totpSecret ≠ none := by
  intro hnone
  unfold Operation.check at h
  split at h
  · split at h
    · exact absurd h (by simp)
    · split at h
      · exact absurd h (by simp)
      · split at h
        · exact absurd h (by simp)
        · rw [hnone] at h
          exact absurd h (by simp)
  · split at h
    · exact absurd h (by simp)
    · rw [hnone] at h
      exact absurd h (by simp)
  · split at h
    · exact absurd h (by simp)
    · split at h
      · exact absurd h (by simp)
      · rw [hnone] at h
        exact absurd h (by simp)
  · split at h
    · exact absurd h (by simp)
    · split at h
      · exact absurd h (by simp)
      · split at h
        · exact absurd h (by simp)
        · rw [hnone] at h
          exact absurd h (by simp)

/-! ### The invariant -/

namespace State

/-- The accepted steps grow up to the last one of the row. While the row has none, a step was
accepted only if the secret has been cleared since, and whoever still has a code has a later one. -/
structure Growing (s : State) : Prop where
  sorted : (s.accepted.map Accepted.step).Pairwise (· < ·)
  last : ∀ {l x}, s.user.lastTotpStep = some l → x ∈ s.accepted → x.step ≤ l
  cleared : ∀ {x}, s.user.lastTotpStep = none → x ∈ s.accepted →
    s.user.totpSecret = none ∧ ∀ {id step}, s.Taking id step → x.step < step

omit [Crypto] in
theorem growing_start (user : AdminUser) : Growing { user := user } where
  sorted := List.Pairwise.nil
  last _ hx := absurd hx List.not_mem_nil
  cleared _ hx := absurd hx List.not_mem_nil

omit [Crypto] in
/-- A request moves, and has no code to be checked by the row. -/
theorem Growing.mono {s : State} (h : s.Growing) {requests : Table ℕ Request}
    (hrequests : ∀ {id step}, Taking ⟨s.user, requests, s.accepted⟩ id step →
      s.Taking id step ∨ s.user.totpSecret ≠ none) :
    Growing ⟨s.user, requests, s.accepted⟩ where
  sorted := h.sorted
  last := h.last
  cleared := by
    intro x hlast hx
    obtain ⟨hsecret, hlater⟩ := h.cleared hlast hx
    refine ⟨hsecret, fun htaking ↦ ?_⟩
    rcases hrequests htaking with htaking | hne
    · exact hlater htaking
    · exact absurd hsecret hne

omit [Crypto] in
/-- A step that a request is about to take, and that is after the last one, is after all. -/
theorem Growing.lt_of_fresh {s : State} (h : s.Growing) {id : ℕ} {step : ℤ}
    (htaking : s.Taking id step) (hfresh : Fresh s.user.lastTotpStep step) {x : Accepted}
    (hx : x ∈ s.accepted) : x.step < step := by
  cases hlast : s.user.lastTotpStep with
  | none => exact (h.cleared hlast hx).2 htaking
  | some l => exact lt_of_le_of_lt (h.last hlast hx) (hfresh l hlast)

omit [Crypto] in
/-- One more step is accepted. -/
theorem Growing.sorted_snoc {s : State} (h : s.Growing) {id : ℕ} {step : ℤ}
    (hlt : ∀ x ∈ s.accepted, x.step < step) :
    ((s.accepted ++ [Accepted.mk id step]).map Accepted.step).Pairwise (· < ·) := by
  rw [List.map_append, List.pairwise_append]
  refine ⟨h.sorted, List.pairwise_singleton _ _, ?_⟩
  intro a ha b hb
  obtain ⟨x, hx, rfl⟩ := List.mem_map.1 ha
  rw [List.map_singleton, List.mem_singleton] at hb
  rw [hb]
  exact hlt x hx

omit [Crypto] in
theorem le_of_mem_snoc {s : State} {id : ℕ} {step : ℤ} (hlt : ∀ x ∈ s.accepted, x.step < step)
    {x : Accepted} (hx : x ∈ s.accepted ++ [⟨id, step⟩]) : x.step ≤ step := by
  rcases List.mem_append.1 hx with hx | hx
  · exact le_of_lt (hlt x hx)
  · exact le_of_eq (congrArg Accepted.step (List.mem_singleton.1 hx))

omit [Crypto] in
/-- A step is accepted and becomes the last one. -/
theorem Growing.take {s : State} (h : s.Growing) {id : ℕ} {step : ℤ} {user : AdminUser}
    {requests : Table ℕ Request} (hlt : ∀ x ∈ s.accepted, x.step < step)
    (huser : user.lastTotpStep = some step) :
    Growing ⟨user, requests, s.accepted ++ [⟨id, step⟩]⟩ where
  sorted := h.sorted_snoc hlt
  last := by
    intro l x hl hx
    rw [← Option.some.inj (huser.symm.trans hl)]
    exact le_of_mem_snoc hlt hx
  cleared := by
    intro x hnone
    exact absurd (huser.symm.trans hnone) (Option.some_ne_none step)

omit [Crypto] in
/-- A step is accepted, and the last one is cleared with the secret. -/
theorem Growing.clear {s : State} (h : s.Growing) {id : ℕ} {step : ℤ} {user : AdminUser}
    {requests : Table ℕ Request} (hlt : ∀ x ∈ s.accepted, x.step < step)
    (hlast : user.lastTotpStep = none) (hsecret : user.totpSecret = none)
    (hlater : ∀ {other step'}, Taking ⟨user, requests, s.accepted ++ [⟨id, step⟩]⟩ other step' →
      step < step') :
    Growing ⟨user, requests, s.accepted ++ [⟨id, step⟩]⟩ where
  sorted := h.sorted_snoc hlt
  last := by
    intro l x hl
    exact absurd (hl.symm.trans hlast) (Option.some_ne_none l)
  cleared := by
    intro x _ hx
    exact ⟨hsecret, fun htaking ↦ lt_of_le_of_lt (le_of_mem_snoc hlt hx) (hlater htaking)⟩

/-- The statement of a request that meets a careful state. -/
theorem Growing.write {s : State} (h : s.Growing) (id : ℕ) (hcareful : s.Careful (.write id)) :
    (s.step (.write id)).Growing := by
  rw [step]
  split
  · next op step hop =>
    have htaking : s.Taking id step := ⟨op, hop⟩
    have hcareful := hcareful op step hop
    have hdone : ∀ (e : ApiError), Growing ⟨s.user,
        s.requests.insert id ⟨op, .done (.error e)⟩, s.accepted⟩ := fun e ↦
      h.mono fun htaking ↦ Or.inl (taking_of_insert (fun _ ↦ by simp) htaking).2
    cases op with
    | login password totpCode =>
      rw [Operation.write]
      by_cases hfresh : Fresh s.user.lastTotpStep step
      · rw [if_pos hfresh]
        exact h.take (fun x hx ↦ h.lt_of_fresh htaking hfresh hx) rfl
      · rw [if_neg hfresh]
        exact hdone _
    | enable code => exact h.take (fun x hx ↦ h.lt_of_fresh htaking hcareful hx) rfl
    | disable password code =>
      refine h.clear (fun x hx ↦ h.lt_of_fresh htaking hcareful.1 hx) rfl rfl ?_
      intro other step' hother
      obtain ⟨hne, hother⟩ := taking_of_insert (fun _ ↦ by simp) hother
      exact hcareful.2 other step' hne hother
    | sensitiveVerify password totpCode =>
      rw [Operation.write]
      by_cases hfresh : Fresh s.user.lastTotpStep step
      · rw [if_pos hfresh]
        exact h.take (fun x hx ↦ h.lt_of_fresh htaking hfresh hx) rfl
      · rw [if_neg hfresh]
        exact hdone _
  · exact h

theorem Growing.read {s : State} (h : s.Growing) (id now : ℕ) :
    (s.step (.read id now)).Growing := by
  rw [step]
  split
  · next op _ =>
    cases hcheck : op.check s.user now with
    | error e =>
      exact h.mono fun htaking ↦ Or.inl (taking_of_insert (fun _ ↦ by simp) htaking).2
    | ok result =>
      cases result with
      | none =>
        exact h.mono fun htaking ↦ Or.inl (taking_of_insert (fun _ ↦ by simp) htaking).2
      | some step =>
        refine h.mono fun htaking ↦ ?_
        rcases taking_insert htaking with - | ⟨-, htaking⟩
        · exact Or.inr (Operation.secret_of_check hcheck)
        · exact Or.inl htaking
  · exact h

theorem Growing.step {s : State} (h : s.Growing) {a : Action} (hcareful : s.Careful a) :
    (s.step a).Growing := by
  cases a with
  | request id op =>
    rw [State.step]
    split
    · exact h.mono fun htaking ↦ Or.inl (taking_of_insert (fun _ ↦ by simp) htaking).2
    · exact h
  | read id now => exact h.read id now
  | write id => exact h.write id hcareful
  | breakOff id =>
    refine h.mono fun htaking ↦ Or.inl ?_
    obtain ⟨op, hop⟩ := htaking
    rw [Table.lookup_erase] at hop
    split at hop
    · exact absurd hop.symm (Option.some_ne_none _)
    · exact ⟨op, hop⟩

theorem growing_run {s : State} (h : s.Growing) {actions : List Action}
    (hcareful : s.CarefulRun actions) : (s.run actions).Growing :=
  @Transition.run_of_eachStep _ _ step Careful Growing (fun _ _ hcareful h ↦ h.step hcareful) s
    actions hcareful h


theorem carefulRun_cons {s : State} {a : Action} {rest : List Action} (ha : s.Careful a)
    (hrest : (s.step a).CarefulRun rest) : s.CarefulRun (a :: rest) :=
  (@Transition.eachStep_cons _ _ step Careful s a rest).2 ⟨ha, hrest⟩


theorem carefulRun_nil (s : State) : s.CarefulRun [] :=
  Transition.eachStep_nil


/-- In a careful run no step is accepted twice. -/
theorem acceptsOnce_of_careful (user : AdminUser) (actions : List Action)
    (h : CarefulRun { user := user } actions) : (run { user := user } actions).AcceptsOnce :=
  (growing_run (growing_start user) h).sorted.imp fun hlt ↦ ne_of_lt hlt

end State

end Runs

/-! ### Two requests with one code -/

section Codes

/-- Codes that are the number of the step. -/
@[reducible] def numberedCodes : Crypto where
  hmacSha1 _ msg := Vector.ofFn fun i ↦ if i.val < 4 then msg.getD (4 + i.val) 0 else 0
  verifyPassword hash password := decide (hash = password)

local instance : Crypto := numberedCodes

/-- An administrator, whose second factor may not be enabled yet. -/
def administrator (totpEnabled : Bool) : AdminUser where
  passwordHash := "secret"
  totpEnabled := totpEnabled
  totpSecret := some []
  lastTotpStep := none

/-- The second factor is enabled, and used for a login. -/
theorem acceptsOnce_enableLogin :
    (State.run { user := administrator false }
      [.request 0 (.enable "000001"), .read 0 30, .write 0,
        .request 1 (.login "secret" (some "000002")), .read 1 60, .write 1]).AcceptsOnce := by
  refine State.acceptsOnce_of_careful (administrator false) _ ?_
  refine State.carefulRun_cons trivial (State.carefulRun_cons trivial (State.carefulRun_cons ?_
    (State.carefulRun_cons trivial (State.carefulRun_cons trivial (State.carefulRun_cons ?_
      (State.carefulRun_nil _))))))
  · refine State.careful_write (.enable "000001") 1 (by decide +kernel) ?_
    show Fresh _ _
    decide +kernel
  · exact State.careful_write (.login "secret" (some "000002")) 2 (by decide +kernel) trivial

/-- The code of a login is accepted once more by a request to disable the second factor that had
read the row before. -/
theorem not_acceptsOnce_twoRequests :
    ¬ (State.run { user := administrator true }
      [.request 0 (.login "secret" (some "000001")), .request 1 (.disable "secret" "000001"),
        .read 0 30, .read 1 30, .write 0, .write 1]).AcceptsOnce := by
  rw [State.AcceptsOnce]
  decide +kernel

end Codes

end NextApi.Auth
