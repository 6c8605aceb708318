import NextApi.Gateway.AttemptTrace

/-!
# Retries and failover

An error is retried at its candidate, or the next candidate follows, or the request ends. `Policy`
says which of the three it has to be, as a property of the effects of the loop in their order: an
error of the client's own ends the request, one of the credentials is for the next candidate, and
after any other error all candidates get their turn, unless one is locked.

An error can be of several kinds at once, and then the loop takes it for one of them. The policy
holds exactly when the errors are of one kind where it matters, and no body is refused by Devin
(`policy_iff`).
-/

set_option autoImplicit false

namespace NextApi.Gateway

open Json Ir Logging Upstream Stream.Trials

/-! ### The policy -/

/-- The client has caused the error: every upstream would answer so, it is not about credentials,
and the route does not retry it. -/
structure UpstreamError.ClientFault (codes : List ℤ) (e : UpstreamError) : Prop where
  causal : e.clientCausal = true
  noCredential : e.authFailure = none
  final : e.retryable codes = false

/-- The upstream is one of Devin, with a session token, and the body cannot be sent to it. -/
def Attempt.DevinRefuses (a : Attempt) : Prop :=
  a.candidate.kind = "devin" ∧ a.candidate.sessionToken ≠ none ∧
    ∃ out, a.outbound = .ok out ∧ inputError out.body ≠ none

namespace Effect

/-- An execution of the attempt with this position. -/
def executesAt (i : ℕ) : Effect → Bool
  | .executed j _ => j == i
  | _ => false

def Executes : Effect → Prop
  | .executed _ _ => True
  | _ => False

/-- The attempt with this position is made. -/
def Tries (i : ℕ) : Effect → Prop
  | .rejected j _ => j = i
  | .executed j _ => j = i
  | _ => False

def Succeeds : Effect → Prop
  | .executed _ (.ok _) => True
  | _ => False

def FailsBreaker : Effect → Prop
  | .breakerFailure _ => True
  | _ => False

/-- A failure of an attempt whose route is locked to its upstream. -/
def FailsLocked (l : List Attempt) : Effect → Prop
  | .rejected i _ => ∃ a, l[i]? = some a ∧ a.candidate.lockUpstream = true
  | .executed i (.error _) => ∃ a, l[i]? = some a ∧ a.candidate.lockUpstream = true
  | _ => False

/-- A failure that the client has caused. -/
def ClientFault (l : List Attempt) : Effect → Prop
  | .rejected _ (.parse _) => True
  | .executed i (.error e) =>
    ∃ a, l[i]? = some a ∧ (e.ClientFault a.candidate.retryStatusCodes ∨ a.DevinRefuses)
  | _ => False

/-- A failure of the credentials of the attempt with this position. -/
def CredentialFault (i : ℕ) : Effect → Prop
  | .executed j (.error e) => j = i ∧ e.authFailure ≠ none
  | _ => False

end Effect

/-- What the loop may do. -/
structure Policy (l : List Attempt) (trace : List Effect) : Prop where
  /-- Nothing is executed after a success. -/
  success : trace.Pairwise fun x y ↦ x.Succeeds → ¬ y.Executes
  /-- A candidate is executed once and for every retry; a locked one once. -/
  bounded : ∀ i a, l[i]? = some a → trace.countP (Effect.executesAt i) ≤
    if a.candidate.lockUpstream then 1 else (max a.candidate.retries 0).toNat + 1
  /-- Nothing is executed after a locked candidate has failed. -/
  locked : trace.Pairwise fun x y ↦ x.FailsLocked l → ¬ y.Executes
  /-- After an error of the client nothing is executed, and no breaker hears of it. -/
  client : trace.Pairwise fun x y ↦ x.ClientFault l → ¬ y.Executes ∧ ¬ y.FailsBreaker
  /-- After a failure of its credentials a candidate is not executed again. -/
  credential : ∀ i a, l[i]? = some a → a.candidate.lockUpstream = false →
    trace.Pairwise fun x y ↦ x.CredentialFault i → y.executesAt i = false
  /-- After a failure of its credentials the next candidate follows. -/
  movesOn : ∀ i a, l[i]? = some a → a.candidate.lockUpstream = false →
    ∀ x ∈ trace, x.CredentialFault i → i + 1 < l.length → ∃ y ∈ trace, y.Tries (i + 1)
  /-- All candidates are tried when they fail for other reasons. -/
  exhaustive : (∀ x ∈ trace, ¬ x.Succeeds ∧ ¬ x.FailsLocked l ∧ ¬ x.ClientFault l) →
    ∀ i < l.length, ∃ y ∈ trace, y.Tries i

/-- The errors of an attempt are of one kind where it matters. -/
structure Sound (req : Inbound) (a : Attempt) (more : Prop) : Prop where
  /-- Devin does not refuse the body. -/
  accepted : ¬ a.DevinRefuses
  /-- A failure of the credentials is not one that is retried, while retries are left. -/
  credential : a.candidate.lockUpstream = false → ∀ before e after,
    a.results req = before ++ .error e :: after → e.authFailure ≠ none →
    e.retryable a.candidate.retryStatusCodes = true → a.candidate.retryLimit ≤ before.length
  /-- When candidates are left, the last error is the client's own or none of the client's. -/
  causal : a.candidate.lockUpstream = false → more → ∀ e,
    (a.results req).getLast? = some (.error e) → e.clientCausal = true →
    e.ClientFault a.candidate.retryStatusCodes

/-! ### The results of one attempt -/

section Attempt

variable {req : Inbound} {a : Attempt}

theorem retryLimit_locked (h : a.candidate.lockUpstream = true) : a.candidate.retryLimit = 0 :=
  if_pos h

/-- An attempt that is passed over has a body. -/
theorem ok_of_failsOver (h : a.failsOver req = true) : ∃ out, a.outbound = .ok out := by
  cases hout : a.outbound with
  | ok out => exact ⟨out, rfl⟩
  | error e =>
    obtain ⟨message, rfl⟩ := a.built.refused e hout
    rw [Attempt.failsOver, hout] at h
    exact absurd h (by simp)

/-- The last result of an attempt that is passed over is an error that is nobody's fault here. -/
theorem last_of_failsOver (h : a.failsOver req = true) :
    ∃ before e, a.results req = before ++ [.error e] ∧ a.candidate.lockUpstream = false ∧
      e.clientCausal = false := by
  obtain ⟨out, hout⟩ := ok_of_failsOver h
  obtain ⟨before, r, hresults⟩ : ∃ before r, a.results req = before ++ [r] :=
    ⟨_, _, (List.dropLast_append_getLast (results_ne_nil hout)).symm⟩
  rw [Attempt.failsOver, hout, hresults, List.getLast?_concat] at h
  cases r with
  | ok outcome => exact absurd h (by simp [Candidate.passesOn])
  | error e => exact ⟨before, e, hresults, by simpa [Candidate.passesOn] using h⟩

/-- A result that can be retried is the last one only when no retry is left. -/
theorem retryLimit_le_of_last {before : List _} {r : Except UpstreamError ExecOutcome}
    (h : a.results req = before ++ [r]) (hagain : a.candidate.again r = true) :
    a.candidate.retryLimit ≤ before.length := by
  rw [Attempt.results] at h
  split at h
  · exact absurd h (by simp)
  · have hall := (tried_split h).2.2 rfl hagain
    have hlength := congrArg List.length hall
    rw [Attempt.answers, List.length_map, List.length_range, List.length_append,
      List.length_singleton] at hlength
    omega

/-- Every result is the last one, or is an error that can be retried. -/
theorem result_cases {r : Except UpstreamError ExecOutcome} (h : r ∈ a.results req) :
    (a.results req).getLast? = some r ∨
      ∃ e, r = .error e ∧ e.retryable a.candidate.retryStatusCodes = true := by
  obtain ⟨before, after, hsplit⟩ := List.append_of_mem h
  cases after with
  | nil => exact .inl (by rw [hsplit, List.getLast?_concat])
  | cons s rest =>
    have hagain := (again_of_results hsplit).2 (List.cons_ne_nil s rest)
    cases r with
    | ok outcome => exact absurd hagain (by simp [Candidate.again])
    | error e => exact .inr ⟨e, rfl, hagain⟩

/-- A result with others after it leaves retries. -/
theorem length_lt_of_results {before after : List _} {r : Except UpstreamError ExecOutcome}
    (h : a.results req = before ++ r :: after) (hne : after ≠ []) :
    before.length < a.candidate.retryLimit := by
  have hlength := length_results_le req a
  rw [h, List.length_append, List.length_cons] at hlength
  have hpos := List.length_pos_of_ne_nil hne
  omega

end Attempt

/-! ### The effects of one attempt -/

/-- An effect that is neither a rejection nor an execution. -/
def Effect.Quiet : Effect → Prop
  | .rejected _ _ => False
  | .executed _ _ => False
  | _ => True

/-- The policy, as far as it is about two effects one after the other. -/
structure Obeys (l : List Attempt) (x y : Effect) : Prop where
  success : x.Succeeds → ¬ y.Executes
  locked : x.FailsLocked l → ¬ y.Executes
  client : x.ClientFault l → ¬ y.Executes ∧ ¬ y.FailsBreaker
  credential : ∀ i a, l[i]? = some a → a.candidate.lockUpstream = false →
    x.CredentialFault i → y.executesAt i = false

section Effects

variable {l : List Attempt} {x : Effect}

theorem Effect.Quiet.executesAt (h : x.Quiet) (i : ℕ) : x.executesAt i = false := by
  cases x <;> first | rfl | exact h.elim

theorem Effect.Quiet.not_executes (h : x.Quiet) : ¬ x.Executes := by
  cases x <;> first | exact id | exact h.elim

theorem Effect.Quiet.not_tries (h : x.Quiet) (i : ℕ) : ¬ x.Tries i := by
  cases x <;> first | exact id | exact h.elim

theorem Effect.Quiet.faultless (h : x.Quiet) (l : List Attempt) :
    ¬ x.Succeeds ∧ ¬ x.FailsLocked l ∧ ¬ x.ClientFault l ∧ ∀ i, ¬ x.CredentialFault i := by
  cases x <;> first | exact ⟨id, id, id, fun _ ↦ id⟩ | exact h.elim

/-- Whatever follows a quiet effect. -/
theorem Obeys.of_quiet (h : x.Quiet) (y : Effect) : Obeys l x y := by
  obtain ⟨hsuccess, hlocked, hclient, hcredential⟩ := h.faultless l
  exact ⟨fun hx ↦ absurd hx hsuccess, fun hx ↦ absurd hx hlocked, fun hx ↦ absurd hx hclient,
    fun i _ _ _ hx ↦ absurd hx (hcredential i)⟩

variable {req : Inbound} {i : ℕ} {c : Candidate} {r : Except UpstreamError ExecOutcome}

/-- An execution has quiet effects, and the breaker hears of an error that can be retried. -/
theorem execEffects_eq (req : Inbound) (i : ℕ) (c : Candidate)
    (r : Except UpstreamError ExecOutcome) :
    ∃ quiet, execEffects req i c r = .executed i r :: quiet ∧ (∀ y ∈ quiet, y.Quiet) ∧
      ((∃ y ∈ quiet, y.FailsBreaker) ↔ c.again r = true) := by
  cases r with
  | ok outcome =>
    refine ⟨_, rfl, fun y hy ↦ ?_, ?_⟩
    · cases hsticky : req.stickyRouting <;> simp [hsticky] at hy <;>
        rcases hy with rfl | rfl | rfl <;> exact trivial
    · cases req.stickyRouting <;> simp [Effect.FailsBreaker, Candidate.again]
  | error e =>
    have hnoted : ∀ y ∈ e.authFailure.toList.map (Effect.authNoted i), ∃ f, y = .authNoted i f := by
      intro y hy
      obtain ⟨f, -, rfl⟩ := List.mem_map.1 hy
      exact ⟨f, rfl⟩
    refine ⟨_, rfl, fun y hy ↦ ?_, ?_⟩
    · rcases List.mem_append.1 hy with hy | hy
      · obtain ⟨f, rfl⟩ := hnoted y hy
        exact trivial
      · split at hy
        · rw [List.mem_singleton.1 hy]
          exact trivial
        · exact absurd hy List.not_mem_nil
    · rw [Candidate.again]
      constructor
      · rintro ⟨y, hy, hbreaker⟩
        rcases List.mem_append.1 hy with hy | hy
        · obtain ⟨f, rfl⟩ := hnoted y hy
          exact hbreaker.elim
        · split at hy
          · assumption
          · exact absurd hy List.not_mem_nil
      · intro hretry
        refine ⟨.breakerFailure i, List.mem_append_right _ ?_, trivial⟩
        rw [if_pos hretry]
        exact List.mem_singleton_self _

theorem mem_execEffects (h : x ∈ execEffects req i c r) :
    x = .executed i r ∨ (x.Quiet ∧ (x.FailsBreaker → c.again r = true)) := by
  obtain ⟨quiet, heffects, hquiet, hbreaker⟩ := execEffects_eq req i c r
  rw [heffects] at h
  rcases List.mem_cons.1 h with rfl | h
  · exact .inl rfl
  · exact .inr ⟨hquiet x h, fun hx ↦ hbreaker.1 ⟨x, h, hx⟩⟩

variable {a : Attempt}

theorem mem_effects : x ∈ a.effects req i ↔ (∃ e, a.outbound = .error e ∧ x = .rejected i e) ∨
    ∃ r ∈ a.results req, x ∈ execEffects req i a.candidate r := by
  rw [Attempt.effects]
  cases hout : a.outbound with
  | error e =>
    have hresults : a.results req = [] := by
      rw [Attempt.results, hout]
    rw [hresults]
    simp
  | ok out => simp

theorem executed_mem_effects (h : r ∈ a.results req) : .executed i r ∈ a.effects req i := by
  obtain ⟨quiet, heffects, -⟩ := execEffects_eq req i a.candidate r
  refine mem_effects.2 (.inr ⟨r, h, ?_⟩)
  rw [heffects]
  exact List.mem_cons_self

/-- What is executed at an attempt is one of its results, and what is rejected is its body. -/
theorem effects_cases (h : x ∈ a.effects req i) : x.Quiet ∨
    (∃ message, a.outbound = .error (.parse message) ∧ x = .rejected i (.parse message)) ∨
    ∃ r ∈ a.results req, x = .executed i r := by
  rcases mem_effects.1 h with ⟨e, hout, rfl⟩ | ⟨r, hr, hx⟩
  · obtain ⟨message, rfl⟩ := a.built.refused e hout
    exact .inr (.inl ⟨message, hout, rfl⟩)
  · rcases mem_execEffects hx with rfl | ⟨hquiet, -⟩
    · exact .inr (.inr ⟨r, hr, rfl⟩)
    · exact .inl hquiet

theorem pairwise_effects {R : Effect → Effect → Prop} :
    (a.effects req i).Pairwise R ↔
      (∀ r ∈ a.results req, (execEffects req i a.candidate r).Pairwise R) ∧
        (a.results req).Pairwise fun r s ↦ ∀ x ∈ execEffects req i a.candidate r,
          ∀ y ∈ execEffects req i a.candidate s, R x y := by
  rw [Attempt.effects]
  cases hout : a.outbound with
  | error e =>
    have hresults : a.results req = [] := by
      rw [Attempt.results, hout]
    rw [hresults]
    simp
  | ok out => exact List.pairwise_flatMap

theorem countP_effects (req : Inbound) (i : ℕ) (a : Attempt) :
    (a.effects req i).countP (Effect.executesAt i) = (a.results req).length := by
  have hone (r : Except UpstreamError ExecOutcome) :
      (execEffects req i a.candidate r).countP (Effect.executesAt i) = 1 := by
    obtain ⟨quiet, heffects, hquiet, -⟩ := execEffects_eq req i a.candidate r
    have hnone : quiet.countP (Effect.executesAt i) = 0 :=
      List.countP_eq_zero.2 fun y hy ↦ by simp [(hquiet y hy).executesAt i]
    rw [heffects, List.countP_cons, hnone]
    simp [Effect.executesAt]
  rw [Attempt.effects]
  cases hout : a.outbound with
  | error e =>
    rw [Attempt.results, hout]
    rfl
  | ok out =>
    dsimp only
    rw [List.countP_flatMap]
    induction a.results req with
    | nil => rfl
    | cons r rest ih => rw [List.map_cons, List.sum_cons, ih, Function.comp, hone, List.length_cons,
        Nat.add_comm]

end Effects

/-! ### The effects of the loop -/

/-- The effects of the attempts of a list, one after the other. -/
def effectsOf (req : Inbound) (m : List Attempt) : List Effect :=
  placed (fun i a ↦ a.effects req i) m

section Loop

variable {req : Inbound} {l m : List Attempt} {i : ℕ} {a : Attempt}

/-- An attempt is tried when it has a position. -/
theorem exists_tries_iff {j : ℕ} : (∃ y ∈ effectsOf req m, y.Tries j) ↔ j < m.length := by
  constructor
  · rintro ⟨y, hy, htries⟩
    obtain ⟨i, a, hi, hy⟩ := mem_placed.1 hy
    have hij : i = j := by
      rcases effects_cases hy with hquiet | ⟨message, -, rfl⟩ | ⟨r, -, rfl⟩
      · exact absurd htries (hquiet.not_tries j)
      · exact htries
      · exact htries
    rw [← hij]
    exact (List.getElem?_eq_some_iff.1 hi).1
  · intro hj
    have hm : m[j]? = some m[j] := List.getElem?_eq_getElem hj
    cases hout : m[j].outbound with
    | error e =>
      exact ⟨_, mem_placed.2 ⟨j, m[j], hm, mem_effects.2 (.inl ⟨e, hout, rfl⟩)⟩, rfl⟩
    | ok out =>
      obtain ⟨r, hr⟩ := List.exists_mem_of_ne_nil _ (@results_ne_nil req _ _ hout)
      exact ⟨_, mem_placed.2 ⟨j, m[j], hm, executed_mem_effects hr⟩, rfl⟩

/-- An error at a candidate that is not locked, and that is not the client's. -/
theorem faultless_error {e : UpstreamError} (hi : l[i]? = some a)
    (hlock : a.candidate.lockUpstream = false) (hdevin : ¬ a.DevinRefuses)
    (hfault : ¬ e.ClientFault a.candidate.retryStatusCodes) :
    ¬ (Effect.executed i (.error e)).Succeeds ∧ ¬ (Effect.executed i (.error e)).FailsLocked l ∧
      ¬ (Effect.executed i (.error e)).ClientFault l := by
  refine ⟨id, ?_, ?_⟩
  · rintro ⟨b, hb, hlocked⟩
    obtain rfl := Option.some.inj (hi.symm.trans hb)
    exact absurd (hlock.symm.trans hlocked) (by simp)
  · rintro ⟨b, hb, hclient | hrefuses⟩
    · obtain rfl := Option.some.inj (hi.symm.trans hb)
      exact hfault hclient
    · obtain rfl := Option.some.inj (hi.symm.trans hb)
      exact hdevin hrefuses

theorem not_clientFault_of_retryable {e : UpstreamError} {codes : List ℤ}
    (h : e.retryable codes = true) : ¬ e.ClientFault codes :=
  fun hfault ↦ absurd (hfault.final.symm.trans h) (by simp)

/-- An attempt that is passed over has failed through no fault of the client. -/
theorem faultless_of_failsOver (hi : l[i]? = some a) (hdevin : ¬ a.DevinRefuses)
    (h : a.failsOver req = true) : ∀ x ∈ a.effects req i,
      ¬ x.Succeeds ∧ ¬ x.FailsLocked l ∧ ¬ x.ClientFault l := by
  obtain ⟨out, hout⟩ := ok_of_failsOver h
  obtain ⟨before, last, hresults, hlock, hcausal⟩ := last_of_failsOver h
  intro x hx
  rcases effects_cases hx with hquiet | ⟨message, hrefused, -⟩ | ⟨r, hr, rfl⟩
  · exact ⟨(hquiet.faultless l).1, (hquiet.faultless l).2.1, (hquiet.faultless l).2.2.1⟩
  · exact nomatch hout.symm.trans hrefused
  · rcases result_cases hr with hlast | ⟨e, rfl, hretry⟩
    · rw [hresults, List.getLast?_concat] at hlast
      rw [← Option.some.inj hlast]
      exact faultless_error hi hlock hdevin fun hfault ↦
        absurd (hcausal.symm.trans hfault.causal) (by simp)
    · exact faultless_error hi hlock hdevin (not_clientFault_of_retryable hretry)

/-- Every attempt that is made is sound. -/
def AllSound (req : Inbound) (l : List Attempt) : Prop :=
  ∀ i a, (made req l)[i]? = some a → Sound req a (i + 1 < l.length)

/-- Within one sound attempt. -/
theorem obeys_effects {more : Prop} (hi : l[i]? = some a) (h : Sound req a more) :
    (a.effects req i).Pairwise (Obeys l) := by
  have hself {b : Attempt} (hb : l[i]? = some b) : a = b := Option.some.inj (hi.symm.trans hb)
  refine pairwise_effects.2 ⟨fun r hr ↦ ?_, pairwise_iff_split.2 ?_⟩
  · obtain ⟨quiet, heffects, hquiet, hbreaker⟩ := execEffects_eq req i a.candidate r
    rw [heffects, List.pairwise_cons]
    refine ⟨fun y hy ↦ ?_, List.pairwise_of_forall_mem_list fun x hx y _ ↦
      Obeys.of_quiet (hquiet x hx) y⟩
    have hy' := hquiet y hy
    refine ⟨fun _ ↦ hy'.not_executes, fun _ ↦ hy'.not_executes, fun hfault ↦
      ⟨hy'.not_executes, fun hfails ↦ ?_⟩, fun j _ _ _ _ ↦ hy'.executesAt j⟩
    have hagain := hbreaker.1 ⟨y, hy, hfails⟩
    cases r with
    | ok outcome => exact hfault.elim
    | error e =>
      obtain ⟨b, hb, hclient⟩ := hfault
      obtain rfl := hself hb
      rcases hclient with hclient | hdevin
      · exact not_clientFault_of_retryable hagain hclient
      · exact h.accepted hdevin
  · intro before r after hresults s hs x hx y hy
    have hne : after ≠ [] := List.ne_nil_of_mem hs
    have hagain := (again_of_results hresults).2 hne
    have hleft := length_lt_of_results hresults hne
    have hlock : a.candidate.lockUpstream = false := by
      refine Bool.eq_false_iff.2 fun hlocked ↦ ?_
      rw [retryLimit_locked hlocked] at hleft
      exact absurd hleft (Nat.not_lt_zero _)
    cases r with
    | ok outcome => exact absurd hagain (by simp [Candidate.again])
    | error e =>
      rcases mem_execEffects hx with rfl | ⟨hquiet, -⟩
      · obtain ⟨hsuccess, hlocked, hclient⟩ :=
          faultless_error hi hlock h.accepted (not_clientFault_of_retryable hagain)
        refine ⟨fun hx ↦ absurd hx hsuccess, fun hx ↦ absurd hx hlocked,
          fun hx ↦ absurd hx hclient, fun j b hj hunlocked hfault ↦ ?_⟩
        obtain ⟨rfl, hcredential⟩ := hfault
        obtain rfl := hself hj
        exact absurd (h.credential hlock before e after hresults hcredential hagain) (by omega)
      · exact Obeys.of_quiet hquiet y

/-- The loop over sound attempts. -/
theorem obeys_of_sound (h : AllSound req l) : (effectsOf req (made req l)).Pairwise (Obeys l) := by
  refine pairwise_placed.2 ⟨fun i a hi ↦ obeys_effects (getElem?_of_tried hi) (h i a hi), ?_⟩
  intro i j a b hi hj hij x hx y hy
  have hlt : i + 1 < (made req l).length :=
    lt_of_le_of_lt hij (List.getElem?_eq_some_iff.1 hj).1
  have hl := getElem?_of_tried hi
  obtain ⟨hsuccess, hlocked, hclient⟩ :=
    faultless_of_failsOver hl (h i a hi).accepted (passes_of_lt hi hlt) x hx
  refine ⟨fun hx ↦ absurd hx hsuccess, fun hx ↦ absurd hx hlocked, fun hx ↦ absurd hx hclient,
    fun k c hk hunlocked hfault ↦ ?_⟩
  rcases effects_cases hx with hquiet | ⟨message, -, rfl⟩ | ⟨r, -, rfl⟩
  · exact absurd hfault ((hquiet.faultless l).2.2.2 k)
  · exact hfault.elim
  · have hki : i = k := by
      cases r with
      | ok outcome => exact hfault.elim
      | error e => exact hfault.1
    subst hki
    rcases effects_cases hy with hquiet | ⟨message, -, rfl⟩ | ⟨s, -, rfl⟩
    · exact hquiet.executesAt i
    · rfl
    · exact beq_eq_false_iff_ne.2 hij.ne'

theorem countP_effectsOf (req : Inbound) (m : List Attempt) (i : ℕ) :
    (effectsOf req m).countP (Effect.executesAt i) =
      (m[i]?.map fun a ↦ (a.results req).length).getD 0 := by
  have hcount := @countP_placed _ _ (fun i a ↦ Attempt.effects req i a) (Effect.executesAt i) m i
    fun j a _ hne y hy ↦ by
      rcases effects_cases hy with hquiet | ⟨message, -, rfl⟩ | ⟨r, -, rfl⟩
      · exact hquiet.executesAt i
      · rfl
      · exact beq_eq_false_iff_ne.2 hne
  rw [effectsOf, hcount]
  simp only [countP_effects]

/-- A failure of the credentials of a sound attempt is passed over. -/
theorem failsOver_of_credential {e : UpstreamError} (h : Sound req a True)
    (hlock : a.candidate.lockUpstream = false) (hmem : .error e ∈ a.results req)
    (hcredential : e.authFailure ≠ none) : a.failsOver req = true := by
  have hout : ∃ out, a.outbound = .ok out := by
    cases hout : a.outbound with
    | ok out => exact ⟨out, rfl⟩
    | error e =>
      rw [Attempt.results, hout] at hmem
      exact absurd hmem List.not_mem_nil
  obtain ⟨out, hout⟩ := hout
  obtain ⟨before, after, hresults⟩ := List.append_of_mem hmem
  cases after with
  | cons r rest =>
    have hne := List.cons_ne_nil r rest
    have hagain := (again_of_results hresults).2 hne
    exact absurd (h.credential hlock before e _ hresults hcredential hagain)
      (by have := length_lt_of_results hresults hne; omega)
  | nil =>
    have hlast : (a.results req).getLast? = some (.error e) := by
      rw [hresults, List.getLast?_concat]
    rw [Attempt.failsOver, hout, hlast]
    cases hcausal : e.clientCausal with
    | false => simp [Candidate.passesOn, hlock, hcausal]
    | true => exact absurd (h.causal hlock trivial e hlast hcausal).noCredential hcredential

/-- Sound attempts obey the policy. -/
theorem policy_of_sound (h : AllSound req l) : Policy l (effectsOf req (made req l)) := by
  have hobeys := obeys_of_sound h
  refine ⟨hobeys.imp fun hxy ↦ hxy.success, fun i a hi ↦ ?_, hobeys.imp fun hxy ↦ hxy.locked,
    hobeys.imp fun hxy ↦ hxy.client, fun i a hi hlock ↦ hobeys.imp fun hxy ↦
      hxy.credential i a hi hlock, fun i a hi hlock x hx hfault hmore ↦ ?_, fun hall i hi ↦ ?_⟩
  · rw [countP_effectsOf]
    cases hm : (made req l)[i]? with
    | none => exact Nat.zero_le _
    | some b =>
      obtain rfl := Option.some.inj (hi.symm.trans (getElem?_of_tried hm))
      refine (length_results_le req a).trans (le_of_eq ?_)
      rw [Candidate.retryLimit]
      split <;> rfl
  · rw [exists_tries_iff]
    obtain ⟨j, b, hj, hx⟩ := mem_placed.1 hx
    rcases effects_cases hx with hquiet | ⟨message, -, rfl⟩ | ⟨r, hr, rfl⟩
    · exact absurd hfault ((hquiet.faultless l).2.2.2 i)
    · exact hfault.elim
    · cases r with
      | ok outcome => exact hfault.elim
      | error e =>
        obtain ⟨rfl, hcredential⟩ := hfault
        obtain rfl := Option.some.inj (hi.symm.trans (getElem?_of_tried hj))
        have hsound := h j a hj
        refine lt_length_tried hj (failsOver_of_credential ?_ hlock hr hcredential) hmore
        exact ⟨hsound.accepted, hsound.credential, fun hlock _ ↦ hsound.causal hlock hmore⟩
  · rw [exists_tries_iff]
    by_contra hnot
    have hne : l ≠ [] := List.ne_nil_of_length_pos (Nat.zero_lt_of_lt hi)
    obtain ⟨before, a, hmade⟩ : ∃ before a, made req l = before ++ [a] := exists_tried_last hne
    have hat : (made req l)[before.length]? = some a := by
      rw [hmade, List.getElem?_concat_length]
    have hlength : (made req l).length = before.length + 1 := by
      rw [hmade, List.length_append, List.length_singleton]
    have hmore : before.length + 1 < l.length := by omega
    have hfails : a.failsOver req = false := by
      refine Bool.eq_false_iff.2 fun hfails ↦ ?_
      have hnext := lt_length_tried hat hfails hmore
      rw [← made] at hnext
      omega
    have hl := getElem?_of_tried hat
    cases hout : a.outbound with
    | error e =>
      obtain ⟨message, rfl⟩ := a.built.refused e hout
      have hmem : .rejected before.length (.parse message) ∈ effectsOf req (made req l) :=
        mem_placed.2 ⟨before.length, a, hat, mem_effects.2 (.inl ⟨_, hout, rfl⟩)⟩
      exact (hall _ hmem).2.2 trivial
    | ok out =>
      obtain ⟨init, r, hresults⟩ : ∃ init r, a.results req = init ++ [r] :=
        ⟨_, _, (List.dropLast_append_getLast (results_ne_nil hout)).symm⟩
      have hlast : (a.results req).getLast? = some r := by
        rw [hresults, List.getLast?_concat]
      have hr : r ∈ a.results req := by
        rw [hresults]
        exact List.mem_append_right init (List.mem_singleton_self r)
      have hmem : .executed before.length r ∈ effectsOf req (made req l) :=
        mem_placed.2 ⟨before.length, a, hat, executed_mem_effects hr⟩
      obtain ⟨hsuccess, hlocked, hclient⟩ := hall _ hmem
      rw [Attempt.failsOver, hout, hlast] at hfails
      cases r with
      | ok outcome => exact hsuccess trivial
      | error e =>
        have hlock : a.candidate.lockUpstream = false :=
          Bool.eq_false_iff.2 fun hlock ↦ hlocked ⟨a, hl, hlock⟩
        have hcausal : e.clientCausal = true := by
          simpa [Candidate.passesOn, hlock] using hfails
        exact hclient ⟨a, hl, .inl ((h _ a hat).causal hlock hmore e hlast hcausal)⟩

/-- A body that Devin refuses gives an error that is retried. -/
theorem results_of_devinRefuses (h : a.DevinRefuses) : ∀ r ∈ a.results req, ∃ message,
    r = .error (.connect message) := by
  obtain ⟨hkind, htoken, out, hout, hinput⟩ := h
  intro r hr
  rw [Attempt.results, hout] at hr
  obtain ⟨rest, hrest⟩ := tried_begins a.candidate.again (a.answers req out)
  have hanswer : r ∈ a.answers req out := by
    rw [← hrest]
    exact List.mem_append_left rest hr
  obtain ⟨idx, -, rfl⟩ := List.mem_map.1 hanswer
  obtain ⟨message, hmessage⟩ := Option.ne_none_iff_exists'.1 hinput
  obtain ⟨token, htoken⟩ := Option.ne_none_iff_exists'.1 htoken
  have herror : a.candidate.devinError out.body = some message := by
    rw [Candidate.devinError, htoken]
    exact hmessage
  rw [Candidate.execRes, if_pos hkind, herror]
  exact ⟨_, rfl⟩

/-- The policy holds of sound attempts only. -/
theorem sound_of_policy (h : Policy l (effectsOf req (made req l))) : AllSound req l := by
  have hin {R : Effect → Effect → Prop} (hR : (effectsOf req (made req l)).Pairwise R) {i : ℕ}
      {a : Attempt} (hi : (made req l)[i]? = some a) : (a.effects req i).Pairwise R :=
    (pairwise_placed.1 hR).1 i a hi
  have hdevin (i : ℕ) (a : Attempt) (hi : (made req l)[i]? = some a) : ¬ a.DevinRefuses := by
    intro hrefuses
    obtain ⟨out, hout, -⟩ := hrefuses.2.2
    obtain ⟨r, hr⟩ := List.exists_mem_of_ne_nil _ (@results_ne_nil req _ _ hout)
    obtain ⟨message, rfl⟩ := results_of_devinRefuses hrefuses r hr
    obtain ⟨quiet, heffects, -, hbreaker⟩ :=
      execEffects_eq req i a.candidate (.error (.connect message))
    obtain ⟨y, hy, hfails⟩ := hbreaker.2 rfl
    have hpairs := (pairwise_effects.1 (hin h.client hi)).1 _ hr
    rw [heffects, List.pairwise_cons] at hpairs
    exact (hpairs.1 y hy ⟨a, getElem?_of_tried hi, .inr hrefuses⟩).2 hfails
  intro i a hi
  have hl := getElem?_of_tried hi
  refine ⟨hdevin i a hi, fun hlock before e after hresults hcredential hretry ↦ ?_,
    fun hlock hmore e hlast hcausal ↦ ?_⟩
  · cases after with
    | nil => exact retryLimit_le_of_last hresults hretry
    | cons r rest =>
      have hpairs := (pairwise_effects.1 (hin (h.credential i a hl hlock) hi)).2
      have hne := pairwise_iff_split.1 hpairs before _ _ hresults r List.mem_cons_self
      obtain ⟨quiet, heffects, -⟩ := execEffects_eq req i a.candidate (.error e)
      obtain ⟨quiet', heffects', -⟩ := execEffects_eq req i a.candidate r
      rw [heffects, heffects'] at hne
      have hagain := hne _ List.mem_cons_self _ List.mem_cons_self ⟨rfl, hcredential⟩
      exact absurd hagain (by simp [Effect.executesAt])
  · have hmem : .error e ∈ a.results req := List.mem_of_getLast? hlast
    have hexecuted : .executed i (.error e) ∈ effectsOf req (made req l) :=
      mem_placed.2 ⟨i, a, hi, executed_mem_effects hmem⟩
    have hstops : ¬ i + 1 < (made req l).length := by
      intro hlt
      obtain ⟨init, last, hresults, -, hcausal'⟩ := last_of_failsOver (passes_of_lt hi hlt)
      rw [hresults, List.getLast?_concat] at hlast
      have heq : last = e := by simpa using hlast
      rw [heq] at hcausal'
      exact absurd (hcausal'.symm.trans hcausal) (by simp)
    have hcredential : e.authFailure = none := by
      by_contra hne
      exact hstops (exists_tries_iff.1 (h.movesOn i a hl hlock _ hexecuted ⟨rfl, hne⟩ hmore))
    refine ⟨hcausal, hcredential, Bool.eq_false_iff.2 fun hretry ↦ hstops ?_⟩
    refine exists_tries_iff.1 (h.exhaustive (fun x hx ↦ ?_) (i + 1) hmore)
    obtain ⟨j, b, hj, hx⟩ := mem_placed.1 hx
    have hjl := getElem?_of_tried hj
    rcases Nat.lt_trichotomy j i with hlt | rfl | hgt
    · have hlt' : j + 1 < (made req l).length :=
        lt_of_le_of_lt hlt (List.getElem?_eq_some_iff.1 hi).1
      exact faultless_of_failsOver hjl (hdevin j b hj) (passes_of_lt hj hlt') x hx
    · obtain rfl := Option.some.inj (hi.symm.trans hj)
      rcases effects_cases hx with hquiet | ⟨message, hrefused, rfl⟩ | ⟨r, hr, rfl⟩
      · exact ⟨(hquiet.faultless l).1, (hquiet.faultless l).2.1, (hquiet.faultless l).2.2.1⟩
      · rw [Attempt.results, hrefused] at hmem
        exact absurd hmem List.not_mem_nil
      · obtain ⟨e', rfl, hretry'⟩ : ∃ e', r = .error e' ∧
            e'.retryable a.candidate.retryStatusCodes = true := by
          rcases result_cases hr with hlast' | hagain
          · rw [hlast] at hlast'
            exact ⟨e, (Option.some.inj hlast').symm, hretry⟩
          · exact hagain
        exact faultless_error hjl hlock (hdevin j a hj) (not_clientFault_of_retryable hretry')
    · have := (List.getElem?_eq_some_iff.1 hj).1
      omega

variable [SerdeJson]

/-- The loop keeps to the policy exactly when every attempt that is made is sound. -/
theorem policy_iff (req : Inbound) (l : List Attempt) :
    Policy l (attemptLoop req 0 l {}).1 ↔ AllSound req l := by
  rw [effects_attemptLoop]
  exact ⟨sound_of_policy, policy_of_sound⟩

end Loop

/-! ### An invalid key that is called a bad request -/

section Codec

local instance policyCodec : SerdeJson := Compact.codec

/-- A Chat request with a message. -/
def greeting : Value :=
  .object [("model", .str "m"),
    ("messages", .arr [.object [("role", .str "user"), ("content", .str "hi")]])]

/-- The first upstream answers 400 because of its key, and the second one is not tried. -/
theorem not_policy_invalidKey :
    ¬ ∀ (limit : ℕ) (req : Inbound) (body : Value) (l : List Attempt),
      AttemptsOf limit req body l → Policy l (attemptLoop req 0 l {}).1 := by
  intro h
  let e : UpstreamError := .status 400 "\x7b\"error\":\x7b\"code\":\"invalid_api_key\"\x7d\x7d"
  have hcredential : e.authFailure ≠ none := by decide +kernel
  obtain ⟨out, hout⟩ : ∃ out, buildOutbound 1000 .openaiChat .passthrough greeting false "m"
      chatCandidate.channel = .ok (.ok out) := ⟨_, rfl⟩
  let first : Attempt :=
    ⟨chatCandidate, .ok out, built_buildOutbound hout, fun _ ↦ { http := .error e }⟩
  let second : Attempt :=
    ⟨{ chatCandidate with upstreamId := 2 }, .ok out, built_buildOutbound hout, fun _ ↦ {}⟩
  have hattempts : AttemptsOf 1000 chatInbound greeting [first, second] := by
    intro a ha
    rcases List.mem_pair.1 ha with rfl | rfl
    · exact ⟨.passthrough, rfl, hout⟩
    · exact ⟨.passthrough, rfl, hout⟩
  have hpolicy : Policy [first, second] (effectsOf chatInbound (made chatInbound [first, second])) := by
    have hloop := h 1000 chatInbound greeting [first, second] hattempts
    rw [effects_attemptLoop] at hloop
    exact hloop
  have hmade : made chatInbound [first, second] = [first] := rfl
  have hresults : first.results chatInbound = [.error e] := rfl
  have hexecuted : .executed 0 (.error e) ∈
      effectsOf chatInbound (made chatInbound [first, second]) := by
    rw [hmade]
    refine mem_placed.2 ⟨0, first, rfl, executed_mem_effects ?_⟩
    rw [hresults]
    exact List.mem_singleton_self _
  have hnext := exists_tries_iff.1 (hpolicy.movesOn 0 first rfl rfl _ hexecuted
    ⟨rfl, hcredential⟩ (Nat.lt_succ_self 1))
  rw [hmade] at hnext
  exact absurd hnext (Nat.lt_irrefl 1)

end Codec

end NextApi.Gateway
