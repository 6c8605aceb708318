import NextApi.Routing.BreakerRuns

/-!
# Restarting the breaker

The memory of a breaker is lost when the process restarts; the row of the upstream stays. `Sys` is
a breaker with the row of one upstream and the versions that the row had: every operation is called
with one of them, the current one or an older one, and writes the row as the breaker says.

While the breaker is open the row is disabled automatically until the same instant. A breaker that
is restarted then refuses until that instant too. Asked before it, the breaker takes the cooldown
over and goes on as the other one does, until a probe fails: the persisted count is the one of
failures, not the one of openings, and with it comes another cooldown. Not asked before it, the
breaker starts closed (`Resumes`).

The breaker goes by what its caller read. A cooldown that it takes over is the row's when that row
was read last (`TakesCurrent`), and a success lifts the automatic disabling that its row shows
(`Current`).
-/

set_option autoImplicit false

namespace NextApi.Routing

/-! ### The row beside the breaker -/

/-- What a call writes to the row. -/
def Breaker.dbUpdate (b : Breaker) (c : Call) : Option DbUpdate :=
  match c.op with
  | .allow _ _ => none
  | .onSuccess up => (b.onSuccess up).2
  | .onFailure up autoDisable => (b.onFailure up autoDisable c.now).2
  | .reset _ => none

/-- A breaker, the row of an upstream, and the versions it had before. -/
structure Sys where
  breaker : Breaker := {}
  row : UpstreamRow
  past : List UpstreamRow := []
  clock : ℤ

namespace Sys

def entry (s : Sys) : Entry := s.breaker.entry s.row.id

def step (s : Sys) (c : Call) : Sys where
  breaker := s.breaker.step c
  row := ((s.breaker.dbUpdate c).map fun update ↦ update.apply s.row).getD s.row
  past := s.row :: s.past
  clock := c.now

/-- The call is about the upstream, and its snapshot is one of the versions of the row. -/
def Reads (s : Sys) (c : Call) : Prop :=
  match c.op with
  | .allow up _ => up ∈ s.row :: s.past
  | .onSuccess up => up ∈ s.row :: s.past
  | .onFailure up _ => up ∈ s.row :: s.past
  | .reset id => id = s.row.id

/-- The states of the runs that start with this row and whose steps all meet a condition. -/
inductive Reach (P : Sys → Call → Prop) (row : UpstreamRow) : Sys → Prop where
  | init (now : ℤ) : Reach P row { row := row, clock := now }
  | step {s : Sys} {c : Call} :
    Reach P row s → s.Reads c → s.clock ≤ c.now → P s c → Reach P row (s.step c)

/-- A request of an upstream that was forgotten reads the cooldown that the row has. -/
def TakesCurrent (s : Sys) (c : Call) : Prop :=
  ∀ up autoDisable, c.op = .allow up autoDisable → s.entry.state = none →
    up.disabledBy = s.row.disabledBy ∧ up.cooldownUntil = s.row.cooldownUntil

/-- Moreover a success reads the automatic disabling that the row has, and no failure of a
forgotten upstream comes in its cooldown. -/
structure Current (s : Sys) (c : Call) : Prop where
  takes : s.TakesCurrent c
  success : ∀ up, c.op = .onSuccess up → s.row.disabledBy = some "auto" →
    up.disabledBy = some "auto"
  failure : ∀ up autoDisable, c.op = .onFailure up autoDisable → s.entry.state = none →
    Breaker.dbCooldown s.row c.now = none

theorem Reach.imp {P Q : Sys → Call → Prop} (hPQ : ∀ s c, P s c → Q s c) {row : UpstreamRow}
    {s : Sys} (h : Reach P row s) : Reach Q row s := by
  induction h with
  | init now => exact .init now
  | step _ hreads hclock hP ih => exact .step ih hreads hclock (hPQ _ _ hP)

end Sys

/-! ### What stays of a row -/

/-- A version of a row: only what the breaker writes has changed, and it is not disabled by
hand. -/
structure IsVersion (row r : UpstreamRow) : Prop where
  id : r.id = row.id
  enabled : r.enabled = row.enabled
  breakerThreshold : r.breakerThreshold = row.breakerThreshold
  notManual : r.disabledBy ≠ some "manual"

theorem IsVersion.apply {row r : UpstreamRow} (h : IsVersion row r) (update : DbUpdate) :
    IsVersion row (update.apply r) := by
  obtain ⟨hid, henabled, hthreshold, hmanual⟩ := h
  cases update with
  | recovered =>
    rw [DbUpdate.apply]
    split
    · exact ⟨hid, henabled, hthreshold, by simp⟩
    · exact ⟨hid, henabled, hthreshold, hmanual⟩
  | opened until' failures =>
    rw [DbUpdate.apply, if_neg hmanual]
    exact ⟨hid, henabled, hthreshold, by simp⟩
  | failuresOnly failures =>
    rw [DbUpdate.apply, if_neg hmanual]
    exact ⟨hid, henabled, hthreshold, hmanual⟩

theorem Sys.Reach.isVersion {P : Sys → Call → Prop} {row : UpstreamRow} {s : Sys}
    (h : Reach P row s) (hmanual : row.disabledBy ≠ some "manual") :
    ∀ r ∈ s.row :: s.past, IsVersion row r := by
  induction h with
  | init now =>
    intro r hr
    obtain rfl : r = row := List.mem_singleton.1 hr
    exact ⟨rfl, rfl, rfl, hmanual⟩
  | @step s c _ hreads hclock hP ih =>
    intro r hr
    rcases List.mem_cons.1 hr with rfl | hr
    · have hrow := ih s.row List.mem_cons_self
      show IsVersion row (((s.breaker.dbUpdate c).map _).getD s.row)
      cases s.breaker.dbUpdate c with
      | none => exact hrow
      | some update => exact hrow.apply update
    · exact ih r hr

theorem Breaker.dbCooldown_eq_some {up : UpstreamRow} {now until' : ℤ}
    (h : dbCooldown up now = some until') :
    up.disabledBy = some "auto" ∧ up.cooldownUntil = some until' ∧ now < until' := by
  rw [dbCooldown] at h
  split at h
  case isTrue hauto =>
    obtain ⟨hsome, hlt⟩ := Option.filter_eq_some_iff.1 h
    exact ⟨hauto, hsome, by simpa using hlt⟩
  case isFalse => exact absurd h (by simp)

/-- A cooldown that is over stays over. -/
theorem Breaker.dbCooldown_mono {up : UpstreamRow} {now later : ℤ} (hle : now ≤ later)
    (h : dbCooldown up now = none) : dbCooldown up later = none := by
  refine Option.eq_none_iff_forall_ne_some.2 fun until' hsome ↦ ?_
  obtain ⟨hauto, hcooldown, hlt⟩ := dbCooldown_eq_some hsome
  rw [dbCooldown, if_pos hauto, hcooldown] at h
  simp only [Option.filter_some, ite_eq_right_iff] at h
  exact absurd (h (by simpa using (by omega : now < until'))) (by simp)

/-! ### Memory and row -/

namespace Sys

/-- An open breaker has its row disabled until the same instant. -/
def OpenIsPersisted (s : Sys) : Prop :=
  ∀ until' opens, s.entry.state = some (.opened until' opens) →
    s.row.disabledBy = some "auto" ∧ s.row.cooldownUntil = some until'

/-- A closed breaker has no row in a cooldown. -/
def ClosedIsPersisted (s : Sys) : Prop :=
  ∀ failures, s.entry.state = some (.closed failures) →
    ∀ now, s.clock ≤ now → Breaker.dbCooldown s.row now = none

theorem row_id_step (s : Sys) (c : Call) : (s.step c).row.id = s.row.id := by
  show (((s.breaker.dbUpdate c).map _).getD s.row).id = _
  cases s.breaker.dbUpdate c with
  | none => rfl
  | some update =>
    cases update with
    | recovered => exact apply_ite UpstreamRow.id _ _ _ |>.trans (by simp)
    | opened until' failures => exact apply_ite UpstreamRow.id _ _ _ |>.trans (by simp)
    | failuresOnly failures => exact apply_ite UpstreamRow.id _ _ _ |>.trans (by simp)

/-- A call about the upstream of a row acts on its entry. -/
theorem entry_step {s : Sys} {c : Call} (hid : c.op.id = s.row.id) :
    (s.step c).entry = s.entry.step c := by
  show (s.breaker.step c).entry (s.step c).row.id = _
  rw [row_id_step, Breaker.entry_step, if_pos hid]
  rfl

theorem Reads.id_eq {P : Sys → Call → Prop} {row : UpstreamRow} {s : Sys} {c : Call}
    (hreads : s.Reads c) (h : Reach P row s) (hmanual : row.disabledBy ≠ some "manual") :
    c.op.id = s.row.id := by
  have hversion := h.isVersion hmanual
  have hrow := hversion s.row List.mem_cons_self
  obtain ⟨op, now⟩ := c
  cases op with
  | allow up autoDisable => exact (hversion up hreads).id.trans hrow.id.symm
  | onSuccess up => exact (hversion up hreads).id.trans hrow.id.symm
  | onFailure up autoDisable => exact (hversion up hreads).id.trans hrow.id.symm
  | reset id => exact hreads

/-- What a failure does: unless the breaker is switched off, the entry takes the next state, and
the row is written. -/
theorem step_onFailure {s : Sys} {up : UpstreamRow} (now : ℤ) (hid : up.id = s.row.id)
    (hmanual : up.disabledBy ≠ some "manual") :
    let state := s.entry.state.getD (.closed 0)
    let next := (nextOnFailure state (Breaker.threshold up) now).1
    (s.entry.step ⟨.onFailure up true, now⟩).state = some next ∧
      (s.step ⟨.onFailure up true, now⟩).row =
        ((Breaker.failureUpdate up state next).map fun update ↦ update.apply s.row).getD s.row := by
  have hon : ¬ (up.disabledBy = some "manual" ∨ true = false) := by simp [hmanual]
  constructor
  · simp only [Entry.step, Entry.onFailure, if_neg hon]
  · show (((s.breaker.onFailure up true now).2).map _).getD s.row = _
    rw [Breaker.onFailure, if_neg hon]
    show ((Breaker.failureUpdate up ((s.breaker.entry up.id).state.getD _) _).map _).getD s.row = _
    rw [hid]
    rfl

/-- With the breaker switched off a failure does nothing. -/
theorem step_onFailure_off (s : Sys) (up : UpstreamRow) (now : ℤ) :
    s.entry.step ⟨.onFailure up false, now⟩ = s.entry ∧
      (s.step ⟨.onFailure up false, now⟩).row = s.row := by
  constructor
  · simp only [Entry.step, Entry.onFailure, or_true, if_true]
  · show (((s.breaker.onFailure up false now).2).map _).getD s.row = _
    rw [Breaker.onFailure, if_pos (.inr rfl)]
    rfl

theorem Reach.openIsPersisted {row : UpstreamRow} {s : Sys} (h : Reach TakesCurrent row s)
    (hmanual : row.disabledBy ≠ some "manual") : s.OpenIsPersisted := by
  induction h with
  | init now =>
    intro until' opens hstate
    exact absurd hstate (by simp [entry, Breaker.entry])
  | @step s c hreach hreads hclock htakes ih =>
    intro until' opens hafter
    have hid := hreads.id_eq hreach hmanual
    have hversion := hreach.isVersion hmanual
    rw [entry_step hid] at hafter
    obtain ⟨op, now⟩ := c
    cases op with
    | allow up autoDisable =>
      show s.row.disabledBy = _ ∧ s.row.cooldownUntil = _
      by_cases hopen : s.entry.IsOpen
      · obtain ⟨until'', opens', hbefore⟩ := hopen
        obtain ⟨rfl, rfl⟩ := Entry.opened_step hbefore hafter
        exact ih _ _ hbefore
      · rcases Entry.opens_of_step hopen hafter with hfailure | ⟨up', hop, hnone, hdb, -⟩
        · obtain ⟨up', hop⟩ := hfailure.isFailure
          exact absurd hop (by simp)
        · obtain ⟨rfl, rfl⟩ := Op.allow.inj hop
          obtain ⟨hauto, hcooldown, -⟩ := Breaker.dbCooldown_eq_some hdb
          obtain ⟨hdisabled, huntil⟩ := htakes up true rfl hnone
          exact ⟨hdisabled ▸ hauto, huntil ▸ hcooldown⟩
    | onSuccess up => exact absurd hafter (by simp [Entry.step, Entry.closed])
    | reset id => exact absurd hafter (by simp [Entry.step])
    | onFailure up autoDisable =>
      have hup := hversion up hreads
      have hrow := hversion s.row List.mem_cons_self
      cases autoDisable with
      | false =>
        obtain ⟨hsame, hkeeps⟩ := step_onFailure_off s up now
        rw [hsame] at hafter
        rw [hkeeps]
        exact ih _ _ hafter
      | true =>
        obtain ⟨hstate, hwritten⟩ := step_onFailure now hid hup.notManual
        rw [hstate] at hafter
        rw [hwritten]
        have hopened (failures : ℤ) :
            ((DbUpdate.opened until' failures).apply s.row).disabledBy = some "auto" ∧
              ((DbUpdate.opened until' failures).apply s.row).cooldownUntil = some until' := by
          rw [DbUpdate.apply, if_neg hrow.notManual]
          exact ⟨rfl, rfl⟩
        cases hbefore : s.entry.state.getD (.closed 0) with
        | closed failures =>
          rw [hbefore, nextOnFailure] at hafter
          rw [nextOnFailure]
          by_cases hreached : failures + 1 ≥ Breaker.threshold up
          · rw [if_pos hreached] at hafter ⊢
            obtain ⟨rfl, -⟩ := BreakerState.opened.inj (Option.some.inj hafter)
            exact hopened failures
          · rw [if_neg hreached] at hafter
            exact absurd hafter (by simp)
        | opened until'' opens' =>
          rw [hbefore] at hafter
          obtain ⟨rfl, rfl⟩ := BreakerState.opened.inj (Option.some.inj hafter)
          have hstill : s.entry.state = some (.opened until'' opens') := by
            cases hnone : s.entry.state with
            | none => exact absurd (hnone ▸ hbefore) (by simp)
            | some state => rw [← hbefore, hnone, Option.getD_some]
          obtain ⟨hauto, hcooldown⟩ := ih _ _ hstill
          show (DbUpdate.apply s.row (.failuresOnly _)).disabledBy = _ ∧
            (DbUpdate.apply s.row (.failuresOnly _)).cooldownUntil = _
          rw [DbUpdate.apply, if_neg hrow.notManual]
          exact ⟨hauto, hcooldown⟩
        | halfOpen opens' =>
          rw [hbefore] at hafter
          obtain ⟨rfl, rfl⟩ := BreakerState.opened.inj (Option.some.inj hafter)
          exact hopened _

theorem Reach.closedIsPersisted {row : UpstreamRow} {s : Sys} (h : Reach Current row s)
    (hmanual : row.disabledBy ≠ some "manual") : s.ClosedIsPersisted := by
  induction h with
  | init now =>
    intro failures hstate
    exact absurd hstate (by simp [entry, Breaker.entry])
  | @step s c hreach hreads hclock hcurrent ih =>
    intro failures hafter later hlater
    have hid := hreads.id_eq hreach hmanual
    have hversion := hreach.isVersion hmanual
    rw [entry_step hid] at hafter
    -- a breaker that was closed before keeps its row
    have hstill (f : ℕ) (hbefore : s.entry.state = some (.closed f)) :
        Breaker.dbCooldown s.row later = none :=
      ih f hbefore later (Int.le_trans hclock hlater)
    obtain ⟨op, now⟩ := c
    cases op with
    | allow up autoDisable =>
      show Breaker.dbCooldown s.row later = none
      have hcases := Entry.step_cases s.entry ⟨.allow up autoDisable, now⟩
      generalize hstep : s.entry.step ⟨.allow up autoDisable, now⟩ = e' at hcases hafter
      cases hcases with
      | same => exact hstill failures hafter
      | first up' hop hnone hdb =>
        obtain ⟨rfl, -⟩ := Op.allow.inj hop
        obtain ⟨hdisabled, huntil⟩ := hcurrent.takes up autoDisable rfl hnone
        rw [Breaker.dbCooldown, hdisabled, huntil] at hdb
        exact Breaker.dbCooldown_mono hlater hdb
      | forgotten => simp at hafter
      | imported up' _ hop hnone hdb => simp at hafter
      | probe up' _ opens hop hstate hdue => simp at hafter
      | reprobe up' opens hop hstate hstuck => simp [hstate] at hafter
      | closed up' hop => simp at hop
      | counted up' f hop hstate hbelow => simp at hop
      | opened up' f hop hstate hreached => simp at hop
      | reopened up' opens hop hstate => simp at hop
    | onSuccess up =>
      show Breaker.dbCooldown (((s.breaker.onSuccess up).2.map _).getD s.row) later = none
      rw [Breaker.onSuccess]
      by_cases hauto : s.row.disabledBy = some "auto"
      · rw [if_pos (hcurrent.success up rfl hauto)]
        show Breaker.dbCooldown (DbUpdate.apply s.row .recovered) later = none
        rw [DbUpdate.apply, if_pos hauto, Breaker.dbCooldown, if_neg (by simp)]
      · have hnone : Breaker.dbCooldown s.row later = none := by
          rw [Breaker.dbCooldown, if_neg hauto]
        by_cases hup : up.disabledBy = some "auto"
        · rw [if_pos hup]
          show Breaker.dbCooldown (DbUpdate.apply s.row .recovered) later = none
          rw [DbUpdate.apply, if_neg hauto, hnone]
        · rw [if_neg hup]
          exact hnone
    | reset id => exact absurd hafter (by simp [Entry.step])
    | onFailure up autoDisable =>
      have hup := hversion up hreads
      cases autoDisable with
      | false =>
        obtain ⟨hsame, hkeeps⟩ := step_onFailure_off s up now
        rw [hsame] at hafter
        rw [hkeeps]
        exact hstill failures hafter
      | true =>
        obtain ⟨hstate, hwritten⟩ := step_onFailure now hid hup.notManual
        rw [hstate] at hafter
        rw [hwritten]
        cases hbefore : s.entry.state.getD (.closed 0) with
        | closed f =>
          rw [hbefore, nextOnFailure] at hafter
          rw [nextOnFailure]
          by_cases hreached : f + 1 ≥ Breaker.threshold up
          · rw [if_pos hreached] at hafter
            exact absurd hafter (by simp)
          · rw [if_neg hreached]
            show Breaker.dbCooldown s.row later = none
            cases hnone : s.entry.state with
            | none => exact Breaker.dbCooldown_mono hlater (hcurrent.failure up true rfl hnone)
            | some state =>
              rw [hnone, Option.getD_some] at hbefore
              exact hstill f (hbefore ▸ hnone)
        | opened until' opens =>
          rw [hbefore] at hafter
          exact absurd hafter (by simp [nextOnFailure])
        | halfOpen opens =>
          rw [hbefore] at hafter
          exact absurd hafter (by simp [nextOnFailure])

end Sys

/-! ### Going on -/

/-- What happens to an upstream: a request asks for it, or one of its requests ends. -/
inductive Request where
  | ask (now : ℤ)
  | succeed (now : ℤ)
  | fail (now : ℤ)
  deriving DecidableEq, Inhabited

namespace Sys

/-- The call that is made, with the row as it is. -/
def call (s : Sys) : Request → Call
  | .ask now => ⟨.allow s.row true, now⟩
  | .succeed now => ⟨.onSuccess s.row, now⟩
  | .fail now => ⟨.onFailure s.row true, now⟩

def after (s : Sys) (requests : List Request) : Sys :=
  requests.foldl (fun s r ↦ s.step (s.call r)) s

/-- The decisions of the breaker; what does not ask is not let through. -/
def answers : Sys → List Request → List Bool
  | _, [] => []
  | s, r :: rest => s.breaker.admits (s.call r) :: (s.step (s.call r)).answers rest

/-- The memory is lost. -/
def restart (s : Sys) : Sys := { s with breaker := {} }

/-- What a breaker that is open until an instant and its restarted one have in common. -/
structure Resumes (s : Sys) (until' : ℤ) (opens : ℕ) : Prop where
  /-- The row is disabled until the same instant. -/
  persisted : s.row.disabledBy = some "auto" ∧ s.row.cooldownUntil = some until'
  /-- Both refuse every request before that instant. -/
  refuses : ∀ times : List ℤ, (∀ now ∈ times, now < until') →
    s.answers (times.map .ask) = times.map (fun _ ↦ false) ∧
      s.restart.answers (times.map .ask) = times.map (fun _ ↦ false)
  /-- Asked before it, both decide alike until a probe fails, and beyond when the persisted count
  is the number of openings. -/
  follows : ∀ times : List ℤ, times ≠ [] → (∀ now ∈ times, now < until') →
    ∀ later : List Request,
      ((∀ now, .fail now ∉ later) ∨ Breaker.importedOpens s.row = opens) →
      (s.restart.after (times.map .ask)).answers later =
        (s.after (times.map .ask)).answers later
  /-- Asked before it, both let one request through from that instant on, and when that probe
  fails the restarted breaker reopens by the persisted count. -/
  reopens : ∀ times : List ℤ, times ≠ [] → (∀ now ∈ times, now < until') →
    ∀ probe failure, until' ≤ probe →
      (s.restart.after (times.map .ask)).answers [.ask probe] = [true] ∧
      ((s.after (times.map .ask)).after [.ask probe, .fail failure]).entry.state =
        some (.opened (failure + seconds (cooldownSecs opens)) (opens + 1)) ∧
      ((s.restart.after (times.map .ask)).after [.ask probe, .fail failure]).entry.state =
        some (.opened (failure + seconds (cooldownSecs (Breaker.importedOpens s.row)))
          (Breaker.importedOpens s.row + 1))
  /-- Not asked before it, the restarted breaker starts closed. -/
  closes : ∀ now, until' ≤ now → s.restart.answers [.ask now] = [true] ∧
    (s.restart.after [.ask now]).entry.state = some (.closed 0)

end Sys

/-! ### Entries that differ in their count -/

/-- Entries that are the same, but for the number of openings. -/
inductive Entry.Resembles : Entry → Entry → Prop where
  | same (e : Entry) : Resembles e e
  | opened (until' : ℤ) (opens opens' : ℕ) (since : Option ℤ) :
    Resembles ⟨some (.opened until' opens), since⟩ ⟨some (.opened until' opens'), since⟩
  | halfOpen (opens opens' : ℕ) (since : Option ℤ) :
    Resembles ⟨some (.halfOpen opens), since⟩ ⟨some (.halfOpen opens'), since⟩

theorem Entry.Resembles.allow {e e' : Entry} (h : e.Resembles e') (up : UpstreamRow) (now : ℤ) :
    (e.allow up true now).1 = (e'.allow up true now).1 ∧
      (e.allow up true now).2.Resembles (e'.allow up true now).2 := by
  unfold Entry.allow
  by_cases hdisabled : (!up.enabled || decide (up.disabledBy = some "manual")) = true
  · rw [if_pos hdisabled, if_pos hdisabled]
    exact ⟨rfl, h⟩
  have hon : ¬ (!true) = true := by simp
  rw [if_neg hdisabled, if_neg hdisabled, if_neg hon, if_neg hon]
  cases h with
  | same e => exact ⟨rfl, .same _⟩
  | opened until' opens opens' since =>
    cases Breaker.dbCooldown up now with
    | some until'' => exact ⟨rfl, .opened until' opens opens' since⟩
    | none =>
      dsimp only
      by_cases hearly : now < until'
      · rw [if_pos hearly, if_pos hearly]
        exact ⟨rfl, .opened until' opens opens' since⟩
      · rw [if_neg hearly, if_neg hearly]
        exact ⟨rfl, .halfOpen opens opens' (some now)⟩
  | halfOpen opens opens' since =>
    cases Breaker.dbCooldown up now with
    | some until'' => exact ⟨rfl, .halfOpen opens opens' since⟩
    | none =>
      dsimp only
      by_cases hstuck : Breaker.stuck since now = true
      · rw [if_pos hstuck, if_pos hstuck]
        exact ⟨rfl, .halfOpen opens opens' (some now)⟩
      · rw [if_neg hstuck, if_neg hstuck]
        exact ⟨rfl, .halfOpen opens opens' since⟩

namespace Sys

theorem call_id (s : Sys) (r : Request) : (s.call r).op.id = s.row.id := by
  cases r <;> rfl

theorem admits_call (s : Sys) (r : Request) :
    s.breaker.admits (s.call r) = s.entry.admits (s.call r) := by
  rw [Breaker.admits_eq, call_id]
  rfl

theorem answers_resembles {s s' : Sys} {later : List Request} (hrow : s.row = s'.row)
    (hentry : s.entry.Resembles s'.entry) (hlater : ∀ now, .fail now ∉ later) :
    s.answers later = s'.answers later := by
  induction later generalizing s s' with
  | nil => rfl
  | cons r rest ih =>
    have hcall : s.call r = s'.call r := by
      cases r <;> rw [call, call, hrow]
    have hstep : (s.step (s.call r)).entry = s.entry.step (s.call r) := entry_step (call_id s r)
    have hstep' : (s'.step (s'.call r)).entry = s'.entry.step (s'.call r) :=
      entry_step (call_id s' r)
    have hrest : ∀ now, .fail now ∉ rest := fun now hnow ↦ hlater now (List.mem_cons_of_mem r hnow)
    rw [answers, answers, admits_call, admits_call]
    cases r with
    | ask now =>
      obtain ⟨hadmits, hnext⟩ := hentry.allow s.row now
      refine congrArg₂ List.cons ?_ (ih ?_ ?_ hrest)
      · rw [hcall]
        show (s.entry.allow s'.row true now).1 = _
        rw [← hrow]
        exact hadmits.trans (by rw [hrow]; rfl)
      · exact hrow
      · rw [hstep, hstep', hcall]
        show Entry.Resembles (s.entry.allow s'.row true now).2 (s'.entry.allow s'.row true now).2
        rw [← hrow]
        exact hnext
    | succeed now =>
      refine congrArg₂ List.cons rfl (ih ?_ ?_ hrest)
      · show (((s.breaker.onSuccess s.row).2.map _).getD s.row) =
          ((s'.breaker.onSuccess s'.row).2.map _).getD s'.row
        rw [Breaker.onSuccess, Breaker.onSuccess, hrow]
      · rw [hstep, hstep']
        exact .same _
    | fail now => exact absurd List.mem_cons_self (hlater now)

theorem answers_same {s s' : Sys} (later : List Request) (hrow : s.row = s'.row)
    (hentry : s.entry = s'.entry) : s.answers later = s'.answers later := by
  induction later generalizing s s' with
  | nil => rfl
  | cons r rest ih =>
    have hcall : s.call r = s'.call r := by
      cases r <;> rw [call, call, hrow]
    have hstep : (s.step (s.call r)).entry = s.entry.step (s.call r) := entry_step (call_id s r)
    have hstep' : (s'.step (s'.call r)).entry = s'.entry.step (s'.call r) :=
      entry_step (call_id s' r)
    rw [answers, answers, admits_call, admits_call, hcall, hentry]
    refine congrArg (List.cons _) (ih ?_ ?_)
    · have hlookup : s.breaker.states.lookup s'.row.id = s'.breaker.states.lookup s'.row.id := by
        have hstate := congrArg Entry.state hentry
        rw [← hrow]
        exact hstate.trans (by rw [hrow]; rfl)
      have hupdate : s.breaker.dbUpdate (s'.call r) = s'.breaker.dbUpdate (s'.call r) := by
        cases r with
        | ask now => rfl
        | succeed now => rfl
        | fail now =>
          show (s.breaker.onFailure s'.row true now).2 = (s'.breaker.onFailure s'.row true now).2
          unfold Breaker.onFailure
          rw [hlookup]
          split <;> rfl
      show ((s.breaker.dbUpdate (s'.call r)).map fun update ↦ update.apply s.row).getD s.row =
        ((s'.breaker.dbUpdate (s'.call r)).map fun update ↦ update.apply s'.row).getD s'.row
      rw [hupdate, hrow]
    · rw [← hcall, hstep, hcall, hstep', hentry]

end Sys

/-! ### The restart -/

theorem Sys.Reach.good {P : Sys → Call → Prop} {row : UpstreamRow} {s : Sys} (h : Reach P row s)
    (hmanual : row.disabledBy ≠ some "manual") :
    s.entry.Good (Breaker.threshold row) := by
  induction h with
  | init now => exact Entry.good_empty _
  | @step s c hreach hreads hclock hP ih =>
    have hversion := hreach.isVersion hmanual
    rw [entry_step (hreads.id_eq hreach hmanual)]
    refine ih.step (by rw [Breaker.threshold]; omega) ?_
    intro up autoDisable hop
    obtain ⟨op, now⟩ := c
    subst hop
    rw [Breaker.threshold, (hversion up hreads).breakerThreshold, Breaker.threshold]

namespace Sys

/-- The row of an upstream that may be asked for until it is in a cooldown. -/
structure Askable (s : Sys) : Prop where
  enabled : s.row.enabled = true
  notManual : s.row.disabledBy ≠ some "manual"

theorem Askable.allow_eq {s : Sys} (h : s.Askable) (e : Entry) (now : ℤ) :
    e.allow s.row true now =
      match Breaker.dbCooldown s.row now with
      | some until' =>
        (false,
          { e with state := e.state <|> some (.opened until' (Breaker.importedOpens s.row)) })
      | none => e.allow s.row true now := by
  have hdisabled : ¬ (!s.row.enabled || decide (s.row.disabledBy = some "manual")) = true := by
    simp [h.enabled, h.notManual]
  cases hdb : Breaker.dbCooldown s.row now with
  | none => rfl
  | some until' =>
    rw [Entry.allow, if_neg hdisabled, if_neg (by simp), hdb]

theorem dbCooldown_eq {row : UpstreamRow} {until' : ℤ} (hauto : row.disabledBy = some "auto")
    (huntil : row.cooldownUntil = some until') (now : ℤ) :
    Breaker.dbCooldown row now = if now < until' then some until' else none := by
  rw [Breaker.dbCooldown, if_pos hauto, huntil]
  simp only [Option.filter_some, decide_eq_true_eq, gt_iff_lt]

/-- Before the end of the cooldown a request is refused; a breaker that has no state takes the
cooldown over. -/
theorem ask_early {s : Sys} (h : s.Askable) {until' : ℤ} (hauto : s.row.disabledBy = some "auto")
    (huntil : s.row.cooldownUntil = some until') {times : List ℤ}
    (hearly : ∀ now ∈ times, now < until') :
    s.answers (times.map .ask) = times.map (fun _ ↦ false) ∧
      (s.after (times.map .ask)).row = s.row ∧
      (s.after (times.map .ask)).entry =
        if times = [] then s.entry
        else
          { s.entry with
            state := s.entry.state <|> some (.opened until' (Breaker.importedOpens s.row)) } := by
  induction times generalizing s with
  | nil => exact ⟨rfl, rfl, rfl⟩
  | cons now rest ih =>
    have hdb : Breaker.dbCooldown s.row now = some until' := by
      rw [dbCooldown_eq hauto huntil, if_pos (hearly now List.mem_cons_self)]
    have hallow := h.allow_eq s.entry now
    rw [hdb] at hallow
    have hentry : (s.step (s.call (.ask now))).entry =
        { s.entry with
          state := s.entry.state <|> some (.opened until' (Breaker.importedOpens s.row)) } := by
      rw [entry_step (call_id s _)]
      exact congrArg Prod.snd hallow
    have hadmits : s.breaker.admits (s.call (.ask now)) = false := by
      rw [admits_call]
      exact congrArg Prod.fst hallow
    have hrow : (s.step (s.call (.ask now))).row = s.row := rfl
    obtain ⟨hanswers, hlast, hafter⟩ := @ih (s.step (s.call (.ask now)))
      ⟨h.enabled, h.notManual⟩ hauto huntil
      fun later hlater ↦ hearly later (List.mem_cons_of_mem now hlater)
    refine ⟨?_, hlast, ?_⟩
    · rw [List.map_cons, answers, hadmits, hanswers, List.map_cons]
    · rw [List.map_cons, after, List.foldl_cons, ← after, hafter, hentry, hrow,
        if_neg (List.cons_ne_nil now rest)]
      split
      · rfl
      · cases s.entry.state <;> rfl

/-- From the end of the cooldown on a probe is let through, and its failure opens again. -/
theorem probe_fails {s : Sys} (h : s.Askable) {until' : ℤ} {opens : ℕ}
    (hentry : s.entry = ⟨some (.opened until' opens), none⟩) {probe : ℤ}
    (hdb : Breaker.dbCooldown s.row probe = none) (hdue : until' ≤ probe) (failure : ℤ) :
    s.answers [.ask probe] = [true] ∧
      (s.after [.ask probe, .fail failure]).entry.state =
        some (.opened (failure + seconds (cooldownSecs opens)) (opens + 1)) := by
  have hdisabled : ¬ (!s.row.enabled || decide (s.row.disabledBy = some "manual")) = true := by
    simp [h.enabled, h.notManual]
  have hallow : s.entry.allow s.row true probe = (true, ⟨some (.halfOpen opens), some probe⟩) := by
    rw [Entry.allow, if_neg hdisabled, if_neg (by simp), hdb, hentry]
    dsimp only
    rw [if_neg (Int.not_lt.2 hdue)]
  have hhalf : (s.step (s.call (.ask probe))).entry = ⟨some (.halfOpen opens), some probe⟩ := by
    rw [entry_step (call_id s _)]
    exact congrArg Prod.snd hallow
  constructor
  · rw [answers, admits_call]
    exact congrArg (fun b : Bool × Entry ↦ [b.1]) hallow
  · show ((s.step (s.call (.ask probe))).step _).entry.state = _
    rw [entry_step (call_id _ _), hhalf]
    have hon : ¬ (s.row.disabledBy = some "manual" ∨ true = false) := by simp [h.notManual]
    show (Entry.onFailure _ s.row true failure).state = _
    unfold Entry.onFailure
    rw [if_neg hon]
    rfl

theorem Reach.resumes {row : UpstreamRow} {s : Sys} (h : Reach TakesCurrent row s)
    (henabled : row.enabled = true) (hmanual : row.disabledBy ≠ some "manual") {until' : ℤ}
    {opens : ℕ} (hstate : s.entry.state = some (.opened until' opens)) :
    s.Resumes until' opens := by
  have hversion := h.isVersion hmanual s.row List.mem_cons_self
  have haskable : s.Askable := ⟨hversion.enabled.trans henabled, hversion.notManual⟩
  have hrestarted : s.restart.Askable := ⟨haskable.enabled, haskable.notManual⟩
  have hpersisted := h.openIsPersisted hmanual _ _ hstate
  have hentry : s.entry = ⟨some (.opened until' opens), none⟩ := by
    have hsince := (h.good hmanual).since_eq_none fun ⟨k, hhalf⟩ ↦ by simp [hstate] at hhalf
    rw [← hstate, ← hsince]
  have hempty : s.restart.entry = {} := rfl
  -- both entries after requests before the end of the cooldown
  have hearly {times : List ℤ} (htimes : ∀ now ∈ times, now < until') :=
    ask_early haskable hpersisted.1 hpersisted.2 htimes
  have hearly' {times : List ℤ} (htimes : ∀ now ∈ times, now < until') :=
    ask_early hrestarted hpersisted.1 hpersisted.2 htimes
  have hopen {times : List ℤ} (htimes : ∀ now ∈ times, now < until') :
      (s.after (times.map .ask)).entry = ⟨some (.opened until' opens), none⟩ := by
    rw [(hearly htimes).2.2, hentry]
    split <;> rfl
  have hopen' {times : List ℤ} (hasked : times ≠ []) (htimes : ∀ now ∈ times, now < until') :
      (s.restart.after (times.map .ask)).entry =
        ⟨some (.opened until' (Breaker.importedOpens s.row)), none⟩ := by
    rw [(hearly' htimes).2.2, if_neg hasked, hempty]
    rfl
  have hlate {now : ℤ} (hnow : until' ≤ now) : Breaker.dbCooldown s.row now = none := by
    rw [dbCooldown_eq hpersisted.1 hpersisted.2, if_neg (Int.not_lt.2 hnow)]
  constructor
  case persisted => exact hpersisted
  case refuses => exact fun times htimes ↦ ⟨(hearly htimes).1, (hearly' htimes).1⟩
  case follows =>
    intro times hasked htimes later hlater
    have hrow : (s.restart.after (times.map .ask)).row = (s.after (times.map .ask)).row :=
      (hearly' htimes).2.1.trans (hearly htimes).2.1.symm
    rcases hlater with hlater | hcount
    · refine answers_resembles hrow ?_ hlater
      rw [hopen htimes, hopen' hasked htimes]
      exact .opened until' _ opens none
    · refine answers_same later hrow ?_
      rw [hopen htimes, hopen' hasked htimes, hcount]
  case reopens =>
    intro times hasked htimes probe failure hprobe
    have hrow := (hearly htimes).2.1
    have hrow' : (s.restart.after (times.map .ask)).row = s.row := (hearly' htimes).2.1
    have hask : (s.after (times.map .ask)).Askable :=
      ⟨hrow ▸ haskable.enabled, hrow ▸ haskable.notManual⟩
    have hask' : (s.restart.after (times.map .ask)).Askable :=
      ⟨hrow' ▸ haskable.enabled, hrow' ▸ haskable.notManual⟩
    have hmemory := probe_fails hask (hopen htimes) (hrow ▸ hlate hprobe) hprobe failure
    have hrestart := probe_fails hask' (hopen' hasked htimes) (hrow' ▸ hlate hprobe) hprobe failure
    exact ⟨hrestart.1, hmemory.2, hrestart.2⟩
  case closes =>
    intro now hnow
    have hdisabled : ¬ (!s.row.enabled || decide (s.row.disabledBy = some "manual")) = true := by
      simp [haskable.enabled, haskable.notManual]
    have hallow : s.restart.entry.allow s.restart.row true now =
        (true, ⟨some (.closed 0), none⟩) := by
      rw [hempty]
      show Entry.allow {} s.row true now = _
      rw [Entry.allow, if_neg hdisabled, if_neg (by simp), hlate hnow]
    constructor
    · rw [answers, admits_call]
      exact congrArg (fun b : Bool × Entry ↦ [b.1]) hallow
    · show (s.restart.step (s.restart.call (.ask now))).entry.state = _
      rw [entry_step (call_id _ _)]
      exact congrArg (fun b : Bool × Entry ↦ b.2.state) hallow

end Sys

namespace Sys

/-- Five failures open the breaker of the sample. -/
def firstOpening : Sys :=
  after { row := sampleRow, clock := 0 } (List.replicate 5 (.fail 0))

/-- A failure of the row as it is can be added to a run, unless it comes on a forgotten upstream in
its cooldown. -/
theorem Reach.fail {row : UpstreamRow} {s : Sys} {now : ℤ} (h : Reach Current row s)
    (hclock : s.clock ≤ now)
    (hcooldown : s.entry.state = none → Breaker.dbCooldown s.row now = none) :
    Reach Current row (s.step (s.call (.fail now))) := by
  refine .step h List.mem_cons_self hclock ⟨?_, ?_, ?_⟩
  · intro up autoDisable hop
    exact absurd hop (by simp [call])
  · intro up hop
    exact absurd hop (by simp [call])
  · intro up autoDisable hop
    exact hcooldown

theorem reach_firstOpening : Reach Current sampleRow firstOpening := by
  have hfirst : Reach Current sampleRow { row := sampleRow, clock := 0 } := .init 0
  refine Reach.fail (Reach.fail (Reach.fail (Reach.fail (Reach.fail hfirst ?_ ?_) ?_ ?_) ?_ ?_)
    ?_ ?_) ?_ ?_
  all_goals decide

end Sys

end NextApi.Routing
