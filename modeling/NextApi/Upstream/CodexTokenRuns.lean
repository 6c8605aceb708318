import NextApi.Upstream.CodexToken

/-!
# The tokens of a Codex upstream over runs

A refresh token may be presented once (`NeverReused`), the column has the newest credential as soon
as nobody is about to store one, and the snapshot has it once all calls have returned (`Sound`).

The lock keeps the requests apart, but an administrator's refresh does not take it, and a reload
that has read the column before a credential was stored may put the last one back into the snapshot
after that. `soundRun_of_orderly` says that nothing else can go wrong: a run is sound in all its
states when a credential is taken for a refresh only while it is the one in the database and nobody
else is refreshing it, and no reload puts an older reading in place than a store that has returned.
-/

set_option autoImplicit false

namespace NextApi.Upstream.Token

open Cache

/-! ### Properties -/

namespace State

/-- No credential is being refreshed. -/
def Quiet (s : State) : Prop := ∀ c stage, s.calls.lookup c = some stage → ¬ stage.Busy

/-- All calls have returned. -/
def AllDone (s : State) : Prop :=
  ∀ c stage, s.calls.lookup c = some stage → ∃ outcome, stage = .done outcome

/-- A credential has been stored, or a call is about to store it. -/
def Kept (s : State) (o : CodexOAuth) : Prop :=
  (∃ n, n ≤ s.mirror.latest ∧ s.mirror.versions n () = some o) ∨
    ∃ c, s.calls.lookup c = some (.storing o)

/-- No refresh token is presented after it was accepted. -/
def NeverReused (s : State) : Prop :=
  ∀ before token after, s.presented = before ++ (token, true) :: after →
    ∀ p ∈ after, p.1 ≠ token

/-- No refresh token is used twice, the newest credential is where it belongs, and no credential is
lost. -/
structure Sound (s : State) : Prop where
  neverReused : s.NeverReused
  newestStored : (∀ c next, s.calls.lookup c ≠ some (.storing next)) → s.stored = some s.newest
  newestShown : s.AllDone → s.stored = some s.newest ∧ s.shown = some s.newest
  kept : ∀ o ∈ s.newest :: s.earlier, s.Kept o

/-- A credential may be taken for a refresh: it is the one in the database, and nobody else is
refreshing it. -/
def Ready (s : State) : Prop := s.Quiet ∧ s.shown = s.stored

/-- A credential is taken for a refresh only when it may be, and no reload puts an older reading in
place than a store that has returned. -/
def Orderly (s : State) : Action → Prop
  | .refreshOauth c => s.calls.lookup c = none → s.Ready
  | .recheck c now => s.calls.lookup c = some .locked →
      (∃ o, s.shown = some o ∧ current o now = false) → s.Ready
  | .swap c => s.mirror.Timely (.swap c)
  | _ => True

end State

/-! ### The steps -/

/-- A call that has not yet taken a credential to refresh it. -/
def Stage.Early : Stage → Prop
  | .checking _ | .waiting | .locked => True
  | _ => False

/-- Neither on its way to a new credential nor reloading. -/
def Stage.Idle (stage : Stage) : Prop := stage.Early ∨ ∃ outcome, stage = .done outcome

theorem Stage.Idle.not_busy {stage : Stage} (h : stage.Idle) : ¬ stage.Busy := by
  intro hbusy
  rcases h with h | ⟨outcome, rfl⟩
  · cases stage with
    | checking | waiting | locked | done => exact hbusy
    | refreshing | storing | reloading => exact h
  · exact hbusy

namespace State

variable [Jwt] {P : Provider}

/-- A call is new, or has not yet taken a credential. -/
def Open (s : State) (c : ℕ) : Prop := ∀ stage, s.calls.lookup c = some stage → stage.Early

omit [Jwt] in
theorem open_of_none {s : State} {c : ℕ} (h : s.calls.lookup c = none) : s.Open c := by
  intro stage hstage
  rw [h] at hstage
  exact nomatch hstage

omit [Jwt] in
theorem open_of_early {s : State} {c : ℕ} {stage : Stage} (h : s.calls.lookup c = some stage)
    (hearly : stage.Early) : s.Open c := by
  intro stage' hstage
  rw [h] at hstage
  rw [← Option.some.inj hstage]
  exact hearly

/-- What an action does. -/
inductive Effect (P : Provider) (s : State) : Action → State → Prop
  | none {a : Action} : Effect P s a s
  | idle {a : Action} {c : ℕ} {stage : Stage} {lock : Option ℕ} : s.Open c → stage.Idle →
      Effect P s a { s.move c stage with lock := lock }
  | refresh {c : ℕ} {o : CodexOAuth} : s.calls.lookup c = none → s.shown = some o →
      Effect P s (.refreshOauth c) (s.move c (.refreshing o))
  | take {c : ℕ} {now : ℤ} {o : CodexOAuth} : s.calls.lookup c = some .locked →
      s.shown = some o → current o now = false →
      Effect P s (.recheck c now) (s.move c (.refreshing o))
  | reload {c : ℕ} : s.calls.lookup c = none → Effect P s (.reload c)
      { s.move c (.reloading none) with mirror := s.mirror.commit [()] c noChange }
  | exchange {c : ℕ} {now : ℤ} {o : CodexOAuth} : s.calls.lookup c = some (.refreshing o) →
      Effect P s (.exchange c now) (s.present P c o now)
  | store {c : ℕ} {next : CodexOAuth} : s.calls.lookup c = some (.storing next) →
      Effect P s (.store c) { s.move c (.reloading (some next)) with
        mirror := s.mirror.commit [()] c (setCredential next) }
  | read {c : ℕ} : Effect P s (.read c) { s with mirror := s.mirror.step [()] (.read c) }
  | swap {c : ℕ} {next : Option CodexOAuth} {x : Mirror.Writer Column} :
      s.calls.lookup c = some (.reloading next) → s.mirror.writers.lookup c = some x →
      x.rest = [] → Effect P s (.swap c)
        { s.finish c (next.map fun o ↦ .ok (tokens o)) with mirror := s.mirror.swap c x }

omit [Jwt] in
theorem idle_done (outcome : Option Outcome) : (Stage.done outcome).Idle := Or.inr ⟨_, rfl⟩

theorem effect_step (s : State) (a : Action) : Effect P s a (s.step P a) := by
  cases a with
  | ensureToken c =>
    rw [step]
    split
    · next h => exact .idle (open_of_none h) (Or.inl trivial)
    · exact .none
  | refreshOauth c =>
    rw [step]
    split
    · next o h ho => exact .refresh h ho
    · next h _ => exact .idle (open_of_none h) (idle_done _)
    · exact .none
  | reload c =>
    rw [step]
    split
    · next h => exact .reload h
    · exact .none
  | check c now =>
    rw [step]
    split
    · next h => exact .idle (open_of_early h trivial) (idle_done _)
    · next held h =>
      split
      · exact .idle (open_of_early h trivial) (idle_done _)
      · exact .idle (open_of_early h trivial) (Or.inl trivial)
    · exact .none
  | acquire c =>
    rw [step]
    split
    · next h _ => exact .idle (open_of_early h trivial) (Or.inl trivial)
    · exact .none
  | recheck c now =>
    rw [step]
    split
    · next h _ => exact .idle (open_of_early h trivial) (idle_done _)
    · next o h ho =>
      split
      · exact .idle (open_of_early h trivial) (idle_done _)
      · next hold => exact .take h ho (Bool.eq_false_iff.2 hold)
    · exact .none
  | exchange c now =>
    rw [step]
    split
    · next o h => exact .exchange h
    · exact .none
  | store c =>
    rw [step]
    split
    · next next h => exact .store h
    · exact .none
  | read c => exact .read
  | swap c =>
    rw [step]
    split
    · next next x h hx =>
      split
      · next hrest => exact .swap h hx (List.isEmpty_iff.1 hrest)
      · exact .none
    · exact .none

/-! ### The invariant -/

/-- One credential at most is being refreshed, it is the newest one, and the reloads of the calls
are the writers of the column. -/
structure Inv (P : Provider) (s : State) : Prop where
  mirror : s.mirror.Inv [()]
  fresh : s.mirror.Fresh
  writer {c : ℕ} {x : Mirror.Writer Column} : s.mirror.writers.lookup c = some x →
    (∃ next, s.calls.lookup c = some (.reloading next) ∧ x.returned = false) ∨
    ((∃ outcome, s.calls.lookup c = some (.done outcome)) ∧ x.returned = true)
  single {c d : ℕ} {stage other : Stage} : s.calls.lookup c = some stage → stage.Busy →
    s.calls.lookup d = some other → other.Busy → c = d
  live : s.newest.refreshToken = P.token s.refreshes
  taken {c : ℕ} {o : CodexOAuth} : s.calls.lookup c = some (.refreshing o) → o = s.newest
  held {c : ℕ} {next : CodexOAuth} : s.calls.lookup c = some (.storing next) → next = s.newest
  storedNewest : (∀ c next, s.calls.lookup c ≠ some (.storing next)) → s.stored = some s.newest
  log : s.presented = (List.range s.refreshes).map fun n ↦ (P.token n, true)
  kept : ∀ o ∈ s.newest :: s.earlier, s.Kept o

omit [Jwt] in
theorem inv_start (P : Provider) : (start P).Inv P where
  mirror := Mirror.State.inv_start _
  fresh := Mirror.State.fresh_start _
  writer h := absurd h (by simp [start, Mirror.State.start])
  single h := absurd h (by simp [start])
  live := P.token_zero.symm
  taken h := absurd h (by simp [start])
  held h := absurd h (by simp [start])
  storedNewest _ := rfl
  log := rfl
  kept o ho := by
    rw [List.mem_singleton.1 ho]
    exact Or.inl ⟨0, Nat.le_refl _, rfl⟩

omit [Jwt] in
/-- A call that does not reload is no writer of the column. -/
theorem writer_none {s : State} (h : s.Inv P) {c : ℕ}
    (hreloading : ∀ next, s.calls.lookup c ≠ some (.reloading next))
    (hdone : ∀ outcome, s.calls.lookup c ≠ some (.done outcome)) :
    s.mirror.writers.lookup c = none := by
  cases hx : s.mirror.writers.lookup c with
  | none => rfl
  | some x =>
    rcases h.writer hx with ⟨next, hnext, -⟩ | ⟨⟨outcome, houtcome⟩, -⟩
    · exact absurd hnext (hreloading next)
    · exact absurd houtcome (hdone outcome)

omit [Jwt] in
/-- A writer is where it was after a call that is none has moved. -/
theorem lookup_of_writer {s : State} {c d : ℕ} {x : Mirror.Writer Column} (stage : Stage)
    (hc : s.mirror.writers.lookup c = none) (hx : s.mirror.writers.lookup d = some x) :
    (s.calls.insert c stage).lookup d = s.calls.lookup d := by
  rw [Table.lookup_insert, if_neg]
  rintro rfl
  rw [hc] at hx
  exact nomatch hx

omit [Jwt] in
/-- Once all calls have returned, the snapshot has the credential of the database. -/
theorem shown_eq_stored {s : State} (h : s.Inv P) (hdone : s.AllDone) : s.shown = s.stored := by
  refine Mirror.State.copy_eq_store h.mirror h.fresh ?_ ()
  intro c x hx
  rcases h.writer hx with ⟨next, hnext, -⟩ | ⟨-, hreturned⟩
  · obtain ⟨outcome, houtcome⟩ := hdone c _ hnext
    exact nomatch houtcome
  · exact hreturned

omit [Jwt] in
theorem stored_of_quiet {s : State} (h : s.Inv P) (hquiet : s.Quiet) :
    s.stored = some s.newest := by
  refine h.storedNewest ?_
  intro c next hnext
  exact hquiet c _ hnext trivial

omit [Jwt] in
/-- A credential that is being stored is still being stored after another call has moved. -/
theorem kept_move {s : State} {o : CodexOAuth} (h : s.Kept o) {c : ℕ} (stage : Stage)
    (hc : ∀ next, s.calls.lookup c ≠ some (.storing next)) : (s.move c stage).Kept o := by
  rcases h with hversion | ⟨d, hd⟩
  · exact Or.inl hversion
  · refine Or.inr ⟨d, ?_⟩
    rw [move, Table.lookup_insert, if_neg]
    · exact hd
    · rintro rfl
      exact hc o hd

omit [Jwt] in
theorem inv_idle {s : State} (h : s.Inv P) {c : ℕ} (hopen : s.Open c) {stage : Stage}
    (hidle : stage.Idle) (lock : Option ℕ) :
    Inv P { s.move c stage with lock := lock } := by
  have hno : ∀ other, s.calls.lookup c = some other → other.Early := hopen
  have hwriter := writer_none h (fun next hnext ↦ hno _ hnext) (fun outcome hdone ↦ hno _ hdone)
  have hold : ∀ {d other}, (s.calls.insert c stage).lookup d = some other → other.Busy →
      s.calls.lookup d = some other := by
    intro d other hd hbusy
    rcases Table.lookup_insert_cases hd with ⟨-, rfl⟩ | ⟨-, hd⟩
    · exact absurd hbusy hidle.not_busy
    · exact hd
  refine ⟨h.mirror, h.fresh, ?_, ?_, h.live, ?_, ?_, ?_, h.log, ?_⟩
  · intro d x hx
    have hsame : (s.calls.insert c stage).lookup d = s.calls.lookup d :=
      lookup_of_writer _ hwriter hx
    rw [move, hsame]
    exact h.writer hx
  · intro d e other other' hd hbusy he hbusy'
    exact h.single (hold hd hbusy) hbusy (hold he hbusy') hbusy'
  · intro d o hd
    exact h.taken (hold hd trivial)
  · intro d next hd
    exact h.held (hold hd trivial)
  · intro hstoring
    refine h.storedNewest ?_
    intro d next hd
    refine hstoring d next ?_
    have hne : c ≠ d := by
      rintro rfl
      exact hno _ hd
    rw [move, Table.lookup_insert, if_neg hne]
    exact hd
  · intro o ho
    exact kept_move (h.kept o ho) stage (fun next hnext ↦ hno _ hnext)

omit [Jwt] in
/-- A credential is taken while no other one is being refreshed. -/
theorem inv_take {s : State} (h : s.Inv P) {c : ℕ} (hopen : s.Open c) (hready : s.Ready)
    {o : CodexOAuth} (ho : s.shown = some o) : (s.move c (.refreshing o)).Inv P := by
  obtain ⟨hquiet, hshown⟩ := hready
  have hno : ∀ other, s.calls.lookup c = some other → other.Early := hopen
  have hwriter := writer_none h (fun next hnext ↦ hno _ hnext) (fun outcome hdone ↦ hno _ hdone)
  have hnewest : o = s.newest := by
    rw [hshown, stored_of_quiet h hquiet] at ho
    exact (Option.some.inj ho).symm
  have hbusyAt : ∀ {d other}, (s.calls.insert c (.refreshing o)).lookup d = some other →
      other.Busy → d = c ∧ other = .refreshing o := by
    intro d other hd hbusy
    rcases Table.lookup_insert_cases hd with heq | ⟨-, hd⟩
    · exact heq
    · exact absurd hbusy (hquiet d other hd)
  have hstored : s.stored = some s.newest := stored_of_quiet h hquiet
  refine ⟨h.mirror, h.fresh, ?_, ?_, h.live, ?_, ?_, fun _ ↦ hstored, h.log, ?_⟩
  · intro d x hx
    have hsame : (s.calls.insert c (.refreshing o)).lookup d = s.calls.lookup d :=
      lookup_of_writer _ hwriter hx
    rw [move, hsame]
    exact h.writer hx
  · intro d e other other' hd hbusy he hbusy'
    rw [(hbusyAt hd hbusy).1, (hbusyAt he hbusy').1]
  · intro d o' hd
    rw [Stage.refreshing.inj (hbusyAt hd trivial).2]
    exact hnewest
  · intro d next hd
    exact nomatch (hbusyAt hd trivial).2
  · intro o' ho'
    exact kept_move (h.kept o' ho') _ (fun next hnext ↦ hno _ hnext)

/-- The refresh token of the newest credential is accepted. -/
theorem present_eq {s : State} (h : s.Inv P) {c : ℕ} {o : CodexOAuth}
    (hc : s.calls.lookup c = some (.refreshing o)) (now : ℤ) :
    ∃ next, next.refreshToken = P.token (s.refreshes + 1) ∧
      s.present P c o now =
        { s with
          calls := s.calls.insert c (.storing next)
          refreshes := s.refreshes + 1
          presented := s.presented ++ [(P.token s.refreshes, true)]
          newest := next
          earlier := s.newest :: s.earlier } := by
  have htoken : o.refreshToken = P.token s.refreshes := by
    rw [h.taken hc]
    exact h.live
  obtain ⟨next, hnext, hrefresh⟩ := P.refreshed s.refreshes o now
  refine ⟨next, hrefresh, ?_⟩
  rw [present, if_pos htoken, hnext, htoken]
  rfl

theorem inv_exchange {s : State} (h : s.Inv P) {c : ℕ} {o : CodexOAuth}
    (hc : s.calls.lookup c = some (.refreshing o)) (now : ℤ) : (s.present P c o now).Inv P := by
  obtain ⟨next, htoken, heq⟩ := present_eq h hc now
  rw [heq]
  have hwriter := writer_none h (c := c) (by rw [hc]; simp) (by rw [hc]; simp)
  -- No other call is busy.
  have hbusyAt : ∀ {d other}, (s.calls.insert c (.storing next)).lookup d = some other →
      other.Busy → d = c ∧ other = .storing next := by
    intro d other hd hbusy
    rcases Table.lookup_insert_cases hd with hsame | ⟨hne, hd⟩
    · exact hsame
    · exact absurd (h.single hd hbusy hc trivial) hne
  refine ⟨h.mirror, h.fresh, ?_, ?_, htoken, ?_, ?_, ?_, ?_, ?_⟩
  · intro d x hx
    have hsame : (s.calls.insert c (.storing next)).lookup d = s.calls.lookup d :=
      lookup_of_writer _ hwriter hx
    dsimp only
    rw [hsame]
    exact h.writer hx
  · intro d e other other' hd hbusy he hbusy'
    rw [(hbusyAt hd hbusy).1, (hbusyAt he hbusy').1]
  · intro d o' hd
    exact nomatch (hbusyAt hd trivial).2
  · intro d next' hd
    exact Stage.storing.inj (hbusyAt hd trivial).2
  · intro hstoring
    refine absurd ?_ (hstoring c next)
    rw [Table.lookup_insert, if_pos rfl]
  · rw [h.log, List.range_succ, List.map_append]
    rfl
  · intro o' ho'
    rw [List.mem_cons] at ho'
    rcases ho' with rfl | ho'
    · refine Or.inr ⟨c, ?_⟩
      rw [Table.lookup_insert, if_pos rfl]
    · exact kept_move (h.kept o' ho') _ (by rw [hc]; simp)

omit [Jwt] in
theorem stored_commit (s : State) (c : ℕ) (change : Mirror.Change Column) :
    (s.mirror.commit [()] c change).store () = change.apply s.mirror.store () := by
  rw [Mirror.State.store, Mirror.State.commit]
  dsimp only
  rw [Function.update_self]

omit [Jwt] in
theorem kept_commit {s : State} {o : CodexOAuth} (h : s.Kept o) {c : ℕ}
    (change : Mirror.Change Column) {calls : Table ℕ Stage}
    (hcalls : ∀ d, s.calls.lookup d = some (.storing o) →
      calls.lookup d = some (.storing o) ∨
        change.apply s.mirror.store () = some o) :
    Kept { s with calls := calls, mirror := s.mirror.commit [()] c change } o := by
  rcases h with ⟨n, hn, hversion⟩ | ⟨d, hd⟩
  · refine Or.inl ⟨n, Nat.le_succ_of_le hn, ?_⟩
    dsimp only
    rw [Mirror.State.versions_commit _ _ _ hn]
    exact hversion
  · rcases hcalls d hd with hcall | hstore
    · exact Or.inr ⟨d, hcall⟩
    · exact Or.inl ⟨s.mirror.latest + 1, Nat.le_refl _, (stored_commit s c change).trans hstore⟩

omit [Jwt] in
theorem inv_reload {s : State} (h : s.Inv P) {c : ℕ} (hc : s.calls.lookup c = none) :
    Inv P { s.move c (.reloading none) with mirror := s.mirror.commit [()] c noChange } := by
  have hwriter := writer_none h (c := c) (by rw [hc]; simp) (by rw [hc]; simp)
  have hold : ∀ {d other}, (s.calls.insert c (.reloading none)).lookup d = some other →
      other.Busy → s.calls.lookup d = some other := by
    intro d other hd hbusy
    rcases Table.lookup_insert_cases hd with ⟨-, rfl⟩ | ⟨-, hd⟩
    · exact absurd hbusy id
    · exact hd
  have hnew : ∀ {d other}, s.calls.lookup d = some other →
      (s.calls.insert c (.reloading none)).lookup d = some other := by
    intro d other hd
    rw [Table.lookup_insert, if_neg]
    · exact hd
    · rintro rfl
      rw [hc] at hd
      exact nomatch hd
  refine ⟨Mirror.State.inv_commit h.mirror hwriter, Mirror.State.fresh_commit h.fresh c noChange,
    ?_, ?_, h.live, ?_, ?_, ?_, h.log, ?_⟩
  · intro d x hx
    rcases Table.lookup_insert_cases hx with ⟨rfl, rfl⟩ | ⟨-, hx⟩
    · refine Or.inl ⟨none, ?_, rfl⟩
      rw [move, Table.lookup_insert, if_pos rfl]
    · rcases h.writer hx with ⟨next, hnext, hrest⟩ | ⟨⟨outcome, hdone⟩, hreturned⟩
      · exact Or.inl ⟨next, hnew hnext, hrest⟩
      · exact Or.inr ⟨⟨outcome, hnew hdone⟩, hreturned⟩
  · intro d e other other' hd hbusy he hbusy'
    exact h.single (hold hd hbusy) hbusy (hold he hbusy') hbusy'
  · intro d o hd
    exact h.taken (hold hd trivial)
  · intro d next hd
    exact h.held (hold hd trivial)
  · intro hstoring
    have hbefore : s.stored = some s.newest :=
      h.storedNewest fun d next hd ↦ hstoring d next (hnew hd)
    exact (stored_commit s c noChange).trans hbefore
  · intro o ho
    exact kept_commit (h.kept o ho) noChange fun d hd ↦ Or.inl (hnew hd)

omit [Jwt] in
theorem inv_store {s : State} (h : s.Inv P) {c : ℕ} {next : CodexOAuth}
    (hc : s.calls.lookup c = some (.storing next)) :
    Inv P { s.move c (.reloading (some next)) with
      mirror := s.mirror.commit [()] c (setCredential next) } := by
  have hwriter := writer_none h (c := c) (by rw [hc]; simp) (by rw [hc]; simp)
  have hnewest := h.held hc
  have hquiet : ∀ {d other}, (s.calls.insert c (.reloading (some next))).lookup d = some other →
      ¬ other.Busy := by
    intro d other hd hbusy
    rcases Table.lookup_insert_cases hd with ⟨-, rfl⟩ | ⟨hne, hd⟩
    · exact hbusy
    · exact absurd (h.single hd hbusy hc trivial) hne
  have hnew : ∀ {d other}, s.calls.lookup d = some other → d ≠ c →
      (s.calls.insert c (.reloading (some next))).lookup d = some other := by
    intro d other hd hne
    rw [Table.lookup_insert, if_neg (Ne.symm hne)]
    exact hd
  have hstore : (setCredential next).apply s.mirror.store () = some next := by
    rw [Mirror.Change.apply, if_pos (by exact List.mem_singleton_self _)]
    rfl
  refine ⟨Mirror.State.inv_commit h.mirror hwriter, Mirror.State.fresh_commit h.fresh c _,
    ?_, ?_, h.live, ?_, ?_, ?_, h.log, ?_⟩
  · intro d x hx
    rcases Table.lookup_insert_cases hx with ⟨rfl, rfl⟩ | ⟨hne, hx⟩
    · refine Or.inl ⟨some next, ?_, rfl⟩
      rw [move, Table.lookup_insert, if_pos rfl]
    · rcases h.writer hx with ⟨next', hnext, hrest⟩ | ⟨⟨outcome, hdone⟩, hreturned⟩
      · exact Or.inl ⟨next', hnew hnext hne, hrest⟩
      · exact Or.inr ⟨⟨outcome, hnew hdone hne⟩, hreturned⟩
  · intro d e other other' hd hbusy he hbusy'
    exact absurd hbusy (hquiet hd)
  · intro d o hd
    exact absurd trivial (hquiet hd)
  · intro d next' hd
    exact absurd trivial (hquiet hd)
  · intro _
    rw [stored, stored_commit, hstore, hnewest]
    rfl
  · intro o ho
    refine kept_commit (h.kept o ho) _ ?_
    intro d hd
    by_cases hdc : d = c
    · rw [hdc, hc] at hd
      rw [hstore, Stage.storing.inj (Option.some.inj hd)]
      exact Or.inr rfl
    · exact Or.inl (hnew hd hdc)

omit [Jwt] in
/-- A read changes nothing but what its reload has read. -/
theorem inv_read {s : State} (h : s.Inv P) (c : ℕ) :
    Inv P { s with mirror := s.mirror.step [()] (.read c) } := by
  rcases Mirror.State.step_cases [()] s.mirror (.read c) with heq | ⟨w, change, ha, -, -⟩ |
    ⟨w, x, i, rest, -, hx, hrest, heq⟩ | ⟨w, x, ha, -, -, -, -⟩
  · rw [heq]
    exact h
  · exact nomatch ha
  · rw [heq]
    refine ⟨Mirror.State.inv_read h.mirror hx hrest, Mirror.State.fresh_read h.fresh hx i rest, ?_,
      h.single, h.live, h.taken, h.held, h.storedNewest, h.log, h.kept⟩
    intro d y hy
    rcases Table.lookup_insert_cases hy with ⟨rfl, rfl⟩ | ⟨-, hy⟩
    · have hwriter := h.writer hx
      exact hwriter
    · exact h.writer hy
  · exact nomatch ha

omit [Jwt] in
theorem inv_swap {s : State} (h : s.Inv P) {c : ℕ} {next : Option CodexOAuth}
    {x : Mirror.Writer Column} (hc : s.calls.lookup c = some (.reloading next))
    (hx : s.mirror.writers.lookup c = some x) (hrest : x.rest = [])
    (htimely : s.mirror.Timely (.swap c)) (outcome : Option Outcome) :
    Inv P { s.finish c outcome with mirror := s.mirror.swap c x } := by
  have hreturned : x.returned = false := by
    rcases h.writer hx with ⟨-, -, hreturned⟩ | ⟨⟨done, hdone⟩, -⟩
    · exact hreturned
    · rw [hc] at hdone
      exact nomatch hdone
  have hfresh : (s.mirror.swap c x).Fresh :=
    (Mirror.State.fresh_swap_iff h.mirror (fun i ↦ List.mem_singleton_self i) hx hrest
      hreturned).2 htimely
  have hold : ∀ {d other}, (s.calls.insert c (.done outcome)).lookup d = some other →
      other.Busy → s.calls.lookup d = some other := by
    intro d other hd hbusy
    rcases Table.lookup_insert_cases hd with ⟨-, rfl⟩ | ⟨-, hd⟩
    · exact absurd hbusy id
    · exact hd
  have hnew : ∀ {d other}, s.calls.lookup d = some other → d ≠ c →
      (s.calls.insert c (.done outcome)).lookup d = some other := by
    intro d other hd hne
    rw [Table.lookup_insert, if_neg (Ne.symm hne)]
    exact hd
  refine ⟨Mirror.State.inv_swap h.mirror hx, hfresh, ?_, ?_, h.live, ?_, ?_, ?_, h.log, ?_⟩
  · intro d y hy
    rcases Table.lookup_insert_cases hy with ⟨rfl, rfl⟩ | ⟨hne, hy⟩
    · refine Or.inr ⟨⟨outcome, ?_⟩, rfl⟩
      rw [finish, Table.lookup_insert, if_pos rfl]
    · rcases h.writer hy with ⟨next', hnext, hrest⟩ | ⟨⟨done, hdone⟩, hreturned⟩
      · exact Or.inl ⟨next', hnew hnext hne, hrest⟩
      · exact Or.inr ⟨⟨done, hnew hdone hne⟩, hreturned⟩
  · intro d e other other' hd hbusy he hbusy'
    exact h.single (hold hd hbusy) hbusy (hold he hbusy') hbusy'
  · intro d o hd
    exact h.taken (hold hd trivial)
  · intro d next' hd
    exact h.held (hold hd trivial)
  · intro hstoring
    have hbefore : s.stored = some s.newest := by
      refine h.storedNewest ?_
      intro d next' hd
      refine hstoring d next' (hnew hd ?_)
      rintro rfl
      rw [hc] at hd
      exact nomatch hd
    exact hbefore
  · intro o ho
    exact kept_move (h.kept o ho) (.done outcome) (by rw [hc]; simp)

/-- An orderly action keeps the invariant. -/
theorem inv_step {s : State} (h : s.Inv P) {a : Action} (ha : s.Orderly a) :
    (s.step P a).Inv P := by
  have heffect : Effect P s a (s.step P a) := effect_step s a
  generalize s.step P a = after at heffect ⊢
  cases heffect with
  | none => exact h
  | idle hopen hidle => exact inv_idle h hopen hidle _
  | refresh hc ho => exact inv_take h (open_of_none hc) (ha hc) ho
  | take hc ho hold => exact inv_take h (open_of_early hc trivial) (ha hc ⟨_, ho, hold⟩) ho
  | reload hc => exact inv_reload h hc
  | exchange hc => exact inv_exchange h hc _
  | store hc => exact inv_store h hc
  | read => exact inv_read h _
  | swap hc hx hrest => exact inv_swap h hc hx hrest ha _

/-! ### Soundness -/

omit [Jwt] in
/-- Every refresh token is presented at most once. -/
theorem neverReused_of_inv {s : State} (h : s.Inv P) : s.NeverReused := by
  intro before token after hlog p hp heq
  have hnodup : (s.presented.map Prod.fst).Nodup := by
    rw [h.log, List.map_map]
    exact List.nodup_range.map fun _ _ heq ↦ P.distinct heq
  rw [hlog, List.map_append, List.map_cons] at hnodup
  have hnot := (List.nodup_cons.1 (List.nodup_append.1 hnodup).2.1).1
  have hmem := List.mem_map_of_mem (f := Prod.fst) hp
  rw [heq] at hmem
  exact hnot hmem

omit [Jwt] in
theorem sound_of_inv {s : State} (h : s.Inv P) : s.Sound where
  neverReused := neverReused_of_inv h
  newestStored := h.storedNewest
  newestShown hdone := by
    have hquiet : s.Quiet := by
      intro c stage hc
      obtain ⟨outcome, rfl⟩ := hdone c stage hc
      exact id
    refine ⟨stored_of_quiet h hquiet, ?_⟩
    rw [shown_eq_stored h hdone]
    exact stored_of_quiet h hquiet
  kept := h.kept

/-! ### Runs -/

/-- Every state of a run is sound. -/
def SoundRun (P : Provider) (actions : List Action) : Prop :=
  ∀ before after, actions = before ++ after → ((start P).run P before).Sound

/-- Every action of a run is orderly. -/
def OrderlyRun (P : Provider) (s : State) (actions : List Action) : Prop :=
  ∀ before a after, actions = before ++ a :: after → (s.run P before).Orderly a

theorem orderlyRun_nil (s : State) : s.OrderlyRun P [] :=
  Transition.eachStep_nil


theorem orderlyRun_cons {s : State} {a : Action} {actions : List Action} (ha : s.Orderly a)
    (h : (s.step P a).OrderlyRun P actions) : s.OrderlyRun P (a :: actions) :=
  (@Transition.eachStep_cons _ _ (step P) Orderly s a actions).2 ⟨ha, h⟩


/-- No refresh token is used twice, and no credential is lost, over a run in which a credential is
taken for a refresh only while it is the one in the database and nobody else is refreshing it, and
no reload brings back what was there before a store that has returned. -/
theorem soundRun_of_orderly (P : Provider) (actions : List Action)
    (h : (start P).OrderlyRun P actions) : SoundRun P actions := by
  rintro before after rfl
  have hbefore := (@Transition.eachStep_append _ _ (step P) Orderly _ before after).1 h
  exact sound_of_inv (@Transition.run_of_eachStep _ _ (step P) Orderly (Inv P)
    (fun _ _ ha hinv ↦ inv_step hinv ha) _ before hbefore.1 (inv_start P))

end State

/-! ### A refresh by an administrator, and a slow reload -/

namespace State

@[reducible] def noClaims : Jwt where
  accountId _ := none
  exp _ := none

/-- The refresh tokens are `r`, `rr`, and so on. -/
def rToken (n : ℕ) : String := String.ofList (List.replicate (n + 1) 'r')

def rProvider : Provider where
  first := ⟨"at", "r", 0, "acct"⟩
  token := rToken
  answer n := Json.Value.object
    [("access_token", .str "at"), ("refresh_token", .str (rToken (n + 1))), ("expires_in", .int 60)]
  refusal := (400, "invalid_grant")
  token_zero := rfl
  issues n := rfl
  present n := by simp [rToken, List.replicate_succ]
  access n := ⟨"at", rfl⟩
  distinct {m n} h := by
    have hlength := congrArg List.length (String.ofList_injective h)
    rw [List.length_replicate, List.length_replicate] at hlength
    exact Nat.succ.inj hlength

/-- A request refreshes the credential. -/
def refresh (c : ℕ) : List Action :=
  [.ensureToken c, .check c 1000, .acquire c, .recheck c 1000, .exchange c 1000, .store c, .read c,
    .swap c]

/-- A call alone is orderly. -/
theorem orderlyRun_refresh : @OrderlyRun noClaims rProvider (start rProvider) (refresh 0) := by
  let _ := noClaims
  refine orderlyRun_cons trivial (orderlyRun_cons trivial (orderlyRun_cons trivial
    (orderlyRun_cons ?_ (orderlyRun_cons trivial (orderlyRun_cons trivial (orderlyRun_cons trivial
      (orderlyRun_cons ?_ (orderlyRun_nil _))))))))
  · intro hlocked _
    refine ⟨?_, rfl⟩
    intro d stage hd
    have hkeys := Table.mem_keys_of_lookup hd
    obtain rfl := List.mem_singleton.1 hkeys
    rw [hlocked] at hd
    rw [← Option.some.inj hd]
    exact id
  · intro x hx _ hreturned d y hy hyreturned
    have hkeys := Table.mem_keys_of_lookup hy
    obtain rfl := List.mem_singleton.1 hkeys
    rw [hx] at hy
    rw [← Option.some.inj hy, hreturned] at hyreturned
    exact absurd hyreturned Bool.false_ne_true

theorem soundRun_refresh : @SoundRun noClaims rProvider (refresh 0) :=
  @soundRun_of_orderly noClaims rProvider (refresh 0) orderlyRun_refresh

/-- An administrator refreshes the credential while a request does. -/
def bothRefresh : List Action :=
  [.ensureToken 0, .check 0 1000, .acquire 0, .recheck 0 1000, .refreshOauth 1, .exchange 0 1000,
    .exchange 1 1000]

/-- A reload that has read the credential before a request has refreshed it. -/
def slowReload : List Action :=
  [.reload 1, .read 1] ++ refresh 0 ++ [.swap 1] ++ refresh 2

theorem not_soundRun_reused :
    ¬ @SoundRun noClaims rProvider bothRefresh ∧ ¬ @SoundRun noClaims rProvider slowReload := by
  constructor
  · intro h
    have hnever := (h bothRefresh [] (List.append_nil _).symm).neverReused
    exact hnever [] "r" [("r", false)] (by decide +kernel) _ (List.mem_singleton_self _) rfl
  · intro h
    have hnever := (h slowReload [] (List.append_nil _).symm).neverReused
    exact hnever [] "r" [("r", false)] (by decide +kernel) _ (List.mem_singleton_self _) rfl

end State

end NextApi.Upstream.Token
