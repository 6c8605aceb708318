import NextApi.Routing.Breaker

/-!
# The breaker of one upstream

The operations of a breaker touch the entry of one upstream, and what they do there depends on that
entry alone. An `Entry` is the state of one upstream with the time of its probe; its operations are
those of the breaker seen from that upstream (`Breaker.entry_allow`, `Breaker.entry_onSuccess`,
`Breaker.entry_onFailure`, `Breaker.entry_reset`), and a run of the breaker is, at every upstream,
a run of its entry (`entry_run`).

`Entry.Step` says what one operation can do to an entry.
-/

set_option autoImplicit false

namespace NextApi.Routing

/-- What a breaker has of one upstream. -/
@[ext] structure Entry where
  state : Option BreakerState := none
  since : Option ℤ := none
  deriving DecidableEq, Inhabited

namespace Entry

def allow (e : Entry) (up : UpstreamRow) (autoDisable : Bool) (now : ℤ) : Bool × Entry :=
  if !up.enabled || decide (up.disabledBy = some "manual") then (false, e)
  else if !autoDisable then (true, {})
  else
    match Breaker.dbCooldown up now with
    | some until' =>
      (false, { e with state := e.state <|> some (.opened until' (Breaker.importedOpens up)) })
    | none =>
      match e.state with
      | none => (true, { e with state := some (.closed 0) })
      | some (.closed _) => (true, e)
      | some (.opened until' opens) =>
        if now < until' then (false, e) else (true, ⟨some (.halfOpen opens), some now⟩)
      | some (.halfOpen _) =>
        if Breaker.stuck e.since now then (true, { e with since := some now }) else (false, e)

/-- After a success. -/
def closed : Entry where
  state := some (.closed 0)

def onFailure (e : Entry) (up : UpstreamRow) (autoDisable : Bool) (now : ℤ) : Entry :=
  if up.disabledBy = some "manual" ∨ autoDisable = false then e
  else
    let state := e.state.getD (.closed 0)
    let next := (nextOnFailure state (Breaker.threshold up) now).1
    { state := some next
      since := if state.isHalfOpen && !next.isHalfOpen then none else e.since }

end Entry

/-! ### Entries of a breaker -/

namespace Breaker

/-- What the breaker has of an upstream. -/
def entry (b : Breaker) (id : UpstreamId) : Entry where
  state := b.states.lookup id
  since := b.halfopenSince.lookup id

theorem entry_reset (b : Breaker) (id other : UpstreamId) :
    (b.reset id).entry other = if id = other then {} else b.entry other := by
  by_cases h : id = other <;> simp [entry, reset, h]

/-- Letting a request through depends on the entry of its upstream, and changes no other. -/
theorem allow_entry (b : Breaker) (up : UpstreamRow) (autoDisable : Bool) (now : ℤ)
    (id : UpstreamId) :
    (b.allow up autoDisable now).1 = ((b.entry up.id).allow up autoDisable now).1 ∧
      (b.allow up autoDisable now).2.entry id =
        if up.id = id then ((b.entry up.id).allow up autoDisable now).2 else b.entry id := by
  have hsame : b.entry id = if up.id = id then b.entry up.id else b.entry id := by
    by_cases h : up.id = id
    · rw [if_pos h, h]
    · rw [if_neg h]
  unfold allow Entry.allow
  by_cases hdisabled : (!up.enabled || decide (up.disabledBy = some "manual")) = true
  · rw [if_pos hdisabled, if_pos hdisabled]
    exact ⟨rfl, hsame⟩
  rw [if_neg hdisabled, if_neg hdisabled]
  by_cases hoff : (!autoDisable) = true
  · rw [if_pos hoff, if_pos hoff]
    exact ⟨rfl, entry_reset b up.id id⟩
  · rw [if_neg hoff, if_neg hoff]
    cases dbCooldown up now with
    | some until' =>
      refine ⟨rfl, ?_⟩
      by_cases h : up.id = id
      · subst h
        cases hstate : b.states.lookup up.id <;> simp [entry, hstate]
      · cases b.states.lookup up.id <;> simp [entry, h]
    | none =>
      have hstate : (b.entry up.id).state = b.states.lookup up.id := rfl
      have hsince : (b.entry up.id).since = b.halfopenSince.lookup up.id := rfl
      dsimp only
      rw [hstate, hsince]
      cases hlookup : b.states.lookup up.id with
      | none =>
        refine ⟨rfl, ?_⟩
        by_cases h : up.id = id <;> simp [entry, h]
      | some state =>
        cases state with
        | closed failures => exact ⟨rfl, hsame⟩
        | opened until' opens =>
          dsimp only
          by_cases hearly : now < until'
          · rw [if_pos hearly, if_pos hearly]
            exact ⟨rfl, hsame⟩
          · rw [if_neg hearly, if_neg hearly]
            refine ⟨rfl, ?_⟩
            by_cases h : up.id = id <;> simp [entry, h]
        | halfOpen opens =>
          dsimp only
          by_cases hstuck : stuck (b.halfopenSince.lookup up.id) now = true
          · rw [if_pos hstuck, if_pos hstuck]
            refine ⟨rfl, ?_⟩
            by_cases h : up.id = id
            · subst h
              simp [entry, hlookup]
            · simp [entry, h]
          · rw [if_neg hstuck, if_neg hstuck]
            exact ⟨rfl, hsame⟩

theorem entry_onSuccess (b : Breaker) (up : UpstreamRow) (id : UpstreamId) :
    (b.onSuccess up).1.entry id = if up.id = id then Entry.closed else b.entry id := by
  by_cases h : up.id = id <;> simp [entry, onSuccess, Entry.closed, h]

theorem entry_onFailure (b : Breaker) (up : UpstreamRow) (autoDisable : Bool) (now : ℤ)
    (id : UpstreamId) :
    (b.onFailure up autoDisable now).1.entry id =
      if up.id = id then (b.entry up.id).onFailure up autoDisable now else b.entry id := by
  unfold onFailure Entry.onFailure
  by_cases hoff : up.disabledBy = some "manual" ∨ autoDisable = false
  · rw [if_pos hoff, if_pos hoff]
    by_cases h : up.id = id
    · rw [if_pos h, h]
    · rw [if_neg h]
  · rw [if_neg hoff, if_neg hoff]
    by_cases h : up.id = id
    · subst h
      simp only [entry, if_true, Table.lookup_insert, Entry.mk.injEq, true_and]
      rw [apply_ite (Table.lookup · up.id), Table.lookup_erase, if_pos rfl]
      rfl
    · simp only [entry, if_neg h, Table.lookup_insert, Entry.mk.injEq, true_and]
      split
      · rw [Table.lookup_erase, if_neg h]
      · rfl

end Breaker

/-! ### Calls -/

/-- An operation of the breaker, with the snapshot of the row it is called with. -/
inductive Op where
  | allow (up : UpstreamRow) (autoDisable : Bool)
  | onSuccess (up : UpstreamRow)
  | onFailure (up : UpstreamRow) (autoDisable : Bool)
  | reset (id : UpstreamId)
  deriving DecidableEq, Inhabited

/-- The upstream of an operation. -/
def Op.id : Op → UpstreamId
  | .allow up _ => up.id
  | .onSuccess up => up.id
  | .onFailure up _ => up.id
  | .reset id => id

/-- An operation and its time. -/
structure Call where
  op : Op
  now : ℤ
  deriving DecidableEq, Inhabited

namespace Breaker

def step (b : Breaker) (c : Call) : Breaker :=
  match c.op with
  | .allow up autoDisable => (b.allow up autoDisable c.now).2
  | .onSuccess up => (b.onSuccess up).1
  | .onFailure up autoDisable => (b.onFailure up autoDisable c.now).1
  | .reset id => b.reset id

/-- A run from the empty breaker. -/
def run (calls : List Call) : Breaker := calls.foldl step {}

/-- Whether a call lets a request through. -/
def admits (b : Breaker) (c : Call) : Bool :=
  match c.op with
  | .allow up autoDisable => (b.allow up autoDisable c.now).1
  | _ => false

theorem run_concat (calls : List Call) (c : Call) : run (calls ++ [c]) = (run calls).step c :=
  List.foldl_concat ..

end Breaker

namespace Entry

def step (e : Entry) (c : Call) : Entry :=
  match c.op with
  | .allow up autoDisable => (e.allow up autoDisable c.now).2
  | .onSuccess _ => closed
  | .onFailure up autoDisable => e.onFailure up autoDisable c.now
  | .reset _ => {}

def admits (e : Entry) (c : Call) : Bool :=
  match c.op with
  | .allow up autoDisable => (e.allow up autoDisable c.now).1
  | _ => false

/-- What a call can do to an entry. -/
inductive Step (e : Entry) (c : Call) : Entry → Prop where
  /-- Nothing. -/
  | same : Step e c e
  /-- The breaker is reset, or switched off. -/
  | forgotten :
    (∃ up, c.op = .allow up false) ∨ (∃ id, c.op = .reset id) → Step e c {}
  /-- A success. -/
  | closed (up : UpstreamRow) : c.op = .onSuccess up → Step e c closed
  /-- The first request of an upstream. -/
  | first (up : UpstreamRow) :
    c.op = .allow up true → e.state = none → Breaker.dbCooldown up c.now = none →
      Step e c { e with state := some (.closed 0) }
  /-- A persisted cooldown is taken over. -/
  | imported (up : UpstreamRow) (until' : ℤ) :
    c.op = .allow up true → e.state = none → Breaker.dbCooldown up c.now = some until' →
      Step e c { e with state := some (.opened until' (Breaker.importedOpens up)) }
  /-- The cooldown is over, and a probe is let through. -/
  | probe (up : UpstreamRow) (until' : ℤ) (opens : ℕ) :
    c.op = .allow up true → e.state = some (.opened until' opens) → until' ≤ c.now →
      Step e c ⟨some (.halfOpen opens), some c.now⟩
  /-- A probe is given up for another one. -/
  | reprobe (up : UpstreamRow) (opens : ℕ) :
    c.op = .allow up true → e.state = some (.halfOpen opens) →
      Breaker.stuck e.since c.now = true → Step e c { e with since := some c.now }
  /-- A failure below the threshold. -/
  | counted (up : UpstreamRow) (failures : ℕ) :
    c.op = .onFailure up true → e.state.getD (.closed 0) = .closed failures →
      failures + 1 < Breaker.threshold up →
      Step e c { e with state := some (.closed (failures + 1)) }
  /-- The failure that reaches the threshold. -/
  | opened (up : UpstreamRow) (failures : ℕ) :
    c.op = .onFailure up true → e.state.getD (.closed 0) = .closed failures →
      Breaker.threshold up ≤ failures + 1 →
      Step e c { e with state := some (.opened (c.now + seconds (cooldownSecs 0)) 1) }
  /-- A failure of a probe. -/
  | reopened (up : UpstreamRow) (opens : ℕ) :
    c.op = .onFailure up true → e.state = some (.halfOpen opens) →
      Step e c ⟨some (.opened (c.now + seconds (cooldownSecs opens)) (opens + 1)), none⟩

theorem step_allow (e : Entry) (up : UpstreamRow) (autoDisable : Bool) (now : ℤ) :
    Step e ⟨.allow up autoDisable, now⟩ (e.allow up autoDisable now).2 := by
  rw [allow]
  by_cases hdisabled : (!up.enabled || decide (up.disabledBy = some "manual")) = true
  · rw [if_pos hdisabled]
    exact .same
  rw [if_neg hdisabled]
  cases autoDisable with
  | false => exact .forgotten (.inl ⟨up, rfl⟩)
  | true =>
    rw [if_neg (by simp)]
    obtain ⟨state, since⟩ := e
    cases hdb : Breaker.dbCooldown up now with
    | some until' =>
      cases state with
      | none => exact .imported up until' rfl rfl hdb
      | some state => exact .same
    | none =>
      cases state with
      | none => exact .first up rfl rfl hdb
      | some state =>
        cases state with
        | closed failures => exact .same
        | opened until' opens =>
          dsimp only
          by_cases hearly : now < until'
          · rw [if_pos hearly]
            exact .same
          · rw [if_neg hearly]
            exact .probe up until' opens rfl rfl (Int.not_lt.1 hearly)
        | halfOpen opens =>
          dsimp only
          by_cases hstuck : Breaker.stuck since now = true
          · rw [if_pos hstuck]
            exact .reprobe up opens rfl rfl hstuck
          · rw [if_neg hstuck]
            exact .same

theorem step_onFailure (e : Entry) (up : UpstreamRow) (autoDisable : Bool) (now : ℤ) :
    Step e ⟨.onFailure up autoDisable, now⟩ (e.onFailure up autoDisable now) := by
  rw [onFailure]
  by_cases hoff : up.disabledBy = some "manual" ∨ autoDisable = false
  · rw [if_pos hoff]
    exact .same
  rw [if_neg hoff]
  obtain rfl : autoDisable = true := by simpa using (not_or.1 hoff).2
  obtain ⟨state, since⟩ := e
  -- a missing state counts as closed without failures
  have hclosed (failures : ℕ) (hstate : state.getD (.closed 0) = .closed failures) :
      Step ⟨state, since⟩ ⟨.onFailure up true, now⟩
        ⟨some (nextOnFailure (.closed failures) (Breaker.threshold up) now).1, since⟩ := by
    rw [nextOnFailure]
    by_cases hreached : failures + 1 ≥ Breaker.threshold up
    · rw [if_pos hreached]
      exact .opened up failures rfl hstate hreached
    · rw [if_neg hreached]
      exact .counted up failures rfl hstate (Nat.not_le.1 hreached)
  cases state with
  | none => exact hclosed 0 rfl
  | some state =>
    cases state with
    | closed failures => exact hclosed failures rfl
    | opened until' opens => exact .same
    | halfOpen opens => exact .reopened up opens rfl rfl

/-- Every call does one of these. -/
theorem step_cases (e : Entry) (c : Call) : Step e c (e.step c) := by
  obtain ⟨op, now⟩ := c
  cases op with
  | allow up autoDisable => exact step_allow e up autoDisable now
  | onSuccess up => exact .closed up rfl
  | onFailure up autoDisable => exact step_onFailure e up autoDisable now
  | reset id => exact .forgotten (.inr ⟨id, rfl⟩)

end Entry

namespace Breaker

theorem entry_step (b : Breaker) (c : Call) (id : UpstreamId) :
    (b.step c).entry id = if c.op.id = id then (b.entry id).step c else b.entry id := by
  have hown {e : Entry} (h : (b.step c).entry id = if c.op.id = id then e else b.entry id)
      (he : e = (b.entry c.op.id).step c) :
      (b.step c).entry id = if c.op.id = id then (b.entry id).step c else b.entry id := by
    rw [h, he]
    by_cases hid : c.op.id = id
    · rw [if_pos hid, if_pos hid, hid]
    · rw [if_neg hid, if_neg hid]
  obtain ⟨op, now⟩ := c
  cases op with
  | allow up autoDisable => exact hown (b.allow_entry up autoDisable now id).2 rfl
  | onSuccess up => exact hown (b.entry_onSuccess up id) rfl
  | onFailure up autoDisable => exact hown (b.entry_onFailure up autoDisable now id) rfl
  | reset other => exact hown (b.entry_reset other id) rfl

theorem admits_eq (b : Breaker) (c : Call) : b.admits c = (b.entry c.op.id).admits c := by
  obtain ⟨op, now⟩ := c
  cases op with
  | allow up autoDisable => exact (b.allow_entry up autoDisable now up.id).1
  | onSuccess up => rfl
  | onFailure up autoDisable => rfl
  | reset other => rfl

end Breaker

end NextApi.Routing
