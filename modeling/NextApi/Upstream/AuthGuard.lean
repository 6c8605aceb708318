import NextApi.Admin.UpdateUpstream
import NextApi.Logging.Event

/-!
# Credentials that fail

A failed credential is kept in memory, where it takes the upstream out of the candidates, and in
`extra.auth_state` of the row, where it can be seen after a restart. Memory decides whether the row
is written at all. The statements are spawned and run in any order, and a restart loses the memory.

The two agree whenever nothing is pending for an upstream, in a run where the statement that leaves
nothing pending writes what the one issued last writes, and where memory is lost only while it has
nothing on the upstream (`agree_of_orderly`).
-/

set_option autoImplicit false

namespace NextApi.Upstream

open Json Logging Admin.Upstreams
open Cache (UpstreamDbRow)

/-! ### The guard -/

/-- `AUTH_FAIL_TTL_SECS`. -/
def authFailTtlSecs : ℤ := 300

/-- What is known of a credential that failed. -/
structure AuthFailure where
  failedAt : ℤ
  status : UInt16
  code : String
  message : String
  deriving DecidableEq, Inhabited

/-- The upstream is still taken out. -/
def AuthFailure.blockedAt (failure : AuthFailure) (now : ℤ) : Bool :=
  decide ((now - failure.failedAt).tdiv (10 ^ 9) < authFailTtlSecs)

/-- The failures in memory. -/
abbrev AuthGuard := Table Uuid AuthFailure

/-- Keeps a failure, and says whether it is news: the first one, one with another code, or one after
the time for which the upstream was taken out. -/
def AuthGuard.mark (guard : AuthGuard) (id : Uuid) (failure : AuthFailure) :
    AuthGuard × Bool :=
  match guard.lookup id with
  | some prev =>
    if prev.code = failure.code ∧ prev.blockedAt failure.failedAt = true then (guard, false)
    else (guard.insert id failure, true)
  | none => (guard.insert id failure, true)

/-- Forgets a failure, and says whether there was one. -/
def AuthGuard.clear (guard : AuthGuard) (id : Uuid) : AuthGuard × Bool :=
  (guard.erase id, (guard.lookup id).isSome)

/-! ### The row -/

section Row

variable [FieldText]

/-- The derived JSON form of a failure. -/
def AuthFailure.toValue (failure : AuthFailure) : Value :=
  .object
    [("at", timeToValue failure.failedAt),
      ("status", .int failure.status.toNat),
      ("code", .str failure.code),
      ("message", .str failure.message)]

/-- The derived reader of a failure. -/
def readAuthFailure (v : Value) : Option AuthFailure := do
  let failedAt ← (v.get? "at").bind Value.asStr |>.bind FieldText.parseTime
  let status ← (v.get? "status").bind Value.asU64
  guard (status < 2 ^ 16)
  let code ← (v.get? "code").bind Value.asStr
  let message ← (v.get? "message").bind Value.asStr
  return { failedAt, status := status.toUInt16, code, message }

def authStateFromExtra (extra : Value) : Option AuthFailure :=
  (extra.get? authStateKey).bind readAuthFailure

/-- A statement on the row of an upstream. -/
inductive Statement
  /-- `store` -/
  | store (failure : AuthFailure)
  /-- `clear_stored` -/
  | clearStored
  deriving DecidableEq

/-- What a statement does to the row, when it is run. -/
def Statement.apply (statement : Statement) (now : ℤ) (row : UpstreamDbRow) : UpstreamDbRow :=
  match statement with
  | .store failure => (Write.storeAuthState failure.toValue now).apply row
  | .clearStored => (Write.clearAuthState now).apply row

end Row

/-- What a statement leaves in the row. -/
def Statement.result : Statement → Option AuthFailure
  | .store failure => some failure
  | .clearStored => none

/-! ### Runs -/

/-- The memory, the rows, and the statements that were spawned; those that have not run yet are
pending, by their number. -/
structure AuthState where
  credGuard : AuthGuard := ∅
  rows : Table Uuid UpstreamDbRow
  spawned : List (Uuid × Statement) := []
  pending : List ℕ := []

def AuthState.spawn (s : AuthState) (id : Uuid) (statement : Statement) : AuthState :=
  { s with spawned := s.spawned ++ [(id, statement)], pending := s.pending ++ [s.spawned.length] }

def AuthState.markAuthFailure (s : AuthState) (id : Uuid) (failure : AuthFailure) :
    AuthState :=
  let (credGuard, changed) := s.credGuard.mark id failure
  if changed then { s with credGuard := credGuard }.spawn id (.store failure)
  else { s with credGuard := credGuard }

def AuthState.clearAuthFailure (s : AuthState) (id : Uuid) : AuthState :=
  let (credGuard, hadLive) := s.credGuard.clear id
  if hadLive then { s with credGuard := credGuard }.spawn id .clearStored
  else { s with credGuard := credGuard }

/-- What can happen. -/
inductive AuthEvent
  /-- A request finds that the credential fails. -/
  | mark (id : Uuid) (failure : AuthFailure)
  /-- A request or a probe succeeds, or the credential is changed. -/
  | clear (id : Uuid)
  /-- A pending statement runs. -/
  | execute (n : ℕ) (now : ℤ)
  /-- The process starts again, when nothing is pending. -/
  | restart

section Step

variable [FieldText]

/-- Runs a statement that is pending. -/
def AuthState.execute (s : AuthState) (n : ℕ) (now : ℤ) : AuthState :=
  match s.spawned[n]? with
  | some (id, statement) =>
    if n ∈ s.pending then
      { s with
        pending := s.pending.filter fun i ↦ decide (i ≠ n)
        rows := (s.rows.lookup id).elim s.rows fun row ↦
          s.rows.insert id (statement.apply now row) }
    else s
  | none => s

def AuthState.step (s : AuthState) : AuthEvent → AuthState
  | .mark id failure => s.markAuthFailure id failure
  | .clear id => s.clearAuthFailure id
  | .execute n now => s.execute n now
  | .restart => if s.pending = [] then { s with credGuard := ∅ } else s

end Step

/-- The last event of an upstream was a failure of the credential. -/
def LastFailed (id : Uuid) (events : List AuthEvent) : Prop :=
  events.foldl (fun failed event ↦
    match event with
    | .mark id' _ => if id' = id then true else failed
    | .clear id' => if id' = id then false else failed
    | _ => failed) false = true

/-! ### Agreement -/

/-- The statement that was issued last for an upstream. -/
def AuthState.lastIssued (s : AuthState) (id : Uuid) : Option Statement :=
  ((s.spawned.filter fun task ↦ decide (task.1 = id)).getLast?).map Prod.snd

/-- No statement on an upstream is pending, other than perhaps one. -/
def AuthState.NonePendingBut (s : AuthState) (id : Uuid) (but : Option ℕ) : Prop :=
  ∀ n ∈ s.pending, but ≠ some n → ∀ statement, s.spawned[n]? ≠ some (id, statement)

section Agreement

variable [FieldText]

/-- The row of an upstream tells of a failure when the last event was one, and then what the guard
tells; and so does the page, which asks the guard and then the row. -/
structure Agree (id : Uuid) (events : List AuthEvent) (s : AuthState) (row : UpstreamDbRow) :
    Prop where
  present : (row.extra.get? authStateKey).isSome = true ↔ LastFailed id events
  same : LastFailed id events →
    row.extra.get? authStateKey = (s.credGuard.lookup id).map AuthFailure.toValue
  shown : ((s.credGuard.lookup id).or (authStateFromExtra row.extra)).isSome = true ↔
    LastFailed id events

/-- A statement that leaves nothing pending on an upstream writes what the one issued last writes,
and memory is lost only while it has nothing on the upstream. -/
def Orderly (id : Uuid) (s : AuthState) : AuthEvent → Prop
  | .execute n _ => ∀ statement, n ∈ s.pending → s.spawned[n]? = some (id, statement) →
      s.NonePendingBut id (some n) → ∀ last ∈ s.lastIssued id, statement.result = last.result
  | .restart => s.pending = [] → s.credGuard.lookup id = none
  | _ => True

/-- What is kept between memory, statements and row. -/
structure AuthInv (id : Uuid) (events : List AuthEvent) (s : AuthState) : Prop where
  bounded : ∀ n ∈ s.pending, n < s.spawned.length
  guard : s.credGuard.lookup id = (s.lastIssued id).bind Statement.result
  last : (s.credGuard.lookup id).isSome = true ↔ LastFailed id events
  object : ∀ row, s.rows.lookup id = some row → ∃ m, row.extra = .obj m
  settled : s.NonePendingBut id none → ∀ row, s.rows.lookup id = some row →
    row.extra.get? authStateKey = (s.credGuard.lookup id).map AuthFailure.toValue

theorem AuthInv.agree {id : Uuid} {events : List AuthEvent} {s : AuthState}
    (h : AuthInv id events s) (hpending : s.NonePendingBut id none) {row : UpstreamDbRow}
    (hrow : s.rows.lookup id = some row) : Agree id events s row := by
  have hsettled := h.settled hpending row hrow
  refine ⟨?_, fun _ ↦ hsettled, ?_⟩
  · rw [hsettled, Option.isSome_map]
    exact h.last
  · rw [← h.last, authStateFromExtra, hsettled]
    cases s.credGuard.lookup id <;> simp

/-! ### A failure or a success -/

/-- A state after one in which a failure of an upstream, or a success, is recorded. -/
inductive Recorded (id : Uuid) (failed : Bool) (s s' : AuthState) : Prop
  /-- Nothing is new. -/
  | known (hspawned : s'.spawned = s.spawned) (hpending : s'.pending = s.pending)
      (hrows : s'.rows = s.rows) (hguard : ∀ i, s'.credGuard.lookup i = s.credGuard.lookup i)
      (hfailed : (s.credGuard.lookup id).isSome = failed)
  /-- A statement is spawned. -/
  | news (statement : Statement) (hspawned : s'.spawned = s.spawned ++ [(id, statement)])
      (hpending : s'.pending = s.pending ++ [s.spawned.length]) (hrows : s'.rows = s.rows)
      (hself : s'.credGuard.lookup id = statement.result)
      (hother : ∀ i, i ≠ id → s'.credGuard.lookup i = s.credGuard.lookup i)
      (hfailed : statement.result.isSome = failed)

omit [FieldText] in
theorem recorded_markAuthFailure (s : AuthState) (id : Uuid) (failure : AuthFailure) :
    Recorded id true s (s.markAuthFailure id failure) := by
  have hnews : Recorded id true s
      ({ s with credGuard := s.credGuard.insert id failure }.spawn id (.store failure)) :=
    .news (.store failure) rfl rfl rfl ((Table.lookup_insert _ _ _ _).trans (if_pos rfl))
      (fun i hi ↦ (Table.lookup_insert _ _ _ _).trans (if_neg (Ne.symm hi))) rfl
  rw [AuthState.markAuthFailure, AuthGuard.mark]
  cases hlookup : s.credGuard.lookup id with
  | none => exact hnews
  | some prev =>
    dsimp only
    split
    · exact .known rfl rfl rfl (fun _ ↦ rfl) (by rw [hlookup]; rfl)
    · exact hnews

omit [FieldText] in
theorem recorded_clearAuthFailure (s : AuthState) (id : Uuid) :
    Recorded id false s (s.clearAuthFailure id) := by
  have hother (i : Uuid) (hi : i ≠ id) : (s.credGuard.erase id).lookup i = s.credGuard.lookup i :=
    (Table.lookup_erase _ _ _).trans (if_neg (Ne.symm hi))
  have hself : (s.credGuard.erase id).lookup id = none :=
    (Table.lookup_erase _ _ _).trans (if_pos rfl)
  rw [AuthState.clearAuthFailure, AuthGuard.clear]
  dsimp only
  cases hlookup : s.credGuard.lookup id with
  | none =>
    refine .known rfl rfl rfl (fun i ↦ ?_) (by rw [hlookup]; rfl)
    by_cases hi : i = id
    · rw [hi, hlookup]
      exact hself
    · exact hother i hi
  | some failure => exact .news .clearStored rfl rfl rfl hself hother rfl

omit [FieldText] in
/-- What was issued last after one more statement. -/
theorem lastIssued_of_spawned {s s' : AuthState} {i : Uuid} {statement : Statement}
    (h : s'.spawned = s.spawned ++ [(i, statement)]) (id : Uuid) :
    s'.lastIssued id = if i = id then some statement else s.lastIssued id := by
  rw [AuthState.lastIssued, AuthState.lastIssued, h, List.filter_append]
  split
  case isTrue heq =>
    have hone : ([(i, statement)].filter fun task ↦ decide (task.1 = id)) = [(i, statement)] := by
      simp [heq]
    rw [hone, List.getLast?_concat]
    rfl
  case isFalse hne =>
    rw [List.filter_cons_of_neg (by simpa using hne), List.filter_nil, List.append_nil]

theorem AuthInv.recorded {id i : Uuid} {failed : Bool} {events : List AuthEvent}
    {event : AuthEvent} {s s' : AuthState} (h : AuthInv id events s) (hs : Recorded i failed s s')
    (hlast : LastFailed id (events ++ [event]) ↔
      if i = id then failed = true else LastFailed id events) :
    AuthInv id (events ++ [event]) s' := by
  cases hs with
  | known hspawned hpending hrows hguard hfailed =>
    have hissued : s'.lastIssued id = s.lastIssued id := by
      rw [AuthState.lastIssued, AuthState.lastIssued, hspawned]
    refine ⟨?_, ?_, ?_, ?_, ?_⟩
    · rw [hspawned, hpending]
      exact h.bounded
    · rw [hguard, hissued]
      exact h.guard
    · rw [hguard, hlast]
      split
      case isTrue heq => rw [← heq, hfailed]
      case isFalse => exact h.last
    · rw [hrows]
      exact h.object
    · rw [AuthState.NonePendingBut, hspawned, hpending, hrows, hguard]
      exact h.settled
  | news statement hspawned hpending hrows hself hother hfailed =>
    refine ⟨?_, ?_, ?_, ?_, ?_⟩
    · rw [hspawned, hpending, List.length_append, List.length_singleton]
      intro n hn
      rcases List.mem_append.1 hn with hn | hn
      · exact (h.bounded n hn).trans (Nat.lt_succ_self _)
      · rw [List.mem_singleton.1 hn]
        exact Nat.lt_succ_self _
    · rw [lastIssued_of_spawned hspawned]
      split
      case isTrue heq =>
        rw [← heq, hself]
        rfl
      case isFalse hne =>
        rw [hother id (Ne.symm hne)]
        exact h.guard
    · rw [hlast]
      split
      case isTrue heq => rw [← heq, hself, hfailed]
      case isFalse hne =>
        rw [hother id (Ne.symm hne)]
        exact h.last
    · rw [hrows]
      exact h.object
    · intro hnone row hrow
      rw [hrows] at hrow
      rw [AuthState.NonePendingBut, hspawned, hpending] at hnone
      have hne : i ≠ id := by
        rintro rfl
        refine hnone s.spawned.length (by simp) (by simp) statement ?_
        rw [List.getElem?_concat_length]
      rw [hother id (Ne.symm hne)]
      refine h.settled (fun n hn hbut other hget ↦ ?_) row hrow
      refine hnone n (List.mem_append_left _ hn) hbut other ?_
      rw [List.getElem?_append_left (h.bounded n hn)]
      exact hget

/-! ### A statement -/

/-- A statement leaves its result in an object. -/
theorem apply_object {row : UpstreamDbRow} {m : Map} (hrow : row.extra = .obj m)
    (statement : Statement) (now : ℤ) :
    (∃ m', (statement.apply now row).extra = .obj m') ∧
      (statement.apply now row).extra.get? authStateKey =
        statement.result.map AuthFailure.toValue := by
  cases statement with
  | store failure =>
    rw [Statement.apply, Write.apply, hrow, jsonbSet]
    refine ⟨⟨_, rfl⟩, ?_⟩
    rw [Value.get?_obj, Map.get?_insert, if_pos rfl]
    rfl
  | clearStored =>
    rw [Statement.apply, Write.apply, hrow, jsonbRemove]
    by_cases hsome : (Map.get? m authStateKey).isSome = true
    · rw [if_pos hsome]
      refine ⟨⟨_, rfl⟩, ?_⟩
      rw [Value.get?_obj, Map.get?_remove, if_pos rfl]
      rfl
    · rw [if_neg hsome, hrow]
      refine ⟨⟨m, rfl⟩, ?_⟩
      rw [Value.get?_obj, Option.not_isSome_iff_eq_none.1 hsome]
      rfl

omit [FieldText] in
/-- A statement changes one row. -/
theorem lookup_changed (rows : Table Uuid UpstreamDbRow) (i id : Uuid)
    (f : UpstreamDbRow → UpstreamDbRow) :
    ((rows.lookup i).elim rows fun row ↦ rows.insert i (f row)).lookup id =
      if i = id then (rows.lookup id).map f else rows.lookup id := by
  split
  case isTrue heq =>
    subst heq
    cases hlookup : rows.lookup i with
    | none => exact hlookup
    | some row => exact (Table.lookup_insert _ _ _ _).trans (if_pos rfl)
  case isFalse hne =>
    cases rows.lookup i with
    | none => rfl
    | some row => exact (Table.lookup_insert _ _ _ _).trans (if_neg hne)

omit [FieldText] in
/-- Where a statement was spawned, one was issued last. -/
theorem exists_lastIssued {s : AuthState} {n : ℕ} {id : Uuid} {statement : Statement}
    (h : s.spawned[n]? = some (id, statement)) : ∃ last, s.lastIssued id = some last := by
  have hmem : (id, statement) ∈ s.spawned.filter fun task ↦ decide (task.1 = id) :=
    List.mem_filter.2 ⟨List.mem_of_getElem? h, decide_eq_true rfl⟩
  have hsome := List.getLast?_isSome.2 (List.ne_nil_of_mem hmem)
  obtain ⟨task, htask⟩ := Option.isSome_iff_exists.1 hsome
  refine ⟨task.2, ?_⟩
  rw [AuthState.lastIssued, htask]
  rfl

theorem AuthInv.execute {id : Uuid} {events : List AuthEvent} {s : AuthState} {n : ℕ} {now : ℤ}
    (h : AuthInv id events s) (horderly : Orderly id s (.execute n now)) :
    AuthInv id (events ++ [.execute n now]) (s.execute n now) := by
  have hlast : LastFailed id (events ++ [.execute n now]) ↔ LastFailed id events := by
    rw [LastFailed, List.foldl_append]
    rfl
  have hsame : AuthInv id (events ++ [.execute n now]) s :=
    ⟨h.bounded, h.guard, h.last.trans hlast.symm, h.object, h.settled⟩
  rw [AuthState.execute]
  split
  case h_2 => exact hsame
  case h_1 i statement htask =>
    by_cases hpending : n ∈ s.pending
    · rw [if_pos hpending]
      -- what is pending on the upstream before, other than this statement
      have hbefore (hnone : ∀ k ∈ s.pending.filter (fun k ↦ decide (k ≠ n)), ∀ other,
          s.spawned[k]? ≠ some (id, other)) : s.NonePendingBut id (some n) := by
        intro k hk hbut
        refine hnone k (List.mem_filter.2 ⟨hk, decide_eq_true fun heq ↦ hbut ?_⟩)
        rw [heq]
      refine ⟨fun k hk ↦ h.bounded k (List.mem_filter.1 hk).1, h.guard, h.last.trans hlast.symm,
        fun row hrow ↦ ?_, fun hnone row hrow ↦ ?_⟩
      · rw [lookup_changed] at hrow
        split at hrow
        case isTrue =>
          obtain ⟨old, hold, rfl⟩ := Option.map_eq_some_iff.1 hrow
          obtain ⟨m, hm⟩ := h.object old hold
          exact (apply_object hm statement now).1
        case isFalse => exact h.object row hrow
      · have hothers : s.NonePendingBut id (some n) := hbefore fun k hk other ↦
          hnone k hk (by simp) other
        rw [lookup_changed] at hrow
        split at hrow
        case isTrue heq =>
          subst heq
          obtain ⟨old, hold, rfl⟩ := Option.map_eq_some_iff.1 hrow
          obtain ⟨m, hm⟩ := h.object old hold
          obtain ⟨last, hissued⟩ := exists_lastIssued htask
          have hresult := horderly statement hpending htask hothers last hissued
          have hguard : s.credGuard.lookup i = statement.result := by
            rw [h.guard, hissued, hresult]
            rfl
          rw [(apply_object hm statement now).2]
          exact congrArg _ hguard.symm
        case isFalse hne =>
          refine h.settled (fun k hk _ other hget ↦ ?_) row hrow
          by_cases hkn : k = n
          · rw [hkn, htask] at hget
            exact hne (Prod.mk.inj (Option.some.inj hget)).1
          · exact hothers k hk (fun heq ↦ hkn (Option.some.inj heq).symm) other hget
    · rw [if_neg hpending]
      exact hsame

theorem AuthInv.restart {id : Uuid} {events : List AuthEvent} {s : AuthState}
    (h : AuthInv id events s) (horderly : Orderly id s .restart) :
    AuthInv id (events ++ [.restart]) (s.step .restart) := by
  have hlast : LastFailed id (events ++ [.restart]) ↔ LastFailed id events := by
    rw [LastFailed, List.foldl_append]
    rfl
  rw [AuthState.step]
  split
  case isTrue hpending =>
    have hguard : (∅ : AuthGuard).lookup id = s.credGuard.lookup id :=
      (Table.lookup_empty id).trans (horderly hpending).symm
    refine ⟨h.bounded, hguard.trans h.guard, ?_, h.object, fun hnone row hrow ↦ ?_⟩
    · rw [hlast]
      exact (congrArg (fun entry ↦ Option.isSome entry = true) hguard).to_iff.trans h.last
    · exact (h.settled hnone row hrow).trans (congrArg _ hguard.symm)
  case isFalse => exact ⟨h.bounded, h.guard, h.last.trans hlast.symm, h.object, h.settled⟩

/-- What every event keeps. -/
theorem AuthInv.step {id : Uuid} {events : List AuthEvent} {s : AuthState} {event : AuthEvent}
    (h : AuthInv id events s) (horderly : Orderly id s event) :
    AuthInv id (events ++ [event]) (s.step event) := by
  cases event with
  | mark i failure =>
    refine h.recorded (recorded_markAuthFailure s i failure) ?_
    rw [LastFailed, LastFailed, List.foldl_append]
    by_cases heq : i = id <;> simp [heq]
  | clear i =>
    refine h.recorded (recorded_clearAuthFailure s i) ?_
    rw [LastFailed, LastFailed, List.foldl_append]
    by_cases heq : i = id <;> simp [heq]
  | execute n now => exact h.execute horderly
  | restart => exact h.restart horderly

/-- The row agrees with the last event and with the guard, in every state of the run in which nothing
is pending on the upstream. -/
def AgreesThroughout (id : Uuid) (rows : Table Uuid UpstreamDbRow) (events : List AuthEvent) : Prop :=
  ∀ before, before <+: events →
    (Transition.run AuthState.step { rows := rows } before).NonePendingBut id none →
      ∀ row, (Transition.run AuthState.step { rows := rows } before).rows.lookup id = some row →
        Agree id before (Transition.run AuthState.step { rows := rows } before) row

/-- In an orderly run the row always agrees. -/
theorem agree_of_orderly (id : Uuid) (rows : Table Uuid UpstreamDbRow) (events : List AuthEvent)
    (hrows : ∀ row, rows.lookup id = some row →
      (∃ m, row.extra = .obj m) ∧ row.extra.get? authStateKey = none)
    (horderly : Transition.EachStep AuthState.step (Orderly id) { rows := rows } events) :
    AgreesThroughout id rows events := by
  have hstart : AuthInv id [] { rows := rows } := by
    refine ⟨fun n hn ↦ absurd hn List.not_mem_nil, Table.lookup_empty id, ?_,
      fun row hrow ↦ (hrows row hrow).1, fun _ row hrow ↦ ?_⟩
    · exact iff_of_false (by rw [Table.lookup_empty]; simp) Bool.false_ne_true
    · rw [Table.lookup_empty]
      exact (hrows row hrow).2
  have hinv := Transition.history_of_eachStep (P := AuthInv id) horderly hstart
    fun before event hok h ↦ h.step hok
  exact fun before hprefix hnone row hrow ↦ (hinv before hprefix).agree hnone hrow

end Agreement

/-! ### Some runs -/

section SomeRuns

local instance plainFieldText : FieldText where
  formatTime _ := ""
  parseTime _ := none
  formatUuid _ := ""
  parseUuid _ := none
  formatDecimal _ := ""
  parseDecimal _ := none

def oneUpstream : Table Uuid UpstreamDbRow := Table.insert ∅ 1 { id := 1, name := "u" }

def expired : AuthFailure := ⟨0, 401, "unauthenticated", "token has expired"⟩

/-- A failure, then a success, each with its statement, and a restart. -/
def inOrder : List AuthEvent :=
  [.mark 1 expired, .execute 0 0, .clear 1, .execute 1 0, .restart]

theorem agreesThroughout_inOrder :
    Transition.EachStep AuthState.step (Orderly 1) { rows := oneUpstream } inOrder ∧
      AgreesThroughout 1 oneUpstream inOrder := by
  have horderly :
      Transition.EachStep AuthState.step (Orderly 1) { rows := oneUpstream } inOrder := by
    rw [inOrder]
    simp only [Transition.eachStep_cons]
    refine ⟨trivial, ?_, trivial, ?_, ?_, Transition.eachStep_nil⟩
    · rintro statement - ⟨rfl⟩ - last ⟨rfl⟩
      rfl
    · rintro statement - ⟨rfl⟩ - last ⟨rfl⟩
      rfl
    · intro _
      rfl
  refine ⟨horderly, agree_of_orderly 1 oneUpstream inOrder (fun row hrow ↦ ?_) horderly⟩
  obtain rfl := Option.some.inj hrow
  exact ⟨⟨[], rfl⟩, rfl⟩

/-- A failure that is stored after the success that follows it was written, and one that is
forgotten in memory, so that the success is not written. -/
theorem not_agreesThroughout_late :
    ¬ AgreesThroughout 1 oneUpstream
        [.mark 1 expired, .clear 1, .execute 1 0, .execute 0 0] ∧
      ¬ AgreesThroughout 1 oneUpstream [.mark 1 expired, .execute 0 0, .restart, .clear 1] := by
  constructor
  · intro h
    have hagree := h _ (List.prefix_refl _) (fun n hn ↦ absurd hn List.not_mem_nil) _ rfl
    exact absurd (hagree.present.1 (by decide +kernel)) (by unfold LastFailed; decide +kernel)
  · intro h
    have hagree := h _ (List.prefix_refl _) (fun n hn ↦ absurd hn List.not_mem_nil) _ rfl
    exact absurd (hagree.present.1 (by decide +kernel)) (by unfold LastFailed; decide +kernel)

end SomeRuns

end NextApi.Upstream
