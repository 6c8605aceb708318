import Mathlib.Data.List.Pairwise
import NextApi.Json.Value
import NextApi.Stream.Table

/-!
# Requests with an idempotency key

A record belongs to an API key and an idempotency key, and there is one for the two at most. It has
the fingerprint of the request that it was made for and, when the request was completed, the
response to it. A record is live until it expires, a day after it was made or taken over; it stays
in the table until the next cleanup. Every operation on the table is one SQL statement, and keeps
the primary key and the unique constraint, which are fields of it. The ids of the records are random
UUIDs; they are modelled by a counter, so that no two records ever have the same one.

A request registers its key by `begin`. It reads the live record of the key: one that is completed
is replayed, one that is being processed is a conflict, and one that has failed is taken over by a
second statement. Without a live record it makes one; when another record is in the way it reads
once more, and after the second time it gives up with a conflict. A request that may proceed
completes its record or marks it as failed at the end.

Any number of requests run at the same time, and take turns after every statement. A request is
therefore a program point (`Point`), and a run is a sequence of actions: the next statement of a
request, the end of one, the cleanup, and time passing. A request may also break off at any point,
by an error of the database or with the process.
-/

set_option autoImplicit false

namespace NextApi.Idempotency

open Json

/-- A UUID of an API key or of a task. -/
abbrev Uuid := BitVec 128

def ttlHours : ℤ := 24

/-- The lifetime of a record in nanoseconds. -/
def ttl : ℤ := ttlHours * 3600 * 10 ^ 9

inductive Status where
  | processing
  | completed
  | failed
  deriving DecidableEq, Inhabited

/-- A row of `idempotency_keys`. -/
structure Record where
  id : ℕ
  keyId : Uuid
  idemKey : String
  fingerprint : String
  status : Status
  response : Option Value := none
  responseStatus : Option ℤ := none
  taskId : Option Uuid := none
  expiresAt : ℤ
  deriving Inhabited

/-- The record is one of these two keys. -/
def Record.IsFor (r : Record) (keyId : Uuid) (idemKey : String) : Prop :=
  r.keyId = keyId ∧ r.idemKey = idemKey

instance (r : Record) (keyId : Uuid) (idemKey : String) : Decidable (r.IsFor keyId idemKey) :=
  inferInstanceAs (Decidable (_ ∧ _))

/-- Both records may be in the table: neither the ids nor the keys are the same. -/
def Record.Apart (r s : Record) : Prop := r.id ≠ s.id ∧ ¬ r.IsFor s.keyId s.idemKey

instance : Std.Symm Record.Apart where
  symm _ _ h := ⟨h.1.symm, fun hfor ↦ h.2 ⟨hfor.1.symm, hfor.2.symm⟩⟩

/-- The table, with its primary key and its unique constraint. -/
structure Db where
  rows : List Record := []
  nextId : ℕ := 0
  apart : rows.Pairwise Record.Apart := by exact List.Pairwise.nil
  fresh : ∀ r ∈ rows, r.id < nextId := by exact fun _ h ↦ absurd h List.not_mem_nil

namespace Db

theorem eq_of_id {db : Db} {r s : Record} (hr : r ∈ db.rows) (hs : s ∈ db.rows)
    (h : r.id = s.id) : r = s := by
  by_contra hne
  exact (db.apart.forall hr hs hne).1 h

theorem eq_of_isFor {db : Db} {r s : Record} (hr : r ∈ db.rows) (hs : s ∈ db.rows)
    (h : r.IsFor s.keyId s.idemKey) : r = s := by
  by_contra hne
  exact (db.apart.forall hr hs hne).2 h

/-! ### Statements -/

/-- The live record of two keys. -/
def select (db : Db) (now : ℤ) (keyId : Uuid) (idemKey : String) : Option Record :=
  db.rows.find? fun r ↦ decide (r.IsFor keyId idemKey ∧ r.expiresAt > now)

/-- What is set where an id is. -/
structure Assignment where
  status : Status
  response : Option Value
  responseStatus : Option ℤ
  taskId : Option Uuid
  expiresAt : ℤ

/-- A record with new values; the keys and the fingerprint stay. -/
def Assignment.set (a : Assignment) (r : Record) : Record where
  id := r.id
  keyId := r.keyId
  idemKey := r.idemKey
  fingerprint := r.fingerprint
  status := a.status
  response := a.response
  responseStatus := a.responseStatus
  taskId := a.taskId
  expiresAt := a.expiresAt

/-- Sets new values where the id is `rid`. -/
def update (db : Db) (rid : ℕ) (a : Record → Assignment) : Db where
  rows := db.rows.map fun r ↦ if r.id = rid then (a r).set r else r
  nextId := db.nextId
  apart := by
    refine List.pairwise_map.2 (db.apart.imp fun {r s} h ↦ ?_)
    have hsame : ∀ r : Record, (if r.id = rid then (a r).set r else r).id = r.id ∧
        (if r.id = rid then (a r).set r else r).keyId = r.keyId ∧
        (if r.id = rid then (a r).set r else r).idemKey = r.idemKey := by
      intro r
      split <;> exact ⟨rfl, rfl, rfl⟩
    obtain ⟨hr, hrkey, hridem⟩ := hsame r
    obtain ⟨hs, hskey, hsidem⟩ := hsame s
    rw [Record.Apart, Record.IsFor, hr, hs, hrkey, hskey, hridem, hsidem]
    exact h
  fresh := by
    intro s hs
    obtain ⟨r, hr, rfl⟩ := List.mem_map.1 hs
    have hid : (if r.id = rid then (a r).set r else r).id = r.id := by split <;> rfl
    rw [hid]
    exact db.fresh r hr

/-- Processes a failed record again, with a new lifetime. -/
def takeOver (db : Db) (now : ℤ) (rid : ℕ) : Db :=
  db.update rid fun _ ↦ ⟨.processing, none, none, none, now + ttl⟩

def complete (db : Db) (rid : ℕ) (status : ℤ) (response : Value) (taskId : Option Uuid) : Db :=
  db.update rid fun r ↦ ⟨.completed, some response, some status, taskId, r.expiresAt⟩

def fail (db : Db) (rid : ℕ) : Db :=
  db.update rid fun r ↦ ⟨.failed, r.response, r.responseStatus, r.taskId, r.expiresAt⟩

/-- Makes a record, and returns its id, unless the table has one of these keys. -/
def insert (db : Db) (now : ℤ) (keyId : Uuid) (idemKey fingerprint : String) :
    Option (ℕ × Db) :=
  if h : ∃ r ∈ db.rows, r.IsFor keyId idemKey then none
  else
    some (db.nextId,
      { rows := db.rows ++ [⟨db.nextId, keyId, idemKey, fingerprint, .processing, none, none, none,
          now + ttl⟩]
        nextId := db.nextId + 1
        apart := by
          refine List.pairwise_append.2 ⟨db.apart, List.pairwise_singleton _ _, ?_⟩
          intro r hr s hs
          obtain rfl := List.mem_singleton.1 hs
          exact ⟨Nat.ne_of_lt (db.fresh r hr), fun hfor ↦ h ⟨r, hr, hfor⟩⟩
        fresh := by
          intro r hr
          rcases List.mem_append.1 hr with hr | hr
          · exact Nat.lt_succ_of_lt (db.fresh r hr)
          · obtain rfl := List.mem_singleton.1 hr
            exact Nat.lt_succ_self _ })

/-- Deletes the records that have expired. -/
def cleanupExpired (db : Db) (now : ℤ) : Db where
  rows := db.rows.filter fun r ↦ decide ¬ r.expiresAt ≤ now
  nextId := db.nextId
  apart := db.apart.filter _
  fresh r hr := db.fresh r (List.mem_filter.1 hr).1

/-! ### What they do -/

theorem select_eq_some {db : Db} {now : ℤ} {keyId : Uuid} {idemKey : String} {r : Record} :
    db.select now keyId idemKey = some r ↔
      r ∈ db.rows ∧ r.IsFor keyId idemKey ∧ now < r.expiresAt := by
  constructor
  · intro h
    have hr := List.find?_some h
    exact ⟨List.mem_of_find?_eq_some h, by simpa using hr⟩
  · rintro ⟨hr, hfor, hlive⟩
    cases hselect : db.select now keyId idemKey with
    | none =>
      have hnone := List.find?_eq_none.1 hselect r hr
      simp [hfor, hlive] at hnone
    | some s =>
      have hs := List.find?_some hselect
      have hfor' : s.IsFor keyId idemKey := by
        simp only [decide_eq_true_eq] at hs
        exact hs.1
      rw [db.eq_of_isFor (List.mem_of_find?_eq_some hselect) hr
        ⟨hfor'.1.trans hfor.1.symm, hfor'.2.trans hfor.2.symm⟩]

theorem select_eq_none {db : Db} {now : ℤ} {keyId : Uuid} {idemKey : String} :
    db.select now keyId idemKey = none ↔
      ∀ r ∈ db.rows, r.IsFor keyId idemKey → r.expiresAt ≤ now := by
  rw [select, List.find?_eq_none]
  refine forall₂_congr fun r _ ↦ ?_
  simp

/-- A record after an update is one from before it, with new values where the id is `rid`. -/
theorem mem_update {db : Db} {rid : ℕ} {a : Record → Assignment} {s : Record} :
    s ∈ (db.update rid a).rows ↔
      ∃ r ∈ db.rows, (r.id = rid ∧ s = (a r).set r) ∨ (r.id ≠ rid ∧ s = r) := by
  rw [update, List.mem_map]
  refine exists_congr fun r ↦ and_congr_right fun _ ↦ ?_
  by_cases h : r.id = rid
  · rw [if_pos h]
    exact ⟨fun hs ↦ .inl ⟨h, hs.symm⟩, fun hs ↦ hs.elim (fun hs ↦ hs.2.symm) fun hs ↦ absurd h hs.1⟩
  · rw [if_neg h]
    exact ⟨fun hs ↦ .inr ⟨h, hs.symm⟩, fun hs ↦ hs.elim (fun hs ↦ absurd hs.1 h) fun hs ↦ hs.2.symm⟩

theorem insert_eq_some {db db' : Db} {now : ℤ} {keyId : Uuid} {idemKey fp : String} {rid : ℕ}
    (h : db.insert now keyId idemKey fp = some (rid, db')) :
    rid = db.nextId ∧ db'.nextId = db.nextId + 1 ∧
      db'.rows = db.rows ++ [⟨db.nextId, keyId, idemKey, fp, .processing, none, none, none,
        now + ttl⟩] := by
  rw [insert] at h
  split at h
  · exact absurd h (by simp)
  · obtain ⟨rfl, rfl⟩ := Prod.mk.inj (Option.some.inj h)
    exact ⟨rfl, rfl, rfl⟩

theorem insert_eq_none {db : Db} {now : ℤ} {keyId : Uuid} {idemKey fp : String} :
    db.insert now keyId idemKey fp = none ↔ ∃ r ∈ db.rows, r.IsFor keyId idemKey := by
  rw [insert]
  split <;> simp_all

theorem mem_cleanupExpired {db : Db} {now : ℤ} {r : Record} :
    r ∈ (db.cleanupExpired now).rows ↔ r ∈ db.rows ∧ now < r.expiresAt := by
  rw [cleanupExpired, List.mem_filter]
  simp

end Db

/-! ### Requests -/

/-- What `begin` answers. -/
inductive Begin where
  | proceed (rid : ℕ)
  | replay (status : ℤ) (response : Value)
  | conflict (message : String)
  deriving Inhabited

/-- Where a request is. -/
inductive Point where
  /-- Before reading, with so many rounds left after this one. -/
  | reading (left : ℕ)
  /-- Before taking over a failed record. -/
  | takingOver (rid : ℕ)
  /-- Before making a record. -/
  | inserting (left : ℕ)
  | answered (answer : Begin)
  /-- After completing the record or marking it as failed. -/
  | finished
  | broken
  deriving Inhabited

/-- A request. -/
structure Call where
  keyId : Uuid
  idemKey : String
  fingerprint : String
  point : Point := .reading 1
  deriving Inhabited

namespace Call

/-- After reading. -/
def afterSelect (c : Call) (left : ℕ) : Option Record → Point
  | none => .inserting left
  | some r =>
    if r.fingerprint ≠ c.fingerprint then .answered (.conflict "同一幂等键的请求参数不一致")
    else
      match r.status with
      | .completed =>
        .answered (.replay (r.responseStatus.getD 200) (r.response.getD .null))
      | .processing => .answered (.conflict "相同幂等键的请求正在处理中")
      | .failed => .takingOver r.id

/-- A request goes on to make a record or to take one over, or `begin` answers. -/
theorem afterSelect_cases (c : Call) (left : ℕ) (found : Option Record) :
    (found = none ∧ c.afterSelect left found = .inserting left) ∨
      (∃ r, found = some r ∧ r.fingerprint = c.fingerprint ∧ r.status = .failed ∧
        c.afterSelect left found = .takingOver r.id) ∨
      (∃ status response, c.afterSelect left found = .answered (.replay status response)) ∨
      ∃ message, c.afterSelect left found = .answered (.conflict message) := by
  cases found with
  | none => exact .inl ⟨rfl, rfl⟩
  | some r =>
    refine .inr ?_
    unfold afterSelect
    by_cases hfp : r.fingerprint ≠ c.fingerprint
    · exact .inr (.inr ⟨_, if_pos hfp⟩)
    · simp only [if_neg hfp]
      cases hstatus : r.status with
      | processing => exact .inr (.inr ⟨_, rfl⟩)
      | completed => exact .inr (.inl ⟨_, _, rfl⟩)
      | failed => exact .inl ⟨r, rfl, not_not.1 hfp, hstatus, rfl⟩

/-- A completed record is replayed to a request with its fingerprint. -/
theorem afterSelect_completed {c : Call} {left : ℕ} {r : Record} {status : ℤ} {response : Value}
    (hfp : r.fingerprint = c.fingerprint) (hcompleted : r.status = .completed)
    (hstatus : r.responseStatus = some status) (hresponse : r.response = some response) :
    c.afterSelect left (some r) = .answered (.replay status response) := by
  unfold afterSelect
  simp only [if_neg (not_not.2 hfp), hcompleted, hstatus, hresponse, Option.getD_some]

/-- After an insert that another record was in the way of. -/
def afterConflict : ℕ → Point
  | left + 1 => .reading left
  | 0 => .answered (.conflict "相同幂等键的请求正在处理中")

/-- The next statement of `begin`: what it does to the table, and where it goes on. -/
def next (c : Call) (db : Db) (now : ℤ) : Db × Point :=
  match c.point with
  | .reading left => (db, c.afterSelect left (db.select now c.keyId c.idemKey))
  | .takingOver rid => (db.takeOver now rid, .answered (.proceed rid))
  | .inserting left =>
    match db.insert now c.keyId c.idemKey c.fingerprint with
    | some (rid, db) => (db, .answered (.proceed rid))
    | none => (db, afterConflict left)
  | point => (db, point)

/-- The statement at the end of a request that proceeds. -/
def finish (c : Call) (db : Db) (write : Db → ℕ → Db) : Db × Point :=
  match c.point with
  | .answered (.proceed rid) => (write db rid, .finished)
  | point => (db, point)

end Call

/-- The table, the requests and the time. -/
structure State where
  db : Db := {}
  calls : Table ℕ Call := ∅
  now : ℤ := 0

inductive Action where
  /-- Time passes. -/
  | tick (d : ℕ)
  | cleanupExpired
  /-- A request comes in. -/
  | request (id : ℕ) (keyId : Uuid) (idemKey fingerprint : String)
  /-- The next statement of the `begin` of a request. -/
  | next (id : ℕ)
  | complete (id : ℕ) (status : ℤ) (response : Value) (taskId : Option Uuid)
  | fail (id : ℕ)
  /-- A request breaks off. -/
  | broken (id : ℕ)

namespace State

/-- Moves a request to where a statement leaves it. -/
def move (s : State) (id : ℕ) (c : Call) (after : Db × Point) : State :=
  { s with db := after.1, calls := s.calls.insert id { c with point := after.2 } }

/-- One action. There is one request to an id, and an action of a request that is not there does
nothing. -/
def step (s : State) : Action → State
  | .tick d => { s with now := s.now + d }
  | .cleanupExpired => { s with db := s.db.cleanupExpired s.now }
  | .request id keyId idemKey fingerprint =>
    match s.calls.lookup id with
    | none => { s with calls := s.calls.insert id ⟨keyId, idemKey, fingerprint, .reading 1⟩ }
    | some _ => s
  | .next id =>
    match s.calls.lookup id with
    | some c => s.move id c (c.next s.db s.now)
    | none => s
  | .complete id status response taskId =>
    match s.calls.lookup id with
    | some c => s.move id c (c.finish s.db fun db rid ↦ db.complete rid status response taskId)
    | none => s
  | .fail id =>
    match s.calls.lookup id with
    | some c => s.move id c (c.finish s.db Db.fail)
    | none => s
  | .broken id =>
    match s.calls.lookup id with
    | some c => s.move id c (s.db, .broken)
    | none => s

def run (s : State) (actions : List Action) : State := actions.foldl step s

theorem run_concat (s : State) (actions : List Action) (a : Action) :
    s.run (actions ++ [a]) = (s.run actions).step a :=
  List.foldl_concat ..

end State

end NextApi.Idempotency
