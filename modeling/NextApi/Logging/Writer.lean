import NextApi.Logging.Batch
import NextApi.Logging.WalRuns

/-!
# The log writer and the replay of the log

The writer collects events from a queue. When the interval is over, or the batch is full, it
inserts the batch; a batch that the database refuses is appended to the write-ahead log, and a
batch that the log refuses as well is kept for the next time. When the queue is closed the writer
tries three more times, and then gives up.

A replay reads the files of the log, one after the other, and inserts their events. A file whose
events are all inserted is archived, unless it is the active one or has grown since the replay
looked at it. The writer and any number of replays take turns after every access to the database or
to the files (`Pipeline.step`).

What the database and the file system answer is part of an action. The waiting after a failure and
the gauge of the queue are left out. The size of a file that is there can always be read.
-/

set_option autoImplicit false

namespace NextApi.Logging

open Json Text

def batchMax : ℕ := 500

/-! ### The writer -/

/-- What the database does with a batch. -/
inductive DbAnswer where
  | answers (env : Env)
  /-- The batch is inserted, and the connection is lost before the answer. -/
  | lost (env : Env)
  | down

/-- Inserts a batch, and whether it was reported as inserted. -/
def tryInsert (db : Db) (events : List LogEvent) : DbAnswer → Db × Bool
  | .answers env =>
    match insertBatch db env events with
    | some (db, _) => (db, true)
    | none => (db, false)
  | .lost env =>
    match insertBatch db env events with
    | some (db, _) => (db, false)
    | none => (db, false)
  | .down => (db, false)

inductive WriterPoint where
  | receiving
  | inserting
  /-- After the database has refused the batch. -/
  | appending
  | stopped
  deriving DecidableEq, Inhabited

/-- The task of the writer, and the number of its attempts after the queue was closed. -/
structure Writer where
  batch : List LogEvent := []
  point : WriterPoint := .receiving
  drains : Option ℕ := none

namespace Writer

/-- The loop after the queue was closed. -/
def drain (w : Writer) (attempts : ℕ) : Writer :=
  if w.batch.isEmpty then { w with point := .stopped }
  else if attempts < 3 then { w with point := .inserting, drains := some (attempts + 1) }
  else { w with batch := [], point := .stopped }

/-- Where the writer goes on after a flush. -/
def flushed (w : Writer) : Writer :=
  match w.drains with
  | none => { w with point := .receiving }
  | some attempts => w.drain attempts

/-- The writer receives an event; a full batch is flushed. -/
def receive (w : Writer) (ev : LogEvent) : Writer :=
  let batch := w.batch ++ [ev]
  { w with batch := batch, point := if batch.length ≥ batchMax then .inserting else .receiving }

/-- The interval is over. -/
def timer (w : Writer) : Writer := if w.batch.isEmpty then w else { w with point := .inserting }

end Writer

/-! ### Replays -/

/-- Where a replay is. The size of a file is taken before it is read. -/
inductive ReplayPoint where
  | next
  | reading (path : WalPath) (len : Option ℕ)
  | inserting (path : WalPath) (len : Option ℕ) (bytes : List UInt8) (left : List LogEvent)
  | archiving (path : WalPath) (len : Option ℕ) (bytes : List UInt8)

/-- The task of a replay, with the files that it has listed. -/
structure Replay where
  files : List WalPath
  point : ReplayPoint := .next

/-! ### All tasks -/

/-- The database, the log and the tasks. The events that the writer received, and the files that
were archived, with the events that they held, are kept as a record. -/
structure Pipeline where
  db : Db := {}
  journal : Journal
  writer : Writer := {}
  replays : Table ℕ Replay := ∅
  accepted : List LogEvent := []
  archived : List (WalPath × List LogEvent) := []

inductive LogAction where
  | receive (ev : LogEvent)
  | timer
  /-- The queue is closed, and empty. -/
  | close
  /-- The writer inserts its batch. -/
  | insert (answer : DbAnswer)
  /-- The writer appends its batch to the log. -/
  | append (nanos : ℕ) (outcome : WriteOutcome)
  /-- Another task appends events that the queue had no place for. -/
  | spill (call : AppendCall)
  /-- A replay lists the files. -/
  | list (id : ℕ) (files : List WalPath)
  /-- The next step of a replay, with what the database answers and whether the file system
  does what it is asked for. -/
  | replay (id : ℕ) (answer : DbAnswer) (io : Bool)

section Steps

variable [SerdeJson] [FieldText] [Crc32]

/-- The events that were reported as written to a file, and the ones that it is read as. -/
def Journal.held (j : Journal) (path : WalPath) : List LogEvent :=
  j.acked path ++ (decodeFile (j.wal.contents path)).getD []

namespace Pipeline

/-- `archive_if_inactive`. -/
def archive (s : Pipeline) (path : WalPath) (len : Option ℕ) (io : Bool) : Pipeline :=
  match s.journal.wal.files.lookup path with
  | none => s
  | some bytes =>
    if s.journal.wal.curPath = some path then s
    else if some bytes.length ≠ len then s
    else if io = false then s
    else
      { s with
        journal :=
          { wal := { s.journal.wal with files := s.journal.wal.files.erase path }
            acked := fun other ↦ if other = path then [] else s.journal.acked other }
        archived := s.archived ++ [(path, s.journal.held path)] }

/-- The writer inserts its batch. -/
def insert (s : Pipeline) (answer : DbAnswer) : Pipeline :=
  let (db, ok) := tryInsert s.db s.writer.batch answer
  { s with
    db := db
    writer :=
      if ok then Writer.flushed { s.writer with batch := [] }
      else { s.writer with point := .appending } }

/-- The append of the writer's batch. -/
def call (s : Pipeline) (nanos : ℕ) (outcome : WriteOutcome) : AppendCall :=
  ⟨s.writer.batch, nanos, outcome⟩

/-- The writer appends its batch to the log. -/
def append (s : Pipeline) (nanos : ℕ) (outcome : WriteOutcome) : Pipeline :=
  let ok := (s.journal.wal.append s.writer.batch nanos outcome).2
  { s with
    journal := s.journal.step (s.call nanos outcome)
    writer := Writer.flushed (if ok then { s.writer with batch := [] } else s.writer) }

/-- The next step of a replay. -/
def advance (s : Pipeline) (id : ℕ) (r : Replay) (answer : DbAnswer) (io : Bool) : Pipeline :=
  let goto (s : Pipeline) (r : Replay) : Pipeline := { s with replays := s.replays.insert id r }
  match r.point with
  | .next =>
    match r.files with
    | [] => s
    | path :: rest =>
      goto s ⟨rest, .reading path ((s.journal.wal.files.lookup path).map List.length)⟩
  | .reading path len =>
    match if io then s.journal.wal.files.lookup path else none with
    | none => goto s { r with point := .next }
    | some bytes =>
      match decodeFile bytes with
      | none => goto s { r with point := .next }
      | some events => goto s { r with point := .inserting path len bytes events }
  | .inserting path len bytes left =>
    if left.isEmpty then goto s { r with point := .archiving path len bytes }
    else
      let (db, ok) := tryInsert s.db (left.take batchMax) answer
      goto { s with db := db }
        { r with point := if ok then .inserting path len bytes (left.drop batchMax) else .next }
  | .archiving path len _ => goto (s.archive path len io) { r with point := .next }

/-- One action. An action that the writer is not at does nothing. -/
def step (s : Pipeline) : LogAction → Pipeline
  | .receive ev =>
    if s.writer.point = .receiving then
      { s with writer := s.writer.receive ev, accepted := s.accepted ++ [ev] }
    else s
  | .timer => if s.writer.point = .receiving then { s with writer := s.writer.timer } else s
  | .close => if s.writer.point = .receiving then { s with writer := s.writer.drain 0 } else s
  | .insert answer => if s.writer.point = .inserting then s.insert answer else s
  | .append nanos outcome =>
    if s.writer.point = .appending then s.append nanos outcome else s
  | .spill call => { s with journal := s.journal.step call }
  | .list id files => { s with replays := s.replays.insert id ⟨files, .next⟩ }
  | .replay id answer io =>
    match s.replays.lookup id with
    | some r => s.advance id r answer io
    | none => s

def run (s : Pipeline) (actions : List LogAction) : Pipeline := actions.foldl step s

end Pipeline

end Steps

end NextApi.Logging
