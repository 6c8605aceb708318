import Mathlib.Data.List.Sort
import NextApi.Logging.Event
import NextApi.Stream.Run
import NextApi.Stream.Table
import NextApi.Text.Lines

/-!
# Asynchronous media tasks

A media task is an image that a provider makes in its own time. Its row is written when the request
comes in. Pollers read the rows that are pending or processing, ask the provider for each of them,
and write the outcome back: a success is priced and logged, a failure is logged, anything else only
updates the status, and a task that is too old is given up without asking.

A poller works from the rows it read at the start of its round, while other pollers do the same.
Every statement that it sends, and every event that it logs, is an action of its own; a poller may
also break off at any point, by an error of the database or with the process. Every `UPDATE` is
conditional: it changes the row only while that is pending or processing.

The billing key of a row and the columns for videos are not modelled: no statement of the pollers
reads them. The snapshot of the upstreams is asked once for each task, and its answer is part of the
action; the choice of a proxy has no influence on the rows.
-/

set_option autoImplicit false

namespace NextApi.Media

open Json Logging

/-! ### Tasks -/

/-- The statuses that the table allows. -/
inductive Status where
  | pending
  | processing
  | succeeded
  | failed
  | timeout
  deriving DecidableEq, Inhabited

/-- `status IN ('pending','processing')`. -/
def Status.isOpen : Status → Bool
  | .pending | .processing => true
  | .succeeded | .failed | .timeout => false

structure MediaTaskRow where
  id : Uuid
  mediaType : String := "image"
  gatewayKeyId : Uuid
  model : String
  upstreamModel : Option String := none
  upstreamId : Uuid
  providerTaskId : Option String := none
  status : Status := .pending
  imageCount : Option ℤ := none
  imageSize : Option String := none
  costCny : Option ℚ := none
  costUsd : Option ℚ := none
  error : Option String := none
  raw : Option Value := none
  requestId : Option String := none
  createdAt : ℤ
  updatedAt : ℤ
  finishedAt : Option ℤ := none
  deriving Inhabited

/-- A task that is too old, in nanoseconds. -/
def isExpired (createdAt now : ℤ) (maxAgeHours : ℕ) : Bool :=
  decide (createdAt ≤ now - maxAgeHours * (3600 * 10 ^ 9))

/-! ### Answers of the provider -/

structure TaskStatus where
  status : Status
  imageCount : Option ℤ
  imageSize : Option String
  error : Option String
  raw : Value
  deriving Inhabited

/-- The status that a provider's word stands for. -/
def normalizeTaskStatus (s : String) : Status :=
  match (String.ofList (Text.trim s.toList)).toUpper with
  | "" | "PENDING" | "UNKNOWN" => .pending
  | "RUNNING" => .processing
  | "SUCCEEDED" => .succeeded
  | "FAILED" | "CANCELED" | "CANCELLED" => .failed
  -- a word that is not known is taken for one of a task that goes on
  | _ => .pending

/-- Reads the provider's answer. -/
def parseTaskStatus (json : Value) : TaskStatus :=
  let status := normalizeTaskStatus json["output"]["task_status"].strOrEmpty
  { status := status
    imageCount := json["usage"]["image_count"].asI64
    -- the answer does not tell the size
    imageSize := none
    error :=
      if status = .failed then
        some ((json["output"]["message"].asStr.orElse fun _ ↦
          json["output"]["code"].asStr.map fun c ↦ "code=" ++ c).getD "任务失败")
      else none
    raw := json }

inductive TaskOutcome where
  | succeeded
  | failed
  | inProgress
  deriving DecidableEq, Inhabited

def finalizeOutcome : Status → TaskOutcome
  | .succeeded => .succeeded
  | .failed => .failed
  | _ => .inProgress

/-! ### Events -/

/-- The result of pricing one event. -/
structure Priced where
  costCny : Option ℚ
  costUsd : Option ℚ
  priced : Bool
  priceUsed : Value
  fxSnapshot : Value
  deriving Inhabited

def truncateChars (s : String) (maxChars : ℕ) : String :=
  if s.length ≤ maxChars then s else String.ofList (s.toList.take maxChars)

/-- `as i32`. -/
def castI32 (i : ℤ) : ℤ := (BitVec.ofInt 32 i).toInt

section Events

variable [FieldText]

/-- What the events of a finished task have in common. -/
def doneEvent (task : MediaTaskRow) (ts : ℤ) (status : ℤ) : LogEvent where
  requestId := task.requestId.getD (FieldText.formatUuid task.id) ++ "-done"
  ts := ts
  keyId := some task.gatewayKeyId
  model := task.model
  requestedModel := none
  upstreamModel := task.upstreamModel
  upstreamId := some task.upstreamId
  protocolIn := "openai_image"
  protocolOut := "images_dashscope_async"
  convertMode := "media_task"
  stream := false
  status := status
  error := none
  promptTokens := none
  completionTokens := none
  cacheWriteTokens := none
  cacheReadTokens := none
  images := none
  imageSize := none
  videoSeconds := none
  videoResolution := none
  videoTaskType := none
  latencyMs := none
  retryCount := 0
  ttfbMs := none
  degraded := false
  usageRaw := none
  debugPayload := none
  costCny := none
  costUsd := none
  pricingSource := none
  priceUsed := none
  fxSnapshot := none
  requestHeaders := none

def succeededEvent (task : MediaTaskRow) (st : TaskStatus) (now : ℤ) (price : Option Priced) :
    LogEvent :=
  { doneEvent task now 200 with
    costCny := price.bind Priced.costCny
    costUsd := price.bind Priced.costUsd
    pricingSource := (price.filter Priced.priced).map fun _ ↦ "bound"
    priceUsed := (price.filter Priced.priced).map Priced.priceUsed
    fxSnapshot := (price.filter Priced.priced).map Priced.fxSnapshot
    images := st.imageCount
    imageSize := st.imageSize }

/-- The text of a failure. -/
def failureText (st : TaskStatus) : String := truncateChars (st.error.getD "任务失败") 2000

def failedEvent (task : MediaTaskRow) (st : TaskStatus) (now : ℤ) : LogEvent :=
  { doneEvent task now 502 with error := some (failureText st) }

end Events

/-! ### Statements -/

/-- The rows of `media_tasks`, by their primary key. -/
abbrev TaskTable := Table Uuid MediaTaskRow

namespace TaskTable

/-- The statement at the start of a round. -/
def select (rows : TaskTable) : List MediaTaskRow :=
  ((rows.values.filter fun r ↦ decide (r.mediaType = "image") && r.status.isOpen).mergeSort
    fun a b ↦ decide (a.createdAt ≤ b.createdAt)).take 100

/-- `UPDATE .. WHERE id=$1 AND status IN ('pending','processing')`, and whether it changed a row. -/
def update (rows : TaskTable) (id : Uuid) (f : MediaTaskRow → MediaTaskRow) : TaskTable × Bool :=
  match rows.lookup id with
  | some r => if r.status.isOpen then (rows.insert id (f r), true) else (rows, false)
  | none => (rows, false)

end TaskTable

/-- Gives a task up. -/
def setTimeout (now : ℤ) (r : MediaTaskRow) : MediaTaskRow :=
  { r with status := .timeout, finishedAt := some now, updatedAt := now }

def setSucceeded (st : TaskStatus) (price : Option Priced) (now : ℤ) (r : MediaTaskRow) :
    MediaTaskRow :=
  { r with
    status := .succeeded
    imageCount := st.imageCount.map castI32
    imageSize := st.imageSize
    raw := some st.raw
    finishedAt := some now
    updatedAt := now
    costCny := price.bind Priced.costCny
    costUsd := price.bind Priced.costUsd }

def setFailed (st : TaskStatus) (now : ℤ) (r : MediaTaskRow) : MediaTaskRow :=
  { r with
    status := .failed
    error := some (failureText st)
    raw := some st.raw
    finishedAt := some now
    updatedAt := now }

def setStatus (st : TaskStatus) (now : ℤ) (r : MediaTaskRow) : MediaTaskRow :=
  { r with status := st.status, updatedAt := now }

/-! ### Pollers -/

/-- Where a poller is with a task. -/
inductive Point where
  /-- Between two tasks, or between two rounds. -/
  | idle
  /-- Before giving up a task that is too old. -/
  | expiring (task : MediaTaskRow)
  /-- Waiting for the provider. -/
  | querying (task : MediaTaskRow) (providerTaskId : String)
  | pricing (task : MediaTaskRow) (st : TaskStatus) (now : ℤ)
  /-- Before writing a success. -/
  | succeeding (task : MediaTaskRow) (st : TaskStatus) (now : ℤ) (price : Option Priced)
  /-- Before writing a failure. -/
  | failing (task : MediaTaskRow) (st : TaskStatus)
  /-- Before writing the status of a task that goes on. -/
  | syncing (task : MediaTaskRow) (st : TaskStatus)
  /-- Before logging the event of a finished task. -/
  | logging (taskId : Uuid) (ev : LogEvent)
  deriving Inhabited

/-- A poller, with the tasks of its round that are still to come. -/
structure Poller where
  maxAgeHours : ℕ := 24
  queue : List MediaTaskRow := []
  point : Point := .idle
  deriving Inhabited

/-- An event that a poller has logged for a task. -/
structure Emitted where
  poller : ℕ
  taskId : Uuid
  event : LogEvent

structure State where
  rows : TaskTable := ∅
  pollers : Table ℕ Poller := ∅
  events : List Emitted := []

inductive Action where
  /-- A request makes a task. -/
  | insert (row : MediaTaskRow)
  /-- A poller starts a round. -/
  | select (w : ℕ) (maxAgeHours : ℕ)
  /-- A poller turns to its next task, whose upstream is enabled, disabled or gone. -/
  | next (w : ℕ) (now : ℤ) (upstream : Option Bool)
  /-- The provider answers, or cannot be asked. -/
  | reply (w : ℕ) (now : ℤ) (answer : Option Value)
  /-- The success is priced, or cannot be. -/
  | price (w : ℕ) (result : Option Priced)
  /-- A poller sends its `UPDATE`. -/
  | write (w : ℕ) (now : ℤ)
  /-- The database refuses the `UPDATE`. -/
  | refused (w : ℕ)
  | log (w : ℕ)
  /-- A poller breaks off. -/
  | stop (w : ℕ)

namespace Poller

/-- `process_task`, up to its first statement or the question to the provider. -/
def start (p : Poller) (now : ℤ) (upstream : Option Bool) : Poller :=
  match p.point, p.queue with
  | .idle, task :: rest =>
    let p := { p with queue := rest }
    if isExpired task.createdAt now p.maxAgeHours then { p with point := .expiring task }
    else if upstream ≠ some true then p
    else
      match task.providerTaskId with
      | some providerTaskId => { p with point := .querying task providerTaskId }
      | none => p
  | _, _ => p

/-- The provider's answer decides what is written. -/
def answered (p : Poller) (now : ℤ) (answer : Option Value) : Poller :=
  match p.point with
  | .querying task _ =>
    match answer with
    | none => { p with point := .idle }
    | some json =>
      let st := parseTaskStatus json
      match finalizeOutcome st.status with
      | .succeeded => { p with point := .pricing task st now }
      | .failed => { p with point := .failing task st }
      | .inProgress => { p with point := .syncing task st }
  | _ => p

def priced (p : Poller) (result : Option Priced) : Poller :=
  match p.point with
  | .pricing task st now => { p with point := .succeeding task st now result }
  | _ => p

/-- The `UPDATE` of a poller, and where it goes on: to the log when it has finished the task. -/
def write [FieldText] (p : Poller) (rows : TaskTable) (now : ℤ) : TaskTable × Point :=
  match p.point with
  | .expiring task => ((rows.update task.id (setTimeout now)).1, .idle)
  | .succeeding task st at' price =>
    let done := rows.update task.id (setSucceeded st price now)
    (done.1, if done.2 then .logging task.id (succeededEvent task st at' price) else .idle)
  | .failing task st =>
    let done := rows.update task.id (setFailed st now)
    (done.1, if done.2 then .logging task.id (failedEvent task st now) else .idle)
  | .syncing task st => ((rows.update task.id (setStatus st now)).1, .idle)
  | point => (rows, point)

/-- After an error of the database: the next task. -/
def refused (p : Poller) : Poller :=
  match p.point with
  | .expiring _ | .succeeding .. | .failing .. | .syncing .. => { p with point := .idle }
  | _ => p

end Poller

namespace State

/-- Changes one poller. -/
def onPoller (s : State) (w : ℕ) (f : Poller → Poller) : State :=
  match s.pollers.lookup w with
  | some p => { s with pollers := s.pollers.insert w (f p) }
  | none => s

/-- A poller with nothing left to do reads the tasks of a round. -/
def startRound (s : State) (w : ℕ) (maxAgeHours : ℕ) : State :=
  match s.pollers.lookup w with
  | none => { s with pollers := s.pollers.insert w { maxAgeHours, queue := s.rows.select } }
  | some p =>
    match p.point, p.queue with
    | .idle, [] => { s with pollers := s.pollers.insert w { maxAgeHours, queue := s.rows.select } }
    | _, _ => s

/-- One action. There is one poller to a number, and an action of a poller that is not there, or is
elsewhere, does nothing. -/
def step [FieldText] (s : State) : Action → State
  | .insert row =>
    match s.rows.lookup row.id with
    | none => { s with rows := s.rows.insert row.id { row with status := .pending } }
    | some _ => s
  | .select w maxAgeHours => s.startRound w maxAgeHours
  | .next w now upstream => s.onPoller w fun p ↦ p.start now upstream
  | .reply w now answer => s.onPoller w fun p ↦ p.answered now answer
  | .price w result => s.onPoller w fun p ↦ p.priced result
  | .write w now =>
    match s.pollers.lookup w with
    | some p =>
      { s with
        rows := (p.write s.rows now).1
        pollers := s.pollers.insert w { p with point := (p.write s.rows now).2 } }
    | none => s
  | .refused w => s.onPoller w Poller.refused
  | .log w =>
    match s.pollers.lookup w with
    | some p =>
      match p.point with
      | .logging taskId ev =>
        { s with
          pollers := s.pollers.insert w { p with point := .idle }
          events := s.events ++ [⟨w, taskId, ev⟩] }
      | _ => s
    | none => s
  | .stop w => { s with pollers := s.pollers.erase w }

/-- The state after the actions. -/
def run [FieldText] (s : State) (actions : List Action) : State := Transition.run step s actions

end State

end NextApi.Media
