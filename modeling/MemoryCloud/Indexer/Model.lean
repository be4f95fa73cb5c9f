import Mathlib.Data.List.Sort
import MemoryCloud.Shared.Runs

set_option autoImplicit false

/-!
# The resource indexer and its job row

One `indexer_state` row of a resource, the ingest requests that append events
and wake the row, and the runs of `run_queued_indexers` that fetch the events
above `last_offset`. Every transaction reads committed rows and writes at its
commit; an update writes only the columns whose value differs from the copy
the session holds.
-/

namespace MemoryCloud.Indexer

abbrev ResourcePk := Nat
abbrev EventId := Nat

structure ResourceEvent where
  id : EventId
  resourcePk : ResourcePk
  docId : String
  deriving DecidableEq, Repr

structure FailedEvent where
  eventId : EventId
  docId : String
  errorClass : String
  deriving DecidableEq, Repr

def maxRecordedFailedEvents : Nat := 20

-- One entry of the dict `by_event_id`, its keys kept ascending.
def putEntry (entry : FailedEvent) : List FailedEvent → List FailedEvent
  | [] => [entry]
  | head :: rest =>
    if entry.eventId < head.eventId then entry :: head :: rest
    else if entry.eventId = head.eventId then entry :: rest
    else head :: putEntry entry rest

def byEventId (entries : List FailedEvent) : List FailedEvent :=
  entries.foldl (fun record entry => putEntry entry record) []

def mergeFailedEvents (recorded new : List FailedEvent) : List FailedEvent :=
  (byEventId (recorded ++ new)).take maxRecordedFailedEvents

def fetchEvents (events : List ResourceEvent) (resourcePk : ResourcePk) (afterId : EventId)
    (limit : Nat) : List ResourceEvent :=
  ((events.filter fun event => event.resourcePk = resourcePk ∧ afterId < event.id).insertionSort
    fun first second => first.id ≤ second.id).take limit

-- How an event of the batch ends: `none` when its savepoint is released, else the class of the
-- error.
abbrev Outcome := Option String

structure Progress where
  lastOffset : EventId
  failures : List FailedEvent
  deriving Repr

def runEvent (outcome : ResourceEvent → Outcome) (progress : Progress) (event : ResourceEvent) :
    Progress :=
  match outcome event with
  | none => { progress with lastOffset := event.id }
  | some errorClass =>
    { progress with
      failures := progress.failures ++ [{ eventId := event.id, docId := event.docId, errorClass }] }

def runEvents (outcome : ResourceEvent → Outcome) (lastOffset : EventId)
    (events : List ResourceEvent) : Progress :=
  events.foldl (runEvent outcome) { lastOffset, failures := [] }

inductive JobStatus
  | idle
  | queued
  | running
  | failed
  deriving DecidableEq, Repr

structure IndexerState where
  lastOffset : EventId
  jobStatus : JobStatus
  failedEvents : List FailedEvent
  deriving DecidableEq, Repr

-- The record kept from before: the entries the batch did not run again.
def keptEntries (recorded : List FailedEvent) (lastOffset lastId : EventId) : List FailedEvent :=
  recorded.filter fun entry => ¬ (lastOffset < entry.eventId ∧ entry.eventId ≤ lastId)

inductive SkipReason
  | noPendingEvents
  | planSuspended
  | schemaNotFound
  | memoryLimitExceeded
  | memoriesPerDayExceeded
  deriving DecidableEq, Repr

-- The status `run_queued_indexers` leaves behind for a run that ended with the reason.
def statusAfter : Option SkipReason → JobStatus
  | some .memoriesPerDayExceeded => .queued
  | some .planSuspended => .queued
  | some .memoryLimitExceeded => .queued
  | some .noPendingEvents => .idle
  | some .schemaNotFound => .idle
  | none => .idle

inductive RowWrite
  | create
  | wake
  | leave
  deriving DecidableEq, Repr

def scheduleIndexer : Option IndexerState → RowWrite
  | none => .create
  | some row => if row.jobStatus = .idle then .wake else .leave

-- An ingest request: its rows not yet committed, then committed with the wake-up still to come,
-- then the row read and the write not yet committed.
inductive Request
  | absent
  | inserting (resourcePk : ResourcePk) (rows : List ResourceEvent)
  | stored (rows : List ResourceEvent)
  | scheduled (rows : List ResourceEvent) (write : RowWrite)
  deriving DecidableEq, Repr

-- A run of the job on the row. `loaded` and `fetched` hold the session's copy of the row. After the
-- run the session's copy of the status is gone when a rollback expired it.
inductive Run
  | absent
  | picked
  | refreshed (status : JobStatus)
  | marked
  | loaded (copy : IndexerState)
  | fetched (copy : IndexerState) (events : List ResourceEvent)
  | returned (status : Option JobStatus) (reason : Option SkipReason) (record : List FailedEvent)
  deriving DecidableEq, Repr

structure Batch where
  ran : List (ResourceEvent × Outcome)
  record : List FailedEvent
  deriving DecidableEq, Repr

structure State where
  nextId : EventId
  events : List ResourceEvent
  requests : Nat → Request
  row : Option IndexerState
  runs : Nat → Run
  batches : List Batch

def initial : State :=
  { nextId := 1
    events := []
    requests := fun _ => .absent
    row := none
    runs := fun _ => .absent
    batches := [] }

-- The column is in the UPDATE only when the value set differs from the session's copy.
def writeStatus (copy : Option JobStatus) (status : JobStatus) (row : IndexerState) : IndexerState :=
  if copy = some status then row else { row with jobStatus := status }

def writeOffset (copy offset : EventId) (row : IndexerState) : IndexerState :=
  if copy = offset then row else { row with lastOffset := offset }

inductive RequestAction
  | openTransaction (resourcePk : ResourcePk)
  | insertEvent (docId : String)
  | commitEvents
  | abort
  | readState
  | writeState

structure RequestStep where
  request : Request
  row : Option IndexerState
  nextId : EventId
  committed : List ResourceEvent

def newRow : IndexerState := { lastOffset := 0, jobStatus := .queued, failedEvents := [] }

-- The commit of the wake-up. A create that meets the row of another request fails on its unique
-- key.
def commitWrite (row : Option IndexerState) : RowWrite → Option IndexerState
  | .create => row.or (some newRow)
  | .wake => row.map fun row => { row with jobStatus := .queued }
  | .leave => row

def stepRequest (resourcePk : ResourcePk) (nextId : EventId) (row : Option IndexerState) :
    Request → RequestAction → Option RequestStep
  | .absent, .openTransaction pk =>
    some { request := .inserting pk [], row, nextId, committed := [] }
  | .inserting pk rows, .insertEvent docId =>
    some
      { request := .inserting pk (rows ++ [{ id := nextId, resourcePk := pk, docId }])
        row
        nextId := nextId + 1
        committed := [] }
  -- Another resource's request and one without a row do not wake this row.
  | .inserting pk rows, .commitEvents =>
    some
      { request := if pk = resourcePk ∧ rows ≠ [] then .stored rows else .absent
        row
        nextId
        committed := rows }
  | .stored rows, .readState =>
    some { request := .scheduled rows (scheduleIndexer row), row, nextId, committed := [] }
  | .scheduled _ write, .writeState =>
    some { request := .absent, row := commitWrite row write, nextId, committed := [] }
  | _, .abort => some { request := .absent, row, nextId, committed := [] }
  | _, _ => none

inductive RunAction
  | pick
  | refresh
  | skip
  | mark
  | load
  | fetch (limit : Nat)
  | holdBack (reason : SkipReason)
  | commitBatch (batchLen : Nat) (outcome : ResourceEvent → Outcome)
  | failRun
  | failJob
  | finish
  | kill

structure RunStep where
  run : Run
  row : Option IndexerState
  batches : List Batch

-- The rest of the events waits for room in the workspace.
def batchReason (events : List ResourceEvent) (batchLen : Nat) : Option SkipReason :=
  if batchLen < events.length then some .memoryLimitExceeded else none

def lastId (events : List ResourceEvent) : EventId :=
  (events.getLast?.map ResourceEvent.id).getD 0

def batchRecord (copy : IndexerState) (events : List ResourceEvent)
    (outcome : ResourceEvent → Outcome) : List FailedEvent :=
  mergeFailedEvents (keptEntries copy.failedEvents copy.lastOffset (lastId events))
    (runEvents outcome copy.lastOffset events).failures

def commitBatch (row : Option IndexerState) (copy : IndexerState) (events : List ResourceEvent)
    (reason : Option SkipReason) (outcome : ResourceEvent → Outcome) : RunStep :=
  let record := batchRecord copy events outcome
  let offset := (runEvents outcome copy.lastOffset events).lastOffset
  { run := .returned (some copy.jobStatus) reason record
    row := row.map fun row =>
      { writeOffset copy.lastOffset offset row with failedEvents := record }
    batches := [{ ran := events.map fun event => (event, outcome event), record }] }

-- The fetch of `process_incremental`; without events it returns at once.
def fetched (copy : IndexerState) (events : List ResourceEvent) : Run :=
  match events with
  | [] => .returned (some copy.jobStatus) (some .noPendingEvents) copy.failedEvents
  | event :: rest => .fetched copy (event :: rest)

def writeFinal (row : Option IndexerState) (copy : Option JobStatus) (status : JobStatus)
    (record : List FailedEvent) : Option IndexerState :=
  row.map fun row => { writeStatus copy status row with failedEvents := record }

def stepRun (resourcePk : ResourcePk) (events : List ResourceEvent) (row : Option IndexerState) :
    Run → RunAction → Option RunStep
  | .absent, .pick =>
    if row.map IndexerState.jobStatus = some .queued then some { run := .picked, row, batches := [] }
    else none
  | .picked, .refresh =>
    row.map fun read => { run := .refreshed read.jobStatus, row := some read, batches := [] }
  -- The rate limit: only `next_run_at` moves.
  | .refreshed _, .skip => some { run := .absent, row, batches := [] }
  | .refreshed status, .mark =>
    some { run := .marked, row := row.map (writeStatus (some status) .running), batches := [] }
  | .marked, .load => row.map fun read => { run := .loaded read, row := some read, batches := [] }
  | .loaded copy, .fetch limit =>
    some
      { run := fetched copy (fetchEvents events resourcePk copy.lastOffset limit)
        row
        batches := [] }
  | .fetched copy _, .holdBack reason =>
    if reason = .noPendingEvents then none
    else
      some
        { run := .returned (some copy.jobStatus) (some reason) copy.failedEvents
          row
          batches := [] }
  | .fetched copy events, .commitBatch batchLen outcome =>
    if batchLen = 0 then none
    else some (commitBatch row copy (events.take batchLen) (batchReason events batchLen) outcome)
  -- An exception inside the run: the rollback expires the copy, the record is as it was.
  | .loaded copy, .failRun | .fetched copy _, .failRun =>
    some { run := .returned none none copy.failedEvents, row, batches := [] }
  -- An exception in the job around the run.
  | .loaded { failedEvents := record, .. }, .failJob
  | .fetched { failedEvents := record, .. } _, .failJob
  | .returned _ _ record, .failJob =>
    some { run := .absent, row := writeFinal row none .failed record, batches := [] }
  | .returned copy reason record, .finish =>
    some { run := .absent, row := writeFinal row copy (statusAfter reason) record, batches := [] }
  | _, .kill => some { run := .absent, row, batches := [] }
  | _, _ => none

inductive Action
  | request (i : Nat) (action : RequestAction)
  | run (j : Nat) (action : RunAction)
  | burnId

def State.afterRequest (state : State) (i : Nat) (result : RequestStep) : State :=
  { state with
    nextId := result.nextId
    events := state.events ++ result.committed
    requests := Function.update state.requests i result.request
    row := result.row }

def State.afterRun (state : State) (j : Nat) (result : RunStep) : State :=
  { state with
    row := result.row
    runs := Function.update state.runs j result.run
    batches := result.batches ++ state.batches }

def step (resourcePk : ResourcePk) (state : State) : Action → Option State
  | .request i action =>
    (stepRequest resourcePk state.nextId state.row (state.requests i) action).map
      (state.afterRequest i)
  | .run j action =>
    (stepRun resourcePk state.events state.row (state.runs j) action).map (state.afterRun j)
  -- An insert that fails has drawn its id all the same.
  | .burnId => some { state with nextId := state.nextId + 1 }

end MemoryCloud.Indexer
