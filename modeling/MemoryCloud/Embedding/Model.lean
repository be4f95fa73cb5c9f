import MemoryCloud.Shared.Runs

set_option autoImplicit false

/-!
# The embedding of one memory

`process_pending_embedding` of `services/memory_service.py` with its claim (`services/embedding_claim.py`),
the sweep of `tasks/embedding_tasks.py`, and what puts a row back in the queue. A statement of the
database is one step; the write of the summary point is another. An erasure of the author, which
suppresses the row, the content chunks and the switch to another collection are left out.
-/

namespace MemoryCloud.Embedding

-- Microseconds.
abbrev Time := Nat

def second : Time := 1000000

def staleClaim : Time := 60 * second

def retryBackoff : Time := 60 * second

def maxEmbeddingRetries : Nat := 3

inductive Status where
  | pending
  | processing
  | success
  | failed
  deriving DecidableEq, Repr

structure Memory (T : Type) where
  status : Status := .pending
  -- The claim's stamp, or else the clock of the retries.
  attemptedAt : Option Time := none
  retryCount : Nat := 0
  text : T
  deleted : Bool := false
  -- `embedding_suppressed_at` is set: the author is erased.
  suppressed : Bool := false
  deriving DecidableEq

section Clauses

variable {T : Type} (memory : Memory T)

def clockBefore (age now : Time) : Bool :=
  match memory.attemptedAt with
  | none => true
  | some stamp => stamp + age < now

def retryEligible (now : Time) : Bool :=
  memory.status = .failed && !memory.suppressed && memory.retryCount < maxEmbeddingRetries &&
    clockBefore memory retryBackoff now

def staleProcessing (now : Time) : Bool :=
  memory.status = .processing && !memory.suppressed && clockBefore memory staleClaim now

def reclaimEligible (now : Time) : Bool :=
  staleProcessing memory now && memory.retryCount < maxEmbeddingRetries

def reclaimExhausted (now : Time) : Bool :=
  staleProcessing memory now && maxEmbeddingRetries ≤ memory.retryCount

def claimable (now : Time) : Bool :=
  !memory.deleted && !memory.suppressed &&
    (memory.status = .pending || reclaimEligible memory now || retryEligible memory now)

-- The count is of the status before the claim.
def claimed (now : Time) : Memory T :=
  { memory with
    status := .processing
    attemptedAt := some now
    retryCount :=
      if memory.status = .failed || memory.status = .processing then memory.retryCount + 1
      else memory.retryCount }

inductive Failure where
  -- A state of the workspace: it does not spend the budget.
  | configuration
  | unrebuildable
  | other
  deriving DecidableEq, Repr

def failed (failure : Failure) (now : Time) : Memory T :=
  { memory with
    status := .failed
    attemptedAt := some now
    retryCount :=
      match failure with
      | .configuration => 0
      | .unrebuildable => maxEmbeddingRetries
      | .other => memory.retryCount }

def requeueEmbedding (includeProcessing : Bool) : Memory T :=
  if !memory.deleted && !memory.suppressed &&
      (memory.status = .success || includeProcessing && memory.status = .processing) then
    { memory with status := .pending }
  else memory

end Clauses

inductive Phase where
  | claimed
  | loaded
  | written
  -- The outcome stands; the edges of the new point are seeded.
  | seeding
  -- An exception is on its way to the handler.
  | raised
  -- The outcome write found the claim gone.
  | lost
  | done
  | crashed
  deriving DecidableEq, Repr

structure Run (T : Type) where
  stamp : Time
  phase : Phase := .claimed
  text : Option T := none
  wrote : Bool := false
  deriving DecidableEq

structure State (T : Type) where
  memory : Memory T
  point : Option T := none
  runs : List (Run T) := []

inductive Sent where
  | answered
  | raised (landed : Bool)
  deriving DecidableEq, Repr

inductive Action (T : Type) where
  | claim (now : Time)
  | load (index : Nat)
  -- The run may not hear of a renewal that committed.
  | renew (index : Nat) (now : Time) (heard : Bool)
  | write (index : Nat) (sent : Sent)
  | raise (index : Nat)
  | succeed (index : Nat)
  | seeded (index : Nat)
  | fail (index : Nat) (failure : Failure) (now : Time)
  | settle (index : Nat)
  | crash (index : Nat)
  | edit (text : T)
  | requeue (includeProcessing : Bool)
  | switch
  | retry (includeErased : Bool)
  | expire (now : Time)
  | forget
  | restore
  | dropPoint

section Steps

variable {T : Type} [DecidableEq T]

def holds (memory : Memory T) (run : Run T) : Bool :=
  memory.status = .processing && memory.attemptedAt = some run.stamp

def State.put (state : State T) (index : Nat) (run : Run T) : State T :=
  { state with runs := state.runs.set index run }

def load (state : State T) (index : Nat) (run : Run T) : Option (State T) :=
  if run.phase ≠ .claimed then none
  else if state.memory.deleted || state.memory.suppressed then
    some (state.put index { run with phase := .done })
  else some (state.put index { run with phase := .loaded, text := some state.memory.text })

def working (run : Run T) : Bool :=
  run.phase = .claimed || run.phase = .loaded || run.phase = .written

def renew (state : State T) (index : Nat) (run : Run T) (now : Time) (heard : Bool) :
    Option (State T) :=
  if !working run || !holds state.memory run then none
  else
    some { state.put index (if heard then { run with stamp := now } else run) with
      memory := { state.memory with attemptedAt := some now } }

def write (state : State T) (index : Nat) (run : Run T) (sent : Sent) : Option (State T) :=
  if run.phase ≠ .loaded then none
  else match sent with
    | .answered =>
      some { state.put index { run with phase := .written, wrote := true } with point := run.text }
    | .raised landed =>
      some { state.put index { run with phase := .raised, wrote := true } with
        point := if landed then run.text else state.point }

-- The outcome write: it matches on the claim's stamp.
def finish (state : State T) (index : Nat) (run : Run T) (outcome : Memory T) (phase : Phase) :
    State T :=
  if holds state.memory run then { state.put index { run with phase } with memory := outcome }
  else state.put index { run with phase := .lost }

def succeed (state : State T) (index : Nat) (run : Run T) : Option (State T) :=
  if run.phase ≠ .written then none
  else
    some (finish state index run { state.memory with status := .success, retryCount := 0 } .seeding)

def fail (state : State T) (index : Nat) (run : Run T) (failure : Failure) (now : Time) :
    Option (State T) :=
  if run.phase ≠ .raised then none
  else some (finish state index run (failed state.memory failure now) .done)

-- `_reconcile_after_lost_claim` under one author.
def settle (state : State T) (index : Nat) (run : Run T) : Option (State T) :=
  if run.phase ≠ .lost then none
  else
    some { state.put index { run with phase := .done } with
      memory := if run.wrote then requeueEmbedding state.memory false else state.memory }

-- An edit puts the row back in the queue if it changes the text.
def edit (memory : Memory T) (text : T) : Option (Memory T) :=
  if memory.deleted then none
  else if text = memory.text then some memory
  else some { memory with text, status := .pending }

def State.withMemory (state : State T) (memory : Memory T) : State T := { state with memory }

def runStep (state : State T) (index : Nat) (move : Run T → Option (State T)) : Option (State T) :=
  match state.runs[index]? with
  | none => none
  | some run => move run

omit [DecidableEq T] in
theorem runStep_some {state next : State T} {index : Nat} {move : Run T → Option (State T)}
    (taken : runStep state index move = some next) :
    ∃ run, state.runs[index]? = some run ∧ move run = some next := by
  unfold runStep at taken
  split at taken
  next => cases taken
  next run found => exact ⟨run, found, taken⟩

def step (state : State T) : Action T → Option (State T)
  | .claim now =>
    if claimable state.memory now then
      some { state with
        memory := claimed state.memory now
        runs := state.runs ++ [{ stamp := now }] }
    else none
  | .load index => runStep state index (load state index)
  | .renew index now heard => runStep state index fun run => renew state index run now heard
  | .write index sent => runStep state index fun run => write state index run sent
  | .raise index => runStep state index fun run =>
    if working run || run.phase = .seeding then some (state.put index { run with phase := .raised })
    else none
  | .succeed index => runStep state index (succeed state index)
  | .seeded index => runStep state index fun run =>
    if run.phase = .seeding then some (state.put index { run with phase := .done }) else none
  | .fail index failure now => runStep state index fun run => fail state index run failure now
  | .settle index => runStep state index (settle state index)
  | .crash index => runStep state index fun run =>
    if run.phase = .done then none else some (state.put index { run with phase := .crashed })
  | .edit text => (edit state.memory text).map state.withMemory
  | .requeue includeProcessing =>
    some (state.withMemory (requeueEmbedding state.memory includeProcessing))
  -- The rows that the switch picks, and those of the administrator's retry.
  | .switch =>
    if state.memory.deleted || state.memory.suppressed then none
    else some (state.withMemory { state.memory with status := .pending, retryCount := 0 })
  | .retry includeErased =>
    if state.memory.deleted || state.memory.status ≠ .failed ||
        state.memory.suppressed && !includeErased then none
    else
      some (state.withMemory
        { state.memory with status := .pending, retryCount := 0, suppressed := false })
  | .expire now =>
    if !state.memory.deleted && reclaimExhausted state.memory now then
      some (state.withMemory { state.memory with status := .failed, attemptedAt := some now })
    else none
  | .forget => if state.memory.deleted then none
    else some (state.withMemory { state.memory with deleted := true })
  | .restore => if state.memory.deleted then
      some (state.withMemory
        { state.memory with deleted := false, status := .pending, retryCount := 0 })
    else none
  | .dropPoint => if state.memory.deleted then some { state with point := none } else none

end Steps

end MemoryCloud.Embedding
