import Mathlib.Data.List.Dedup
import MemoryCloud.Versions.Model

set_option autoImplicit false

/-!
# Session rollback

`services/session_rollback.py`: plan and run the next batch of one scope's rollback.
A call is one transaction. Vectors, payload patches, mail and log lines are left out;
what they can do to a call is to make an item fail.
-/

namespace MemoryCloud.Rollback

open UndoLog Versions

variable {D : Type}

def maxRollbackEventsPerCall : Nat := 500
def maxUnforgetsPerCall : Nat := 100
def forgetChunk : Nat := 100
def maxRollbackWindow : Nat := 7 * 86400

structure SessionPrincipal where
  actorUserId : UserId
  agentId : Option AgentId
  actorUserIds : List UserId
  own : actorUserId ∈ actorUserIds

-- `SessionScope`: a session with its principal (`none` for a context owner), or a window.
inductive SessionScope where
  | session (contextId : ContextId) (sessionId : SessionId) (principal : Option SessionPrincipal)
  | window (contextId : ContextId) (principal : SessionPrincipal) (since until_ : Time)
      (ordered : since < until_) (narrow : until_ - since ≤ maxRollbackWindow)

def SessionScope.contextId : SessionScope → ContextId
  | .session contextId _ _ => contextId
  | .window contextId _ _ _ _ _ => contextId

def SessionScope.isWindow : SessionScope → Bool
  | .session _ _ _ => false
  | .window _ _ _ _ _ _ => true

def actorPredicate (actor : UserId) (principal : SessionPrincipal) : Bool :=
  decide (actor ∈ principal.actorUserIds)

-- A NULL column equals nothing, so `=` and `IS NULL` together are equality of options.
def principalPredicate (row : Revision D) (principal : SessionPrincipal) : Bool :=
  actorPredicate row.actorUserId principal && decide (row.agentId = principal.agentId)

def scopePredicates (scope : SessionScope) (row : Revision D) : Bool :=
  match scope with
  | .window contextId principal since until_ _ _ =>
      decide (row.contextId = contextId) && principalPredicate row principal &&
        decide (row.writtenAt ≥ since) && decide (row.writtenAt < until_)
  | .session contextId sessionId principal =>
      decide (row.contextId = contextId) && decide (row.sessionId = some sessionId) &&
        match principal with
        | some principal => principalPredicate row principal
        | none => true

def apiEventPredicates (scope : SessionScope) (row : Revision D) : Bool :=
  scopePredicates scope row && decide (row.writer = .api)

def foreignPredicate (scope : SessionScope) (row : Revision D) : Bool :=
  match scope with
  | .window _ principal since until_ _ _ =>
      !actorPredicate row.actorUserId principal || decide (row.agentId ≠ principal.agentId) ||
        decide (row.writer ≠ .api) || decide (row.writtenAt < since) ||
        decide (row.writtenAt ≥ until_)
  | .session _ sessionId principal =>
      decide (row.sessionId ≠ some sessionId) || decide (row.writer ≠ .api) ||
        match principal with
        | some principal =>
            !actorPredicate row.actorUserId principal || decide (row.agentId ≠ principal.agentId)
        | none => false

inductive RollbackStatus where
  | inProgress
  | partial_
  | completed
  deriving DecidableEq, Repr

structure RollbackRecord where
  id : Nat
  contextId : ContextId
  sessionId : Option SessionId
  principalUserId : Option UserId
  agentId : Option AgentId
  windowSince : Option Time
  windowUntil : Option Time
  requestedBy : UserId
  status : RollbackStatus
  deriving DecidableEq, Repr

-- `rows` is `memory_revisions` in id order.
structure Db (D : Type) where
  memories : List (Memory D)
  rows : List (Revision D)
  nextId : Nat
  records : List RollbackRecord
  nextRecordId : Nat
  contextLive : ContextId → Bool

def Db.memory? (db : Db D) (id : MemoryId) : Option (Memory D) :=
  db.memories.find? fun memory => decide (memory.id = id)

def Db.putMemory (db : Db D) (memory : Memory D) : Db D :=
  { db with
    memories := db.memories.map fun other => if other.id = memory.id then memory else other }

-- The revision log of one memory, over the table the rows of all memories share.
def Db.log (db : Db D) (memory : Memory D) : Log D := ⟨memory, db.rows, db.nextId⟩

def Db.putLog (db : Db D) (log : Log D) : Db D :=
  { db.putMemory log.memory with rows := log.rows, nextId := log.nextId }

def recordPrincipalPredicates (contextId : ContextId) (principal : Option SessionPrincipal)
    (record : RollbackRecord) : Bool :=
  decide (record.contextId = contextId) &&
    match principal with
    | none => decide (record.principalUserId = none) && decide (record.agentId = none)
    | some principal =>
        (match record.principalUserId with
          | some actor => actorPredicate actor principal
          | none => false) &&
        decide (record.agentId = principal.agentId)

def targetPredicates (scope : SessionScope) (record : RollbackRecord) : Bool :=
  match scope with
  | .window contextId principal since until_ _ _ =>
      recordPrincipalPredicates contextId (some principal) record &&
        decide (record.sessionId = none) && decide (record.windowSince = some since) &&
        decide (record.windowUntil = some until_)
  | .session contextId sessionId principal =>
      recordPrincipalPredicates contextId principal record &&
        decide (record.sessionId = some sessionId)

-- `ORDER BY status IN (final), principal_user_id != sub, id`
def targetOrder (principal : SessionPrincipal) (a b : RollbackRecord) : Bool :=
  let key (record : RollbackRecord) : Nat × Nat × Nat :=
    (if record.status = .completed then 1 else 0,
      if record.principalUserId ≠ some principal.actorUserId then 1 else 0, record.id)
  let ka := key a
  let kb := key b
  decide (ka.1 < kb.1) || (decide (ka.1 = kb.1) &&
    (decide (ka.2.1 < kb.2.1) || (decide (ka.2.1 = kb.2.1) && decide (ka.2.2 ≤ kb.2.2))))

def SessionScope.principal : SessionScope → Option SessionPrincipal
  | .session _ _ principal => principal
  | .window _ principal _ _ _ _ => some principal

def targetRecord (db : Db D) (scope : SessionScope) : Option RollbackRecord :=
  let found := db.records.filter (targetPredicates scope)
  match scope.principal with
  | some principal =>
      if principal.actorUserIds.length > 1 then
        (found.insertionSort fun a b => targetOrder principal a b).head?
      else found.head?
  | none => found.head?

structure SessionEvent (D : Type) where
  id : Nat
  memoryId : MemoryId
  kind : RevisionKind
  version : Nat
  prior : Prior D
  actorUserId : UserId

def sessionEvent (row : Revision D) : SessionEvent D :=
  ⟨row.id, row.memoryId, row.kind, row.version, row.prior, row.actorUserId⟩

-- The memory as it is now; `none` in `planMemory` for one that is gone.
structure MemoryState (D : Type) where
  deleted : Bool
  deletedBy : Option UserId
  version : Nat
  resourceRow : Bool
  foreignAfter : Bool
  permitted : Bool
  current : Snapshot D

inductive PlanAction where
  | forget
  | restore
  | unforget
  | skip
  deriving DecidableEq, Repr

inductive SkipCause where
  | modifiedSince
  | mergedBySleep
  | deletedByOther
  | alreadyForgotten
  | alreadyRestored
  | resourceRow
  | purged
  | priorErased
  | notPermitted
  deriving DecidableEq, Repr

structure PlanItem (D : Type) where
  memoryId : MemoryId
  kind : RevisionKind
  action : PlanAction
  cause : Option SkipCause := none
  values : Patch (Stored D) := fun _ => none
  unforget : Bool := false
  unforgetDeletedBy : Option UserId := none
  eventIds : List Nat
  fromVersion : Option Nat := none

structure Combined (D : Type) where
  values : Patch (Stored D)
  seen : Field → Bool
  erased : Bool

def combineEvent (acc : Combined D) (event : SessionEvent D) : Combined D :=
  let lost := priorErased event.prior
  let kept := priorValues event.prior
  { values := fun field =>
      if acc.seen field || decide (field ∈ lost) then acc.values field
      else (kept field).or (acc.values field)
    seen := fun field => acc.seen field || decide (field ∈ lost) || (kept field).isSome
    erased := acc.erased ||
      versionedFields.any fun field => !acc.seen field && decide (field ∈ lost) }

def combinedPrior (updates : List (SessionEvent D)) : Combined D :=
  updates.foldl combineEvent ⟨fun _ => none, fun _ => false, false⟩

def sleepTombstoneDeletedBy (sleepActors : List UserId) (deletedBy : Option UserId) : Bool :=
  match deletedBy with
  | some actor => decide (actor ∈ sleepActors)
  | none => false

-- `{name: value ... if _comparable(value) != _comparable(current)}`
def changedValues [DecidableEq D] (values : Patch (Stored D)) (current : Snapshot D) :
    Patch (Stored D) :=
  fun field =>
    match values field with
    | some value =>
        if comparable field value ≠ comparable field (current field) then some value else none
    | none => none

-- `events` is `first :: rest`: the caller plans a memory only for its unhandled events.
def planMemory [DecidableEq D] (sleepActors : List UserId) (first : SessionEvent D)
    (rest : List (SessionEvent D)) (state : Option (MemoryState D)) : PlanItem D :=
  let events := first :: rest
  let last := events.getLastD first
  let kind := if first.kind = .created then .created else last.kind
  let ids := events.map (·.id)
  let skip (cause : SkipCause) : PlanItem D :=
    { memoryId := first.memoryId, kind := kind, action := .skip, cause := some cause
      eventIds := ids }
  match state with
  | none => skip .purged
  | some state =>
      if state.resourceRow then skip .resourceRow
      else if !state.permitted then skip .notPermitted
      else if state.foreignAfter || decide (state.version ≠ last.version) then skip .modifiedSince
      else
        let forgottenBySession := state.deleted && decide (last.kind = .forgotten) &&
          decide (state.deletedBy = some last.actorUserId)
        if state.deleted && !forgottenBySession then
          skip (if sleepTombstoneDeletedBy sleepActors state.deletedBy then .mergedBySleep
            else .deletedByOther)
        else if first.kind = .created then
          if state.deleted then skip .alreadyForgotten
          else
            { memoryId := first.memoryId, kind := kind, action := .forget, eventIds := ids }
        else
          let updates := events.filter fun event => decide (event.kind = .updated)
          let combined := combinedPrior updates
          if combined.erased then skip .priorErased
          else
            let values := changedValues combined.values state.current
            if !Prior.isEmpty values then
              { memoryId := first.memoryId, kind := kind, action := .restore, values := values
                unforget := state.deleted
                unforgetDeletedBy := if state.deleted then some last.actorUserId else none
                eventIds := ids, fromVersion := (updates.map (·.version)).min? }
            else if state.deleted then
              { memoryId := first.memoryId, kind := kind, action := .unforget, unforget := true
                unforgetDeletedBy := some last.actorUserId, eventIds := ids }
            else skip .alreadyRestored

structure Call (D : Type) where
  requestedBy : UserId
  provenance : WriteProvenance
  now : Time
  dryRun : Bool
  -- `_WriteCheck`: may the caller write the memory as one of this type.
  permits : Memory D → String → Bool
  sleepActors : List UserId
  -- The unit of this index raised, or is started after the deadline.
  fails : Nat → Bool
  outOfTime : Nat → Bool

def judgeRestoredType (call : Call D) (item : PlanItem D) (memory : Option (Memory D)) :
    PlanItem D :=
  match item.values .type, memory with
  | some type, some memory =>
      if item.action ≠ .restore || call.permits memory type then item
      else
        { memoryId := item.memoryId, kind := item.kind, action := .skip
          cause := some .notPermitted, eventIds := item.eventIds }
  | _, _ => item

def unhandled (db : Db D) (scope : SessionScope) : List (Revision D) :=
  db.rows.filter fun row => apiEventPredicates scope row && row.undoneBy.isNone

def unhandledCount (db : Db D) (scope : SessionScope) : Nat := (unhandled db scope).length

def scopeExists (db : Db D) (scope : SessionScope) : Bool :=
  db.rows.any fun row =>
    if scope.isWindow then apiEventPredicates scope row else scopePredicates scope row

def handledExists (db : Db D) (scope : SessionScope) : Bool :=
  db.rows.any fun row => apiEventPredicates scope row && row.undoneBy.isSome

structure Group where
  memoryId : MemoryId
  lastId : Nat
  count : Nat
  deriving DecidableEq, Repr

def eventsOf (rows : List (Revision D)) (memoryId : MemoryId) : List (Revision D) :=
  rows.filter fun row => decide (row.memoryId = memoryId)

def group (rows : List (Revision D)) (memoryId : MemoryId) : Group :=
  let own := eventsOf rows memoryId
  ⟨memoryId, (own.map (·.id)).foldl max 0, own.length⟩

def newestGroup (a b : Group) : Prop := b.lastId ≤ a.lastId

instance (a b : Group) : Decidable (newestGroup a b) :=
  inferInstanceAs (Decidable (b.lastId ≤ a.lastId))

def groups (rows : List (Revision D)) : List Group :=
  (((rows.map (·.memoryId)).dedup.map (group rows)).insertionSort newestGroup).take
    maxRollbackEventsPerCall

-- The loop over the groups: the first is always taken, whatever its size.
def choose (chosen : List MemoryId) (taken : Nat) : List Group → List MemoryId
  | [] => chosen
  | next :: rest =>
      if !chosen.isEmpty && decide (taken + next.count > maxRollbackEventsPerCall) then chosen
      else choose (chosen ++ [next.memoryId]) (taken + next.count) rest

def memoryState (db : Db D) (scope : SessionScope) (call : Call D) (memory : Memory D)
    (firstId : Nat) : MemoryState D :=
  { deleted := memory.deletedAt.isSome
    deletedBy := memory.deletedBy
    version := memory.version
    resourceRow := memory.resourceId.isSome
    foreignAfter := (eventsOf db.rows memory.id).any fun row =>
      foreignPredicate scope row && decide (row.id > firstId)
    permitted := call.permits memory (memory.fields .type)
    current := memory.fields }

def planItem [DecidableEq D] (db : Db D) (scope : SessionScope) (call : Call D)
    (memoryId : MemoryId) : Option (PlanItem D) :=
  match (eventsOf (unhandled db scope) memoryId).map sessionEvent with
  | [] => none
  | first :: rest =>
      let memory := db.memory? memoryId
      some (judgeRestoredType call
        (planMemory call.sleepActors first rest
          (memory.map fun memory => memoryState db scope call memory first.id))
        memory)

def deferExtraUnforgets (unforgets : Nat) : List (PlanItem D) → List (PlanItem D)
  | [] => []
  | item :: rest =>
      if item.unforget then
        if unforgets + 1 > maxUnforgetsPerCall then deferExtraUnforgets (unforgets + 1) rest
        else item :: deferExtraUnforgets (unforgets + 1) rest
      else item :: deferExtraUnforgets unforgets rest

structure Batch (D : Type) where
  items : List (PlanItem D)
  events : Nat
  remaining : Nat

def itemEvents (items : List (PlanItem D)) : List Nat := items.flatMap (·.eventIds)

def readBatch [DecidableEq D] (db : Db D) (scope : SessionScope) (call : Call D) : Batch D :=
  let chosen := choose [] 0 (groups (unhandled db scope))
  if chosen.isEmpty then ⟨[], 0, unhandledCount db scope⟩
  else
    let items := deferExtraUnforgets 0 (chosen.filterMap (planItem db scope call))
    let taken := (itemEvents items).length
    ⟨items, taken, unhandledCount db scope - taken⟩

-- `UPDATE ... WHERE id IN (ids) AND undone_by IS NULL`
def markHandled (db : Db D) (ids : List Nat) (rollbackId : Nat) : Db D :=
  { db with
    rows := db.rows.map fun row =>
      if row.id ∈ ids ∧ row.undoneBy = none then { row with undoneBy := some rollbackId }
      else row }

-- One row of `_soft_delete_chunk`: only a row that is live in the context.
def softDelete (db : Db D) (scope : SessionScope) (call : Call D) (memoryId : MemoryId) : Db D :=
  match db.memory? memoryId with
  | none => db
  | some memory =>
      if memory.contextId ≠ some scope.contextId ∨ memory.deletedAt ≠ none then db
      else
        let memory :=
          { memory with deletedAt := some call.now, deletedBy := some call.requestedBy }
        db.putLog (recordRevision (db.log memory) .forgotten call.requestedBy call.now {} .rollback
          call.provenance)

def forgetItems (db : Db D) (scope : SessionScope) (call : Call D) (items : List (PlanItem D)) :
    Db D :=
  items.foldl (fun db item => softDelete db scope call item.memoryId) db

-- `restore_forget_tombstone_stmt`; `none` when its row count is not one.
def unforget (db : Db D) (scope : SessionScope) (call : Call D) (memory : Memory D)
    (item : PlanItem D) : Option (Log D) :=
  if memory.contextId = some scope.contextId ∧ memory.deletedAt ≠ none ∧
      memory.deletedBy = item.unforgetDeletedBy ∧ db.contextLive scope.contextId = true then
    some (recordRevision (db.log { memory with deletedAt := none, deletedBy := none }) .restored
      call.requestedBy call.now {} .rollback call.provenance)
  else none

def writeValues [DecidableEq D] (log : Log D) (call : Call D) (item : PlanItem D) : Log D :=
  if Prior.isEmpty item.values then log
  else
    recordEdit
      { log with
        memory :=
          { log.memory with
            fields := overlay log.memory.fields item.values, updatedAt := some call.now } }
      log.memory.fields call.requestedBy call.now .rollback call.provenance item.fromVersion

-- `_restore`; `none` when it raises.
def restoreItem [DecidableEq D] (db : Db D) (scope : SessionScope) (call : Call D)
    (item : PlanItem D) : Option (Db D) :=
  match db.memory? item.memoryId with
  | none => none
  | some memory =>
      if item.unforget then
        (unforget db scope call memory item).map fun log => db.putLog (writeValues log call item)
      else some (db.putLog (writeValues (db.log memory) call item))

inductive Work where
  | forget
  | restore
  deriving DecidableEq, Repr

structure WorkUnit (D : Type) where
  work : Work
  items : List (PlanItem D)

def runUnit [DecidableEq D] (db : Db D) (scope : SessionScope) (call : Call D) (unit : WorkUnit D) :
    Option (Db D) :=
  match unit.work, unit.items with
  | .forget, items => some (forgetItems db scope call items)
  | .restore, [item] => restoreItem db scope call item
  | .restore, _ => none

def chunks (fuel : Nat) (items : List (PlanItem D)) : List (WorkUnit D) :=
  match fuel, items with
  | _, [] => []
  | 0, _ => []
  | fuel + 1, items => ⟨.forget, items.take forgetChunk⟩ :: chunks fuel (items.drop forgetChunk)

-- Forget chunks first, then each restore and un-forget on its own.
def units (items : List (PlanItem D)) : List (WorkUnit D) :=
  let forgets := items.filter fun item => decide (item.action = .forget)
  let restores := items.filter fun item => decide (item.action = .restore ∨ item.action = .unforget)
  chunks forgets.length forgets ++ restores.map fun item => ⟨.restore, [item]⟩

-- `reversed` and `failed` are the event ids of the units done and of those that raised.
structure Executed (D : Type) where
  db : Db D
  reversed : List Nat
  failed : List Nat
  deferred : List (PlanItem D)

-- `_guarded`: a unit that raises leaves the database as it was.
def guarded [DecidableEq D] (scope : SessionScope) (call : Call D) (rollbackId : Nat)
    (state : Executed D) (index : Nat) (unit : WorkUnit D) : Executed D :=
  let ids := itemEvents unit.items
  match if call.fails index then none else runUnit state.db scope call unit with
  | some db =>
      { state with db := markHandled db ids rollbackId, reversed := state.reversed ++ ids }
  | none => { state with failed := state.failed ++ ids }

def runUnits [DecidableEq D] (scope : SessionScope) (call : Call D) (rollbackId : Nat)
    (state : Executed D) (index : Nat) : List (WorkUnit D) → Executed D
  | [] => state
  | unit :: rest =>
      -- the first unit always runs
      if decide (index ≠ 0) && call.outOfTime index then
        { state with deferred := state.deferred ++ (unit :: rest).flatMap (·.items) }
      else
        runUnits scope call rollbackId (guarded scope call rollbackId state index unit)
          (index + 1) rest

def execute [DecidableEq D] (db : Db D) (scope : SessionScope) (call : Call D) (rollbackId : Nat)
    (items : List (PlanItem D)) : Executed D :=
  let skipped := items.filter fun item => decide (item.action = .skip)
  runUnits scope call rollbackId ⟨markHandled db (itemEvents skipped) rollbackId, [], [], []⟩ 0
    (units items)

inductive RollbackError where
  | sessionNotFound
  | noWritesInWindow
  | alreadyRolledBack (rollbackId : Option Nat) (status : RollbackStatus)
  deriving DecidableEq, Repr

structure RollbackResult (D : Type) where
  dryRun : Bool
  items : List (PlanItem D)
  events : Nat
  remaining : Nat
  rollbackId : Option Nat
  status : Option RollbackStatus
  reversed : List Nat
  failed : List Nat

def newRecord (id : Nat) (scope : SessionScope) (call : Call D) : RollbackRecord :=
  let principal := scope.principal
  { id := id
    contextId := scope.contextId
    sessionId := match scope with
      | .session _ sessionId _ => some sessionId
      | .window _ _ _ _ _ _ => none
    principalUserId := principal.map (·.actorUserId)
    agentId := principal.bind (·.agentId)
    windowSince := match scope with
      | .session _ _ _ => none
      | .window _ _ since _ _ _ => some since
    windowUntil := match scope with
      | .session _ _ _ => none
      | .window _ _ _ until_ _ _ => some until_
    requestedBy := call.requestedBy
    status := .inProgress }

def Db.putRecord (db : Db D) (record : RollbackRecord) : Db D :=
  { db with
    records := db.records.map fun other => if other.id = record.id then record else other }

def openRecord (db : Db D) (scope : SessionScope) (call : Call D) : Db D × RollbackRecord :=
  match targetRecord db scope with
  | none =>
      let record := newRecord db.nextRecordId scope call
      ({ db with records := db.records ++ [record], nextRecordId := db.nextRecordId + 1 }, record)
  | some record =>
      let record := { record with status := .inProgress }
      (db.putRecord record, record)

def finalStatus (remaining failed : Nat) : RollbackStatus :=
  if remaining = 0 then .completed else if failed ≠ 0 then .partial_ else .inProgress

def rollbackBatch [DecidableEq D] (db : Db D) (scope : SessionScope) (call : Call D)
    (batch : Batch D) : Db D × RollbackResult D :=
  let opened := openRecord db scope call
  let done := execute opened.1 scope call opened.2.id batch.items
  let deferredEvents := (itemEvents done.deferred).length
  let remaining := batch.remaining + done.failed.length + deferredEvents
  let status := finalStatus remaining done.failed.length
  (done.db.putRecord { opened.2 with status := status },
    { dryRun := false
      items := batch.items.filter fun item =>
        decide (item.memoryId ∉ done.deferred.map (·.memoryId))
      events := batch.events - done.failed.length - deferredEvents
      remaining := remaining, rollbackId := some opened.2.id, status := some status
      reversed := done.reversed, failed := done.failed })

-- A call that raises leaves the database as it was.
def rollbackSession [DecidableEq D] (db : Db D) (scope : SessionScope) (call : Call D) :
    Except RollbackError (Db D × RollbackResult D) :=
  let record := targetRecord db scope
  if !scopeExists db scope && !(scope.isWindow && record.isSome) then
    .error (if scope.isWindow then .noWritesInWindow else .sessionNotFound)
  else
    let batch := readBatch db scope call
    let plan : RollbackResult D :=
      { dryRun := true, items := batch.items, events := batch.events, remaining := batch.remaining
        rollbackId := record.map (·.id), status := record.map (·.status), reversed := []
        failed := [] }
    match record with
    | some record =>
        if batch.items.isEmpty && decide (record.status = .completed) then
          .error (.alreadyRolledBack (some record.id) record.status)
        else if call.dryRun then .ok (db, plan)
        else .ok (rollbackBatch db scope call batch)
    | none =>
        if batch.items.isEmpty then
          if handledExists db scope then .error (.alreadyRolledBack none .completed)
          else
            .ok (db, { plan with dryRun := call.dryRun, items := [], events := 0, remaining := 0 })
        else if call.dryRun then .ok (db, plan)
        else .ok (rollbackBatch db scope call batch)

-- What happens to the tables between and during the calls. A forget is `touch` and `event`; so is
-- what Sleep and the indexer do. Rows without a context have no revisions.
inductive Step (D : Type) where
  | create (memory : Memory D) (contextId : ContextId) (actor : UserId) (at_ : Time)
      (provenance : WriteProvenance)
  | edit (id : MemoryId) (after : Snapshot D) (actor : UserId) (at_ : Time)
      (provenance : WriteProvenance)
  | event (id : MemoryId) (kind : RevisionKind) (other : kind ≠ .updated) (actor : UserId)
      (at_ : Time) (writer : RevisionWriter) (provenance : WriteProvenance)
  | touch (id : MemoryId) (deletedAt : Option Time) (deletedBy : Option UserId)
      (resourceId : Option Nat)
  | purge (id : MemoryId)
  | context (id : ContextId) (live : Bool)
  | rollback (scope : SessionScope) (call : Call D)

def createMemory (db : Db D) (memory : Memory D) (contextId : ContextId) (actor : UserId)
    (at_ : Time) (provenance : WriteProvenance) : Db D :=
  if (db.memory? memory.id).isSome then db
  else
    let memory := { memory with contextId := some contextId, version := 1 }
    let db := { db with memories := db.memories ++ [memory] }
    db.putLog (recordRevision (db.log memory) .created actor at_ {} .api provenance)

def Db.change (db : Db D) (id : MemoryId) (write : Memory D → Log D) : Db D :=
  match db.memory? id with
  | none => db
  | some memory => db.putLog (write memory)

def step [DecidableEq D] (db : Db D) : Step D → Db D
  | .create memory contextId actor at_ provenance =>
      createMemory db memory contextId actor at_ provenance
  | .edit id after actor at_ provenance =>
      db.change id fun memory =>
        recordEdit (db.log { memory with fields := after, updatedAt := some at_ }) memory.fields
          actor at_ .api provenance none
  | .event id kind _ actor at_ writer provenance =>
      db.change id fun memory =>
        recordRevision (db.log memory) kind actor at_ {} writer provenance
  | .touch id deletedAt deletedBy resourceId =>
      db.change id fun memory =>
        db.log { memory with deletedAt := deletedAt, deletedBy := deletedBy
                             resourceId := resourceId }
  | .purge id =>
      { db with
        memories := db.memories.filter fun memory => decide (memory.id ≠ id)
        rows := db.rows.filter fun row => decide (row.memoryId ≠ id) }
  | .context id live =>
      { db with contextLive := fun other => if other = id then live else db.contextLive other }
  | .rollback scope call =>
      match rollbackSession db scope call with
      | .ok (db, _) => db
      | .error _ => db

def emptyDb : Db D := ⟨[], [], 1, [], 1, fun _ => true⟩

def run [DecidableEq D] (steps : List (Step D)) : Db D := steps.foldl step emptyDb

end MemoryCloud.Rollback
