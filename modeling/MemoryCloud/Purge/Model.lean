import Mathlib.Data.List.Sort

set_option autoImplicit false

/-!
# The capacity purge

`services/capacity_purge.py`: the daily sweep that stamps workspaces over the Free
capacity, mails the countdown and deletes the data of a stamp that ran out. Mail,
Redis and the database may fail at any call; the owner, billing and the clock move
between any two steps. Counters, log lines and the text of the mails are left out.
-/

namespace MemoryCloud.Purge

abbrev WorkspaceId := Nat
-- Seconds, UTC.
abbrev Time := Nat

def day (at_ : Time) : Nat := at_ / 86400

-- `_days_between`: calendar days, negative when `finish` is earlier.
def daysBetween (start finish : Time) : Int := (day finish : Int) - (day start : Int)

def purgeAfterDays : Int := 30
def noticeDays : List Int := [0, 7, 14, 23, 27, 29]
def finalNoticeDay : Int := 29
def minWarningDays : Int := 7
def purgeMaxWorkspacesPerRun : Nat := 5

structure Workspace where
  present : Bool
  deleted : Bool
  planFree : Bool
  externalBilling : Bool
  -- A negative limit is no limit.
  memoryLimit : Int
  storageLimit : Int
  memoryCount : Nat
  usedBytes : Nat
  -- The last time someone but the purge deleted a memory or a context.
  ownerDeletedAt : Option Time
  lockedSince : Option Time
  firstNoticeAt : Option Time
  finalNoticeAt : Option Time
  deriving DecidableEq

structure CapacityLock where
  memoryCount : Nat
  overMemories : Nat
  usedBytes : Nat
  overBytes : Nat
  deriving DecidableEq, Repr

def isLockCandidate (workspace : Workspace) : Bool := workspace.planFree && workspace.externalBilling

def overage (count : Nat) (limit : Int) : Nat := if limit ≥ 0 then (count - limit : Int).toNat else 0

def capacityLockState (workspace : Workspace) : Option CapacityLock :=
  if !isLockCandidate workspace then none
  else
    let overMemories := overage workspace.memoryCount workspace.memoryLimit
    let overBytes := overage workspace.usedBytes workspace.storageLimit
    if overMemories = 0 ∧ overBytes = 0 then none
    else some ⟨workspace.memoryCount, overMemories, workspace.usedBytes, overBytes⟩

def clearStamp (workspace : Workspace) : Workspace :=
  { workspace with lockedSince := none, firstNoticeAt := none, finalNoticeAt := none }

-- `lock` is what the pass read of the plan and the usage; either may be out of date.
def stampOne (workspace : Workspace) (now : Time) (lock : Bool) : Workspace :=
  match workspace.lockedSince, lock with
  | none, false => workspace
  | some _, false => clearStamp workspace
  | some _, true => workspace
  | none, true => { workspace with lockedSince := some now }

def noticeStage (elapsedDays : Int) (daysSinceFirstNotice : Int) : Option Int :=
  let elapsed := min elapsedDays (purgeAfterDays - minWarningDays + daysSinceFirstNotice)
  (noticeDays.filter fun due => decide (due ≤ elapsed)).max?

def validFinalNotice (first final : Option Time) : Bool :=
  match first, final with
  | some first, some final => decide (daysBetween first final ≥ minWarningDays - 1)
  | _, _ => false

def recordNotice (workspace : Workspace) (stage : Int) (now : Time) : Workspace :=
  let first :=
    match workspace.firstNoticeAt with
    | none => some now
    | some earlier => some earlier
  { workspace with
    firstNoticeAt := first
    finalNoticeAt := if stage = finalNoticeDay then some now else workspace.finalNoticeAt }

def lockExpired (lockedSince : Option Time) (now : Time) : Bool :=
  match lockedSince with
  | none => false
  | some since => decide (daysBetween since now ≥ purgeAfterDays)

def finalNoticeGiven (finalNoticeAt : Option Time) (now : Time) : Bool :=
  match finalNoticeAt with
  | none => false
  | some final => decide (daysBetween final now ≥ 1)

def warnedLongEnough (firstNoticeAt : Option Time) (now : Time) : Bool :=
  match firstNoticeAt with
  | none => false
  | some first => decide (daysBetween first now ≥ minWarningDays)

def warned (finalNoticeAt firstNoticeAt : Option Time) (now : Time) : Bool :=
  validFinalNotice firstNoticeAt finalNoticeAt && finalNoticeGiven finalNoticeAt now &&
    warnedLongEnough firstNoticeAt now

def purgeDue (workspace : Workspace) (now : Time) : Bool :=
  lockExpired workspace.lockedSince now &&
    warned workspace.finalNoticeAt workspace.firstNoticeAt now

-- What the sweep did to a workspace, for the statements about whole runs.
inductive Event where
  | stamped (id : WorkspaceId) (at_ : Time)
  | cleared (id : WorkspaceId)
  | firstNotice (id : WorkspaceId) (at_ : Time)
  | finalNotice (id : WorkspaceId) (at_ : Time)
  deriving DecidableEq, Repr

-- Where the sweep stands; `now` is the clock it read when it started.
inductive Sweep where
  | idle
  | stamping (now : Time) (todo : List WorkspaceId)
  | notifying (now : Time) (todo : List WorkspaceId)
  | purging (now : Time) (todo : List WorkspaceId)
  -- `purge_workspace_data`; `approved` after `should_continue` said yes.
  | deleting (now : Time) (todo : List WorkspaceId) (id : WorkspaceId) (started : Time)
      (approved : Bool)
  deriving DecidableEq, Repr

structure System where
  clock : Time
  ids : List WorkspaceId
  workspaces : WorkspaceId → Workspace
  sweep : Sweep
  history : List Event

def System.put (system : System) (id : WorkspaceId) (workspace : Workspace) : System :=
  { system with
    workspaces := fun other => if other = id then workspace else system.workspaces other }

def System.write (system : System) (id : WorkspaceId) (workspace : Workspace) (events : List Event) :
    System :=
  { system.put id workspace with history := system.history ++ events }

def System.clear (system : System) (id : WorkspaceId) : System :=
  system.write id (clearStamp (system.workspaces id)) [.cleared id]

inductive Claim where
  | claimed
  | taken
  | unavailable

inductive Mail where
  | delivered
  | uncertain
  | failed
  | cancelled

inductive Commit where
  | done
  | failed
  | cancelled

structure NoticeCall where
  lock : Bool
  contact : Bool
  claim : Claim
  mail : Mail
  commit : Commit

inductive Action where
  | tick (seconds : Nat)
  -- Owner, billing, administration: any change that leaves the purge's columns alone.
  | outside (id : WorkspaceId) (workspace : Workspace)
  | start
  -- `none`: evaluating the workspace raised, or its commit did.
  | stamp (lock : Option Bool)
  -- The flags and the mail provider decide which later pass runs.
  | nextPass (enabled : Bool)
  | notice (call : NoticeCall)
  -- `commit` of the cleared stamp, or of the started row.
  | purgeCheck (commit : Bool)
  | askContinue (commit : Bool)
  | deleteChunk (memories bytes : Nat)
  | purgeDone (commit : Bool)
  | purgeFailed
  | crash

def outsideRow (old new : Workspace) : Workspace :=
  { new with
    lockedSince := old.lockedSince
    firstNoticeAt := old.firstNoticeAt
    finalNoticeAt := old.finalNoticeAt }

def stampBatch (system : System) : List WorkspaceId :=
  system.ids.filter fun id =>
    let workspace := system.workspaces id
    workspace.present && !workspace.deleted &&
      (workspace.lockedSince.isSome || isLockCandidate workspace)

def stampedWorkspaces (system : System) : List WorkspaceId :=
  system.ids.filter fun id =>
    let workspace := system.workspaces id
    workspace.present && !workspace.deleted && workspace.lockedSince.isSome

def oldestFirst (system : System) (a b : WorkspaceId) : Bool :=
  let stampA := (system.workspaces a).lockedSince.getD 0
  let stampB := (system.workspaces b).lockedSince.getD 0
  decide (stampA < stampB) || (decide (stampA = stampB) && decide (a ≤ b))

def purgeBatch (system : System) (now : Time) : List WorkspaceId :=
  (((stampedWorkspaces system).filter fun id => purgeDue (system.workspaces id) now).insertionSort
    fun a b => oldestFirst system a b).take purgeMaxWorkspacesPerRun

def stampStep (system : System) (now : Time) (id : WorkspaceId) (lock : Bool) : System :=
  let workspace := system.workspaces id
  let events : List Event :=
    match workspace.lockedSince, lock with
    | none, false => []
    | some _, false => [.cleared id]
    | some _, true => []
    | none, true => [.stamped id now]
  system.write id (stampOne workspace now lock) events

def noticeEvents (workspace : Workspace) (id : WorkspaceId) (stage : Int) (now : Time) :
    List Event :=
  (match workspace.firstNoticeAt with
    | none => [.firstNotice id now]
    | some _ => []) ++
  if stage = finalNoticeDay then [.finalNotice id now] else []

-- One workspace of the notice pass; a cancelled call ends the sweep.
def noticeStep (system : System) (now : Time) (todo : List WorkspaceId) (id : WorkspaceId)
    (call : NoticeCall) : System :=
  let workspace := system.workspaces id
  let skip := { system with sweep := .notifying now todo }
  match workspace.lockedSince with
  | none => skip
  | some since =>
      match noticeStage (daysBetween since now)
          (daysBetween (workspace.firstNoticeAt.getD now) now) with
      | none => skip
      | some stage =>
          if !call.lock || !call.contact then skip
          else
            match call.claim with
            | .unavailable => skip
            | .taken => skip
            | .claimed =>
                match call.mail with
                | .failed => skip
                | .cancelled => { system with sweep := .idle }
                | _ =>
                    match call.commit with
                    | .failed => skip
                    | .cancelled => { system with sweep := .idle }
                    | .done =>
                        { system.write id (recordNotice workspace stage now)
                            (noticeEvents workspace id stage now) with
                          sweep := .notifying now todo }

-- The row is read again, then the notices, then the lock.
def purgeStep (system : System) (now : Time) (todo : List WorkspaceId) (id : WorkspaceId)
    (commit : Bool) : System :=
  let workspace := system.workspaces id
  let skip := { system with sweep := .purging now todo }
  let clear :=
    -- this commit is outside any try: when it raises, the sweep ends
    if commit then { system.clear id with sweep := .purging now todo }
    else { system with sweep := .idle }
  if !workspace.present then skip
  else if workspace.deleted || !isLockCandidate workspace then
    if workspace.lockedSince.isSome then clear else skip
  else if !purgeDue workspace now then skip
  else if (capacityLockState workspace).isNone then clear
  else if commit then { system with sweep := .deleting now todo id system.clock false }
  else skip

def ownerCleanedUp (workspace : Workspace) (since : Time) : Bool :=
  match workspace.ownerDeletedAt with
  | none => false
  | some at_ => decide (at_ ≥ since)

def shouldContinue (workspace : Workspace) (started : Time) : Bool :=
  workspace.present && !workspace.deleted && isLockCandidate workspace &&
    !ownerCleanedUp workspace started

-- The result row and the cleared stamp are one commit; a row that is gone is left alone.
def endPurge (system : System) (now : Time) (todo : List WorkspaceId) (id : WorkspaceId)
    (commit : Bool) : System :=
  if commit && (system.workspaces id).present then
    { system.clear id with sweep := .purging now todo }
  else { system with sweep := .purging now todo }

def deleteData (workspace : Workspace) (memories bytes : Nat) : Workspace :=
  { workspace with
    memoryCount := workspace.memoryCount - memories, usedBytes := workspace.usedBytes - bytes }

def next (system : System) (action : Action) : System :=
  match action, system.sweep with
  | .tick seconds, _ => { system with clock := system.clock + seconds }
  | .outside id workspace, _ => system.put id (outsideRow (system.workspaces id) workspace)
  | .crash, _ => { system with sweep := .idle }
  | .start, .idle => { system with sweep := .stamping system.clock (stampBatch system) }
  | .stamp lock, .stamping now (id :: todo) =>
      match lock with
      | none => { system with sweep := .stamping now todo }
      | some lock => { stampStep system now id lock with sweep := .stamping now todo }
  | .nextPass enabled, .stamping now [] =>
      { system with sweep := .notifying now (if enabled then stampedWorkspaces system else []) }
  | .notice call, .notifying now (id :: todo) => noticeStep system now todo id call
  | .nextPass enabled, .notifying now [] =>
      { system with sweep := .purging now (if enabled then purgeBatch system now else []) }
  | .purgeCheck commit, .purging now (id :: todo) => purgeStep system now todo id commit
  | .nextPass _, .purging _ [] => { system with sweep := .idle }
  | .askContinue commit, .deleting now todo id started false =>
      if shouldContinue (system.workspaces id) started then
        { system with sweep := .deleting now todo id started true }
      else endPurge system now todo id commit
  | .deleteChunk memories bytes, .deleting now todo id started true =>
      { system.put id (deleteData (system.workspaces id) memories bytes) with
        sweep := .deleting now todo id started false }
  | .purgeDone commit, .deleting now todo id _ _ => endPurge system now todo id commit
  | .purgeFailed, .deleting now todo _ _ _ => { system with sweep := .purging now todo }
  | _, _ => system

def run (system : System) (actions : List Action) : System := actions.foldl next system

end MemoryCloud.Purge
