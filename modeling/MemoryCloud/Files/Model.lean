import Mathlib.Logic.Function.Basic
import Mathlib.Data.List.Sort

set_option autoImplicit false

/-!
# The file registry and its objects

The rows of `file_objects`, the objects of the bucket and the open sessions
that work on them. A session holds row locks and key locks until its
transaction ends; a step that needs a lock another session holds waits. The
triggers take the key lock of every row written, so a write and its commit are
one step that needs the keys of its rows to be free.
-/

namespace MemoryCloud.Files

abbrev FileId := Nat
abbrev WorkspaceId := Nat
abbrev ContextId := Nat
abbrev Key := String
-- Seconds.
abbrev Time := Nat

inductive Status
  | reserved
  | uploaded
  | failed
  deriving DecidableEq, Repr

structure FileObject where
  id : FileId
  workspaceId : WorkspaceId
  contextId : Option ContextId
  sha256 : String
  sizeBytes : Nat
  storageKey : Option Key
  status : Status
  expiresAt : Option Time
  uploadedAt : Option Time
  deletedAt : Option Time
  deriving DecidableEq, Repr

def orphanGrace : Time := 3600

-- `FILE_SOFT_DELETE_RETENTION` and `FILE_RESTORE_WINDOW`.
def retention : Time := 7 * 86400

def restoreWindow : Time := retention - 86400

def buildStorageKey (workspaceId : WorkspaceId) (sha256 : String) : Key :=
  toString workspaceId ++ "/" ++ String.ofList (sha256.toList.take 2) ++ "/" ++ sha256

-- What an object-store call did: a call that raised may have taken effect.
inductive Call
  | done
  | failed (effect : Bool)
  deriving DecidableEq, Repr

inductive Phase
  | locked
  | free
  | done
  deriving DecidableEq, Repr

-- A running call of the service or of a task, at its next statement.
inductive Session
  | idle
  | confirming (row : FileObject) (size : Option Nat)
  | deleting (row : FileObject) (stamp : Option Time)
  | restoreChecked (workspaceId : WorkspaceId) (contextId : ContextId) (deletedAt checkedAt : Time)
  | restoring (locked files : List FileId)
  | orphanSelected (rows : List FileObject)
  | orphanReleasing (todo : List (FileId × Option Key))
  | orphanKey (id : FileId) (key : Key) (free : Bool) (todo : List (FileId × Option Key))
  | gcSelected (started : Time) (todo : List FileId)
  | gcRow (started : Time) (row : FileObject) (todo : List FileId)
  | gcKey (started : Time) (row : FileObject) (key : Key) (phase : Phase) (todo : List FileId)
  | drainSelected (todo : List Key)
  | drainKey (key : Key) (phase : Phase) (todo : List Key)

def Session.rowsHeld : Session → List FileId
  | .confirming row _ => [row.id]
  | .restoring locked _ => locked
  | .gcRow _ row _ => [row.id]
  | .gcKey _ row _ _ _ => [row.id]
  | _ => []

def Session.keysHeld : Session → List Key
  | .orphanKey _ key _ _ => [key]
  | .gcKey _ _ key _ _ => [key]
  | .drainKey key _ _ => [key]
  | _ => []

structure State where
  rows : List FileObject
  objects : Key → Option Nat
  -- `storage_object_deletions`: the key and `available_after`.
  deletions : List (Key × Time)
  now : Time
  nextId : FileId
  sessions : List Session

section Locks

variable (state : State) (index : Nat)

def State.rowFree (id : FileId) : Bool :=
  state.sessions.zipIdx.all fun (session, other) => other = index ∨ id ∉ session.rowsHeld

def State.keyFree (key : Key) : Bool :=
  state.sessions.zipIdx.all fun (session, other) => other = index ∨ key ∉ session.keysHeld

def State.writable (row : FileObject) : Bool :=
  state.rowFree index row.id && row.storageKey.all (state.keyFree index ·)

end Locks

-- `uq_file_objects_workspace_sha256_active`.
def FileObject.active (row : FileObject) : Bool := row.deletedAt = none ∧ row.status ≠ .failed

def uniqueActive (rows : List FileObject) : Prop :=
  ((rows.filter FileObject.active).map fun row => (row.workspaceId, row.sha256)).Nodup

instance (rows : List FileObject) : Decidable (uniqueActive rows) :=
  inferInstanceAs (Decidable (List.Nodup _))

def updateRows (rows : List FileObject) (ids : List FileId) (write : FileObject → FileObject) :
    List FileObject :=
  rows.map fun row => if row.id ∈ ids then write row else row

section Writes

variable (row : FileObject)

def confirmWrite (size : Nat) (now : Time) : FileObject :=
  { row with status := .uploaded, uploadedAt := some now, expiresAt := none, sizeBytes := size }

-- The write of `delete_file`, decided by the status of its unlocked read.
def deleteWrite (read : Status) (stamp : Time) : FileObject :=
  { row with
    deletedAt := some stamp
    status := if read = .reserved then .failed else row.status }

def purgeWrite (stamp : Time) : FileObject :=
  { row with
    deletedAt := some stamp
    status := if row.status = .reserved then .failed else row.status }

def restoreWrite : FileObject := { row with deletedAt := none }

def failWrite : FileObject := { row with status := .failed }

def stampWrite (now : Time) : FileObject := { row with deletedAt := some now }

end Writes

def State.row (state : State) (id : FileId) : Option FileObject :=
  state.rows.find? fun row => row.id = id

def State.heldByAnother (state : State) (key : Key) (id : FileId) : Bool :=
  state.rows.any fun row => row.storageKey = some key ∧ row.id ≠ id

def State.registered (state : State) (key : Key) : Bool :=
  state.rows.any fun row => row.storageKey = some key

def Call.effect : Call → Bool
  | .done => true
  | .failed effect => effect

def State.deleteObject (state : State) (key : Key) (call : Call) : State :=
  { state with
    objects :=
      if call.effect then Function.update state.objects key none else state.objects }

def State.setSession (state : State) (index : Nat) (session : Session) : State :=
  { state with sessions := state.sessions.set index session }

-- The DELETE of a row with its trigger, which queues the key.
def State.hardDelete (state : State) (row : FileObject) : State :=
  let available := max state.now ((row.expiresAt.map (· + orphanGrace)).getD 0)
  { state with
    rows := state.rows.filter fun other => ¬ (other.id = row.id ∧ other.deletedAt.isSome)
    deletions :=
      match row.storageKey with
      | none => state.deletions
      | some key =>
        match state.deletions.find? fun job => job.1 = key with
        | none => state.deletions ++ [(key, available)]
        | some _ => state.deletions.map fun job =>
            if job.1 = key then (key, max job.2 available) else job }

section Tasks

variable (state : State)

def orphanCandidates : List FileObject :=
  state.rows.filter fun row => row.status = .reserved ∧ row.deletedAt = none ∧
    row.expiresAt.any (· + orphanGrace ≤ state.now)

def byKey (first second : FileId × Option Key) : Prop :=
  first.2.getD "" ≤ second.2.getD ""

instance (first second : FileId × Option Key) : Decidable (byKey first second) :=
  inferInstanceAs (Decidable (_ ≤ _))

def releases (rows : List FileObject) : List (FileId × Option Key) :=
  (rows.map fun row => (row.id, row.storageKey)).insertionSort byKey

def expired (started : Time) (row : FileObject) : Bool :=
  row.deletedAt.any (· + retention ≤ started)

def gcCandidates : List FileId :=
  ((state.rows.filter fun row => row.status ≠ .reserved ∧ expired state.now row).take 500).map
    FileObject.id

def drainKeys : List Key :=
  (((state.deletions.filter fun job => job.2 ≤ state.now).map Prod.fst).insertionSort
    (· ≤ ·)).take 500

def hasLiveTwin (row : FileObject) : Bool :=
  state.rows.any fun twin => twin.workspaceId = row.workspaceId ∧ twin.sha256 = row.sha256 ∧
    twin.active

def restorable (workspaceId : WorkspaceId) (contextId : ContextId) (deletedAt : Time) :
    List FileObject :=
  state.rows.filter fun row => row.workspaceId = workspaceId ∧ row.contextId = some contextId ∧
    row.deletedAt = some deletedAt ∧ row.status = .uploaded

end Tasks

-- The next statement of the session at the index; `none` while it waits for a lock.
def advance (state : State) (index : Nat) (call : Call) : Session → Option State
  | .idle => none
  -- `confirm_upload` after its locked read: the head of the object, then the write.
  | .confirming row none =>
    match call, state.objects (row.storageKey.getD "") with
    | .done, some size =>
      if size ≤ row.sizeBytes then some (state.setSession index (.confirming row (some size)))
      else some (state.setSession index .idle)
    | _, _ => some (state.setSession index .idle)
  | .confirming row (some size) =>
    if row.storageKey.all (state.keyFree index ·) then
      some ({ state with
        rows := updateRows state.rows [row.id] fun row =>
          confirmWrite row size state.now }.setSession index .idle)
    else none
  -- `delete_file` after its unlocked read.
  | .deleting row none => some (state.setSession index (.deleting row (some state.now)))
  | .deleting row (some stamp) =>
    match state.row row.id with
    | none => some (state.setSession index .idle)
    | some current =>
      if state.writable index current then
        some ({ state with
          rows := updateRows state.rows [row.id] fun current =>
            deleteWrite current row.status stamp }.setSession index .idle)
      else none
  | .restoreChecked workspaceId contextId deletedAt _ =>
    let rows := restorable state workspaceId contextId deletedAt
    if rows.all fun row => state.rowFree index row.id then
      some (state.setSession index (.restoring (rows.map FileObject.id)
        ((rows.filter fun row => ¬ hasLiveTwin state row).map FileObject.id)))
    else none
  | .restoring _ files =>
    let rows := updateRows state.rows files restoreWrite
    if (state.rows.filter fun row => row.id ∈ files).all (state.writable index) then
      if uniqueActive rows then some ({ state with rows }.setSession index .idle)
      else some (state.setSession index .idle)
    else none
  | .orphanSelected rows =>
    if rows.all fun row => (state.row row.id).isSome then
      if rows.all fun row => state.writable index row then
        some ({ state with
          rows := updateRows state.rows (rows.map FileObject.id) failWrite }.setSession index
            (.orphanReleasing (releases rows)))
      else none
    else some (state.setSession index .idle)
  | .orphanReleasing [] =>
    let lingering := state.rows.filter fun row => row.status = .failed ∧ row.deletedAt = none
    if lingering.all (state.writable index) then
      some ({ state with
        rows := updateRows state.rows (lingering.map FileObject.id) fun row =>
          stampWrite row state.now }.setSession index .idle)
    else none
  | .orphanReleasing ((_, none) :: todo) => some (state.setSession index (.orphanReleasing todo))
  | .orphanReleasing ((id, some key) :: todo) =>
    if state.keyFree index key then some (state.setSession index (.orphanKey id key false todo))
    else none
  | .orphanKey id key false todo =>
    if state.heldByAnother key id then some (state.setSession index (.orphanReleasing todo))
    else some (state.setSession index (.orphanKey id key true todo))
  | .orphanKey _ key true todo =>
    some ((state.deleteObject key call).setSession index (.orphanReleasing todo))
  | .gcSelected _ [] => some (state.setSession index .idle)
  | .gcSelected started (id :: todo) =>
    match state.rows.find? fun row => row.id = id ∧ expired started row with
    | none => some (state.setSession index (.gcSelected started todo))
    | some row =>
      if state.rowFree index row.id then some (state.setSession index (.gcRow started row todo))
      else none
  | .gcRow started row todo =>
    match row.storageKey with
    | none => some ((state.hardDelete row).setSession index (.gcSelected started todo))
    | some key =>
      if state.keyFree index key then
        some (state.setSession index (.gcKey started row key .locked todo))
      else none
  | .gcKey started row key .locked todo =>
    if state.heldByAnother key row.id then
      some (state.setSession index (.gcKey started row key .done todo))
    else some (state.setSession index (.gcKey started row key .free todo))
  | .gcKey started row key .free todo =>
    match call with
    | .done => some ((state.deleteObject key call).setSession index (.gcKey started row key .done todo))
    | .failed _ => some ((state.deleteObject key call).setSession index (.gcSelected started todo))
  | .gcKey started row _ .done todo =>
    some ((state.hardDelete row).setSession index (.gcSelected started todo))
  | .drainSelected [] => some (state.setSession index .idle)
  | .drainSelected (key :: todo) =>
    if state.keyFree index key then
      if state.deletions.any fun job => job.1 = key ∧ job.2 ≤ state.now then
        some (state.setSession index (.drainKey key .locked todo))
      else some (state.setSession index (.drainSelected todo))
    else none
  | .drainKey key .locked todo =>
    if state.registered key then some (state.setSession index (.drainKey key .done todo))
    else some (state.setSession index (.drainKey key .free todo))
  | .drainKey key .free todo =>
    match call with
    | .done => some ((state.deleteObject key call).setSession index (.drainKey key .done todo))
    | .failed _ => some ((state.deleteObject key call).setSession index (.drainSelected todo))
  | .drainKey key .done todo =>
    some ({ state with deletions := state.deletions.filter fun job => job.1 ≠ key }.setSession index
      (.drainSelected todo))

-- The WHERE of `_purge_live_rows`.
inductive PurgeScope
  | contexts (ids : List ContextId)
  | workspace (id : WorkspaceId)
  | workspaceScoped (id : WorkspaceId)

def PurgeScope.selects (scope : PurgeScope) (row : FileObject) : Bool :=
  match scope with
  | .contexts ids => row.contextId.any (· ∈ ids)
  | .workspace id => row.workspaceId = id
  | .workspaceScoped id => row.workspaceId = id ∧ row.contextId = none

def purgeRows (state : State) (scope : PurgeScope) (limit : Option Nat) : List FileObject :=
  let rows := (state.rows.filter fun row => scope.selects row ∧ row.deletedAt = none).insertionSort
    fun first second => first.id ≤ second.id
  match limit with
  | none => rows
  | some limit => rows.take limit

inductive Action
  | tick (seconds : Nat)
  | put (key : Key) (size : Nat)
  | reserveUpload (workspaceId : WorkspaceId) (contextId : Option ContextId) (sha256 : String)
      (sizeBytes ttl : Nat)
  | purge (scope : PurgeScope) (limit : Option Nat) (deletedAt : Option Time)
  | confirmUpload (workspaceId : WorkspaceId) (id : FileId) (sha256 : String)
  | deleteFile (workspaceId : WorkspaceId) (id : FileId)
  | restoreContextFiles (workspaceId : WorkspaceId) (contextId : ContextId) (deletedAt : Time)
  | sweepOrphanFiles
  | sweepSoftDeletedFiles
  | drainStorageDeletions
  | advance (index : Nat) (call : Call)
  -- The session's transaction is rolled back or its process dies.
  | abort (index : Nat)

def State.start (state : State) (session : Session) : State :=
  { state with sessions := state.sessions ++ [session] }

def step (state : State) : Action → Option State
  | .tick seconds => some { state with now := state.now + seconds }
  | .put key size => some { state with objects := Function.update state.objects key (some size) }
  | .reserveUpload workspaceId contextId sha256 sizeBytes ttl =>
    let key := buildStorageKey workspaceId sha256
    let rows := state.rows ++
      [{ id := state.nextId
         workspaceId
         contextId
         sha256
         sizeBytes
         storageKey := some key
         status := .reserved
         expiresAt := some (state.now + ttl)
         uploadedAt := none
         deletedAt := none }]
    if state.keyFree state.sessions.length key ∧ uniqueActive rows then
      some { state with rows, nextId := state.nextId + 1 }
    else none
  | .purge scope limit deletedAt =>
    let files := purgeRows state scope limit
    if files.all (state.writable state.sessions.length) then
      some { state with
        rows := updateRows state.rows (files.map FileObject.id) fun row =>
          purgeWrite row (deletedAt.getD state.now) }
    else none
  | .confirmUpload workspaceId id sha256 => do
    let row ← state.row id
    if row.workspaceId = workspaceId ∧ row.deletedAt = none ∧ row.status = .reserved ∧
        row.sha256 = sha256 ∧ state.rowFree state.sessions.length id then
      some (state.start (.confirming row none))
    else none
  | .deleteFile workspaceId id => do
    let row ← state.row id
    if row.workspaceId = workspaceId ∧ row.deletedAt = none then
      some (state.start (.deleting row none))
    else none
  | .restoreContextFiles workspaceId contextId deletedAt =>
    if deletedAt + restoreWindow ≤ state.now then none
    else some (state.start (.restoreChecked workspaceId contextId deletedAt state.now))
  | .sweepOrphanFiles => some (state.start (.orphanSelected (orphanCandidates state)))
  | .sweepSoftDeletedFiles => some (state.start (.gcSelected state.now (gcCandidates state)))
  | .drainStorageDeletions => some (state.start (.drainSelected (drainKeys state)))
  | .advance index call => state.sessions[index]?.bind (advance state index call)
  | .abort index => some (state.setSession index .idle)

end MemoryCloud.Files
