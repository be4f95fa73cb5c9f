import Mathlib.Data.List.Sort
import Mathlib.Data.Rat.Defs
import MemoryCloud.Shared.UndoLog

set_option autoImplicit false

/-!
# Memory versions and the revision log

`services/memory_versions.py`. A `details` object is a value of the type `D`;
its equality is the `==` of the decoded JSON.
-/

namespace MemoryCloud.Versions

open UndoLog

abbrev UserId := Nat
abbrev AgentId := Nat
abbrev SessionId := Nat
abbrev MemoryId := Nat
abbrev ContextId := Nat
abbrev Time := Nat

inductive Field where
  | summary
  | contextSummary
  | content
  | details
  | type
  | importance
  | tags
  deriving DecidableEq, Repr

def versionedFields : List Field :=
  [.summary, .contextSummary, .content, .details, .type, .importance, .tags]

@[simp] theorem mem_versionedFields (field : Field) : field ∈ versionedFields := by
  cases field <;> simp [versionedFields]

-- What the column of a versioned field holds.
@[reducible] def Stored (D : Type) : Field → Type
  | .summary => String
  | .contextSummary => Option String
  | .content => String
  | .details => Option D
  | .type => String
  | .importance => ℚ
  | .tags => Option (List String)

instance {D : Type} [DecidableEq D] (field : Field) : DecidableEq (Stored D field) :=
  match field with
  | .summary => inferInstanceAs (DecidableEq String)
  | .contextSummary => inferInstanceAs (DecidableEq (Option String))
  | .content => inferInstanceAs (DecidableEq String)
  | .details => inferInstanceAs (DecidableEq (Option D))
  | .type => inferInstanceAs (DecidableEq String)
  | .importance => inferInstanceAs (DecidableEq ℚ)
  | .tags => inferInstanceAs (DecidableEq (Option (List String)))

abbrev Snapshot (D : Type) := (field : Field) → Stored D field

inductive RevisionKind where
  | created
  | updated
  | forgotten
  | restored
  deriving DecidableEq, Repr

inductive RevisionWriter where
  | api
  | rollback
  | erasure
  deriving DecidableEq, Repr

-- The JSON of `memory_revisions.prior`: the overwritten values of the changed fields, and the keys
-- that are no versioned field.
structure Prior (D : Type) where
  values : Patch (Stored D) := fun _ => none
  erased : List Field := []
  scrubbed : List Field := []
  restoredFrom : Option Nat := none

structure WriteProvenance where
  agentId : Option AgentId := none
  sessionId : Option SessionId := none
  deriving DecidableEq, Repr

structure Revision (D : Type) where
  id : Nat
  memoryId : MemoryId
  contextId : ContextId
  version : Nat
  kind : RevisionKind
  prior : Prior D
  writer : RevisionWriter
  actorUserId : UserId
  agentId : Option AgentId
  sessionId : Option SessionId
  writtenAt : Time
  undoneBy : Option Nat := none

structure Memory (D : Type) where
  id : MemoryId
  userId : UserId
  contextId : Option ContextId
  fields : Snapshot D
  version : Nat
  updatedAt : Option Time
  deletedAt : Option Time
  deletedBy : Option UserId
  resourceId : Option Nat
  agentId : Option AgentId
  sessionId : Option SessionId

variable {D : Type}

-- `_comparable`: a NULL tag array and an empty one say the same thing.
def comparable : (field : Field) → Stored D field → Stored D field
  | .tags, value => some (value.getD [])
  | .summary, value => value
  | .contextSummary, value => value
  | .content, value => value
  | .details, value => value
  | .type, value => value
  | .importance, value => value

def changedPrior [DecidableEq D] (before after : Snapshot D) : Patch (Stored D) :=
  fun field =>
    if comparable field (before field) ≠ comparable field (after field) then some (before field)
    else none

def Prior.isEmpty (values : Patch (Stored D)) : Bool :=
  versionedFields.all fun field => (values field).isNone

def stampWriter (memory : Memory D) (provenance : WriteProvenance) : Memory D :=
  let provenance := if memory.contextId = none then {} else provenance
  { memory with agentId := provenance.agentId, sessionId := provenance.sessionId }

-- The log is the rows a caller's session adds, with the next id of the sequence.
structure Log (D : Type) where
  memory : Memory D
  rows : List (Revision D)
  nextId : Nat

-- A legacy row without a context gets no revision.
def recordRevision (log : Log D) (kind : RevisionKind) (actor : UserId) (at_ : Time)
    (prior : Prior D) (writer : RevisionWriter) (provenance : WriteProvenance) : Log D :=
  let memory := stampWriter log.memory provenance
  match memory.contextId with
  | none => { log with memory := memory }
  | some context =>
      { memory := memory
        rows := log.rows ++
          [{ id := log.nextId, memoryId := memory.id, contextId := context
             version := memory.version, kind := kind, prior := prior, writer := writer
             actorUserId := actor, agentId := provenance.agentId
             sessionId := provenance.sessionId, writtenAt := at_ }]
        nextId := log.nextId + 1 }

-- The log's memory is the row with the edit applied; `before` its snapshot.
def recordEdit [DecidableEq D] (log : Log D) (before : Snapshot D) (actor : UserId) (at_ : Time)
    (writer : RevisionWriter) (provenance : WriteProvenance) (restoredFrom : Option Nat) : Log D :=
  let values := changedPrior before log.memory.fields
  if Prior.isEmpty values then log
  else
    recordRevision { log with memory := { log.memory with version := log.memory.version + 1 } }
      .updated actor at_ { values := values, restoredFrom := restoredFrom } writer provenance

def priorValues (prior : Prior D) : Patch (Stored D) := prior.values

def priorErased (prior : Prior D) : List Field :=
  versionedFields.filter fun field => decide (field ∈ prior.erased)

def priorScrubbed (prior : Prior D) : List Field :=
  versionedFields.filter fun field => decide (field ∈ prior.scrubbed)

structure UnknownVersionError where
  version : Int
  currentVersion : Nat
  deriving DecidableEq, Repr

structure HistoricalVersion (D : Type) where
  version : Nat
  -- `none` where erasure removed the value: the field is unavailable.
  values : (field : Field) → Option (Stored D field)
  unavailable : List Field
  writtenAt : Option Time

-- One undone event: its markers first, then the values it still holds.
def undoPatch (prior : Prior D) : Patch fun field => Option (Stored D field) :=
  fun field =>
    match priorValues prior field with
    | some value => some (some value)
    | none =>
        if field ∈ priorScrubbed prior ∨ field ∈ priorErased prior then some none else none

def newestFirst (a b : Revision D) : Prop := b.version ≤ a.version

instance (a b : Revision D) : Decidable (newestFirst a b) :=
  inferInstanceAs (Decidable (b.version ≤ a.version))

def reconstructVersion (live : Snapshot D) (currentVersion : Nat) (updates : List (Revision D))
    (target : Int) : Except UnknownVersionError (HistoricalVersion D) :=
  if target < 1 ∨ target > currentVersion then .error ⟨target, currentVersion⟩
  else
    let wanted := target.toNat
    let rows := updates.filter fun row => decide (row.kind = .updated)
    let madeTarget := rows.find? fun row => decide (row.version = wanted)
    let undone := (rows.filter fun row =>
      decide (wanted < row.version ∧ row.version ≤ currentVersion)).insertionSort newestFirst
    -- `range(current_version, target, -1)`
    if undone.map (·.version) ≠ (List.range' (wanted + 1) (currentVersion - wanted)).reverse then
      .error ⟨target, currentVersion⟩
    else
      let state := undo (fun field => some (live field)) (undone.map fun row => undoPatch row.prior)
      .ok
        { version := wanted
          values := state
          unavailable := versionedFields.filter fun field => (state field).isNone
          writtenAt := madeTarget.map (·.writtenAt) }

-- `revision_changed_field(row, field, scrubbed=True)`
def revisionNames (prior : Prior D) (field : Field) : Bool :=
  (prior.values field).isSome || decide (field ∈ prior.erased) || decide (field ∈ prior.scrubbed)

def typeChangesAbove (rows : List (Revision D)) (memory : MemoryId) (lowestVersion : Nat) :
    List (Nat × Option String) :=
  (rows.filter fun row =>
    decide (row.memoryId = memory) && decide (row.kind = .updated) &&
      decide (row.version ≥ lowestVersion) && revisionNames row.prior .type).map
    fun row => (row.version, row.prior.values .type)

def lowestFirst (a b : Nat × Option String) : Prop := a.1 ≤ b.1

instance (a b : Nat × Option String) : Decidable (lowestFirst a b) :=
  inferInstanceAs (Decidable (a.1 ≤ b.1))

def typesAtVersions (liveType : Option String) (typeChanges : List (Nat × Option String))
    (versions : List Nat) : List (Nat × Option String) :=
  let ordered := typeChanges.insertionSort lowestFirst
  versions.map fun version =>
    (version,
      match ordered.find? fun change => decide (change.1 > version) with
      | some change => change.2
      | none => liveType)

end MemoryCloud.Versions
