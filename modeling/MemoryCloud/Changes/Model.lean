import Mathlib.Data.List.Lex
import MemoryCloud.Changes.Cursor
import MemoryCloud.Shared.Keyset

set_option autoImplicit false

/-!
# The change log of a context and of a session

`changes_since` and `changes_in_session` of `services/memory_listing.py`. The
owner, trust and binding predicates of a call are one predicate on memory rows;
`orderBy` is what the database answers to the `ORDER BY`.
-/

namespace MemoryCloud.Changes

abbrev ContextId := Nat

def DateTime.parts (at_ : DateTime) : List Nat :=
  [at_.year, at_.month, at_.day, at_.hour, at_.minute, at_.second, at_.microsecond]

def ChangeKind.rank : ChangeKind → Nat
  | .created => 0
  | .forgotten => 1
  | .restored => 2
  | .superseded => 3
  | .updated => 4

def positionKey (at_ : DateTime) (kind : ChangeKind) (memoryId : Uuid) : List Nat :=
  at_.parts ++ [kind.rank, memoryId.val]

def Change.key (change : Change) : List Nat :=
  positionKey change.writtenAt change.kind change.memoryId

structure MemoryRow where
  id : Uuid
  contextId : Option ContextId
  userId : String
  summary : String
  createdAt : DateTime
  updatedAt : Option DateTime
  deletedAt : Option DateTime

inductive EdgeType where
  | neuralAssociation
  | relatedTo
  | dependsOn
  | learnedFrom
  | continuesFrom
  | referencesFile
  | supersedes
  | contradicts
  deriving DecidableEq, Repr

structure NeuralMemoryEdge where
  srcId : Uuid
  dstId : Uuid
  edgeType : EdgeType
  createdAt : DateTime

structure RevisionRow where
  memoryId : Uuid
  contextId : ContextId
  kind : ChangeKind
  writtenAt : DateTime
  sessionId : Option String
  actorUserId : String
  agentId : Option Uuid

structure Store where
  memories : List MemoryRow
  edges : List NeuralMemoryEdge
  revisions : List RevisionRow

structure ChangePage where
  changes : List Change
  nextCursor : Option String
  deriving DecidableEq

-- `[since, until)`
structure Window where
  since : DateTime
  until_ : Option DateTime

def Window.holds (window : Window) (at_ : DateTime) : Bool :=
  decide (window.since.parts ≤ at_.parts) &&
    match window.until_ with
    | none => true
    | some until_ => decide (at_.parts < until_.parts)

def Window.isEmpty (window : Window) : Bool :=
  match window.until_ with
  | none => false
  | some until_ => decide (until_.parts ≤ window.since.parts)

def windowMessage : String := "until must be later than since"

def kindsMessage (allowed : List ChangeKind) : String :=
  "kinds must be a subset of " ++ String.intercalate ", " (allowed.map ChangeKind.name)

def liveSummary (memory : MemoryRow) : Option String :=
  if memory.deletedAt.isSome then none else some memory.summary

-- One row of the union; `created`, `updated` and `forgotten` have no superseder.
def event (kind : ChangeKind) (memory : MemoryRow) (at_ : DateTime) (supersededBy : Option Uuid) :
    Change :=
  { memoryId := memory.id, kind := kind, writtenAt := at_, summary := liveSummary memory
    supersededBy := supersededBy }

structure ContextQuery where
  contextId : ContextId
  visible : MemoryRow → Bool
  window : Window
  kinds : List ChangeKind

def ContextQuery.common (query : ContextQuery) (memory : MemoryRow) : Bool :=
  decide (memory.contextId = some query.contextId) && query.visible memory

def createdEvents (store : Store) (query : ContextQuery) : List Change :=
  (store.memories.filter fun memory =>
    query.common memory && query.window.holds memory.createdAt).map
    fun memory => event .created memory memory.createdAt none

def updatedEvents (store : Store) (query : ContextQuery) : List Change :=
  (store.memories.filter query.common).filterMap fun memory =>
    match memory.updatedAt with
    | none => none
    | some updatedAt =>
        let beforeDelete :=
          match memory.deletedAt with
          | none => true
          | some deletedAt => decide (updatedAt.parts < deletedAt.parts)
        if decide (memory.createdAt.parts < updatedAt.parts) && beforeDelete &&
            query.window.holds updatedAt then
          some (event .updated memory updatedAt none)
        else none

def supersededEvents (store : Store) (query : ContextQuery) : List Change :=
  store.edges.flatMap fun edge =>
    (store.memories.filter fun memory => decide (memory.id = edge.dstId)).flatMap fun memory =>
      (store.memories.filter fun newer =>
        decide (newer.id = edge.srcId) && query.common memory &&
          decide (edge.edgeType = .supersedes) && newer.deletedAt.isNone &&
          decide (newer.contextId = some query.contextId) &&
          query.window.holds edge.createdAt).map
        fun _ => event .superseded memory edge.createdAt (some edge.srcId)

def forgottenEvents (store : Store) (query : ContextQuery) : List Change :=
  (store.memories.filter query.common).filterMap fun memory =>
    match memory.deletedAt with
    | none => none
    | some deletedAt =>
        if query.window.holds deletedAt then some (event .forgotten memory deletedAt none) else none

def contextEvents (store : Store) (query : ContextQuery) : List Change :=
  (if .created ∈ query.kinds then createdEvents store query else []) ++
    (if .updated ∈ query.kinds then updatedEvents store query else []) ++
    (if .superseded ∈ query.kinds then supersededEvents store query else []) ++
    (if .forgotten ∈ query.kinds then forgottenEvents store query else [])

-- The keyset of both endpoints: the rows above the cursor, one more than the page shows.
def cutPage (orderBy : List Change → List Change) (events : List Change) (cursor : Option String)
    (limit : Nat) : Except String ChangePage := do
  let above ←
    match cursor with
    | none => pure events
    | some token =>
        if token = "" then pure events
        else do
          let (at_, kind, memoryId) ← decodeChangeCursor token
          pure (events.filter fun change => decide (positionKey at_ kind memoryId < change.key))
  let rows := (orderBy above).take (limit + 1)
  let changes := rows.take limit
  pure
    { changes := changes
      nextCursor :=
        if rows.length > limit then changes.getLast?.map encodeChangeCursor else none }

def changesSince (orderBy : List Change → List Change) (store : Store) (query : ContextQuery)
    (cursor : Option String) (limit : Nat) : Except String ChangePage :=
  if query.kinds.any fun kind => decide (kind ∉ kinds) then .error (kindsMessage kinds)
  else if query.window.isEmpty then .error windowMessage
  else if query.kinds = [] then .ok { changes := [], nextCursor := none }
  else cutPage orderBy (contextEvents store query) cursor limit

structure SessionPrincipal where
  agentId : Option Uuid
  actorUserIds : List String

def principalPredicate (row : RevisionRow) (principal : SessionPrincipal) : Bool :=
  decide (row.actorUserId ∈ principal.actorUserIds) && decide (row.agentId = principal.agentId)

structure SessionQuery where
  contextId : ContextId
  sessionId : Option String
  principal : Option SessionPrincipal
  visible : MemoryRow → Bool
  window : Window
  kinds : List ChangeKind

def SessionQuery.selects (query : SessionQuery) (row : RevisionRow) (memory : MemoryRow) : Bool :=
  decide (row.contextId = query.contextId) && decide (row.kind ∈ query.kinds) &&
    query.window.holds row.writtenAt && decide (memory.contextId = some query.contextId) &&
    (query.sessionId.all fun session => decide (row.sessionId = some session)) &&
    (query.principal.all fun principal => principalPredicate row principal) &&
    query.visible memory

def sessionEvents (store : Store) (query : SessionQuery) : List Change :=
  store.revisions.flatMap fun row =>
    (store.memories.filter fun memory =>
      decide (memory.id = row.memoryId) && query.selects row memory).map
      fun memory =>
        { memoryId := row.memoryId, kind := row.kind, writtenAt := row.writtenAt
          summary := liveSummary memory, supersededBy := none }

def changesInSession (orderBy : List Change → List Change) (store : Store) (query : SessionQuery)
    (cursor : Option String) (limit : Nat) : Except String ChangePage :=
  if query.kinds.any fun kind => decide (kind ∉ sessionKinds) then .error (kindsMessage sessionKinds)
  else if query.window.isEmpty then .error windowMessage
  else if query.sessionId.isNone && query.principal.isNone then
    .error "changes_in_session needs a session_id or a principal"
  else cutPage orderBy (sessionEvents store query) cursor limit

end MemoryCloud.Changes
