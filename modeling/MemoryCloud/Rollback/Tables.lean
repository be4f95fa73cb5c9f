import MemoryCloud.Rollback.Model
import MemoryCloud.Versions.History

set_option autoImplicit false

/-!
# What the steps do to the tables

A step appends revisions with the next ids, marks rows as handled, or takes a memory away
with its rows. The rows of each memory stay the history of its fields.
-/

namespace MemoryCloud.Rollback

open UndoLog Versions

variable {D : Type}

structure Consistent (db : Db D) : Prop where
  distinct : (db.memories.map (·.id)).Nodup
  ascending : (db.rows.map (·.id)).Pairwise (· < ·)
  below : ∀ row ∈ db.rows, row.id < db.nextId
  placed : ∀ row ∈ db.rows, ∃ memory ∈ db.memories,
    memory.id = row.memoryId ∧ memory.contextId = some row.contextId
  logged : ∀ memory ∈ db.memories, ∃ context, memory.contextId = some context
  ledger : ∀ memory ∈ db.memories, ∃ past, Ledger past memory (eventsOf db.rows memory.id)

structure Continues (writer : RevisionWriter) (old new : Log D) (added : List (Revision D)) :
    Prop where
  sameId : new.memory.id = old.memory.id
  context : new.memory.contextId = old.memory.contextId
  rows : new.rows = old.rows ++ added
  nextId : new.nextId = old.nextId + added.length
  numbered : added.map (·.id) = List.range' old.nextId added.length
  own : ∀ row ∈ added, row.memoryId = old.memory.id ∧ old.memory.contextId = some row.contextId
  fresh : ∀ row ∈ added, row.writer = writer ∧ row.undoneBy = none
  ledger : ∀ past rows, Ledger past old.memory rows →
    ∃ past', Ledger past' new.memory (rows ++ added)

section Logs

variable {writer : RevisionWriter} {old middle new : Log D} {first second : List (Revision D)}

theorem Continues.trans (earlier : Continues writer old middle first)
    (later : Continues writer middle new second) : Continues writer old new (first ++ second) := by
  refine ⟨later.sameId.trans earlier.sameId, later.context.trans earlier.context, ?_, ?_, ?_, ?_,
    ?_, ?_⟩
  · rw [later.rows, earlier.rows, List.append_assoc]
  · rw [later.nextId, earlier.nextId, List.length_append, Nat.add_assoc]
  · rw [List.map_append, earlier.numbered, later.numbered, earlier.nextId, List.length_append,
      ← List.range'_append_1]
  · intro row present
    rcases List.mem_append.mp present with before | after
    next => exact earlier.own row before
    next =>
      have own := later.own row after
      rw [earlier.sameId, earlier.context] at own
      exact own
  · intro row present
    rcases List.mem_append.mp present with before | after
    next => exact earlier.fresh row before
    next => exact later.fresh row after
  · intro past rows ledger
    obtain ⟨past', next⟩ := earlier.ledger past rows ledger
    obtain ⟨past'', last⟩ := later.ledger past' _ next
    rw [List.append_assoc] at last
    exact ⟨past'', last⟩

theorem touch_continues (writer : RevisionWriter) (log : Log D) (memory : Memory D)
    (sameId : memory.id = log.memory.id) (context : memory.contextId = log.memory.contextId)
    (version : memory.version = log.memory.version)
    (fields : Same comparable memory.fields log.memory.fields) :
    Continues writer log { log with memory := memory } [] := by
  refine ⟨sameId, context, by simp, rfl, rfl, by simp, by simp, ?_⟩
  intro past rows ledger
  exact ⟨past, ledger.other memory [] sameId version fields (by simp)⟩

theorem recordRevision_continues (log : Log D) {context : ContextId}
    (logged : log.memory.contextId = some context) (kind : RevisionKind) (other : kind ≠ .updated)
    (actor : UserId) (at_ : Time) (writer : RevisionWriter) (provenance : WriteProvenance) :
    ∃ added, Continues writer log (recordRevision log kind actor at_ {} writer provenance) added := by
  let row : Revision D :=
    { id := log.nextId, memoryId := log.memory.id, contextId := context
      version := log.memory.version, kind := kind, prior := {}, writer := writer
      actorUserId := actor, agentId := provenance.agentId, sessionId := provenance.sessionId
      writtenAt := at_ }
  have written : recordRevision log kind actor at_ {} writer provenance =
      { memory := stampWriter log.memory provenance, rows := log.rows ++ [row]
        nextId := log.nextId + 1 } := by
    simp [recordRevision, stampWriter, logged, row]
  refine ⟨[row], ?_⟩
  rw [written]
  refine ⟨rfl, rfl, rfl, rfl, rfl, by simp [row, logged], by simp [row], ?_⟩
  intro past rows ledger
  exact ⟨past, ledger.other _ _ rfl rfl (Same.refl _) (by simp [row, other])⟩

variable [DecidableEq D]

theorem recordEdit_continues (log : Log D) {context : ContextId}
    (logged : log.memory.contextId = some context) (after : Snapshot D) (actor : UserId)
    (at_ : Time) (writer : RevisionWriter) (provenance : WriteProvenance)
    (restoredFrom : Option Nat) :
    ∃ added, Continues writer log
      (recordEdit
        { log with memory := { log.memory with fields := after, updatedAt := some at_ } }
        log.memory.fields actor at_ writer provenance restoredFrom) added := by
  cases unchanged : Prior.isEmpty (changedPrior log.memory.fields after) with
  | true =>
    refine ⟨[], ?_⟩
    simp only [recordEdit, unchanged, if_true]
    exact touch_continues writer log _ rfl rfl rfl (changedPrior_empty unchanged)
  | false =>
    let row : Revision D :=
      { id := log.nextId, memoryId := log.memory.id, contextId := context
        version := log.memory.version + 1, kind := .updated
        prior := { values := changedPrior log.memory.fields after, restoredFrom := restoredFrom }
        writer := writer, actorUserId := actor, agentId := provenance.agentId
        sessionId := provenance.sessionId, writtenAt := at_ }
    let memory : Memory D := stampWriter
      { log.memory with
        fields := after, updatedAt := some at_, version := log.memory.version + 1 } provenance
    have written : recordEdit
        { log with memory := { log.memory with fields := after, updatedAt := some at_ } }
        log.memory.fields actor at_ writer provenance restoredFrom =
        { memory := memory, rows := log.rows ++ [row], nextId := log.nextId + 1 } := by
      simp [recordEdit, unchanged, recordRevision, stampWriter, logged, row, memory]
    refine ⟨[row], ?_⟩
    rw [written]
    refine ⟨rfl, rfl, rfl, rfl, rfl, by simp [row, logged], by simp [row], ?_⟩
    intro past rows ledger
    refine ⟨Function.update past (log.memory.version + 1) after, ?_⟩
    apply ledger.edited
    case restores => exact changedPrior_restores _ _
    case unmarked => exact ⟨rfl, rfl⟩
    all_goals rfl

end Logs

section Rows

theorem mem_eventsOf {rows : List (Revision D)} {id : MemoryId} {row : Revision D} :
    row ∈ eventsOf rows id ↔ row ∈ rows ∧ row.memoryId = id := by
  simp [eventsOf]

theorem eventsOf_append (rows added : List (Revision D)) (id : MemoryId) :
    eventsOf (rows ++ added) id = eventsOf rows id ++ eventsOf added id :=
  List.filter_append ..

theorem eventsOf_own {rows : List (Revision D)} {id : MemoryId}
    (own : ∀ row ∈ rows, row.memoryId = id) : eventsOf rows id = rows := by
  rw [eventsOf, List.filter_eq_self]
  intro row present
  simp [own row present]

theorem eventsOf_other {rows : List (Revision D)} {id : MemoryId}
    (others : ∀ row ∈ rows, row.memoryId ≠ id) : eventsOf rows id = [] := by
  rw [eventsOf, List.filter_eq_nil_iff]
  intro row present
  simp [others row present]

theorem Db.memory?_some {db : Db D} {id : MemoryId} {memory : Memory D}
    (found : db.memory? id = some memory) : memory ∈ db.memories ∧ memory.id = id := by
  refine ⟨List.mem_of_find?_eq_some found, ?_⟩
  simpa using List.find?_some found

-- A rewriting of rows that `Ledger` does not see.
structure Relabels (change : Revision D → Revision D) : Prop where
  id : ∀ row, (change row).id = row.id
  memoryId : ∀ row, (change row).memoryId = row.memoryId
  contextId : ∀ row, (change row).contextId = row.contextId
  version : ∀ row, (change row).version = row.version
  kind : ∀ row, (change row).kind = row.kind
  prior : ∀ row, (change row).prior = row.prior

theorem Relabels.eventsOf {change : Revision D → Revision D} (relabels : Relabels change)
    (rows : List (Revision D)) (id : MemoryId) :
    eventsOf (rows.map change) id = (eventsOf rows id).map change := by
  rw [Rollback.eventsOf, Rollback.eventsOf, List.filter_map]
  congr 1
  apply List.filter_congr
  intro row _
  simp [relabels.memoryId row]

theorem Relabels.ledger {change : Revision D → Revision D} (relabels : Relabels change)
    {past : Nat → Snapshot D} {memory : Memory D} {rows : List (Revision D)}
    (ledger : Ledger past memory rows) : Ledger past memory (rows.map change) := by
  have same : edits (rows.map change) = (edits rows).map change := by
    rw [edits, edits, List.filter_map]
    congr 1
    apply List.filter_congr
    intro row _
    simp [relabels.kind row]
  refine ⟨?_, ledger.positive, ledger.live, ?_, ?_, ?_⟩
  · intro row present
    obtain ⟨old, listed, rfl⟩ := List.mem_map.mp present
    rw [relabels.memoryId]
    exact ledger.own old listed
  · rw [same, List.map_map, ← ledger.versions]
    apply List.map_congr_left
    intro row _
    exact relabels.version row
  · intro row present
    rw [same] at present
    obtain ⟨old, listed, rfl⟩ := List.mem_map.mp present
    rw [relabels.version, relabels.prior]
    exact ledger.restores old listed
  · intro row present
    rw [same] at present
    obtain ⟨old, listed, rfl⟩ := List.mem_map.mp present
    rw [relabels.prior]
    exact ledger.unmarked old listed

def mark (ids : List Nat) (rollbackId : Nat) (row : Revision D) : Revision D :=
  if row.id ∈ ids ∧ row.undoneBy = none then { row with undoneBy := some rollbackId } else row

theorem mark_relabels (ids : List Nat) (rollbackId : Nat) :
    Relabels (mark (D := D) ids rollbackId) := by
  refine ⟨?_, ?_, ?_, ?_, ?_, ?_⟩
  all_goals
    intro row
    unfold mark
    split <;> rfl

end Rows

section Tables

theorem Consistent.tables {db after : Db D} (consistent : Consistent db)
    (memories : after.memories = db.memories) (rows : after.rows = db.rows)
    (nextId : after.nextId = db.nextId) : Consistent after := by
  refine ⟨?_, ?_, ?_, ?_, ?_, ?_⟩
  · rw [memories]
    exact consistent.distinct
  · rw [rows]
    exact consistent.ascending
  · rw [rows, nextId]
    exact consistent.below
  · rw [rows, memories]
    exact consistent.placed
  · rw [memories]
    exact consistent.logged
  · rw [memories, rows]
    exact consistent.ledger

theorem Consistent.marked {db : Db D} (consistent : Consistent db) (ids : List Nat)
    (rollbackId : Nat) : Consistent (markHandled db ids rollbackId) := by
  have relabels := mark_relabels (D := D) ids rollbackId
  have rows : (markHandled db ids rollbackId).rows = db.rows.map (mark ids rollbackId) := rfl
  refine ⟨consistent.distinct, ?_, ?_, ?_, consistent.logged, ?_⟩
  · have sameIds : (db.rows.map (mark ids rollbackId)).map (·.id) = db.rows.map (·.id) := by
      rw [List.map_map]
      apply List.map_congr_left
      intro row _
      exact relabels.id row
    rw [rows, sameIds]
    exact consistent.ascending
  · intro row present
    obtain ⟨old, listed, rfl⟩ := List.mem_map.mp (rows ▸ present)
    rw [relabels.id]
    exact consistent.below old listed
  · intro row present
    obtain ⟨old, listed, rfl⟩ := List.mem_map.mp (rows ▸ present)
    rw [relabels.memoryId, relabels.contextId]
    exact consistent.placed old listed
  · intro memory present
    obtain ⟨past, ledger⟩ := consistent.ledger memory present
    refine ⟨past, ?_⟩
    rw [rows, relabels.eventsOf]
    exact relabels.ledger ledger

structure Grows (writer : RevisionWriter) (db after : Db D) (added : List (Revision D)) : Prop where
  consistent : Consistent after
  rows : after.rows = db.rows ++ added
  nextId : after.nextId = db.nextId + added.length
  numbered : added.map (·.id) = List.range' db.nextId added.length
  fresh : ∀ row ∈ added, row.writer = writer ∧ row.undoneBy = none

theorem Grows.refl {db : Db D} (consistent : Consistent db) (writer : RevisionWriter) :
    Grows writer db db [] :=
  ⟨consistent, by simp, rfl, rfl, by simp⟩

theorem Grows.trans {writer : RevisionWriter} {db middle after : Db D}
    {first second : List (Revision D)} (earlier : Grows writer db middle first)
    (later : Grows writer middle after second) : Grows writer db after (first ++ second) := by
  refine ⟨later.consistent, ?_, ?_, ?_, ?_⟩
  · rw [later.rows, earlier.rows, List.append_assoc]
  · rw [later.nextId, earlier.nextId, List.length_append, Nat.add_assoc]
  · rw [List.map_append, earlier.numbered, later.numbered, earlier.nextId, List.length_append,
      ← List.range'_append_1]
  · intro row present
    rcases List.mem_append.mp present with before | after
    next => exact earlier.fresh row before
    next => exact later.fresh row after

theorem ascending_append {rows added : List (Revision D)} {nextId : Nat}
    (ascending : (rows.map (·.id)).Pairwise (· < ·)) (below : ∀ row ∈ rows, row.id < nextId)
    (numbered : added.map (·.id) = List.range' nextId added.length) :
    ((rows ++ added).map (·.id)).Pairwise (· < ·) := by
  rw [List.map_append, numbered, List.pairwise_append]
  refine ⟨ascending, List.pairwise_lt_range' .., ?_⟩
  intro old listed new counted
  obtain ⟨row, present, rfl⟩ := List.mem_map.mp listed
  have low := below row present
  have high := List.mem_range'_1.mp counted
  omega

theorem below_append {rows added : List (Revision D)} {nextId : Nat}
    (below : ∀ row ∈ rows, row.id < nextId)
    (numbered : added.map (·.id) = List.range' nextId added.length) :
    ∀ row ∈ rows ++ added, row.id < nextId + added.length := by
  intro row present
  rcases List.mem_append.mp present with old | new
  next => exact Nat.lt_of_lt_of_le (below row old) (Nat.le_add_right _ _)
  next =>
    have listed : row.id ∈ added.map (·.id) := List.mem_map_of_mem new
    rw [numbered, List.mem_range'_1] at listed
    exact listed.2

theorem putLog_grows {db : Db D} (consistent : Consistent db) {memory : Memory D}
    (present : memory ∈ db.memories) {writer : RevisionWriter} {log : Log D}
    {added : List (Revision D)} (continues : Continues writer (db.log memory) log added) :
    Grows writer db (db.putLog log) added := by
  have sameId : log.memory.id = memory.id := continues.sameId
  have rows : (db.putLog log).rows = db.rows ++ added := continues.rows
  have nextId : (db.putLog log).nextId = db.nextId + added.length := continues.nextId
  have memories : (db.putLog log).memories =
      db.memories.map fun other => if other.id = memory.id then log.memory else other := by
    simp [Db.putLog, Db.putMemory, sameId]
  have ids : (db.putLog log).memories.map (·.id) = db.memories.map (·.id) := by
    rw [memories, List.map_map]
    apply List.map_congr_left
    intro other _
    by_cases same : other.id = memory.id
    next => simp [same, sameId]
    next => simp [same]
  have cases_ : ∀ other ∈ (db.putLog log).memories,
      other = log.memory ∨ (other ∈ db.memories ∧ other.id ≠ memory.id) := by
    intro other listed
    rw [memories] at listed
    obtain ⟨old, before, rfl⟩ := List.mem_map.mp listed
    by_cases same : old.id = memory.id
    next => exact .inl (by simp [same])
    next => exact .inr (by simp [same, before])
  have kept : ∀ old ∈ db.memories, ∃ other ∈ (db.putLog log).memories,
      other.id = old.id ∧ (old = memory → other = log.memory) ∧ (old.id ≠ memory.id → other = old) := by
    intro old before
    refine ⟨if old.id = memory.id then log.memory else old, ?_, ?_, ?_, ?_⟩
    · rw [memories]
      exact List.mem_map_of_mem (f := fun other => if other.id = memory.id then log.memory else other)
        before
    · by_cases same : old.id = memory.id
      next => simp [same, sameId]
      next => simp [same]
    · intro same
      simp [same]
    · intro different
      simp [different]
  have unique : ∀ old ∈ db.memories, old.id = memory.id → old = memory := by
    intro old before same
    exact List.inj_on_of_nodup_map consistent.distinct before present same
  refine ⟨⟨?_, ?_, ?_, ?_, ?_, ?_⟩, rows, nextId, continues.numbered, continues.fresh⟩
  · rw [ids]
    exact consistent.distinct
  · rw [rows]
    exact ascending_append consistent.ascending consistent.below continues.numbered
  · rw [rows, nextId]
    exact below_append consistent.below continues.numbered
  · intro row listed
    rw [rows] at listed
    rcases List.mem_append.mp listed with old | new
    next =>
      obtain ⟨owner, before, same, context⟩ := consistent.placed row old
      obtain ⟨other, after, sameOwner, changed, unchanged⟩ := kept owner before
      refine ⟨other, after, sameOwner.trans same, ?_⟩
      by_cases own : owner.id = memory.id
      next =>
        have ownerIs := unique owner before own
        rw [changed ownerIs, continues.context]
        rw [ownerIs] at context
        exact context
      next =>
        rw [unchanged own]
        exact context
    next =>
      obtain ⟨other, after, _, changed, _⟩ := kept memory present
      have own := continues.own row new
      refine ⟨other, after, ?_, ?_⟩
      · rw [changed rfl, sameId]
        exact own.1.symm
      · rw [changed rfl, continues.context]
        exact own.2
  · intro other listed
    rcases cases_ other listed with is | ⟨before, _⟩
    next =>
      rw [is, continues.context]
      exact consistent.logged memory present
    next => exact consistent.logged other before
  · intro other listed
    rw [rows]
    rcases cases_ other listed with is | ⟨before, different⟩
    next =>
      obtain ⟨past, ledger⟩ := consistent.ledger memory present
      obtain ⟨past', next⟩ := continues.ledger past _ ledger
      have whole : eventsOf added memory.id = added :=
        eventsOf_own fun row new => (continues.own row new).1
      refine ⟨past', ?_⟩
      rw [is, sameId, eventsOf_append, whole]
      exact next
    next =>
      obtain ⟨past, ledger⟩ := consistent.ledger other before
      refine ⟨past, ?_⟩
      have none : eventsOf added other.id = [] := by
        apply eventsOf_other
        intro row new
        rw [(continues.own row new).1]
        exact different.symm
      rw [eventsOf_append, none, List.append_nil]
      exact ledger

end Tables

section Work

variable {db after : Db D} {scope : SessionScope} {call : Call D}

theorem softDelete_grows (consistent : Consistent db) (id : MemoryId) :
    ∃ added, Grows .rollback db (softDelete db scope call id) added := by
  unfold softDelete
  split
  next => exact ⟨[], Grows.refl consistent _⟩
  next memory found =>
    split
    next => exact ⟨[], Grows.refl consistent _⟩
    next live =>
      have present := (Db.memory?_some found).1
      obtain ⟨context, logged⟩ := consistent.logged memory present
      let gone : Memory D :=
        { memory with deletedAt := some call.now, deletedBy := some call.requestedBy }
      obtain ⟨added, noted⟩ := recordRevision_continues (db.log gone) logged .forgotten (by simp)
        call.requestedBy call.now .rollback call.provenance
      have stamped := touch_continues .rollback (db.log memory) gone rfl rfl rfl (Same.refl _)
      exact ⟨[] ++ added, putLog_grows consistent present (stamped.trans noted)⟩

theorem forgetItems_grows (consistent : Consistent db) (items : List (PlanItem D)) :
    ∃ added, Grows .rollback db (forgetItems db scope call items) added := by
  induction items generalizing db with
  | nil => exact ⟨[], Grows.refl consistent _⟩
  | cons item rest ih =>
    obtain ⟨first, earlier⟩ := softDelete_grows consistent item.memoryId
    obtain ⟨second, later⟩ := ih earlier.consistent
    exact ⟨first ++ second, earlier.trans later⟩

theorem openRecord_consistent (consistent : Consistent db) :
    Consistent (openRecord db scope call).1 := by
  unfold openRecord
  split
  next => exact consistent.tables rfl rfl rfl
  next => exact consistent.tables rfl rfl rfl

theorem unforget_continues {memory : Memory D} {item : PlanItem D} {log : Log D} {context : ContextId}
    (logged : memory.contextId = some context)
    (restored : unforget db scope call memory item = some log) :
    ∃ added, Continues .rollback (db.log memory) log added := by
  unfold unforget at restored
  split at restored
  next =>
    let live : Memory D := { memory with deletedAt := none, deletedBy := none }
    obtain ⟨added, noted⟩ := recordRevision_continues (db.log live) logged .restored (by simp)
      call.requestedBy call.now .rollback call.provenance
    have stamped := touch_continues .rollback (db.log memory) live rfl rfl rfl (Same.refl _)
    rw [Option.some.injEq] at restored
    rw [← restored]
    exact ⟨[] ++ added, stamped.trans noted⟩
  next => cases restored

variable [DecidableEq D]

theorem writeValues_continues (log : Log D) {context : ContextId}
    (logged : log.memory.contextId = some context) (item : PlanItem D) :
    ∃ added, Continues .rollback log (writeValues log call item) added := by
  unfold writeValues
  split
  next => exact ⟨[], touch_continues _ log log.memory rfl rfl rfl (Same.refl _)⟩
  next => exact recordEdit_continues log logged _ _ _ _ _ _

theorem restoreItem_grows (consistent : Consistent db) {item : PlanItem D}
    (restored : restoreItem db scope call item = some after) :
    ∃ added, Grows .rollback db after added := by
  unfold restoreItem at restored
  split at restored
  next => cases restored
  next memory found =>
    have present := (Db.memory?_some found).1
    obtain ⟨context, logged⟩ := consistent.logged memory present
    split at restored
    next =>
      obtain ⟨log, alive, rfl⟩ := Option.map_eq_some_iff.mp restored
      obtain ⟨first, earlier⟩ := unforget_continues logged alive
      have sameContext : log.memory.contextId = some context := earlier.context.trans logged
      obtain ⟨second, later⟩ := writeValues_continues log sameContext item
      exact ⟨first ++ second, putLog_grows consistent present (earlier.trans later)⟩
    next =>
      cases restored
      obtain ⟨added, written⟩ := writeValues_continues (db.log memory) logged item
      exact ⟨added, putLog_grows consistent present written⟩

theorem runUnit_grows (consistent : Consistent db) {unit : WorkUnit D}
    (ran : runUnit db scope call unit = some after) : ∃ added, Grows .rollback db after added := by
  unfold runUnit at ran
  split at ran
  next =>
    cases ran
    exact forgetItems_grows consistent _
  next => exact restoreItem_grows consistent ran
  next => cases ran

theorem guarded_consistent {state : Executed D} (consistent : Consistent state.db)
    (rollbackId index : Nat) (unit : WorkUnit D) :
    Consistent (guarded scope call rollbackId state index unit).db := by
  unfold guarded
  simp only
  split
  next db ran =>
    split at ran
    next => cases ran
    next =>
      obtain ⟨added, grown⟩ := runUnit_grows consistent ran
      exact grown.consistent.marked _ _
  next => exact consistent

theorem runUnits_consistent {state : Executed D} (consistent : Consistent state.db)
    (rollbackId index : Nat) (units : List (WorkUnit D)) :
    Consistent (runUnits scope call rollbackId state index units).db := by
  induction units generalizing state index with
  | nil => exact consistent
  | cons unit rest ih =>
    unfold runUnits
    split
    next => exact consistent
    next => exact ih (guarded_consistent consistent rollbackId index unit) (index + 1)

theorem rollbackBatch_consistent (consistent : Consistent db) (batch : Batch D) :
    Consistent (rollbackBatch db scope call batch).1 := by
  have opened : Consistent (openRecord db scope call).1 := openRecord_consistent consistent
  have executed : Consistent
      (execute (openRecord db scope call).1 scope call (openRecord db scope call).2.id
        batch.items).db :=
    runUnits_consistent (opened.marked _ _) _ _ _
  exact executed.tables rfl rfl rfl

theorem rollbackSession_cases {result : RollbackResult D}
    (ok : rollbackSession db scope call = .ok (after, result)) :
    (after = db ∧ result.reversed = [] ∧ (call.dryRun = true ∨
      ((readBatch db scope call).items = [] ∧ result.status = none))) ∨
    (call.dryRun = false ∧ (after, result) = rollbackBatch db scope call (readBatch db scope call)) := by
  unfold rollbackSession at ok
  simp only at ok
  split at ok
  next => cases ok
  next =>
    split at ok
    next =>
      split at ok
      next => cases ok
      next =>
        split at ok
        next dry =>
          cases ok
          exact .inl ⟨rfl, rfl, .inl dry⟩
        next wet =>
          cases ok
          exact .inr ⟨by simpa using wet, rfl⟩
    next unrecorded =>
      split at ok
      next empty =>
        split at ok
        next => cases ok
        next =>
          cases ok
          exact .inl ⟨rfl, rfl, .inr ⟨by simpa using empty, by simp [unrecorded]⟩⟩
      next =>
        split at ok
        next dry =>
          cases ok
          exact .inl ⟨rfl, rfl, .inl dry⟩
        next wet =>
          cases ok
          exact .inr ⟨by simpa using wet, rfl⟩

theorem rollbackSession_consistent (consistent : Consistent db) {result : RollbackResult D}
    (ok : rollbackSession db scope call = .ok (after, result)) : Consistent after := by
  rcases rollbackSession_cases ok with ⟨rfl, _⟩ | ⟨_, worked⟩
  next => exact consistent
  next =>
    have isBatch := congrArg Prod.fst worked
    simp only at isBatch
    rw [isBatch]
    exact rollbackBatch_consistent consistent _

end Work

section Runs

variable {db : Db D}

theorem createMemory_grows (consistent : Consistent db) (memory : Memory D)
    (contextId : ContextId) (actor : UserId) (at_ : Time) (provenance : WriteProvenance) :
    ∃ added, Grows .api db (createMemory db memory contextId actor at_ provenance) added := by
  unfold createMemory
  split
  next => exact ⟨[], Grows.refl consistent _⟩
  next unknown =>
    let new : Memory D := { memory with contextId := some contextId, version := 1 }
    let inserted : Db D := { db with memories := db.memories ++ [new] }
    have fresh : ∀ other ∈ db.memories, other.id ≠ memory.id := by
      intro other present same
      apply unknown
      simp only [Db.memory?, List.find?_isSome, decide_eq_true_eq]
      exact ⟨other, present, same⟩
    have unwritten : eventsOf db.rows memory.id = [] := by
      apply eventsOf_other
      intro row present same
      obtain ⟨owner, listed, owns, _⟩ := consistent.placed row present
      exact fresh owner listed (owns.trans same)
    have wider : Consistent inserted := by
      refine ⟨?_, consistent.ascending, consistent.below, ?_, ?_, ?_⟩
      · simp only [inserted, List.map_append, List.map_cons, List.map_nil]
        rw [List.nodup_append]
        refine ⟨consistent.distinct, by simp, ?_⟩
        intro id listed other is
        obtain ⟨owner, present, rfl⟩ := List.mem_map.mp listed
        rw [List.mem_singleton.mp is]
        exact fresh owner present
      · intro row present
        obtain ⟨owner, listed, owns⟩ := consistent.placed row present
        exact ⟨owner, List.mem_append_left _ listed, owns⟩
      · intro other present
        rcases List.mem_append.mp present with old | is
        next => exact consistent.logged other old
        next =>
          rw [List.mem_singleton.mp is]
          exact ⟨contextId, rfl⟩
      · intro other present
        rcases List.mem_append.mp present with old | is
        next => exact consistent.ledger other old
        next =>
          rw [List.mem_singleton.mp is]
          refine ⟨fun _ => memory.fields, ?_⟩
          have nothing : eventsOf inserted.rows new.id = [] := unwritten
          rw [nothing]
          exact inserted_ledger new
    obtain ⟨added, noted⟩ := recordRevision_continues (inserted.log new) rfl .created (by simp) actor
      at_ .api provenance
    have grown := putLog_grows wider (List.mem_append_right _ (List.mem_singleton.mpr rfl)) noted
    exact ⟨added, grown.consistent, grown.rows, grown.nextId, grown.numbered, grown.fresh⟩

theorem change_grows (consistent : Consistent db) (id : MemoryId) (writer : RevisionWriter)
    (write : Memory D → Log D)
    (continues : ∀ memory ∈ db.memories, ∃ added,
      Continues writer (db.log memory) (write memory) added) :
    ∃ added, Grows writer db (db.change id write) added := by
  unfold Db.change
  split
  next => exact ⟨[], Grows.refl consistent _⟩
  next memory found =>
    have present := (Db.memory?_some found).1
    obtain ⟨added, written⟩ := continues memory present
    exact ⟨added, putLog_grows consistent present written⟩

theorem purge_consistent (consistent : Consistent db) (id : MemoryId) :
    Consistent { db with
      memories := db.memories.filter fun memory => decide (memory.id ≠ id)
      rows := db.rows.filter fun row => decide (row.memoryId ≠ id) } := by
  refine ⟨?_, ?_, ?_, ?_, ?_, ?_⟩
  · exact consistent.distinct.sublist (List.filter_sublist.map _)
  · exact consistent.ascending.sublist (List.filter_sublist.map _)
  · intro row present
    exact consistent.below row (List.mem_filter.mp present).1
  · intro row present
    obtain ⟨listed, other⟩ := List.mem_filter.mp present
    obtain ⟨owner, known, owns, context⟩ := consistent.placed row listed
    refine ⟨owner, List.mem_filter.mpr ⟨known, ?_⟩, owns, context⟩
    rw [owns]
    exact other
  · intro memory present
    exact consistent.logged memory (List.mem_filter.mp present).1
  · intro memory present
    obtain ⟨known, other⟩ := List.mem_filter.mp present
    have kept : eventsOf (db.rows.filter fun row => decide (row.memoryId ≠ id)) memory.id =
        eventsOf db.rows memory.id := by
      rw [eventsOf, eventsOf, List.filter_filter]
      apply List.filter_congr
      intro row _
      by_cases own : row.memoryId = memory.id
      next => simpa [own] using other
      next => simp [own]
    obtain ⟨past, ledger⟩ := consistent.ledger memory known
    refine ⟨past, ?_⟩
    rw [kept]
    exact ledger

theorem emptyDb_consistent : Consistent (emptyDb : Db D) := by
  refine ⟨?_, ?_, ?_, ?_, ?_, ?_⟩
  all_goals simp [emptyDb]

variable [DecidableEq D]

theorem step_cases (consistent : Consistent db) (action : Step D) :
    (∃ writer added, Grows writer db (step db action) added) ∨
      (∃ id, action = .purge id) ∨ ∃ scope call, action = .rollback scope call := by
  cases action with
  | create memory contextId actor at_ provenance =>
    exact .inl ⟨_, createMemory_grows consistent memory contextId actor at_ provenance⟩
  | edit id after actor at_ provenance =>
    refine .inl ⟨.api, change_grows consistent id .api _ ?_⟩
    intro memory present
    obtain ⟨context, logged⟩ := consistent.logged memory present
    exact recordEdit_continues (db.log memory) logged after actor at_ .api provenance none
  | event id kind other actor at_ writer provenance =>
    refine .inl ⟨writer, change_grows consistent id writer _ ?_⟩
    intro memory present
    obtain ⟨context, logged⟩ := consistent.logged memory present
    exact recordRevision_continues (db.log memory) logged kind other actor at_ writer provenance
  | touch id deletedAt deletedBy resourceId =>
    refine .inl ⟨.api, change_grows consistent id .api _ ?_⟩
    intro memory present
    exact ⟨[], touch_continues _ (db.log memory) _ rfl rfl rfl (Same.refl _)⟩
  | purge id => exact .inr (.inl ⟨id, rfl⟩)
  | context id live =>
    exact .inl ⟨.api, [], consistent.tables rfl rfl rfl, by simp [step], rfl, rfl, by simp⟩
  | rollback scope call => exact .inr (.inr ⟨scope, call, rfl⟩)

theorem step_consistent (consistent : Consistent db) (action : Step D) :
    Consistent (step db action) := by
  rcases step_cases consistent action with ⟨_, _, grown⟩ | ⟨id, rfl⟩ | ⟨scope, call, rfl⟩
  next => exact grown.consistent
  next => exact purge_consistent consistent id
  next =>
    simp only [step]
    split
    next after result ok => exact rollbackSession_consistent consistent ok
    next => exact consistent

theorem run_consistent (steps : List (Step D)) : Consistent (run steps) := by
  have later : ∀ db : Db D, Consistent db → Consistent (steps.foldl step db) := by
    induction steps with
    | nil => exact fun _ consistent => consistent
    | cons action rest ih =>
      intro db consistent
      exact ih (step db action) (step_consistent consistent action)
  exact later emptyDb emptyDb_consistent

end Runs

end MemoryCloud.Rollback
