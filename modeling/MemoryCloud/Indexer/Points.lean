import MemoryCloud.Indexer.Batch

set_option autoImplicit false

/-!
# Live rows and their points over a batch

A batch loses a live row's point exactly through the delete of all versions,
the one call that removes points before the rows are gone for good.
-/

namespace MemoryCloud.Indexer.Points

variable (context : Context)

def Backed (memories : List Memory) (store : Store) : Prop :=
  ∀ memory ∈ memories, memory.live → memory.contextId = context.id →
    (store memory.pointId).isSome

def Clear (memories : List Memory) (store : Store) (event : Event) : Prop :=
  ∀ memory ∈ memories, memory.live → memory.contextId = context.id →
    ∀ payload, store memory.pointId = some payload → ¬ carries context event payload

def Event.deletesAll (event : Event) : Prop := event.op = .delete ∧ event.version = none

def Event.writes (event : Event) : Prop := event.op = .upsert ∧ event.payload = true

def Event.sameDoc (first second : Event) : Prop :=
  first.resourceId = second.resourceId ∧ first.docId = second.docId

-- A delete of all versions is of a document that no live row has a point of at the start and that
-- no upsert before it in the batch writes.
structure Harmless (memories : List Memory) (store : Store) (events : List Event) : Prop where
  unheld : ∀ event ∈ events, event.deletesAll → Clear context memories store event
  unwritten : events.Pairwise fun earlier later =>
    earlier.writes → later.deletesAll → ¬ earlier.sameDoc later

def Kept (final : Final) : Prop :=
  Backed context final.memories final.store ∧
    ∀ point ∈ final.dropped, ∀ memory ∈ final.memories, memory.live → memory.pointId ≠ point

variable {context} {event : Event} {outcome : Outcome} {batch : Batch}

section Step

inductive StoreChange (context : Context) (event : Event) (store : Store) : Store → Prop
  | same : StoreChange context event store store
  | written (writes : event.writes) : StoreChange context event store
      (Function.update store event.pointId (some (resourcePoint context event)))
  | removed (deletes : event.deletesAll) (gone : PointId → Bool)
      (matched : ∀ point, gone point = true → (store point).any (carries context event ·)) :
      StoreChange context event store (removePoints store gone)

structure Applied (context : Context) (event : Event) (before after : Batch) : Prop where
  store : StoreChange context event before.store after.store
  memories : ∀ memory ∈ after.memories, memory ∈ before.memories ∨
    event.writes ∧ memory.summaryEmbeddingId = some event.pointId ∧
      after.store event.pointId = some (resourcePoint context event)
  repointed : ∀ entry ∈ after.repointed, entry ∈ before.repointed ∨
    ∀ memory ∈ after.memories, memory.id = entry.1 →
      memory.summaryEmbeddingId = some event.pointId
  retired : ∀ point ∈ after.retired, point ∈ before.retired ∨
    ∃ version, point = .document event.resourceId event.docId version

theorem Applied.failed {store : Store} (change : StoreChange context event batch.store store) :
    Applied context event batch { batch with store } where
  store := change
  memories := fun _ listed => Or.inl listed
  repointed := fun _ listed => Or.inl listed
  retired := fun _ listed => Or.inl listed

theorem mem_deleteRows {memories gone : List Memory} {memory : Memory} :
    memory ∈ deleteRows memories gone ↔ memory ∈ memories ∧ memory.id ∉ gone.map Memory.id := by
  simp [deleteRows]

theorem existingMemory_mem {memories : List Memory} {existing : Memory}
    (found : existingMemory context event memories = some existing) :
    existing ∈ memories ∧ existing.sameDoc context event ∧ existing.live := by
  have listed := List.mem_of_mem_head? found
  rw [List.mem_insertionSort, List.mem_filter, decide_eq_true_eq] at listed
  exact ⟨listed.1, listed.2.1, listed.2.2.2⟩

theorem writeMemory_applied (writes : event.writes) :
    Applied context event batch (writeMemory context event outcome
      { batch with
        store := Function.update batch.store event.pointId (some (resourcePoint context event)) }) := by
  unfold writeMemory
  dsimp only
  split
  next existing found =>
    refine ⟨.written writes, fun memory listed => ?_, fun entry listed => ?_,
      fun _ listed => Or.inl listed⟩
    next =>
      obtain ⟨old, stored, rfl⟩ := List.mem_map.mp listed
      split
      next => exact Or.inr ⟨writes, rfl, by simp⟩
      next => exact Or.inl stored
    next =>
      dsimp only at listed
      split at listed
      next =>
        rcases List.mem_append.mp listed with old | new
        next => exact Or.inl old
        next =>
          rw [List.mem_singleton.mp new]
          refine Or.inr fun memory present same => ?_
          obtain ⟨old, stored, rfl⟩ := List.mem_map.mp present
          split at same
          next here => simp [here, repoint]
          next other => exact absurd same other
      next => exact Or.inl listed
  next =>
    refine ⟨.written writes, fun memory listed => ?_, fun _ listed => Or.inl listed,
      fun _ listed => Or.inl listed⟩
    rcases List.mem_append.mp listed with old | new
    next => exact Or.inl old
    next =>
      rw [List.mem_singleton.mp new]
      exact Or.inr ⟨writes, rfl, by simp⟩

theorem Applied.clean {after : Batch} (applied : Applied context event batch after) :
    Applied context event batch (cleanOldVersions context event after) := by
  refine ⟨applied.store, fun memory listed => ?_, fun entry listed => ?_, fun point listed => ?_⟩
  next => exact applied.memories memory (mem_deleteRows.mp listed).1
  next =>
    rcases List.mem_append.mp listed with old | new
    next =>
      rcases applied.repointed entry old with earlier | named
      next => exact Or.inl earlier
      next => exact Or.inr fun memory present => named memory (mem_deleteRows.mp present).1
    next =>
      obtain ⟨gone, unowned, rfl⟩ := List.mem_map.mp new
      refine Or.inr fun memory present same => absurd ?_ (mem_deleteRows.mp present).2
      rw [same]
      exact List.mem_map_of_mem (List.mem_of_mem_filter unowned)
  next =>
    rcases List.mem_append.mp listed with old | new
    next => exact applied.retired point old
    next =>
      obtain ⟨memory, _, rfl⟩ := List.mem_map.mp new
      exact Or.inr ⟨memory.resourceVersion, rfl⟩

theorem applyUpsert_applied (upsert : event.op = .upsert) :
    StoreChange context event batch.store (applyUpsert context event outcome batch).1 ∧
      ∀ next, (applyUpsert context event outcome batch).2 = some next →
        Applied context event batch next := by
  unfold applyUpsert
  split
  next =>
    refine ⟨.same, fun next same => ?_⟩
    cases same
    exact .failed .same
  next effective =>
    have writes : event.writes := by
      simp only [not_or, not_not] at effective
      exact ⟨upsert, effective.2⟩
    split
    next => exact ⟨.same, fun next same => by cases same⟩
    next =>
      dsimp only
      split
      next =>
        refine ⟨?_, fun next same => by cases same⟩
        dsimp only
        split
        next => exact .written writes
        next => exact .same
      next =>
        split
        next => exact ⟨.written writes, fun next same => by cases same⟩
        next =>
          refine ⟨.written writes, fun next same => ?_⟩
          cases same
          split
          next => exact (writeMemory_applied writes).clean
          next => exact writeMemory_applied writes

theorem applyDelete_applied (delete : event.op = .delete) :
    StoreChange context event batch.store (applyDelete context event outcome batch).1 ∧
      ∀ next, (applyDelete context event outcome batch).2 = some next →
        Applied context event batch next := by
  unfold applyDelete
  split
  next every =>
    have all : event.deletesAll := ⟨delete, every⟩
    dsimp only
    split
    next part =>
      refine ⟨.removed all _ fun point gone => ?_, fun next same => by cases same⟩
      rw [decide_eq_true_eq] at gone
      exact gone.1
    next =>
      split
      next => exact ⟨.removed all _ fun _ gone => gone, fun next same => by cases same⟩
      next =>
        refine ⟨.removed all _ fun _ gone => gone, fun next same => ?_⟩
        cases same
        exact ⟨.removed all _ fun _ gone => gone,
          fun memory listed => Or.inl (mem_deleteRows.mp listed).1,
          fun _ listed => Or.inl listed, fun _ listed => Or.inl listed⟩
  next version one =>
    dsimp only
    split
    next =>
      refine ⟨.same, fun next same => ?_⟩
      cases same
      exact .failed .same
    next =>
      split
      next => exact ⟨.same, fun next same => by cases same⟩
      next =>
        refine ⟨.same, fun next same => ?_⟩
        cases same
        refine ⟨.same, fun memory listed => Or.inl (mem_deleteRows.mp listed).1,
          fun _ listed => Or.inl listed, fun point listed => ?_⟩
        rcases List.mem_append.mp listed with old | new
        next => exact Or.inl old
        next => exact Or.inr ⟨event.version, List.mem_singleton.mp new⟩

theorem endSavepoint_applied {applied : Store × Option Batch}
    (change : StoreChange context event batch.store applied.1)
    (each : ∀ next, applied.2 = some next → Applied context event batch next) :
    Applied context event batch (endSavepoint outcome batch applied) := by
  unfold endSavepoint
  split
  next => exact .failed change
  next =>
    split
    next => exact each _ rfl
    next => exact .failed change

theorem applyEvent_applied (context : Context) (event : Event) (outcome : Outcome)
    (batch : Batch) : Applied context event batch (applyEvent context event outcome batch) := by
  unfold applyEvent
  split
  next upsert =>
    obtain ⟨change, each⟩ := applyUpsert_applied upsert
    exact endSavepoint_applied change each
  next delete =>
    obtain ⟨change, each⟩ := applyDelete_applied delete
    exact endSavepoint_applied change each

end Step

section Run

def Sound (context : Context) (rest : List Event) (memories : List Memory) (store : Store) :
    Prop :=
  Backed context memories store ∧
    ∀ event ∈ rest, event.deletesAll → Clear context memories store event

variable {rest : List Event} {memories : List Memory} {store changed : Store}

theorem Sound.change (change : StoreChange context event store changed)
    (apart : ∀ later ∈ rest, event.writes → later.deletesAll → ¬ event.sameDoc later)
    (sound : Sound context (event :: rest) memories store) :
    Sound context rest memories changed := by
  have later : ∀ other ∈ rest, other.deletesAll → Clear context memories store other :=
    fun other listed => sound.2 other (List.mem_cons_of_mem _ listed)
  cases change with
  | same => exact ⟨sound.1, later⟩
  | written writes =>
    refine ⟨fun memory listed live inside => ?_,
      fun other listed deletes memory stored live inside payload found => ?_⟩
    next =>
      by_cases here : memory.pointId = event.pointId
      next => simp [here]
      next =>
        rw [Function.update_of_ne here]
        exact sound.1 memory listed live inside
    next =>
      by_cases here : memory.pointId = event.pointId
      next =>
        rw [here, Function.update_self] at found
        cases found
        rintro ⟨_, _, doc, resource⟩
        exact apart other listed writes deletes ⟨by simpa [resourcePoint] using resource,
          by simpa [resourcePoint] using doc⟩
      next =>
        rw [Function.update_of_ne here] at found
        exact later other listed deletes memory stored live inside payload found
  | removed deletes gone matched =>
    -- The delete takes no point of a live row.
    have kept : ∀ memory ∈ memories, memory.live → memory.contextId = context.id →
        removePoints store gone memory.pointId = store memory.pointId := by
      intro memory listed live inside
      unfold removePoints
      split
      next taken =>
        obtain ⟨payload, found, carried⟩ := (Option.any_eq_true _ _).mp (matched _ taken)
        rw [decide_eq_true_eq] at carried
        exact absurd carried
          (sound.2 event List.mem_cons_self deletes memory listed live inside payload found)
      next => rfl
    refine ⟨fun memory listed live inside => ?_,
      fun other listed deletes memory stored live inside payload found => ?_⟩
    next =>
      rw [kept memory listed live inside]
      exact sound.1 memory listed live inside
    next =>
      rw [kept memory stored live inside] at found
      exact later other listed deletes memory stored live inside payload found

-- The invariant of the event loop, with the rows of the start for the case of a rollback.
structure Standing (context : Context) (start : List Memory) (rest : List Event) (batch : Batch) :
    Prop where
  current : Sound context rest batch.memories batch.store
  initial : Sound context rest start batch.store
  repointed : ∀ entry ∈ batch.repointed, ∀ memory ∈ batch.memories, memory.id = entry.1 →
    ∃ resourceId docId version,
      memory.summaryEmbeddingId = some (.document resourceId docId version)
  retired : ∀ point ∈ batch.retired, ∃ resourceId docId version,
    point = .document resourceId docId version

theorem pointId_of_summary {memory : Memory} {point : PointId}
    (named : memory.summaryEmbeddingId = some point) : memory.pointId = point := by
  simp [Memory.pointId, named]

theorem Standing.apply {start : List Memory} {after : Batch}
    (applied : Applied context event batch after)
    (apart : ∀ later ∈ rest, event.writes → later.deletesAll → ¬ event.sameDoc later)
    (standing : Standing context start (event :: rest) batch) :
    Standing context start rest after := by
  have current := standing.current.change applied.store apart
  refine ⟨⟨fun memory listed live inside => ?_,
    fun other listed deletes memory stored live inside payload found => ?_⟩,
    standing.initial.change applied.store apart, fun entry listed memory present same => ?_,
    fun point listed => ?_⟩
  next =>
    rcases applied.memories memory listed with old | ⟨_, named, exists_⟩
    next => exact current.1 memory old live inside
    next => simp [pointId_of_summary named, exists_]
  next =>
    rcases applied.memories memory stored with old | ⟨writes, named, exists_⟩
    next => exact current.2 other listed deletes memory old live inside payload found
    next =>
      rw [pointId_of_summary named, exists_] at found
      cases found
      rintro ⟨_, _, doc, resource⟩
      exact apart other listed writes deletes ⟨by simpa [resourcePoint] using resource,
        by simpa [resourcePoint] using doc⟩
  next =>
    rcases applied.memories memory present with old | ⟨_, named, _⟩
    next =>
      rcases applied.repointed entry listed with earlier | named
      next => exact standing.repointed entry earlier memory old same
      next => exact ⟨_, _, _, named memory present same⟩
    next => exact ⟨_, _, _, named⟩
  next =>
    rcases applied.retired point listed with old | ⟨version, rfl⟩
    next => exact standing.retired point old
    next => exact ⟨_, _, _, rfl⟩

theorem Standing.run {start : List Memory} {script : List (Event × Outcome)}
    (apart : (script.map Prod.fst).Pairwise fun earlier later =>
      earlier.writes → later.deletesAll → ¬ earlier.sameDoc later)
    (standing : Standing context start (script.map Prod.fst) batch) :
    Standing context start [] (applyAll context batch script) := by
  induction script generalizing batch with
  | nil => exact standing
  | cons first others ih =>
    rw [List.map_cons, List.pairwise_cons] at apart
    exact ih apart.2 (standing.apply (applyEvent_applied context first.1 first.2 batch) apart.1)

end Run

section Drains

theorem mem_call_removed {call : Call} {points : List PointId} {point : PointId}
    (gone : point ∈ call.removed points) : point ∈ points := by
  cases call with
  | done => exact gone
  | failed part => exact List.mem_of_mem_filter gone

theorem mem_dropRepointed {calls : Nat → Call} {repointed : List (MemoryId × Option PointId)}
    {point : PointId} (gone : point ∈ dropRepointed calls repointed) :
    ∃ entry ∈ repointed, point = .own entry.1 := by
  obtain ⟨⟨entry, index⟩, listed, taken⟩ := List.mem_flatMap.mp gone
  dsimp only at taken
  split at taken
  next =>
    have stored := (List.mem_zipIdx listed).2.2
    exact ⟨entry, stored ▸ List.getElem_mem _, List.mem_singleton.mp (mem_call_removed taken)⟩
  next => cases taken

theorem mem_dropRetired {drains : Drains} {memories : List Memory} {retired : List PointId}
    {point : PointId} (gone : point ∈ dropRetired drains memories retired) :
    point ∈ retired ∧ ∀ memory ∈ memories, memory.live → memory.summaryEmbeddingId ≠ some point := by
  unfold dropRetired at gone
  split at gone
  next =>
    have kept := mem_call_removed gone
    rw [List.mem_filter, decide_eq_true_eq] at kept
    refine ⟨kept.1, fun memory listed live named => kept.2 ?_⟩
    exact List.mem_filterMap.mpr ⟨memory, List.mem_filter.mpr ⟨listed, by simpa using live⟩, named⟩
  next => cases gone

-- The drains delete no point of a live row.
theorem Standing.dropped {start : List Memory} {drains : Drains} {point : PointId}
    (standing : Standing context start [] batch)
    (gone : point ∈ dropRepointed drains.repointed batch.repointed ++
      dropRetired drains batch.memories batch.retired) :
    ∀ memory ∈ batch.memories, memory.live → memory.pointId ≠ point := by
  intro memory listed live same
  rcases List.mem_append.mp gone with stray | old
  next =>
    obtain ⟨entry, stored, rfl⟩ := mem_dropRepointed stray
    unfold Memory.pointId at same
    cases summary : memory.summaryEmbeddingId with
    | none =>
      have own : memory.id = entry.1 := by simpa [summary] using same
      obtain ⟨_, _, _, named⟩ := standing.repointed entry stored memory listed own
      simp [summary] at named
    | some point =>
      rw [summary] at same
      cases same
      have own := memory.attributed entry.1 summary
      obtain ⟨_, _, _, named⟩ := standing.repointed entry stored memory listed own.symm
      simp [summary] at named
  next =>
    obtain ⟨stored, unnamed⟩ := mem_dropRetired old
    obtain ⟨_, _, _, rfl⟩ := standing.retired point stored
    unfold Memory.pointId at same
    cases summary : memory.summaryEmbeddingId with
    | none =>
      rw [summary] at same
      cases same
    | some point =>
      rw [summary] at same
      exact unnamed memory listed live (summary.trans (congrArg some same))

end Drains

section Necessity

def idle : Outcome :=
  { contextLive := false
    prepared := false
    call := .failed []
    flushed := false
    cleaned := false
    released := false
    newId := 0
    now := 0 }

-- The delete of all versions reaches the points and its row flush fails.
def pointsOnly : Outcome := { idle with call := .done }

-- The upsert writes point and row; the clean-up of old versions fails.
def rowWritten (newId : MemoryId) : Outcome :=
  { contextLive := true
    prepared := true
    call := .done
    flushed := true
    cleaned := false
    released := true
    newId
    now := 0 }

theorem applyEvent_idle (event : Event) (batch : Batch) :
    applyEvent context event idle batch = batch := by
  unfold applyEvent
  split
  next => simp [applyUpsert, idle, endSavepoint]
  next =>
    unfold applyDelete
    split
    next =>
      have same : removePoints batch.store (fun _ => false) = batch.store := by
        funext point
        simp [removePoints]
      simp [idle, endSavepoint, same]
    next =>
      dsimp only
      split
      next => simp [idle, endSavepoint]
      next => simp [idle, endSavepoint]

theorem applyAll_idle (events : List Event) (batch : Batch) :
    applyAll context batch (events.map fun event => (event, idle)) = batch := by
  induction events generalizing batch with
  | nil => rfl
  | cons event rest ih =>
    rw [List.map_cons, applyAll, List.foldl_cons]
    exact (ih _).trans (applyEvent_idle event batch)

theorem applyEvent_pointsOnly (deletes : event.deletesAll) :
    applyEvent context event pointsOnly batch =
      { batch with
        store := removePoints batch.store fun point =>
          (batch.store point).any (carries context event ·) } := by
  obtain ⟨delete, every⟩ := deletes
  simp [applyEvent, delete, applyDelete, every, pointsOnly, idle, endSavepoint]

theorem applyEvent_rowWritten (writes : event.writes) (newId : MemoryId) :
    applyEvent context event (rowWritten newId) batch =
      writeMemory context event (rowWritten newId)
        { batch with
          store := Function.update batch.store event.pointId
            (some (resourcePoint context event)) } := by
  obtain ⟨upsert, payload⟩ := writes
  simp [applyEvent, upsert, applyUpsert, payload, rowWritten, endSavepoint]

theorem writeMemory_live (context : Context) (event : Event) (outcome : Outcome) (batch : Batch) :
    (writeMemory context event outcome batch).store = batch.store ∧
      ∃ memory ∈ (writeMemory context event outcome batch).memories, memory.live ∧
        memory.contextId = context.id ∧ memory.pointId = event.pointId := by
  unfold writeMemory
  split
  next existing found =>
    obtain ⟨stored, inside, live⟩ := existingMemory_mem found
    refine ⟨rfl, repoint event existing, ?_, live, inside.2.1, rfl⟩
    exact List.mem_map.mpr ⟨existing, stored, by simp⟩
  next =>
    exact ⟨rfl, createdMemory context event outcome, by simp, rfl, rfl, rfl⟩

theorem applyAll_append (batch : Batch) (first second : List (Event × Outcome)) :
    applyAll context batch (first ++ second) =
      applyAll context (applyAll context batch first) second := by
  unfold applyAll
  exact List.foldl_append

theorem applyAll_single (before after : List Event) (event : Event) (outcome : Outcome)
    (batch : Batch) :
    applyAll context batch (before.map (fun event => (event, idle)) ++
      (event, outcome) :: after.map fun event => (event, idle)) =
        applyEvent context event outcome batch := by
  rw [applyAll_append, applyAll_idle, applyAll, List.foldl_cons]
  exact applyAll_idle after _

end Necessity

theorem removePoints_of_not {store : Store} {gone : PointId → Bool} {point : PointId}
    (kept : ¬ gone point = true) : removePoints store gone point = store point := if_neg kept

theorem isSome_of_removePoints {store : Store} {gone : PointId → Bool} {point : PointId}
    (present : (removePoints store gone point).isSome) :
    gone point = false ∧ (store point).isSome := by
  unfold removePoints at present
  split at present
  next => cases present
  next kept => exact ⟨by simpa using kept, present⟩

theorem batch_keeps_points_iff (context : Context) (memories : List Memory) (store : Store)
    (events : List Event) (backed : Backed context memories store) :
    (∀ (script : List (Event × Outcome)) (committed : Bool) (drains : Drains),
      script.map Prod.fst = events →
        Kept context (processIncremental context memories store script committed drains)) ↔
      Harmless context memories store events := by
  constructor
  next =>
    intro kept
    have drains : Drains := ⟨fun _ => .done, false, .done⟩
    refine ⟨?_, List.pairwise_iff_forall_sublist.mpr ?_⟩
    next =>
      intro event listed deletes memory stored live inside payload found carried
      obtain ⟨before, after, rfl⟩ := List.append_of_mem listed
      have present := (kept (before.map (fun event => (event, idle)) ++
        (event, pointsOnly) :: after.map fun event => (event, idle)) false drains
          (by simp [Function.comp_def])).1 memory stored live inside
      simp only [processIncremental, applyAll_single, applyEvent_pointsOnly deletes,
        Bool.false_eq_true, if_false] at present
      have unmatched := (isSome_of_removePoints present).1
      simp [found, carried] at unmatched
    next =>
      intro earlier later ordered writes deletes same
      obtain ⟨first, second, rfl, inFirst, inSecond⟩ := List.cons_sublist_iff.mp ordered
      obtain ⟨before, middle, rfl⟩ := List.append_of_mem inFirst
      obtain ⟨between, after, rfl⟩ := List.append_of_mem (List.singleton_sublist.mp inSecond)
      have final := (kept ((before.map (fun event => (event, idle)) ++
        (earlier, rowWritten 0) :: middle.map fun event => (event, idle)) ++
          (between.map (fun event => (event, idle)) ++
            (later, pointsOnly) :: after.map fun event => (event, idle))) true drains
              (by simp [Function.comp_def])).1
      simp only [processIncremental, if_true] at final
      rw [applyAll_append, applyAll_single, applyAll_single, applyEvent_pointsOnly deletes,
        applyEvent_rowWritten writes] at final
      dsimp only at final
      obtain ⟨sameStore, memory, stored, live, inside, named⟩ := writeMemory_live context earlier
        (rowWritten 0)
        { memories
          store := Function.update store earlier.pointId (some (resourcePoint context earlier))
          repointed := []
          retired := [] }
      have present := (isSome_of_removePoints (final memory stored live inside)).2
      have unmatched := (isSome_of_removePoints present).1
      rw [sameStore, named] at unmatched
      simp [carries, resourcePoint, same.1, same.2] at unmatched
  next =>
    intro harmless script committed drains same
    subst same
    have standing : Standing context memories []
        (applyAll context { memories, store, repointed := [], retired := [] } script) := by
      refine Standing.run harmless.unwritten
        ⟨⟨backed, harmless.unheld⟩, ⟨backed, harmless.unheld⟩, ?_, ?_⟩
      next => exact fun entry listed => by cases listed
      next => exact fun point listed => by cases listed
    unfold processIncremental
    dsimp only
    split
    next =>
      refine ⟨fun memory listed live inside => ?_, fun point gone => standing.dropped gone⟩
      dsimp only at listed ⊢
      rw [removePoints_of_not]
      next => exact standing.current.1 memory listed live inside
      next =>
        intro gone
        rw [decide_eq_true_eq] at gone
        exact standing.dropped gone memory listed live rfl
    next => exact ⟨standing.initial.1, fun point gone => by cases gone⟩

def docs : Context := { id := 1, workspaceId := 1, createdBy := 5 }

def upsertOf (docId : String) (version : Nat) : Event :=
  { op := .upsert, resourceId := "wiki", docId, version := some version, payload := true }

def deleteOf (docId : String) : Event :=
  { op := .delete, resourceId := "wiki", docId, version := none, payload := false }

def indexed : Memory where
  id := 1
  userId := 5
  workspaceId := 1
  contextId := 1
  createdAt := 0
  resourceId := some "wiki"
  resourceDocId := some "home"
  resourceVersion := some 1
  summaryEmbeddingId := some (.document "wiki" "home" (some 1))
  deletedAt := none
  attributed := by simp

def onePoint : Store := fun point =>
  if point = .document "wiki" "home" (some 1) then some (resourcePoint docs (upsertOf "home" 1))
  else none

theorem onePoint_backed : Backed docs [indexed] onePoint := by
  intro memory listed _ _
  rw [List.mem_singleton.mp listed]
  rfl

-- A new version of one document, and the points of another deleted by an event that then fails.
theorem batch_keeps_points_other_doc :
    Kept docs (processIncremental docs [indexed] onePoint
      [(upsertOf "home" 2, rowWritten 2), (deleteOf "about", pointsOnly)] true
        ⟨fun _ => .done, true, .done⟩) := by
  refine (batch_keeps_points_iff docs [indexed] onePoint [upsertOf "home" 2, deleteOf "about"]
    onePoint_backed).mpr ⟨?_, ?_⟩ _ true _ rfl
  next =>
    intro event listed deletes memory stored _ _ payload found
    rw [List.mem_singleton.mp stored] at found
    cases found
    simp only [List.mem_cons, List.not_mem_nil, or_false] at listed
    rcases listed with rfl | rfl
    next => cases deletes.1
    next => decide
  next =>
    rw [List.pairwise_pair]
    rintro _ _ ⟨_, sameDoc⟩
    revert sameDoc
    decide

theorem failed_delete_loses_points :
    Backed docs [indexed] onePoint ∧
      ¬ Kept docs (processIncremental docs [indexed] onePoint [(deleteOf "home", pointsOnly)] true
        ⟨fun _ => .done, false, .done⟩) := by
  refine ⟨onePoint_backed, fun kept => ?_⟩
  have present := kept.1 indexed (List.mem_singleton_self indexed) rfl rfl
  revert present
  decide

end MemoryCloud.Indexer.Points
