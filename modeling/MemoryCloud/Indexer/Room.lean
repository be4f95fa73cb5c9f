import Mathlib.Data.Finset.Basic
import Mathlib.Data.List.Induction
import MemoryCloud.Indexer.Points

set_option autoImplicit false

/-!
# Room for the memories a batch creates

`_fit_memory_room` walks a batch on document ids before any of it is applied;
`_apply_upsert` and `_apply_delete` then work on rows of one document and one
version. The bound on the live rows compares the two along the prefix.
-/

namespace MemoryCloud.Indexer.Points

structure Plan where
  live : Finset String
  net : Int
  creations : Nat

def planEvent (room : Option Int) (plan : Plan) (event : Event) : Option Plan :=
  match event.op with
  | .upsert =>
    if event.docId ∈ plan.live then some plan
    else if room.any (plan.net + 1 > ·) then none
    else some
      { live := insert event.docId plan.live
        net := plan.net + 1
        creations := plan.creations + 1 }
  | .delete =>
    if event.docId ∈ plan.live then some
      { plan with
        live := plan.live.erase event.docId
        net := if event.version = none then plan.net - 1 else plan.net }
    else some plan

def fitFrom (room : Option Int) (index : Nat) (plan : Plan) : List Event → Nat × Nat
  | [] => (index, plan.creations)
  | event :: rest =>
    match planEvent room plan event with
    | none => (index, plan.creations)
    | some next => fitFrom room (index + 1) next rest

def initialPlan (knownDocIds : Finset String) : Plan :=
  { live := knownDocIds, net := 0, creations := 0 }

def fitMemoryRoom (events : List Event) (knownDocIds : Finset String) (room : Option Int) :
    Nat × Nat :=
  fitFrom room 0 (initialPlan knownDocIds) events

section Rows

variable (context : Context)

def existingResourceDocIds (resourceId : String) (memories : List Memory)
    (docIds : Finset String) : Finset String :=
  ((memories.filter fun memory =>
    memory.workspaceId = context.workspaceId ∧ memory.contextId = context.id ∧
      memory.resourceId = some resourceId ∧ memory.live).filterMap
        Memory.resourceDocId).toFinset ∩ docIds

def liveRows (memories : List Memory) : Nat := memories.countP fun memory => memory.live

def Held (event : Event) (memories : List Memory) : Prop :=
  ∃ memory ∈ memories, memory.sameDoc context event ∧ memory.live

-- A document with live rows that an upsert meets has one with a version: only those are updated or
-- retired by the upsert of another version.
def Retirable (event : Event) (memories : List Memory) : Prop :=
  event.op = .upsert → Held context event memories → event.version = none ∨
    ∃ memory ∈ memories, memory.sameDoc context event ∧ memory.live ∧
      memory.resourceVersion.isSome

instance (event : Event) (memories : List Memory) : Decidable (Held context event memories) :=
  inferInstanceAs (Decidable (∃ _ ∈ _, _))

def unheldUpserts (batch : Batch) : List (Event × Outcome) → Nat
  | [] => 0
  | (event, outcome) :: rest =>
    (if event.op = .upsert ∧ ¬ Held context event batch.memories then 1 else 0) +
      unheldUpserts (applyEvent context event outcome batch) rest

end Rows

structure Outcome.Clean (outcome : Outcome) : Prop where
  contextLive : outcome.contextLive = true
  prepared : outcome.prepared = true
  call : outcome.call = .done
  flushed : outcome.flushed = true
  cleaned : outcome.cleaned = true
  released : outcome.released = true

structure Applies (resourceId : String) (script : List (Event × Outcome)) : Prop where
  resource : ∀ step ∈ script, step.1.resourceId = resourceId
  payload : ∀ step ∈ script, step.1.op = .upsert → step.1.payload = true
  clean : ∀ step ∈ script, step.2.Clean

def Event.deletesOne (event : Event) : Prop := event.op = .delete ∧ event.version ≠ none

section Walk

variable {room : Option Int} {plan after : Plan} {event : Event} {events : List Event}

def planAll (room : Option Int) (plan : Plan) (events : List Event) : Option Plan :=
  events.foldlM (planEvent room) plan

theorem planAll_append {first second : List Event} :
    planAll room plan (first ++ second) =
      (planAll room plan first).bind fun mid => planAll room mid second := by
  simp [planAll, List.foldlM_append]

theorem planAll_concat (done : planAll room plan (events ++ [event]) = some after) :
    ∃ mid, planAll room plan events = some mid ∧ planEvent room mid event = some after := by
  rw [planAll_append, Option.bind_eq_some_iff] at done
  obtain ⟨mid, before, last⟩ := done
  exact ⟨mid, before, by simpa [planAll] using last⟩

theorem planEvent_stops (stopped : planEvent room plan event = none) :
    event.op = .upsert ∧ event.docId ∉ plan.live := by
  unfold planEvent at stopped
  split at stopped
  next upsert =>
    split at stopped
    next => cases stopped
    next unheld => exact ⟨upsert, unheld⟩
  next =>
    split at stopped
    next => cases stopped
    next => cases stopped

-- The walk splits the batch where it stops.
theorem fitFrom_split (room : Option Int) (index : Nat) (plan : Plan) (events : List Event) :
    ∃ taken rest after, events = taken ++ rest ∧ planAll room plan taken = some after ∧
      fitFrom room index plan events = (index + taken.length, after.creations) ∧
      (rest = [] ∨ ∃ event others, rest = event :: others ∧ event.op = .upsert ∧
        event.docId ∉ after.live) := by
  induction events generalizing index plan with
  | nil => exact ⟨[], [], plan, rfl, rfl, rfl, Or.inl rfl⟩
  | cons event others ih =>
    cases step : planEvent room plan event with
    | none =>
      refine ⟨[], event :: others, plan, rfl, rfl, ?_,
        Or.inr ⟨event, others, rfl, planEvent_stops step⟩⟩
      simp [fitFrom, step]
    | some next =>
      obtain ⟨taken, rest, after, rfl, done, found, stop⟩ := ih (index + 1) next
      refine ⟨event :: taken, rest, after, rfl, ?_, ?_, stop⟩
      next => simpa [planAll, step] using done
      next =>
        simp only [fitFrom, step, found, List.length_cons]
        congr 1
        omega

theorem planEvent_cases (done : planEvent room plan event = some after) :
    (event.op = .upsert ∧ event.docId ∈ plan.live ∧ after = plan) ∨
    (event.op = .upsert ∧ event.docId ∉ plan.live ∧ (∀ limit ∈ room, plan.net + 1 ≤ limit) ∧
      after = ⟨insert event.docId plan.live, plan.net + 1, plan.creations + 1⟩) ∨
    (event.op = .delete ∧ event.docId ∈ plan.live ∧ event.version = none ∧
      after = ⟨plan.live.erase event.docId, plan.net - 1, plan.creations⟩) ∨
    (event.deletesOne ∧ event.docId ∈ plan.live ∧
      after = ⟨plan.live.erase event.docId, plan.net, plan.creations⟩) ∨
    (event.op = .delete ∧ event.docId ∉ plan.live ∧ after = plan) := by
  unfold planEvent at done
  split at done
  next upsert =>
    split at done
    next held => exact Or.inl ⟨upsert, held, by simpa using done.symm⟩
    next unheld =>
      split at done
      next => cases done
      next fits =>
        refine Or.inr (Or.inl ⟨upsert, unheld, fun limit listed => ?_, by simpa using done.symm⟩)
        rw [Option.mem_def.mp listed] at fits
        simpa using fits
  next delete =>
    split at done
    next held =>
      by_cases every : event.version = none
      next =>
        refine Or.inr (Or.inr (Or.inl ⟨delete, held, every, ?_⟩))
        simpa [every] using done.symm
      next =>
        refine Or.inr (Or.inr (Or.inr (Or.inl ⟨⟨delete, every⟩, held, ?_⟩)))
        simpa [every] using done.symm
    next unheld => exact Or.inr (Or.inr (Or.inr (Or.inr ⟨delete, unheld, by simpa using done.symm⟩)))

theorem planEvent_net {limit : Int} (done : planEvent (some limit) plan event = some after)
    (within : plan.net ≤ max limit 0) : after.net ≤ max limit 0 := by
  obtain ⟨_, _, rfl⟩ | ⟨_, _, fits, rfl⟩ | ⟨_, _, _, rfl⟩ | ⟨_, _, rfl⟩ | ⟨_, _, rfl⟩ :=
    planEvent_cases done
  next => exact within
  next => exact (fits limit rfl).trans (le_max_left _ _)
  next => exact (Int.sub_le_self _ (by decide)).trans within
  next => exact within
  next => exact within

theorem planEvent_creations (done : planEvent room plan event = some after) :
    after.creations = plan.creations +
      if event.op = .upsert ∧ event.docId ∉ plan.live then 1 else 0 := by
  obtain ⟨_, known, rfl⟩ | ⟨upsert, unknown, _, rfl⟩ | ⟨delete, _, _, rfl⟩ |
    ⟨⟨delete, _⟩, _, rfl⟩ | ⟨delete, _, rfl⟩ := planEvent_cases done
  next => simp [known]
  next => simp [upsert, unknown]
  next => simp [delete]
  next => simp [delete]
  next => simp [delete]

theorem planAll_net {limit : Int} (done : planAll (some limit) plan events = some after)
    (within : plan.net ≤ max limit 0) : after.net ≤ max limit 0 := by
  induction events using List.reverseRecOn generalizing after with
  | nil =>
    cases done
    exact within
  | append_singleton events event ih =>
    obtain ⟨mid, before, last⟩ := planAll_concat done
    exact planEvent_net last (ih before)

end Walk

section Executor

variable {context : Context} {event other : Event} {outcome : Outcome} {batch : Batch}
variable {memories : List Memory}

theorem deleteRows_filter (ids : (memories.map Memory.id).Nodup) (gone : Memory → Bool) :
    deleteRows memories (memories.filter gone) = memories.filter fun memory => !gone memory := by
  unfold deleteRows
  refine List.filter_congr fun memory listed => ?_
  by_cases old : gone memory = true
  next =>
    have named : memory.id ∈ (memories.filter gone).map Memory.id :=
      List.mem_map_of_mem (List.mem_filter.mpr ⟨listed, old⟩)
    simp [named, old]
  next =>
    have unnamed : memory.id ∉ (memories.filter gone).map Memory.id := by
      intro named
      obtain ⟨stored, kept, same⟩ := List.mem_map.mp named
      rw [List.mem_filter] at kept
      rw [List.inj_on_of_nodup_map ids kept.1 listed same] at kept
      exact old kept.2
    simp [unnamed, old]

def writtenRows (context : Context) (event : Event) (outcome : Outcome) (memories : List Memory) :
    List Memory :=
  match existingMemory context event memories with
  | some existing =>
    memories.map fun memory => if memory.id = existing.id then repoint event memory else memory
  | none => memories ++ [createdMemory context event outcome]

def oldRow (context : Context) (event : Event) (memory : Memory) : Bool :=
  memory.sameDoc context event ∧ otherVersion event memory

theorem applyEvent_upsert (clean : outcome.Clean) (writes : event.writes) :
    (applyEvent context event outcome batch).memories =
      deleteRows (writtenRows context event outcome batch.memories)
        ((writtenRows context event outcome batch.memories).filter (oldRow context event)) := by
  obtain ⟨upsert, payload⟩ := writes
  have written : (writeMemory context event outcome
      { batch with
        store := Function.update batch.store event.pointId
          (some (resourcePoint context event)) }).memories =
      writtenRows context event outcome batch.memories := by
    cases found : existingMemory context event batch.memories with
    | none => simp [writeMemory, writtenRows, found]
    | some existing => simp [writeMemory, writtenRows, found]
  simp only [applyEvent, upsert, applyUpsert, clean.contextLive, payload, clean.prepared,
    clean.call, clean.flushed, clean.cleaned, clean.released, endSavepoint]
  simp only [not_true_eq_false, or_self, if_false, if_true, cleanOldVersions, written]
  rfl

theorem applyEvent_deleteAll (clean : outcome.Clean) (deletes : event.deletesAll) :
    (applyEvent context event outcome batch).memories =
      deleteRows batch.memories
        (batch.memories.filter fun memory => memory.sameDoc context event) := by
  obtain ⟨delete, every⟩ := deletes
  simp [applyEvent, delete, applyDelete, every, clean.call, clean.flushed, clean.released,
    endSavepoint]

theorem applyEvent_deleteOne (clean : outcome.Clean) (deletes : event.deletesOne) :
    (applyEvent context event outcome batch).memories =
      deleteRows batch.memories (batch.memories.filter fun memory =>
        memory.sameDoc context event ∧ memory.resourceVersion = event.version) := by
  obtain ⟨delete, one⟩ := deletes
  obtain ⟨version, same⟩ := Option.ne_none_iff_exists'.mp one
  simp only [applyEvent, delete, applyDelete, same, clean.flushed, clean.released, endSavepoint]
  split
  next applied none => split at none <;> cases none
  next store next found =>
    simp only [not_true_eq_false, if_false] at found
    split at found
    next empty =>
      cases found
      rw [empty]
      simp [deleteRows]
    next =>
      cases found
      rfl

section Document

theorem sameDoc_of_existing {existing : Memory}
    (ids : (memories.map Memory.id).Nodup)
    (found : existingMemory context event memories = some existing) {memory : Memory}
    (listed : memory ∈ memories) (same : memory.id = existing.id) :
    memory.sameDoc context event := by
  obtain ⟨stored, inside, _⟩ := existingMemory_mem found
  rw [List.inj_on_of_nodup_map ids listed stored same]
  exact inside

theorem repoint_sameDoc {memory : Memory} (inside : memory.sameDoc context event) :
    (repoint event memory).sameDoc context event :=
  ⟨inside.1, inside.2.1, rfl, rfl⟩

theorem createdMemory_sameDoc :
    (createdMemory context event outcome).sameDoc context event :=
  ⟨rfl, rfl, rfl, rfl⟩

theorem writtenRows_other (ids : (memories.map Memory.id).Nodup) {memory : Memory}
    (apart : ¬ memory.sameDoc context event) :
    memory ∈ writtenRows context event outcome memories ↔ memory ∈ memories := by
  unfold writtenRows
  split
  next existing found =>
    rw [List.mem_map]
    constructor
    next =>
      rintro ⟨old, listed, rfl⟩
      split at apart
      next same => exact absurd (repoint_sameDoc (sameDoc_of_existing ids found listed same)) apart
      next differ => rwa [if_neg differ]
    next =>
      intro listed
      refine ⟨memory, listed, if_neg fun same => apart ?_⟩
      exact sameDoc_of_existing ids found listed same
  next =>
    rw [List.mem_append, List.mem_singleton, or_iff_left]
    rintro rfl
    exact apart createdMemory_sameDoc

theorem writtenRows_ids (context : Context) (event : Event) (outcome : Outcome)
    (memories : List Memory) :
    (writtenRows context event outcome memories).map Memory.id = memories.map Memory.id ∨
      (writtenRows context event outcome memories).map Memory.id =
        memories.map Memory.id ++ [outcome.newId] := by
  unfold writtenRows
  split
  next existing found =>
    refine Or.inl ?_
    rw [List.map_map]
    refine List.map_congr_left fun memory _ => ?_
    rw [Function.comp_apply]
    split
    next => rfl
    next => rfl
  next => exact Or.inr (by simp [createdMemory])

theorem mem_filter_other {gone : Memory → Bool} {memory : Memory}
    (only : ∀ memory, gone memory = true → memory.sameDoc context event)
    (apart : ¬ memory.sameDoc context event) :
    memory ∈ memories.filter (fun memory => !gone memory) ↔ memory ∈ memories := by
  rw [List.mem_filter]
  refine and_iff_left ?_
  simpa using fun old => apart (only memory old)

theorem writtenRows_held (context : Context) (event : Event) (outcome : Outcome)
    (memories : List Memory) :
    ∃ memory ∈ writtenRows context event outcome memories, memory.sameDoc context event ∧
      memory.live ∧ memory.resourceVersion = event.version := by
  unfold writtenRows
  split
  next existing found =>
    obtain ⟨stored, inside, live⟩ := existingMemory_mem found
    exact ⟨repoint event existing, List.mem_map.mpr ⟨existing, stored, by simp⟩,
      repoint_sameDoc inside, live, rfl⟩
  next =>
    exact ⟨createdMemory context event outcome, by simp, createdMemory_sameDoc, rfl, rfl⟩

theorem oldRow_sameDoc {memory : Memory} (old : oldRow context event memory = true) :
    memory.sameDoc context event := by
  unfold oldRow at old
  rw [decide_eq_true_eq] at old
  exact old.1

theorem otherVersion_of_ne {memory : Memory} (versioned : event.version = none ∨
    memory.resourceVersion.isSome) (differs : memory.resourceVersion ≠ event.version) :
    otherVersion event memory = true := by
  unfold otherVersion
  cases current : event.version with
  | none =>
    rw [current] at differs
    exact Option.isSome_iff_ne_none.mpr differs
  | some version =>
    obtain ⟨own, stored⟩ := Option.isSome_iff_exists.mp (versioned.resolve_left (by simp [current]))
    rw [current, stored] at differs
    simpa [stored] using differs

theorem existingMemory_version {existing : Memory}
    (found : existingMemory context event memories = some existing) :
    existing.resourceVersion = event.version := by
  have listed := List.mem_of_mem_head? found
  rw [List.mem_insertionSort, List.mem_filter, decide_eq_true_eq] at listed
  exact listed.2.2.1

theorem existingMemory_none {memory : Memory}
    (missing : existingMemory context event memories = none) (listed : memory ∈ memories)
    (inside : memory.sameDoc context event) (live : memory.live) :
    memory.resourceVersion ≠ event.version := by
  intro same
  unfold existingMemory at missing
  rw [List.head?_eq_none_iff] at missing
  have found : memory ∈ (memories.filter fun memory => memory.sameDoc context event ∧
      memory.resourceVersion = event.version ∧ memory.live).insertionSort
        (lookupOrder context) := by
    rw [List.mem_insertionSort, List.mem_filter, decide_eq_true_eq]
    exact ⟨listed, inside, same, live⟩
  rw [missing] at found
  cases found

end Document

section Counts

theorem liveRows_filter (memories : List Memory) (gone : Memory → Bool) :
    liveRows (memories.filter fun memory => !gone memory) +
      memories.countP (fun memory => memory.live && gone memory) = liveRows memories := by
  unfold liveRows
  induction memories with
  | nil => rfl
  | cons memory rest ih =>
    by_cases live : memory.live <;> by_cases old : gone memory = true <;>
      simp [live, old] <;> omega

theorem liveRows_filter_le (gone : Memory → Bool) :
    liveRows (memories.filter fun memory => !gone memory) ≤ liveRows memories := by
  have parts := liveRows_filter memories gone
  omega

theorem liveRows_filter_lt {gone : Memory → Bool} {memory : Memory} (listed : memory ∈ memories)
    (live : memory.live) (old : gone memory = true) :
    liveRows (memories.filter fun memory => !gone memory) + 1 ≤ liveRows memories := by
  have parts := liveRows_filter memories gone
  have one : 0 < memories.countP fun memory => memory.live && gone memory :=
    List.countP_pos_iff.mpr ⟨memory, listed, by simp [live, old]⟩
  omega

theorem liveRows_repointed (id : MemoryId) :
    liveRows (memories.map fun memory => if memory.id = id then repoint event memory else memory) =
      liveRows memories := by
  unfold liveRows
  rw [List.countP_map]
  refine List.countP_congr fun memory _ => ?_
  rw [Function.comp_apply]
  split
  next => rfl
  next => rfl

theorem createdMemory_live : (createdMemory context event outcome).live := rfl

theorem liveRows_created :
    liveRows (memories ++ [createdMemory context event outcome]) = liveRows memories + 1 := by
  simp [liveRows, createdMemory_live]

theorem createdMemory_kept : oldRow context event (createdMemory context event outcome) = false := by
  cases current : event.version with
  | none => simp [oldRow, otherVersion, createdMemory, current]
  | some own => simp [oldRow, otherVersion, createdMemory, current]

-- Where no live row of the document has a version, an upsert of one adds a row and retires none.
theorem liveRows_unretired (unretirable : ¬ Retirable context event memories) :
    liveRows memories < liveRows ((writtenRows context event outcome memories).filter
      fun memory => !oldRow context event memory) := by
  have versioned : event.version ≠ none := fun same => unretirable fun _ _ => Or.inl same
  have bare : ∀ memory ∈ memories, memory.sameDoc context event → memory.live →
      memory.resourceVersion = none := by
    intro memory listed inside live
    by_contra own
    exact unretirable fun _ _ =>
      Or.inr ⟨memory, listed, inside, live, Option.isSome_iff_ne_none.mpr own⟩
  unfold writtenRows
  split
  next existing found =>
    obtain ⟨stored, inside, live⟩ := existingMemory_mem found
    exact absurd ((existingMemory_version found).symm.trans (bare existing stored inside live))
      versioned
  next =>
    have noneOld : (memories ++ [createdMemory context event outcome]).countP
        (fun memory => memory.live && oldRow context event memory) = 0 := by
      rw [List.countP_eq_zero]
      intro memory listed
      rcases List.mem_append.mp listed with stored | new
      next =>
        rw [Bool.and_eq_true, decide_eq_true_eq]
        rintro ⟨live, old⟩
        have unversioned := bare memory stored (oldRow_sameDoc old) live
        obtain ⟨own, same⟩ := Option.ne_none_iff_exists'.mp versioned
        simp [oldRow, otherVersion, same, unversioned] at old
      next => simp [List.mem_singleton.mp new, createdMemory_kept]
    have parts := liveRows_filter (memories ++ [createdMemory context event outcome])
      (oldRow context event)
    rw [noneOld, liveRows_created] at parts
    omega

-- An upsert adds at most one live row, and none exactly where the live rows it meets are updated or
-- retired.
theorem liveRows_upsert (upsert : event.op = .upsert) :
    liveRows ((writtenRows context event outcome memories).filter
        fun memory => !oldRow context event memory) ≤ liveRows memories + 1 ∧
      (Held context event memories →
        (liveRows ((writtenRows context event outcome memories).filter
          fun memory => !oldRow context event memory) ≤ liveRows memories ↔
            Retirable context event memories)) := by
  refine ⟨?_, fun held => ⟨fun kept => ?_, fun retirable => ?_⟩⟩
  next =>
    refine (liveRows_filter_le _).trans ?_
    unfold writtenRows
    split
    next => exact (liveRows_repointed _).le.trans (Nat.le_succ _)
    next => exact liveRows_created.le
  next =>
    by_contra unretirable
    exact absurd kept (Nat.not_le.mpr (liveRows_unretired unretirable))
  next =>
    unfold writtenRows
    split
    next => exact (liveRows_filter_le _).trans (liveRows_repointed _).le
    next missing =>
      -- Some live row of the document is of another version.
      have replaced : ∃ memory ∈ memories, memory.live ∧ oldRow context event memory = true := by
        have old : ∀ memory ∈ memories, memory.sameDoc context event → memory.live →
            (event.version = none ∨ memory.resourceVersion.isSome) →
            oldRow context event memory = true := by
          intro memory listed inside live versioned
          unfold oldRow
          rw [decide_eq_true_eq]
          exact ⟨inside,
            otherVersion_of_ne versioned (existingMemory_none missing listed inside live)⟩
        rcases retirable upsert held with unversioned | ⟨memory, listed, inside, live, versioned⟩
        next =>
          obtain ⟨memory, listed, inside, live⟩ := held
          exact ⟨memory, listed, live, old memory listed inside live (Or.inl unversioned)⟩
        next => exact ⟨memory, listed, live, old memory listed inside live (Or.inr versioned)⟩
      obtain ⟨memory, listed, live, old⟩ := replaced
      have fewer := liveRows_filter_lt
        (List.mem_append_left [createdMemory context event outcome] listed) live old
      rw [liveRows_created] at fewer
      omega

end Counts

section Step

structure Effect (context : Context) (event : Event) (newId : MemoryId)
    (before after : List Memory) : Prop where
  others : ∀ memory, ¬ memory.sameDoc context event → (memory ∈ after ↔ memory ∈ before)
  ids : ∀ later : List MemoryId, (before.map Memory.id ++ newId :: later).Nodup →
    (after.map Memory.id ++ later).Nodup

theorem Effect.of_deleteRows {gone : Memory → Bool} (newId : MemoryId)
    (ids : (memories.map Memory.id).Nodup)
    (only : ∀ memory, gone memory = true → memory.sameDoc context event) :
    Effect context event newId memories (deleteRows memories (memories.filter gone)) := by
  rw [deleteRows_filter ids gone]
  refine ⟨fun memory apart => mem_filter_other only apart, fun later distinct => ?_⟩
  exact distinct.sublist ((List.filter_sublist.map _).append (List.sublist_cons_self _ _))

theorem writtenRows_nodup (context : Context) (event : Event) {later : List MemoryId}
    (distinct : (memories.map Memory.id ++ outcome.newId :: later).Nodup) :
    ((writtenRows context event outcome memories).map Memory.id ++ later).Nodup := by
  rcases writtenRows_ids context event outcome memories with same | added
  next =>
    rw [same]
    exact distinct.sublist ((List.Sublist.refl _).append (List.sublist_cons_self _ _))
  next =>
    rw [added, List.append_assoc]
    exact distinct

variable {later : List MemoryId}

theorem upsert_effect (clean : outcome.Clean) (writes : event.writes)
    (ids : (batch.memories.map Memory.id ++ outcome.newId :: later).Nodup) :
    Effect context event outcome.newId batch.memories
        (applyEvent context event outcome batch).memories ∧
      Held context event (applyEvent context event outcome batch).memories ∧
      liveRows (applyEvent context event outcome batch).memories ≤ liveRows batch.memories + 1 ∧
      (Held context event batch.memories →
        (liveRows (applyEvent context event outcome batch).memories ≤ liveRows batch.memories ↔
          Retirable context event batch.memories)) := by
  have written := (writtenRows_nodup context event ids).of_append_left
  have stored := ids.of_append_left
  rw [applyEvent_upsert clean writes, deleteRows_filter written]
  refine ⟨⟨fun memory apart => ?_, fun later distinct => ?_⟩, ?_, liveRows_upsert writes.1⟩
  next =>
    exact (mem_filter_other (fun _ => oldRow_sameDoc) apart).trans (writtenRows_other stored apart)
  next =>
    exact (writtenRows_nodup context event distinct).sublist
      ((List.filter_sublist.map _).append (List.Sublist.refl _))
  next =>
    obtain ⟨memory, listed, inside, live, version⟩ :=
      writtenRows_held context event outcome batch.memories
    refine ⟨memory, List.mem_filter.mpr ⟨listed, ?_⟩, inside, live⟩
    cases current : event.version with
    | none => simp [oldRow, otherVersion, current, version]
    | some own => simp [oldRow, otherVersion, current, version]

theorem deleteAll_effect (clean : outcome.Clean) (deletes : event.deletesAll)
    (ids : (batch.memories.map Memory.id ++ outcome.newId :: later).Nodup) :
    Effect context event outcome.newId batch.memories
        (applyEvent context event outcome batch).memories ∧
      ¬ Held context event (applyEvent context event outcome batch).memories ∧
      liveRows (applyEvent context event outcome batch).memories ≤ liveRows batch.memories ∧
      (Held context event batch.memories →
        liveRows (applyEvent context event outcome batch).memories + 1 ≤
          liveRows batch.memories) := by
  have stored := ids.of_append_left
  rw [applyEvent_deleteAll clean deletes]
  refine ⟨.of_deleteRows _ stored fun _ gone => of_decide_eq_true gone, ?_⟩
  rw [deleteRows_filter stored]
  refine ⟨?_, liveRows_filter_le _, ?_⟩
  next =>
    rintro ⟨memory, listed, inside, _⟩
    simpa [inside] using (List.mem_filter.mp listed).2
  next =>
    rintro ⟨memory, listed, inside, live⟩
    exact liveRows_filter_lt listed live (decide_eq_true inside)

theorem deleteOne_effect (clean : outcome.Clean) (deletes : event.deletesOne)
    (ids : (batch.memories.map Memory.id ++ outcome.newId :: later).Nodup) :
    Effect context event outcome.newId batch.memories
        (applyEvent context event outcome batch).memories ∧
      liveRows (applyEvent context event outcome batch).memories ≤ liveRows batch.memories := by
  have stored := ids.of_append_left
  rw [applyEvent_deleteOne clean deletes]
  refine ⟨.of_deleteRows _ stored fun _ gone => (of_decide_eq_true gone).1, ?_⟩
  rw [deleteRows_filter stored]
  exact liveRows_filter_le _

theorem Held.of_sameDoc (same : other.sameDoc event) (held : Held context event memories) :
    Held context other memories := by
  obtain ⟨memory, listed, ⟨workspace, inside, resource, doc⟩, live⟩ := held
  exact ⟨memory, listed, ⟨workspace, inside, same.1 ▸ resource, same.2 ▸ doc⟩, live⟩

theorem Effect.held_other {newId : MemoryId} {before after : List Memory}
    (effect : Effect context event newId before after) (differs : other.docId ≠ event.docId) :
    Held context other after ↔ Held context other before := by
  have kept : ∀ memory, memory.sameDoc context other → (memory ∈ after ↔ memory ∈ before) := by
    intro memory inside
    refine effect.others memory fun also => differs ?_
    exact Option.some_inj.mp (inside.2.2.2.symm.trans also.2.2.2)
  constructor
  next =>
    rintro ⟨memory, listed, inside, live⟩
    exact ⟨memory, (kept memory inside).mp listed, inside, live⟩
  next =>
    rintro ⟨memory, listed, inside, live⟩
    exact ⟨memory, (kept memory inside).mpr listed, inside, live⟩

end Step

end Executor

section Run

variable {context : Context} {resourceId : String} {room : Option Int} {plan after : Plan}
variable {batch : Batch} {event : Event} {outcome : Outcome} {rest : List (Event × Outcome)}

structure Tracked (context : Context) (resourceId : String) (plan : Plan) (batch : Batch)
    (rest : List (Event × Outcome)) : Prop where
  ids : (batch.memories.map Memory.id ++ rest.map fun step => step.2.newId).Nodup
  held : ∀ event : Event, event.resourceId = resourceId → event.docId ∈ plan.live →
    Held context event batch.memories

def Complete (context : Context) (resourceId : String) (docIds : Finset String) (plan : Plan)
    (memories : List Memory) : Prop :=
  ∀ event : Event, event.resourceId = resourceId → event.docId ∈ docIds →
    Held context event memories → event.docId ∈ plan.live

theorem Tracked.held_of_effect {newId : MemoryId} {memories : List Memory}
    (tracked : Tracked context resourceId plan batch rest) (resource : event.resourceId = resourceId)
    (effect : Effect context event newId batch.memories memories)
    (others : ∀ doc ∈ after.live, doc ≠ event.docId → doc ∈ plan.live)
    (here : event.docId ∈ after.live → Held context event memories) :
    ∀ other : Event, other.resourceId = resourceId → other.docId ∈ after.live →
      Held context other memories := by
  intro other same listed
  by_cases doc : other.docId = event.docId
  next => exact (here (doc ▸ listed)).of_sameDoc ⟨same.trans resource.symm, doc⟩
  next => exact (effect.held_other doc).mpr (tracked.held other same (others _ listed doc))

theorem Complete.of_effect {newId : MemoryId} {docIds : Finset String} {memories : List Memory}
    (complete : Complete context resourceId docIds plan batch.memories)
    (resource : event.resourceId = resourceId)
    (effect : Effect context event newId batch.memories memories)
    (others : ∀ doc ∈ plan.live, doc ≠ event.docId → doc ∈ after.live)
    (here : Held context event memories → event.docId ∈ after.live) :
    Complete context resourceId docIds after memories := by
  intro other same listed held
  by_cases doc : other.docId = event.docId
  next => exact doc ▸ here (held.of_sameDoc ⟨resource.trans same.symm, doc.symm⟩)
  next => exact others _ (complete other same listed ((effect.held_other doc).mp held)) doc

theorem Tracked.step (resource : event.resourceId = resourceId) (clean : outcome.Clean)
    (payload : event.op = .upsert → event.payload = true)
    (done : planEvent room plan event = some after)
    (tracked : Tracked context resourceId plan batch ((event, outcome) :: rest)) :
    Tracked context resourceId after (applyEvent context event outcome batch) rest ∧
      (Retirable context event batch.memories →
        (liveRows (applyEvent context event outcome batch).memories : Int) + plan.net ≤
          liveRows batch.memories + after.net) := by
  have ids := tracked.ids
  rw [List.map_cons] at ids
  obtain ⟨upsert, known, rfl⟩ | ⟨upsert, unknown, _, rfl⟩ | ⟨delete, known, every, rfl⟩ |
    ⟨deletes, known, rfl⟩ | ⟨delete, unknown, rfl⟩ := planEvent_cases done
  next =>
    obtain ⟨effect, held, _, kept⟩ := upsert_effect clean ⟨upsert, payload upsert⟩ ids
    refine ⟨⟨effect.ids _ ids, tracked.held_of_effect resource effect (fun _ listed _ => listed)
      fun _ => held⟩, fun retirable => ?_⟩
    have same := (kept (tracked.held event resource known)).mpr retirable
    omega
  next =>
    obtain ⟨effect, held, most, _⟩ := upsert_effect clean ⟨upsert, payload upsert⟩ ids
    refine ⟨⟨effect.ids _ ids, tracked.held_of_effect resource effect
      (fun _ listed differs => Finset.mem_of_mem_insert_of_ne listed differs) fun _ => held⟩,
      fun _ => ?_⟩
    dsimp only
    omega
  next =>
    obtain ⟨effect, _, _, fewer⟩ := deleteAll_effect clean ⟨delete, every⟩ ids
    refine ⟨⟨effect.ids _ ids, tracked.held_of_effect resource effect
      (fun _ listed _ => Finset.mem_of_mem_erase listed)
      fun listed => absurd listed (Finset.notMem_erase _ _)⟩, fun _ => ?_⟩
    have freed := fewer (tracked.held event resource known)
    dsimp only
    omega
  next =>
    obtain ⟨effect, fewer⟩ := deleteOne_effect clean deletes ids
    refine ⟨⟨effect.ids _ ids, tracked.held_of_effect resource effect
      (fun _ listed _ => Finset.mem_of_mem_erase listed)
      fun listed => absurd listed (Finset.notMem_erase _ _)⟩, fun _ => ?_⟩
    dsimp only
    omega
  next =>
    by_cases every : event.version = none
    next =>
      obtain ⟨effect, _, fewer, _⟩ := deleteAll_effect clean ⟨delete, every⟩ ids
      refine ⟨⟨effect.ids _ ids, tracked.held_of_effect resource effect
        (fun _ listed _ => listed) fun listed => absurd listed unknown⟩, fun _ => ?_⟩
      omega
    next =>
      obtain ⟨effect, fewer⟩ := deleteOne_effect clean ⟨delete, every⟩ ids
      refine ⟨⟨effect.ids _ ids, tracked.held_of_effect resource effect
        (fun _ listed _ => listed) fun listed => absurd listed unknown⟩, fun _ => ?_⟩
      omega

-- Away from the deletes of one version the plan misses no document.
theorem Complete.step {docIds : Finset String} (resource : event.resourceId = resourceId)
    (clean : outcome.Clean) (payload : event.op = .upsert → event.payload = true)
    (done : planEvent room plan event = some after) (all : ¬ event.deletesOne)
    (tracked : Tracked context resourceId plan batch ((event, outcome) :: rest))
    (complete : Complete context resourceId docIds plan batch.memories) :
    Complete context resourceId docIds after
      (applyEvent context event outcome batch).memories := by
  have ids := tracked.ids
  rw [List.map_cons] at ids
  obtain ⟨upsert, known, rfl⟩ | ⟨upsert, unknown, _, rfl⟩ | ⟨delete, known, every, rfl⟩ |
    ⟨deletes, known, rfl⟩ | ⟨delete, unknown, rfl⟩ := planEvent_cases done
  next =>
    obtain ⟨effect, _⟩ := upsert_effect clean ⟨upsert, payload upsert⟩ ids
    exact complete.of_effect resource effect (fun _ listed _ => listed) fun _ => known
  next =>
    obtain ⟨effect, _⟩ := upsert_effect clean ⟨upsert, payload upsert⟩ ids
    exact complete.of_effect resource effect (fun _ listed _ => Finset.mem_insert_of_mem listed)
      fun _ => Finset.mem_insert_self _ _
  next =>
    obtain ⟨effect, gone, _⟩ := deleteAll_effect clean ⟨delete, every⟩ ids
    exact complete.of_effect resource effect
      (fun _ listed differs => Finset.mem_erase.mpr ⟨differs, listed⟩) fun held => absurd held gone
  next => exact absurd deletes all
  next =>
    have every : event.version = none := not_not.mp fun one => all ⟨delete, one⟩
    obtain ⟨effect, gone, _⟩ := deleteAll_effect clean ⟨delete, every⟩ ids
    exact complete.of_effect resource effect (fun _ listed _ => listed)
      fun held => absurd held gone

variable {before : List (Event × Outcome)}

theorem Applies.of_append {later : List (Event × Outcome)}
    (applies : Applies resourceId (before ++ later)) : Applies resourceId before where
  resource := fun step listed => applies.resource step (List.mem_append_left _ listed)
  payload := fun step listed => applies.payload step (List.mem_append_left _ listed)
  clean := fun step listed => applies.clean step (List.mem_append_left _ listed)

theorem applyAll_concat (batch : Batch) (before : List (Event × Outcome)) (event : Event)
    (outcome : Outcome) :
    applyAll context batch (before ++ [(event, outcome)]) =
      applyEvent context event outcome (applyAll context batch before) :=
  applyAll_append batch before [(event, outcome)]

theorem Tracked.run (applies : Applies resourceId before)
    (tracked : Tracked context resourceId plan batch (before ++ rest))
    (done : planAll room plan (before.map Prod.fst) = some after) :
    Tracked context resourceId after (applyAll context batch before) rest := by
  induction before using List.reverseRecOn generalizing after rest with
  | nil =>
    cases done
    exact tracked
  | append_singleton before last ih =>
    rw [List.map_append] at done
    obtain ⟨mid, first, step⟩ := planAll_concat done
    have reached := ih applies.of_append (by simpa using tracked) first
    have listed : last ∈ before ++ [last] := by simp
    rw [applyAll_concat]
    exact (reached.step (applies.resource last listed) (applies.clean last listed)
      (applies.payload last listed) step).1

theorem Tracked.walk {motive : List (Event × Outcome) → Plan → Prop} (nil : motive [] plan)
    (concat : ∀ first event outcome later mid next,
      before = first ++ (event, outcome) :: later →
      Tracked context resourceId mid (applyAll context batch first)
        ((event, outcome) :: (later ++ rest)) →
      planEvent room mid event = some next → motive first mid →
        motive (first ++ [(event, outcome)]) next)
    (applies : Applies resourceId before)
    (tracked : Tracked context resourceId plan batch (before ++ rest))
    (done : planAll room plan (before.map Prod.fst) = some after) : motive before after := by
  induction before using List.reverseRecOn generalizing after rest with
  | nil =>
    cases done
    exact nil
  | append_singleton before last ih =>
    rw [List.map_append] at done
    obtain ⟨mid, start, step⟩ := planAll_concat done
    have moved : Tracked context resourceId plan batch (before ++ last :: rest) := by
      simpa using tracked
    refine concat before last.1 last.2 [] mid after rfl (moved.run applies.of_append start) step
      (ih ?_ applies.of_append moved start)
    intro first event outcome later mid next split reached step
    exact concat first event outcome (later ++ [last]) mid next (by simp [split])
      (by simpa using reached) step

-- Every upsert of the script that meets live rows of its document meets one with a version.
def Retiring (context : Context) (batch : Batch) (script : List (Event × Outcome)) : Prop :=
  ∀ before event outcome later, script = before ++ (event, outcome) :: later →
    Retirable context event (applyAll context batch before).memories

theorem Retiring.of_append {later : List (Event × Outcome)}
    (retiring : Retiring context batch (before ++ later)) : Retiring context batch before := by
  rintro first event outcome last rfl
  exact retiring first event outcome (last ++ later) (by simp)

theorem Applies.at {first later : List (Event × Outcome)} (applies : Applies resourceId before)
    (split : before = first ++ (event, outcome) :: later) :
    event.resourceId = resourceId ∧ outcome.Clean ∧
      (event.op = .upsert → event.payload = true) := by
  have listed : (event, outcome) ∈ before := by simp [split]
  exact ⟨applies.resource _ listed, applies.clean _ listed, applies.payload _ listed⟩

theorem Tracked.liveRows_run (applies : Applies resourceId before)
    (tracked : Tracked context resourceId plan batch (before ++ rest))
    (done : planAll room plan (before.map Prod.fst) = some after)
    (retiring : Retiring context batch before) :
    (liveRows (applyAll context batch before).memories : Int) + plan.net ≤
      liveRows batch.memories + after.net := by
  refine tracked.walk (motive := fun script reached =>
    (liveRows (applyAll context batch script).memories : Int) + plan.net ≤
      liveRows batch.memories + reached.net) (le_refl _) ?_ applies done
  intro first event outcome later mid next split reached step grown
  obtain ⟨resource, clean, payload⟩ := applies.at split
  have one := (reached.step resource clean payload step).2 (retiring _ _ _ _ split)
  rw [applyAll_concat]
  omega

theorem unheldUpserts_concat (batch : Batch) (before : List (Event × Outcome)) (event : Event)
    (outcome : Outcome) :
    unheldUpserts context batch (before ++ [(event, outcome)]) =
      unheldUpserts context batch before +
        if event.op = .upsert ∧ ¬ Held context event (applyAll context batch before).memories
          then 1 else 0 := by
  induction before generalizing batch with
  | nil => exact Nat.add_comm _ _
  | cons first others ih =>
    rw [List.cons_append, unheldUpserts, unheldUpserts, ih, Nat.add_assoc]
    rfl

-- The creations of the plan cover the upserts that meet no live row.
theorem Tracked.creations_run (applies : Applies resourceId before)
    (tracked : Tracked context resourceId plan batch (before ++ rest))
    (done : planAll room plan (before.map Prod.fst) = some after) :
    unheldUpserts context batch before + plan.creations ≤ after.creations := by
  refine tracked.walk (motive := fun script reached =>
    unheldUpserts context batch script + plan.creations ≤ reached.creations)
    (by simp [unheldUpserts]) ?_ applies done
  intro first event outcome later mid next split reached step covered
  have known := reached.held event (applies.at split).1
  rw [unheldUpserts_concat, planEvent_creations step]
  split
  next unheld =>
    rw [if_pos ⟨unheld.1, fun listed => unheld.2 (known listed)⟩]
    omega
  next => omega

-- A plan that misses no document charges exactly these upserts.
theorem Complete.creations_run {docIds : Finset String} (applies : Applies resourceId before)
    (tracked : Tracked context resourceId plan batch (before ++ rest))
    (done : planAll room plan (before.map Prod.fst) = some after)
    (all : ∀ step ∈ before, ¬ step.1.deletesOne) (inBatch : ∀ step ∈ before, step.1.docId ∈ docIds)
    (complete : Complete context resourceId docIds plan batch.memories) :
    after.creations = unheldUpserts context batch before + plan.creations := by
  have both := tracked.walk (motive := fun script reached =>
    Complete context resourceId docIds reached (applyAll context batch script).memories ∧
      reached.creations = unheldUpserts context batch script + plan.creations)
    ⟨complete, by simp [unheldUpserts]⟩ ?_ applies done
  next => exact both.2
  intro first event outcome later mid next split reached step ⟨missed, counted⟩
  obtain ⟨resource, clean, payload⟩ := applies.at split
  have listed : (event, outcome) ∈ before := by simp [split]
  refine ⟨?_, ?_⟩
  next =>
    rw [applyAll_concat]
    exact missed.step resource clean payload step (all _ listed) reached
  next =>
    have known : event.docId ∈ mid.live ↔
        Held context event (applyAll context batch first).memories :=
      ⟨reached.held event resource, missed event resource (inBatch _ listed)⟩
    rw [unheldUpserts_concat, planEvent_creations step, counted]
    simp only [known]
    omega

end Run

section Batches

variable (context : Context) (resourceId : String) (batch : Batch)
variable (script : List (Event × Outcome)) (room : Int)

def batchDocIds : Finset String := (script.map fun step => step.1.docId).toFinset

def knownDocIds : Finset String :=
  existingResourceDocIds context resourceId batch.memories (batchDocIds script)

def initial : Plan := initialPlan (knownDocIds context resourceId batch script)

def fitted : Nat × Nat :=
  fitMemoryRoom (script.map Prod.fst) (knownDocIds context resourceId batch script) (some room)

def fittedScript : List (Event × Outcome) :=
  script.take (fitted context resourceId batch script room).1

def WithinRoom : Prop :=
  ∀ before, before <+: fittedScript context resourceId batch script room →
    (liveRows (applyAll context batch before).memories : Int) ≤
      liveRows batch.memories + max room 0

def StopsAtCreation : Prop :=
  ∃ plan, planAll (some room) (initial context resourceId batch script)
      ((fittedScript context resourceId batch script room).map Prod.fst) = some plan ∧
    (fittedScript context resourceId batch script room = script ∨
      ∃ event outcome later,
        script = fittedScript context resourceId batch script room ++ (event, outcome) :: later ∧
        event.op = .upsert ∧ event.docId ∉ plan.live)

end Batches

section Known

variable {context : Context} {resourceId : String} {memories : List Memory}

theorem mem_existingResourceDocIds {docIds : Finset String} {event : Event}
    (resource : event.resourceId = resourceId) :
    event.docId ∈ existingResourceDocIds context resourceId memories docIds ↔
      event.docId ∈ docIds ∧ Held context event memories := by
  unfold existingResourceDocIds Held
  rw [Finset.mem_inter, List.mem_toFinset, List.mem_filterMap, and_comm]
  refine and_congr_right fun _ => exists_congr fun memory => ?_
  rw [List.mem_filter, decide_eq_true_eq, ← resource]
  constructor
  next =>
    rintro ⟨⟨listed, workspace, inside, same, live⟩, doc⟩
    exact ⟨listed, ⟨workspace, inside, same, doc⟩, live⟩
  next =>
    rintro ⟨listed, ⟨workspace, inside, same, doc⟩, live⟩
    exact ⟨⟨listed, workspace, inside, same, live⟩, doc⟩

end Known

theorem initial_tracked {batch : Batch} {script : List (Event × Outcome)} (context : Context)
    (resourceId : String)
    (ids : (batch.memories.map Memory.id ++ script.map fun step => step.2.newId).Nodup) :
    Tracked context resourceId (initial context resourceId batch script) batch script :=
  ⟨ids, fun _ resource listed => ((mem_existingResourceDocIds resource).mp listed).2⟩

theorem initial_complete (context : Context) (resourceId : String) (batch : Batch)
    (script : List (Event × Outcome)) :
    Complete context resourceId (batchDocIds script) (initial context resourceId batch script)
      batch.memories :=
  fun _ resource listed held => (mem_existingResourceDocIds resource).mpr ⟨listed, held⟩

theorem fitted_split (context : Context) (resourceId : String) (batch : Batch)
    (script : List (Event × Outcome)) (room : Int) :
    ∃ rest after, script = fittedScript context resourceId batch script room ++ rest ∧
      planAll (some room) (initial context resourceId batch script)
        ((fittedScript context resourceId batch script room).map Prod.fst) = some after ∧
      (fitted context resourceId batch script room).2 = after.creations ∧
      (rest = [] ∨ ∃ event outcome later, rest = (event, outcome) :: later ∧
        event.op = .upsert ∧ event.docId ∉ after.live) := by
  obtain ⟨taken, rest, after, split, done, found, stop⟩ := fitFrom_split (some room) 0
    (initial context resourceId batch script) (script.map Prod.fst)
  rw [Nat.zero_add] at found
  have fit : fitted context resourceId batch script room = (taken.length, after.creations) := found
  have scriptPrefix : (fittedScript context resourceId batch script room).map Prod.fst = taken := by
    unfold fittedScript
    rw [List.map_take, fit, split]
    exact List.take_left
  refine ⟨script.drop (fitted context resourceId batch script room).1, after,
    (List.take_append_drop _ _).symm, ?_, by rw [fit], ?_⟩
  next =>
    rw [scriptPrefix]
    exact done
  next =>
    have remaining : (script.drop (fitted context resourceId batch script room).1).map Prod.fst =
        rest := by
      rw [List.map_drop, fit, split]
      exact List.drop_left
    rcases stop with rfl | ⟨event, others, rfl, upsert, unheld⟩
    next => exact Or.inl (List.map_eq_nil_iff.mp remaining)
    next =>
      obtain ⟨⟨first, outcome⟩, later, same, rfl, _⟩ := List.map_eq_cons_iff.mp remaining
      exact Or.inr ⟨first, outcome, later, same, upsert, unheld⟩

theorem ingest_plan_within_room (context : Context) (resourceId : String) (batch : Batch)
    (script : List (Event × Outcome)) (room : Int)
    (ids : (batch.memories.map Memory.id ++ script.map fun step => step.2.newId).Nodup)
    (applies : Applies resourceId script) :
    (Retiring context batch (fittedScript context resourceId batch script room) →
      WithinRoom context resourceId batch script room) ∧
    StopsAtCreation context resourceId batch script room ∧
    unheldUpserts context batch (fittedScript context resourceId batch script room) ≤
      (fitted context resourceId batch script room).2 ∧
    ((∀ step ∈ fittedScript context resourceId batch script room, ¬ step.1.deletesOne) →
      (fitted context resourceId batch script room).2 =
        unheldUpserts context batch (fittedScript context resourceId batch script room)) := by
  obtain ⟨rest, after, split, done, charged, stop⟩ :=
    fitted_split context resourceId batch script room
  have tracked := initial_tracked context resourceId ids
  have complete := initial_complete context resourceId batch script
  have within : ∀ step ∈ script, step.1.docId ∈ batchDocIds script := fun step listed =>
    List.mem_toFinset.mpr (List.mem_map_of_mem listed)
  set fit := fittedScript context resourceId batch script room with fits
  have applied : Applies resourceId fit := Applies.of_append (split ▸ applies)
  have moved : Tracked context resourceId (initial context resourceId batch script) batch
      (fit ++ rest) := split ▸ tracked
  refine ⟨fun retiring before => ?_, ⟨after, done, ?_⟩, ?_, fun all => ?_⟩
  next =>
    rintro ⟨later, same⟩
    rw [← fits] at same
    rw [← same] at retiring moved applied done
    rw [List.map_append, planAll_append, Option.bind_eq_some_iff] at done
    obtain ⟨mid, start, _⟩ := done
    have grown := Tracked.liveRows_run applied.of_append (by simpa using moved) start retiring.of_append
    have net : mid.net ≤ max room 0 := planAll_net start (le_max_right _ _)
    simp only [initial, initialPlan] at grown
    omega
  next =>
    rcases stop with rfl | ⟨event, outcome, later, rfl, upsert, unheld⟩
    next => exact Or.inl (by simpa using split.symm)
    next => exact Or.inr ⟨event, outcome, later, split, upsert, unheld⟩
  next =>
    rw [charged]
    exact moved.creations_run applied done
  next =>
    rw [charged]
    refine complete.creations_run applied moved done all fun step listed => within step ?_
    rw [split]
    exact List.mem_append_left _ listed

def applied (newId : MemoryId) : Outcome := { rowWritten newId with cleaned := true }

def stored (memories : List Memory) : Batch :=
  { memories, store := fun _ => none, repointed := [], retired := [] }

theorem applied_clean (newId : MemoryId) : (applied newId).Clean :=
  ⟨rfl, rfl, rfl, rfl, rfl, rfl⟩

theorem applies_wiki (steps : List (String × Nat × MemoryId)) :
    Applies "wiki" (steps.map fun step => (upsertOf step.1 step.2.1, applied step.2.2)) := by
  refine ⟨fun step listed => ?_, fun step listed => ?_, fun step listed => ?_⟩
  all_goals obtain ⟨_, _, rfl⟩ := List.mem_map.mp listed
  next => rfl
  next => exact fun _ => rfl
  next => exact applied_clean _

-- A full workspace: the known document moves to a new version and the new one waits.
theorem full_workspace_updates :
    let script := [("home", 2, 2), ("about", 1, 3)].map fun step =>
      (upsertOf step.1 step.2.1, applied step.2.2)
    fitted docs "wiki" (stored [indexed]) script 0 = (1, 0) ∧
      WithinRoom docs "wiki" (stored [indexed]) script 0 ∧
      StopsAtCreation docs "wiki" (stored [indexed]) script 0 := by
  intro script
  have plan := ingest_plan_within_room docs "wiki" (stored [indexed]) script 0 (by decide)
    (applies_wiki _)
  have one : fittedScript docs "wiki" (stored [indexed]) script 0 = [(upsertOf "home" 2, applied 2)] :=
    rfl
  refine ⟨by decide, plan.1 fun before event outcome later split => ?_, plan.2.1⟩
  rw [one] at split
  cases before with
  | nil =>
    obtain ⟨rfl, rfl⟩ := Prod.mk.inj (List.cons.inj split).1
    exact fun _ _ => Or.inr ⟨indexed, List.mem_singleton_self _, by decide, rfl, rfl⟩
  | cons first others => simp at split

-- A row stored by `remember(external_id)` with a document and no version.
def unversioned : Memory :=
  { indexed with
    resourceVersion := none
    summaryEmbeddingId := some (.own 1)
    attributed := by simp [indexed] }

theorem unversioned_row_overfills :
    let script := [(upsertOf "home" 1, applied 2)]
    (((stored [unversioned]).memories.map Memory.id ++
        script.map fun step => step.2.newId).Nodup ∧ Applies "wiki" script) ∧
      ¬ WithinRoom docs "wiki" (stored [unversioned]) script 0 := by
  intro script
  refine ⟨⟨by decide, applies_wiki [("home", 1, 2)]⟩, fun within => ?_⟩
  have bounded := within _ (List.prefix_refl _)
  revert bounded
  decide

end MemoryCloud.Indexer.Points
