import MemoryCloud.Indexer.Offsets

set_option autoImplicit false

/-!
# The record of skipped events

`metrics.failed_events` through the runs of one row: a batch's commit drops the
entries it ran again and merges its own failures under the cap. The operator
rewinds `last_offset` between the runs, or to free a row a dead run left behind.
-/

namespace MemoryCloud.Indexer

inductive OperatedAction
  | indexer (action : Action)
  | rewind (target : EventId)

-- The runbook's rewind of the row, with `LEAST` on the offset.
def rewindRow (target : EventId) (row : IndexerState) : IndexerState :=
  { row with lastOffset := min row.lastOffset target, jobStatus := .queued }

def operate (resourcePk : ResourcePk) (state : State) : OperatedAction → Option State
  | .indexer action => step resourcePk state action
  | .rewind target => some { state with row := state.row.map (rewindRow target) }

def Sequential (state : State) : OperatedAction → Prop
  | .indexer (.run _ .pick) => ∀ other, state.runs other = .absent
  | _ => True

def Batch.outcomeOf (batch : Batch) (id : EventId) : Option Outcome :=
  (batch.ran.find? fun entry => entry.1.id == id).map Prod.snd

def latestRun (batches : List Batch) (id : EventId) : Option Outcome :=
  batches.findSome? fun batch => batch.outcomeOf id

def Listed (record : List FailedEvent) (id : EventId) : Prop :=
  ∃ entry ∈ record, entry.eventId = id

def ListedOrBeyond (record : List FailedEvent) (id : EventId) : Prop :=
  Listed record id ∨
    record.length = maxRecordedFailedEvents ∧ ∀ entry ∈ record, entry.eventId < id

def Skipped (state : State) (row : IndexerState) (id : EventId) : Prop :=
  id ≤ row.lastOffset ∧ ∃ errorClass, latestRun state.batches id = some (some errorClass)

structure RecordLaw (state : State) (row : IndexerState) : Prop where
  skipped : ∀ id, Skipped state row id → ListedOrBeyond row.failedEvents id
  target : ∀ id, Skipped state row id → ∃ lowest rest, row.failedEvents = lowest :: rest ∧
    lowest.eventId ≤ id ∧ ∀ entry ∈ rest, lowest.eventId < entry.eventId
  succeeded : ∀ id, latestRun state.batches id = some none → ¬ Listed row.failedEvents id
  sorted : row.failedEvents.Pairwise fun first second => first.eventId < second.eventId

section Entries

abbrev Ascending (record : List FailedEvent) : Prop :=
  record.Pairwise fun first second => first.eventId < second.eventId

theorem listed_putEntry {entry : FailedEvent} {record : List FailedEvent} {id : EventId} :
    Listed (putEntry entry record) id ↔ entry.eventId = id ∨ Listed record id := by
  induction record with
  | nil => simp [putEntry, Listed]
  | cons head rest ih =>
    unfold putEntry
    split
    next => simp [Listed]
    next =>
      split
      next same => simp [Listed, same]
      next =>
        have below : Listed (head :: putEntry entry rest) id ↔
            head.eventId = id ∨ Listed (putEntry entry rest) id := by simp [Listed]
        rw [below, ih]
        simp only [Listed, List.mem_cons, exists_eq_or_imp]
        exact or_left_comm

theorem ascending_putEntry {entry : FailedEvent} {record : List FailedEvent}
    (ascending : Ascending record) : Ascending (putEntry entry record) := by
  induction record with
  | nil => simp [putEntry]
  | cons head rest ih =>
    obtain ⟨above, ascendingRest⟩ := List.pairwise_cons.mp ascending
    unfold putEntry
    split
    next before =>
      refine List.pairwise_cons.mpr ⟨fun other listed => ?_, ascending⟩
      rcases List.mem_cons.mp listed with rfl | later
      next => exact before
      next => exact Nat.lt_trans before (above other later)
    next notBefore =>
      split
      next same =>
        refine List.pairwise_cons.mpr ⟨fun other listed => ?_, ascendingRest⟩
        rw [same]
        exact above other listed
      next different =>
        refine List.pairwise_cons.mpr ⟨fun other listed => ?_, ih ascendingRest⟩
        rcases listed_putEntry.mp ⟨other, listed, rfl⟩ with new | ⟨old, there, same⟩
        next =>
          rw [← new]
          exact Nat.lt_of_le_of_ne (Nat.not_lt.mp notBefore) (Ne.symm different)
        next =>
          rw [← same]
          exact above old there

theorem byEventId_snoc (entries : List FailedEvent) (entry : FailedEvent) :
    byEventId (entries ++ [entry]) = putEntry entry (byEventId entries) := by
  simp [byEventId]

theorem byEventId_spec (entries : List FailedEvent) :
    Ascending (byEventId entries) ∧ ∀ id, Listed (byEventId entries) id ↔ Listed entries id := by
  induction entries using List.reverseRecOn with
  | nil => exact ⟨List.Pairwise.nil, fun _ => Iff.rfl⟩
  | append_singleton entries entry ih =>
    rw [byEventId_snoc]
    refine ⟨ascending_putEntry ih.1, fun id => ?_⟩
    rw [listed_putEntry, ih.2]
    simp only [Listed, List.mem_append, List.mem_singleton, or_and_right, exists_or, exists_eq_left]
    exact or_comm

theorem putEntry_append {entry : FailedEvent} {front : List FailedEvent}
    (above : ∀ other ∈ front, other.eventId < entry.eventId) (rest : List FailedEvent) :
    putEntry entry (front ++ rest) = front ++ putEntry entry rest := by
  induction front with
  | nil => rfl
  | cons head front ih =>
    have first := above head List.mem_cons_self
    rw [List.cons_append, putEntry, if_neg (Nat.lt_asymm first), if_neg (Nat.ne_of_gt first),
      ih fun other listed => above other (List.mem_cons_of_mem _ listed), List.cons_append]

theorem byEventId_ascending {record : List FailedEvent} (ascending : Ascending record) :
    byEventId record = record := by
  induction record using List.reverseRecOn with
  | nil => rfl
  | append_singleton front entry ih =>
    obtain ⟨ascendingFront, _, above⟩ := List.pairwise_append.mp ascending
    rw [byEventId_snoc, ih ascendingFront]
    have last := putEntry_append (fun other listed => above other listed entry (by simp)) []
    rwa [List.append_nil] at last

theorem byEventId_append {record new : List FailedEvent} (ascending : Ascending record)
    (above : ∀ old ∈ record, ∀ entry ∈ new, old.eventId < entry.eventId) :
    byEventId (record ++ new) = record ++ byEventId new := by
  induction new using List.reverseRecOn with
  | nil =>
    rw [List.append_nil, byEventId_ascending ascending]
    exact (List.append_nil record).symm
  | append_singleton new entry ih =>
    rw [← List.append_assoc, byEventId_snoc, byEventId_snoc,
      ih fun old here other listed => above old here other (List.mem_append_left _ listed)]
    exact putEntry_append (fun old here => above old here entry (by simp)) _

-- A full record leaves no room for entries above it.
theorem merge_full {record new : List FailedEvent} (ascending : Ascending record)
    (full : record.length = maxRecordedFailedEvents)
    (above : ∀ old ∈ record, ∀ entry ∈ new, old.eventId < entry.eventId) :
    mergeFailedEvents record new = record := by
  rw [mergeFailedEvents, byEventId_append ascending above, ← full, List.take_left]

theorem listed_append {first second : List FailedEvent} {id : EventId} :
    Listed (first ++ second) id ↔ Listed first id ∨ Listed second id := by
  simp [Listed, or_and_right, exists_or]

theorem ascending_merge (recorded new : List FailedEvent) :
    Ascending (mergeFailedEvents recorded new) :=
  (byEventId_spec (recorded ++ new)).1.sublist (List.take_sublist _ _)

theorem listed_of_merge {recorded new : List FailedEvent} {id : EventId}
    (listed : Listed (mergeFailedEvents recorded new) id) : Listed recorded id ∨ Listed new id := by
  obtain ⟨entry, kept, same⟩ := listed
  rw [← listed_append, ← (byEventId_spec (recorded ++ new)).2]
  exact ⟨entry, List.mem_of_mem_take kept, same⟩

theorem listedOrBeyond_take {record : List FailedEvent} (ascending : Ascending record) {id : EventId}
    (listed : Listed record id) : ListedOrBeyond (record.take maxRecordedFailedEvents) id := by
  obtain ⟨entry, here, same⟩ := listed
  rw [← List.take_append_drop maxRecordedFailedEvents record] at here
  rcases List.mem_append.mp here with kept | cut
  next => exact .inl ⟨entry, kept, same⟩
  next =>
    refine .inr ⟨?_, fun other kept => ?_⟩
    next =>
      have long : maxRecordedFailedEvents < record.length := by
        by_contra short
        rw [List.drop_eq_nil_of_le (Nat.not_lt.mp short)] at cut
        cases cut
      rw [List.length_take]
      exact Nat.min_eq_left (Nat.le_of_lt long)
    next =>
      rw [← List.take_append_drop maxRecordedFailedEvents record, Ascending,
        List.pairwise_append] at ascending
      rw [← same]
      exact ascending.2.2 other kept entry cut

theorem listedOrBeyond_merge {recorded new : List FailedEvent} {id : EventId}
    (listed : Listed recorded id ∨ Listed new id) :
    ListedOrBeyond (mergeFailedEvents recorded new) id := by
  have spec := byEventId_spec (recorded ++ new)
  exact listedOrBeyond_take spec.1 ((spec.2 id).mpr (listed_append.mpr listed))

end Entries

section Batches

structure Faithful (batches : List Batch) (offset : EventId) (record : List FailedEvent) : Prop where
  listed : ∀ id errorClass, id ≤ offset → latestRun batches id = some (some errorClass) →
    ListedOrBeyond record id
  cleared : ∀ id, latestRun batches id = some none → ¬ Listed record id
  ascending : Ascending record

variable {batches : List Batch} {outcome : ResourceEvent → Outcome} {events : List ResourceEvent}

theorem Faithful.lower {offset target : EventId} {record : List FailedEvent}
    (faithful : Faithful batches offset record) (lower : target ≤ offset) :
    Faithful batches target record where
  listed := fun id errorClass below failed =>
    faithful.listed id errorClass (Nat.le_trans below lower) failed
  cleared := faithful.cleared
  ascending := faithful.ascending

theorem faithful_initial : Faithful [] 0 [] where
  listed := by
    intro id errorClass _ failed
    cases failed
  cleared := by
    rintro id _ ⟨_, listed, _⟩
    cases listed
  ascending := .nil

theorem latestRun_cons (batch : Batch) (id : EventId) :
    latestRun (batch :: batches) id = (batch.outcomeOf id).or (latestRun batches id) := by
  rw [latestRun, List.findSome?_cons]
  cases batch.outcomeOf id <;> rfl

def ranBatch (events : List ResourceEvent) (outcome : ResourceEvent → Outcome)
    (record : List FailedEvent) : Batch :=
  { ran := events.map fun event => (event, outcome event), record }

theorem outcomeOf_some {record : List FailedEvent} {id : EventId} {ended : Outcome}
    (ran : (ranBatch events outcome record).outcomeOf id = some ended) :
    ∃ event ∈ events, event.id = id ∧ outcome event = ended := by
  obtain ⟨entry, found, same⟩ := Option.map_eq_some_iff.mp ran
  obtain ⟨event, listed, rfl⟩ := List.mem_map.mp (List.mem_of_find?_eq_some found)
  exact ⟨event, listed, by simpa using List.find?_some found, same⟩

theorem outcomeOf_none {record : List FailedEvent} {id : EventId}
    (ran : (ranBatch events outcome record).outcomeOf id = none) :
    ∀ event ∈ events, event.id ≠ id := by
  intro event listed same
  have missing := List.find?_eq_none.mp (Option.map_eq_none_iff.mp ran) (event, outcome event)
    (List.mem_map_of_mem listed)
  simp [same] at missing

theorem listed_kept {recorded : List FailedEvent} {offset last id : EventId} :
    Listed (keptEntries recorded offset last) id ↔
      Listed recorded id ∧ ¬ (offset < id ∧ id ≤ last) := by
  constructor
  next =>
    rintro ⟨entry, kept, rfl⟩
    rw [keptEntries, List.mem_filter, decide_eq_true_eq] at kept
    exact ⟨⟨entry, kept.1, rfl⟩, kept.2⟩
  next =>
    rintro ⟨⟨entry, listed, rfl⟩, outside⟩
    refine ⟨entry, ?_, rfl⟩
    rw [keptEntries, List.mem_filter, decide_eq_true_eq]
    exact ⟨listed, outside⟩

theorem listed_failures {offset id : EventId} :
    Listed (runEvents outcome offset events).failures id ↔
      ∃ event ∈ events, event.id = id ∧ ∃ errorClass, outcome event = some errorClass := by
  simp only [Listed, mem_failures]
  constructor
  next =>
    rintro ⟨_, ⟨event, listed, errorClass, ended, rfl⟩, rfl⟩
    exact ⟨event, listed, rfl, errorClass, ended⟩
  next =>
    rintro ⟨event, listed, rfl, errorClass, ended⟩
    exact ⟨_, ⟨event, listed, errorClass, ended, rfl⟩, rfl⟩

theorem runEvents_le_lastId {offset : EventId}
    (sorted : events.Pairwise fun first second => first.id ≤ second.id) {id : EventId}
    (below : id ≤ (runEvents outcome offset events).lastOffset) (above : offset < id) :
    id ≤ lastId events := by
  rcases runEvents_lastOffset outcome offset events with stays | ⟨event, listed, moves⟩
  next =>
    rw [stays] at below
    exact absurd above (Nat.not_lt.mpr below)
  next =>
    rw [moves] at below
    exact Nat.le_trans below (le_lastId sorted listed)

theorem Faithful.commit {copy : IndexerState} {record : List FailedEvent}
    (faithful : Faithful batches copy.lastOffset copy.failedEvents)
    (sorted : events.Pairwise fun first second => first.id ≤ second.id)
    (above : ∀ event ∈ events, copy.lastOffset < event.id)
    (unique : ∀ first ∈ events, ∀ second ∈ events, first.id = second.id → first = second)
    (complete : ∀ id, latestRun batches id ≠ none → copy.lastOffset < id → id ≤ lastId events →
      ∃ event ∈ events, event.id = id) :
    Faithful (ranBatch events outcome record :: batches)
      (runEvents outcome copy.lastOffset events).lastOffset (batchRecord copy events outcome) := by
  constructor
  next =>
    intro id errorClass below failed
    rw [latestRun_cons] at failed
    cases ran : (ranBatch events outcome record).outcomeOf id with
    | some ended =>
      rw [ran, Option.some_or, Option.some.injEq] at failed
      subst failed
      obtain ⟨event, listed, same, ended⟩ := outcomeOf_some ran
      exact listedOrBeyond_merge (.inr (listed_failures.mpr ⟨event, listed, same, errorClass, ended⟩))
    | none =>
      rw [ran, Option.none_or] at failed
      have notRun := outcomeOf_none ran
      -- The batch ran every event it passed, so this one was passed by before.
      have before : id ≤ copy.lastOffset := by
        by_contra later
        have past := Nat.not_le.mp later
        obtain ⟨event, listed, same⟩ := complete id (by rw [failed]; simp) past
          (runEvents_le_lastId sorted below past)
        exact notRun event listed same
      have notAgain : ¬ (copy.lastOffset < id ∧ id ≤ lastId events) :=
        fun again => absurd again.1 (Nat.not_lt.mpr before)
      rcases faithful.listed id errorClass before failed with listed | ⟨full, allBelow⟩
      next => exact listedOrBeyond_merge (.inl (listed_kept.mpr ⟨listed, notAgain⟩))
      next =>
        have allKept : keptEntries copy.failedEvents copy.lastOffset (lastId events) =
            copy.failedEvents := by
          refine List.filter_eq_self.mpr fun entry listed => ?_
          rw [decide_eq_true_eq]
          exact fun again => absurd again.1
            (Nat.not_lt.mpr (Nat.le_trans (Nat.le_of_lt (allBelow entry listed)) before))
        have same : batchRecord copy events outcome = copy.failedEvents := by
          rw [batchRecord, allKept]
          refine merge_full faithful.ascending full fun old here entry new => ?_
          obtain ⟨event, listed, _, _, rfl⟩ := (mem_failures outcome).mp new
          exact Nat.lt_trans (allBelow old here) (Nat.lt_of_le_of_lt before (above event listed))
        rw [same]
        exact .inr ⟨full, allBelow⟩
  next =>
    intro id succeeded listed
    rw [latestRun_cons] at succeeded
    cases ran : (ranBatch events outcome record).outcomeOf id with
    | some ended =>
      rw [ran, Option.some_or, Option.some.injEq] at succeeded
      subst succeeded
      obtain ⟨event, here, rfl, ended⟩ := outcomeOf_some ran
      rcases listed_of_merge listed with kept | failed
      next => exact (listed_kept.mp kept).2 ⟨above event here, le_lastId sorted here⟩
      next =>
        obtain ⟨other, there, same, errorClass, failed⟩ := listed_failures.mp failed
        rw [unique other there event here same, ended] at failed
        cases failed
    | none =>
      rw [ran, Option.none_or] at succeeded
      rcases listed_of_merge listed with kept | failed
      next => exact faithful.cleared id succeeded (listed_kept.mp kept).1
      next =>
        obtain ⟨event, here, same, _⟩ := listed_failures.mp failed
        exact outcomeOf_none ran event here same
  next => exact ascending_merge _ _

end Batches

section Rows

variable (resourcePk : ResourcePk) (state : State)

-- The row still holds what the run has read: only a rewind moved it since.
def Holds (copy : IndexerState) : Prop :=
  ∃ row, state.row = some row ∧ row.failedEvents = copy.failedEvents ∧
    row.lastOffset ≤ copy.lastOffset

structure Complete (copy : IndexerState) (events : List ResourceEvent) : Prop where
  committed : ∀ event ∈ events, event ∈ state.events
  sorted : events.Pairwise fun first second => first.id ≤ second.id
  own : ∀ event ∈ events, event.resourcePk = resourcePk
  above : ∀ event ∈ events, copy.lastOffset < event.id
  complete : ∀ id, latestRun state.batches id ≠ none → copy.lastOffset < id → id ≤ lastId events →
    ∃ event ∈ events, event.id = id

def RunRecorded : Run → Prop
  | .loaded copy => Holds state copy ∧ Faithful state.batches copy.lastOffset copy.failedEvents
  | .fetched copy events =>
    Holds state copy ∧ Faithful state.batches copy.lastOffset copy.failedEvents ∧
      Complete resourcePk state copy events
  | .returned _ _ record => ∃ row, state.row = some row ∧ row.failedEvents = record
  | _ => True

structure Recorded : Prop where
  below : ∀ event, Drawn state event → event.id < state.nextId
  unique : ∀ first second, Drawn state first → Drawn state second → first.id = second.id →
    first = second
  ran : ∀ id, latestRun state.batches id ≠ none →
    ∃ event ∈ state.events, event.id = id ∧ event.resourcePk = resourcePk
  fresh : state.row = none → state.batches = []
  alone : ∀ first second, state.runs first ≠ .absent → state.runs second ≠ .absent → first = second
  row : ∀ row, state.row = some row → Faithful state.batches row.lastOffset row.failedEvents
  runs : ∀ j, RunRecorded resourcePk state (state.runs j)

variable {resourcePk state} {before after : State}

structure RowKept (before after : Option IndexerState) : Prop where
  present : before ≠ none → after ≠ none
  kept : ∀ row, after = some row → (before = none ∧ row.lastOffset = 0 ∧ row.failedEvents = []) ∨
    ∃ old, before = some old ∧ row.failedEvents = old.failedEvents ∧ row.lastOffset ≤ old.lastOffset

theorem RowKept.refl (row : Option IndexerState) : RowKept row row where
  present := id
  kept := fun written here => .inr ⟨written, here, rfl, Nat.le_refl _⟩

theorem RowKept.of_map {row : Option IndexerState} {write : IndexerState → IndexerState}
    (record : ∀ old, row = some old → (write old).failedEvents = old.failedEvents)
    (offset : ∀ old, (write old).lastOffset ≤ old.lastOffset) : RowKept row (row.map write) where
  present := by simp
  kept := by
    intro written here
    obtain ⟨old, there, rfl⟩ := Option.map_eq_some_iff.mp here
    exact .inr ⟨old, there, record old there, offset old⟩

theorem RowKept.commitWrite (row : Option IndexerState) (write : RowWrite) :
    RowKept row (commitWrite row write) := by
  cases write with
  | create =>
    cases row with
    | none =>
      refine ⟨fun missing => absurd rfl missing, ?_⟩
      rintro written ⟨rfl⟩
      exact .inl ⟨rfl, rfl, rfl⟩
    | some old => exact .refl _
  | wake => exact .of_map (fun _ _ => rfl) (fun _ => Nat.le_refl _)
  | leave => exact .refl _

theorem Holds.kept {copy : IndexerState} (row : RowKept before.row after.row)
    (holds : Holds before copy) : Holds after copy := by
  obtain ⟨old, here, same, lower⟩ := holds
  obtain ⟨written, there⟩ := Option.ne_none_iff_exists'.mp
    (row.present (by rw [here]; exact Option.some_ne_none old))
  rcases row.kept written there with ⟨missing, _⟩ | ⟨other, present, record, offset⟩
  next =>
    rw [here] at missing
    cases missing
  next =>
    rw [here] at present
    cases present
    exact ⟨written, there, record.trans same, Nat.le_trans offset lower⟩

theorem RunRecorded.kept {run : Run} (later : Later before after)
    (sameBatches : after.batches = before.batches) (row : RowKept before.row after.row)
    (recorded : RunRecorded resourcePk before run) : RunRecorded resourcePk after run := by
  cases run with
  | loaded copy =>
    obtain ⟨holds, faithful⟩ := recorded
    exact ⟨holds.kept row, by rwa [sameBatches]⟩
  | fetched copy events =>
    obtain ⟨holds, faithful, complete⟩ := recorded
    exact ⟨holds.kept row, by rwa [sameBatches],
      { committed := fun event listed => later.kept event (complete.committed event listed)
        sorted := complete.sorted
        own := complete.own
        above := complete.above
        complete := by rw [sameBatches]; exact complete.complete }⟩
  | returned status reason record =>
    obtain ⟨old, here, same⟩ := recorded
    have holds : Holds before old := ⟨old, here, rfl, Nat.le_refl _⟩
    obtain ⟨written, there, kept, _⟩ := holds.kept row
    exact ⟨written, there, kept.trans same⟩
  | _ => trivial

theorem Recorded.quiet (recorded : Recorded resourcePk before) (later : Later before after)
    (sameBatches : after.batches = before.batches) (row : RowKept before.row after.row)
    (alone : ∀ first second, after.runs first ≠ .absent → after.runs second ≠ .absent →
      first = second)
    (runs : ∀ j, after.runs j = before.runs j ∨ RunRecorded resourcePk after (after.runs j)) :
    Recorded resourcePk after where
  below := later.below recorded.below
  unique := later.unique recorded.below recorded.unique
  ran := by
    rw [sameBatches]
    intro id ran
    obtain ⟨event, committed, same⟩ := recorded.ran id ran
    exact ⟨event, later.kept event committed, same⟩
  fresh := by
    intro missing
    rw [sameBatches]
    by_contra some
    exact row.present (fun none => some (recorded.fresh none)) missing
  alone := alone
  row := by
    intro written here
    rw [sameBatches]
    rcases row.kept written here with ⟨missing, offset, empty⟩ | ⟨old, there, record, lower⟩
    next =>
      rw [recorded.fresh missing, offset, empty]
      exact faithful_initial
    next =>
      rw [record]
      exact (recorded.row old there).lower lower
  runs := by
    intro j
    rcases runs j with same | new
    next =>
      rw [same]
      exact (recorded.runs j).kept later sameBatches row
    next => exact new

theorem Recorded.afterRequest {i : Nat} {action : RequestAction} {result : RequestStep}
    (recorded : Recorded resourcePk before)
    (taken : stepRequest resourcePk before.nextId before.row (before.requests i) action =
      some result) : Recorded resourcePk (before.afterRequest i result) := by
  refine recorded.quiet (stepRequest_later taken) rfl ?_ recorded.alone fun j => .inl rfl
  show RowKept before.row result.row
  rcases stepRequest_row taken with same | ⟨write, committed⟩
  next =>
    rw [same]
    exact .refl _
  next =>
    rw [committed]
    exact .commitWrite _ _

theorem alone_afterRun {j : Nat} {result : RunStep}
    (alone : ∀ first second, before.runs first ≠ .absent → before.runs second ≠ .absent →
      first = second)
    (one : before.runs j ≠ .absent ∨ result.run = .absent ∨ ∀ other, before.runs other = .absent)
    (first second : Nat) (live : (before.afterRun j result).runs first ≠ .absent)
    (liveToo : (before.afterRun j result).runs second ≠ .absent) : first = second := by
  -- A run other than this one was there before.
  have other : ∀ k, k ≠ j → (before.afterRun j result).runs k ≠ .absent →
      before.runs k ≠ .absent := by
    intro k different live
    simpa [State.afterRun, Function.update_of_ne different] using live
  have none : ∀ k, k ≠ j → (before.afterRun j result).runs k ≠ .absent →
      (before.afterRun j result).runs j ≠ .absent → False := by
    intro k different live mine
    have old := other k different live
    rcases one with running | ended | nobody
    next => exact different (alone k j old running)
    next => exact mine (by simp [State.afterRun, ended])
    next => exact old (nobody k)
  by_cases mine : first = j
  next =>
    subst mine
    by_contra different
    exact none second (Ne.symm different) liveToo live
  next =>
    by_cases mineToo : second = j
    next =>
      subst mineToo
      exact absurd (none first mine live liveToo) id
    next => exact alone first second (other first mine live) (other second mineToo liveToo)

theorem Recorded.afterRun {j : Nat} {result : RunStep} (recorded : Recorded resourcePk before)
    (alone : before.runs j ≠ .absent ∨ result.run = .absent ∨ ∀ other, before.runs other = .absent)
    (noBatch : result.batches = []) (row : RowKept before.row result.row)
    (run : RunRecorded resourcePk (before.afterRun j result) result.run) :
    Recorded resourcePk (before.afterRun j result) := by
  refine recorded.quiet (afterRun_later j result) ?_ row ?_ fun other => ?_
  next => simp [State.afterRun, noBatch]
  next =>
    exact alone_afterRun recorded.alone alone
  next =>
    by_cases same : other = j
    next =>
      subst same
      exact .inr (by simpa [State.afterRun] using run)
    next => exact .inl (by simp [State.afterRun, Function.update_of_ne same])

theorem Recorded.fetch {copy : IndexerState} (recorded : Recorded resourcePk before)
    (holds : Holds before copy)
    (faithful : Faithful before.batches copy.lastOffset copy.failedEvents) (limit : Nat) :
    RunRecorded resourcePk before
      (fetched copy (fetchEvents before.events resourcePk copy.lastOffset limit)) := by
  have unique : ∀ first ∈ before.events, ∀ second ∈ before.events, first.id = second.id →
      first = second :=
    fun first one second two => recorded.unique first second (.inl one) (.inl two)
  have complete : Complete resourcePk before copy
      (fetchEvents before.events resourcePk copy.lastOffset limit) :=
    { committed := fun event listed => (mem_fetchEvents listed).1
      sorted := fetchEvents_sorted
      own := fun event listed => (mem_fetchEvents listed).2.1
      above := fun event listed => (mem_fetchEvents listed).2.2
      complete := by
        intro id ran above below
        obtain ⟨event, committed, rfl, own⟩ := recorded.ran id ran
        exact ⟨event, mem_fetchEvents_of_le unique committed own above below, rfl⟩ }
  unfold fetched
  split
  next =>
    obtain ⟨row, here, same, _⟩ := holds
    exact ⟨row, here, same⟩
  next event rest here =>
    rw [here] at complete
    exact ⟨holds, faithful, complete⟩

theorem Complete.take {copy : IndexerState} {events : List ResourceEvent}
    (recorded : Recorded resourcePk before) (complete : Complete resourcePk before copy events)
    (batchLen : Nat) : Complete resourcePk before copy (events.take batchLen) where
  committed := fun event listed => complete.committed event (List.mem_of_mem_take listed)
  sorted := complete.sorted.sublist (List.take_sublist _ _)
  own := fun event listed => complete.own event (List.mem_of_mem_take listed)
  above := fun event listed => complete.above event (List.mem_of_mem_take listed)
  complete := by
    intro id ran above below
    cases last : (events.take batchLen).getLast? with
    | none =>
      simp only [lastId, last, Option.map_none, Option.getD_none] at below
      exact absurd (Nat.lt_of_lt_of_le above below) (Nat.not_lt_zero _)
    | some bound =>
      simp only [lastId, last, Option.map_some, Option.getD_some] at below
      have front := List.mem_of_getLast? last
      obtain ⟨event, listed, rfl⟩ := complete.complete id ran above
        (Nat.le_trans below (le_lastId complete.sorted (List.mem_of_mem_take front)))
      refine ⟨event, mem_take_of_le complete.sorted ?_ listed front below, rfl⟩
      intro first one second two
      exact recorded.unique first second (.inl (complete.committed first one))
        (.inl (complete.committed second two))

theorem Recorded.commit {j : Nat} {copy : IndexerState} {events : List ResourceEvent}
    {reason : Option SkipReason} {outcome : ResourceEvent → Outcome}
    (recorded : Recorded resourcePk before) (running : before.runs j ≠ .absent)
    (holds : Holds before copy)
    (faithful : Faithful before.batches copy.lastOffset copy.failedEvents)
    (complete : Complete resourcePk before copy events) :
    Recorded resourcePk (before.afterRun j (commitBatch before.row copy events reason outcome)) := by
  have later : Later before
      (before.afterRun j (commitBatch before.row copy events reason outcome)) := afterRun_later _ _
  have unique : ∀ first ∈ events, ∀ second ∈ events, first.id = second.id → first = second :=
    fun first one second two => recorded.unique first second
      (.inl (complete.committed first one)) (.inl (complete.committed second two))
  have committed : Faithful
      (ranBatch events outcome (batchRecord copy events outcome) :: before.batches)
      (runEvents outcome copy.lastOffset events).lastOffset (batchRecord copy events outcome) :=
    faithful.commit complete.sorted complete.above unique complete.complete
  obtain ⟨old, here, same, lower⟩ := holds
  constructor
  next => exact later.below recorded.below
  next => exact later.unique recorded.below recorded.unique
  next =>
    intro id ran
    have newest : latestRun (ranBatch events outcome (batchRecord copy events outcome) ::
        before.batches) id ≠ none := ran
    rw [latestRun_cons] at newest
    cases again : (ranBatch events outcome (batchRecord copy events outcome)).outcomeOf id with
    | some ended =>
      obtain ⟨event, listed, same, _⟩ := outcomeOf_some again
      exact ⟨event, complete.committed event listed, same, complete.own event listed⟩
    | none =>
      rw [again, Option.none_or] at newest
      exact recorded.ran id newest
  next =>
    intro missing
    rw [State.afterRun, commitBatch, here] at missing
    cases missing
  next => exact alone_afterRun recorded.alone (.inl running)
  next =>
    intro row written
    obtain ⟨read, there, rfl⟩ := Option.map_eq_some_iff.mp written
    rw [here] at there
    cases there
    refine committed.lower ?_
    simp only [writeOffset]
    split
    next unmoved =>
      rw [← unmoved]
      exact lower
    next => exact Nat.le_refl _
  next =>
    intro k
    by_cases mine : k = j
    next =>
      subst mine
      simp only [State.afterRun, Function.update_self, commitBatch]
      exact ⟨_, by simp only [here]; rfl, rfl⟩
    next =>
      have ended : before.runs k = .absent := by
        by_contra live
        exact mine (recorded.alone k j live running)
      simp [State.afterRun, Function.update_of_ne mine, ended, RunRecorded]

theorem writeStatus_failedEvents (copy : Option JobStatus) (status : JobStatus)
    (row : IndexerState) : (writeStatus copy status row).failedEvents = row.failedEvents := by
  unfold writeStatus
  split <;> rfl

theorem RowKept.writeFinal {row : Option IndexerState} {record : List FailedEvent}
    (same : ∃ old, row = some old ∧ old.failedEvents = record) (copy : Option JobStatus)
    (status : JobStatus) : RowKept row (writeFinal row copy status record) := by
  refine .of_map (fun old here => ?_) fun old => (writeStatus_lastOffset copy status old).le
  obtain ⟨read, there, rfl⟩ := same
  rw [here] at there
  cases there
  rfl

theorem Recorded.run {j : Nat} {action : RunAction} {result : RunStep}
    (recorded : Recorded resourcePk before)
    (allowed : Sequential before (.indexer (.run j action)))
    (taken : stepRun resourcePk before.events before.row (before.runs j) action = some result) :
    Recorded resourcePk (before.afterRun j result) := by
  have mine := recorded.runs j
  have keeps : ∀ run, result.batches = [] → RowKept before.row result.row →
      RunRecorded resourcePk before run → RunRecorded resourcePk (before.afterRun j result) run :=
    fun run noBatch row held =>
      held.kept (afterRun_later j result) (by simp [State.afterRun, noBatch]) row
  unfold stepRun at taken
  split at taken
  next here =>
    split at taken
    next =>
      cases taken
      exact recorded.afterRun (.inr (.inr allowed)) rfl (.refl _) trivial
    next => cases taken
  next here =>
    obtain ⟨read, there, rfl⟩ := Option.map_eq_some_iff.mp taken
    exact recorded.afterRun (.inl (by simp [here])) rfl (there ▸ .refl _) trivial
  next =>
    cases taken
    exact recorded.afterRun (.inr (.inl rfl)) rfl (.refl _) trivial
  next here =>
    cases taken
    exact recorded.afterRun (.inl (by simp [here])) rfl
      (.of_map (fun old _ => writeStatus_failedEvents _ _ old)
        fun old => (writeStatus_lastOffset _ _ old).le) trivial
  next here =>
    obtain ⟨read, there, rfl⟩ := Option.map_eq_some_iff.mp taken
    have row : RowKept before.row (some read) := there ▸ .refl _
    refine recorded.afterRun (.inl (by simp [here])) rfl row (keeps (.loaded read) rfl row ?_)
    exact ⟨⟨read, there, rfl, Nat.le_refl _⟩, recorded.row read there⟩
  next copy limit here =>
    cases taken
    rw [here] at mine
    exact recorded.afterRun (.inl (by simp [here])) rfl (.refl _)
      (keeps _ rfl (.refl _) (recorded.fetch mine.1 mine.2 limit))
  next copy _ reason here =>
    rw [here] at mine
    obtain ⟨⟨row, there, same, _⟩, _⟩ := mine
    split at taken
    next => cases taken
    next =>
      cases taken
      exact recorded.afterRun (.inl (by simp [here])) rfl (.refl _) ⟨row, there, same⟩
  next copy events batchLen outcome here =>
    rw [here] at mine
    obtain ⟨holds, faithful, complete⟩ := mine
    split at taken
    next => cases taken
    next =>
      cases taken
      exact recorded.commit (by simp [here]) holds faithful (complete.take recorded batchLen)
  next copy here =>
    cases taken
    rw [here] at mine
    obtain ⟨⟨row, there, same, _⟩, _⟩ := mine
    exact recorded.afterRun (.inl (by simp [here])) rfl (.refl _) ⟨row, there, same⟩
  next copy _ here =>
    cases taken
    rw [here] at mine
    obtain ⟨⟨row, there, same, _⟩, _⟩ := mine
    exact recorded.afterRun (.inl (by simp [here])) rfl (.refl _) ⟨row, there, same⟩
  next here =>
    cases taken
    rw [here] at mine
    obtain ⟨⟨row, there, same, _⟩, _⟩ := mine
    exact recorded.afterRun (.inr (.inl rfl)) rfl (.writeFinal ⟨row, there, same⟩ _ _) trivial
  next here =>
    cases taken
    rw [here] at mine
    obtain ⟨⟨row, there, same, _⟩, _⟩ := mine
    exact recorded.afterRun (.inr (.inl rfl)) rfl (.writeFinal ⟨row, there, same⟩ _ _) trivial
  next here =>
    cases taken
    rw [here] at mine
    exact recorded.afterRun (.inr (.inl rfl)) rfl (.writeFinal mine _ _) trivial
  next here =>
    cases taken
    rw [here] at mine
    exact recorded.afterRun (.inr (.inl rfl)) rfl (.writeFinal mine _ _) trivial
  next =>
    cases taken
    exact recorded.afterRun (.inr (.inl rfl)) rfl (.refl _) trivial
  next => cases taken

theorem Recorded.operate {action : OperatedAction} (recorded : Recorded resourcePk before)
    (allowed : Sequential before action) (taken : operate resourcePk before action = some after) :
    Recorded resourcePk after := by
  cases action with
  | indexer action =>
    cases action with
    | request i action =>
      obtain ⟨result, stepped, rfl⟩ := Option.map_eq_some_iff.mp taken
      exact recorded.afterRequest stepped
    | run j action =>
      obtain ⟨result, stepped, rfl⟩ := Option.map_eq_some_iff.mp taken
      exact recorded.run allowed stepped
    | burnId =>
      have stepped : step resourcePk before .burnId = some after := taken
      have later := step_later stepped
      cases taken
      exact recorded.quiet later rfl (.refl _) recorded.alone fun _ => .inl rfl
  | rewind target =>
    cases taken
    exact recorded.quiet
      ⟨Nat.le_refl _, fun _ listed => .inl listed, fun _ listed => listed,
        fun _ pending => .inl pending, fun _ _ pending _ => .inl pending, fun _ listed => listed⟩
      rfl (.of_map (fun _ _ => rfl) fun _ => Nat.min_le_left _ _) recorded.alone fun _ => .inl rfl

theorem recorded_initial : Recorded resourcePk initial := by
  have nothing : ∀ event, ¬ Drawn initial event := by
    rintro event (committed | ⟨i, pk, rows, held, _⟩)
    next => cases committed
    next => cases held
  exact
    { below := fun event drawn => absurd drawn (nothing event)
      unique := fun first _ drawn _ _ => absurd drawn (nothing first)
      ran := fun _ ran => absurd rfl ran
      fresh := fun _ => rfl
      alone := fun _ _ live => absurd rfl live
      row := fun _ here => by cases here
      runs := fun _ => trivial }

end Rows

section Target

theorem ListedOrBeyond.lowest {record : List FailedEvent} {id : EventId}
    (ascending : Ascending record) (listed : ListedOrBeyond record id) :
    ∃ lowest rest, record = lowest :: rest ∧ lowest.eventId ≤ id ∧
      ∀ entry ∈ rest, lowest.eventId < entry.eventId := by
  cases record with
  | nil =>
    rcases listed with ⟨_, here, _⟩ | ⟨full, _⟩
    next => cases here
    next => cases full
  | cons lowest rest =>
    have above := (List.pairwise_cons.mp ascending).1
    refine ⟨lowest, rest, rfl, ?_, above⟩
    rcases listed with ⟨entry, here, rfl⟩ | ⟨_, below⟩
    next =>
      rcases List.mem_cons.mp here with rfl | later
      next => exact Nat.le_refl _
      next => exact Nat.le_of_lt (above entry later)
    next => exact Nat.le_of_lt (below lowest List.mem_cons_self)

end Target

-- The record of a row names the right rewind target in every state reached.
theorem record_gives_rewind_target (resourcePk : ResourcePk) (state : State)
    (reached : Runs.Reaches (operate resourcePk) Sequential initial state) :
    ∀ row, state.row = some row → RecordLaw state row := by
  have recorded : Recorded resourcePk state :=
    reached.invariant (Recorded resourcePk) recorded_initial fun _ _ _ recorded allowed taken =>
      recorded.operate allowed taken
  intro row here
  have faithful := recorded.row row here
  constructor
  next =>
    rintro id ⟨below, errorClass, failed⟩
    exact faithful.listed id errorClass below failed
  next =>
    rintro id ⟨below, errorClass, failed⟩
    exact (faithful.listed id errorClass below failed).lowest faithful.ascending
  next => exact faithful.cleared
  next => exact faithful.ascending

-- A run dies after its batch's commit, and the operator puts the row back in the queue.
def diedAfterBatch (outcome : ResourceEvent → Outcome) : List OperatedAction :=
  (ingest 0 ["doc-1", "doc-2"]).map .indexer ++
    [.indexer (.run 0 .pick), .indexer (.run 0 .refresh), .indexer (.run 0 .mark),
      .indexer (.run 0 .load), .indexer (.run 0 (.fetch 100)),
      .indexer (.run 0 (.commitBatch 100 outcome)), .indexer (.run 0 .kill), .rewind 2]

theorem record_gives_rewind_target_after_crash :
    ∃ state row, Runs.Reaches (operate 7) Sequential initial state ∧ state.row = some row ∧
      row = ⟨2, .queued, [⟨1, "doc-1", "QdrantError"⟩]⟩ ∧ RecordLaw state row := by
  let outcome : ResourceEvent → Outcome := fun event =>
    if event.id = 1 then some "QdrantError" else none
  have allowed : Runs.Allowed (operate 7) Sequential initial (diedAfterBatch outcome) := by
    iterate 6
      refine ⟨trivial, fun next taken => ?_⟩
      cases taken
    refine ⟨fun _ => rfl, fun next taken => ?_⟩
    cases taken
    iterate 7
      refine ⟨trivial, fun next taken => ?_⟩
      cases taken
    trivial
  obtain ⟨state, reached, row⟩ := Runs.Reaches.of_run State.row allowed rfl
  exact ⟨state, _, reached, row, rfl, record_gives_rewind_target 7 state reached _ row⟩

end MemoryCloud.Indexer
