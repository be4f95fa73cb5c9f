import Mathlib.Data.List.Induction
import MemoryCloud.Indexer.Model

set_option autoImplicit false

namespace MemoryCloud.Indexer

def Pending (state : State) (event : ResourceEvent) : Prop :=
  ∃ i pk rows, state.requests i = .inserting pk rows ∧ event ∈ rows

def Drawn (state : State) (event : ResourceEvent) : Prop :=
  event ∈ state.events ∨ Pending state event

def HasRun (state : State) (event : ResourceEvent) : Prop :=
  ∃ batch ∈ state.batches, ∃ outcome, (event, outcome) ∈ batch.ran ∧
    ∀ errorClass, outcome = some errorClass →
      { eventId := event.id, docId := event.docId, errorClass } ∈ batch.record

def OffsetLaw (resourcePk : ResourcePk) (state : State) : Prop :=
  ∀ row, state.row = some row → ∀ event ∈ state.events, event.resourcePk = resourcePk →
    event.id ≤ row.lastOffset → HasRun state event

-- At a fetch no open transaction holds an event of the resource at or below the last event fetched;
-- at a batch's commit its failures and the entries it keeps fit the record.
def NothingBehind (resourcePk : ResourcePk) (state : State) : Action → Prop
  | .run j (.fetch limit) => ∀ copy, state.runs j = .loaded copy → ∀ event, Pending state event →
      event.resourcePk = resourcePk →
      lastId (fetchEvents state.events resourcePk copy.lastOffset limit) < event.id
  | .run j (.commitBatch batchLen outcome) => ∀ copy events, state.runs j = .fetched copy events →
      (byEventId (keptEntries copy.failedEvents copy.lastOffset (lastId (events.take batchLen)) ++
        (runEvents outcome copy.lastOffset (events.take batchLen)).failures)).length ≤
          maxRecordedFailedEvents
  | _ => True

section Record

theorem mem_putEntry_self (entry : FailedEvent) (record : List FailedEvent) :
    entry ∈ putEntry entry record := by
  induction record with
  | nil => simp [putEntry]
  | cons head rest ih =>
    unfold putEntry
    split
    next => simp
    next =>
      split
      next => simp
      next => exact List.mem_cons_of_mem _ ih

theorem mem_putEntry_other {entry other : FailedEvent} {record : List FailedEvent}
    (present : entry ∈ record) (different : other.eventId ≠ entry.eventId) :
    entry ∈ putEntry other record := by
  induction record with
  | nil => cases present
  | cons head rest ih =>
    unfold putEntry
    split
    next => exact List.mem_cons_of_mem _ present
    next =>
      split
      next same =>
        rcases List.mem_cons.mp present with here | later
        next => exact absurd (by rw [here, same]) different
        next => exact List.mem_cons_of_mem _ later
      next =>
        rcases List.mem_cons.mp present with here | later
        next => simp [here]
        next => exact List.mem_cons_of_mem _ (ih later)

theorem mem_foldl_putEntry {entry : FailedEvent} (new record : List FailedEvent)
    (present : entry ∈ record ∨ entry ∈ new)
    (only : ∀ other ∈ new, other.eventId = entry.eventId → other = entry) :
    entry ∈ new.foldl (fun record entry => putEntry entry record) record := by
  induction new generalizing record with
  | nil => simpa using present
  | cons head rest ih =>
    refine ih (putEntry head record) ?_ fun other later => only other (List.mem_cons_of_mem _ later)
    by_cases same : head.eventId = entry.eventId
    next =>
      rw [only head (by simp) same]
      exact Or.inl (mem_putEntry_self entry record)
    next =>
      rcases present with old | new
      next => exact Or.inl (mem_putEntry_other old same)
      next =>
        rcases List.mem_cons.mp new with here | later
        next => exact absurd (by rw [here]) same
        next => exact Or.inr later

theorem mem_mergeFailedEvents {entry : FailedEvent} {recorded new : List FailedEvent}
    (present : entry ∈ new) (only : ∀ other ∈ new, other.eventId = entry.eventId → other = entry)
    (fits : (byEventId (recorded ++ new)).length ≤ maxRecordedFailedEvents) :
    entry ∈ mergeFailedEvents recorded new := by
  rw [mergeFailedEvents, List.take_of_length_le fits, byEventId, List.foldl_append]
  exact mem_foldl_putEntry new _ (Or.inr present) only

end Record

section Loop

variable (outcome : ResourceEvent → Outcome)

theorem runEvents_append (lastOffset : EventId) (events : List ResourceEvent)
    (event : ResourceEvent) :
    runEvents outcome lastOffset (events ++ [event]) =
      runEvent outcome (runEvents outcome lastOffset events) event := by
  simp [runEvents]

theorem runEvents_lastOffset (lastOffset : EventId) (events : List ResourceEvent) :
    (runEvents outcome lastOffset events).lastOffset = lastOffset ∨
      ∃ event ∈ events, (runEvents outcome lastOffset events).lastOffset = event.id := by
  induction events using List.reverseRecOn with
  | nil => exact Or.inl rfl
  | append_singleton events event ih =>
    rw [runEvents_append]
    cases ended : outcome event with
    | none => exact Or.inr ⟨event, by simp, by simp [runEvent, ended]⟩
    | some errorClass =>
      simp only [runEvent, ended]
      rcases ih with same | ⟨found, listed, moved⟩
      next => exact Or.inl same
      next => exact Or.inr ⟨found, by simp [listed], moved⟩

theorem mem_failures {lastOffset : EventId} {events : List ResourceEvent} {entry : FailedEvent} :
    entry ∈ (runEvents outcome lastOffset events).failures ↔
      ∃ event ∈ events, ∃ errorClass, outcome event = some errorClass ∧
        entry = { eventId := event.id, docId := event.docId, errorClass } := by
  induction events using List.reverseRecOn with
  | nil => simp [runEvents]
  | append_singleton events event ih =>
    rw [runEvents_append]
    cases ended : outcome event with
    | none => simp [runEvent, ended, ih, or_and_right, exists_or]
    | some errorClass => simp [runEvent, ended, ih, or_and_right, exists_or]

end Loop

section Fetch

variable {events : List ResourceEvent} {resourcePk : ResourcePk} {afterId : EventId} {limit : Nat}

theorem fetchEvents_sorted :
    (fetchEvents events resourcePk afterId limit).Pairwise
      fun first second => first.id ≤ second.id := by
  refine List.Pairwise.sublist (List.take_sublist _ _) ?_
  exact List.pairwise_insertionSort (fun first second : ResourceEvent => first.id ≤ second.id) _

theorem mem_fetchEvents {event : ResourceEvent}
    (fetched : event ∈ fetchEvents events resourcePk afterId limit) :
    event ∈ events ∧ event.resourcePk = resourcePk ∧ afterId < event.id := by
  have sorted := List.mem_of_mem_take fetched
  rw [List.mem_insertionSort, List.mem_filter] at sorted
  exact ⟨sorted.1, by simpa using sorted.2⟩

theorem le_lastId {fetched : List ResourceEvent}
    (sorted : fetched.Pairwise fun first second => first.id ≤ second.id) {event : ResourceEvent}
    (listed : event ∈ fetched) : event.id ≤ lastId fetched := by
  induction fetched using List.reverseRecOn with
  | nil => cases listed
  | append_singleton front last _ =>
    rw [List.pairwise_append] at sorted
    simp only [lastId, List.getLast?_append, List.getLast?_singleton, Option.some_or,
      Option.map_some, Option.getD_some]
    rcases List.mem_append.mp listed with earlier | here
    next => exact sorted.2.2 event earlier last (by simp)
    next => rw [List.mem_singleton.mp here]

-- In an ascending list with unique ids, what is not above a listed event of a front part is in
-- that part.
theorem mem_take_of_le {fetched : List ResourceEvent} {count : Nat}
    (sorted : fetched.Pairwise fun first second => first.id ≤ second.id)
    (unique : ∀ first ∈ fetched, ∀ second ∈ fetched, first.id = second.id → first = second)
    {event bound : ResourceEvent} (listed : event ∈ fetched) (front : bound ∈ fetched.take count)
    (below : event.id ≤ bound.id) : event ∈ fetched.take count := by
  rw [← List.take_append_drop count fetched] at listed
  rcases List.mem_append.mp listed with early | late
  next => exact early
  next =>
    rw [← List.take_append_drop count fetched, List.pairwise_append] at sorted
    have above := sorted.2.2 bound front event late
    have same := unique event (List.mem_of_mem_drop late) bound (List.mem_of_mem_take front)
      (Nat.le_antisymm below above)
    rw [same]
    exact front

-- The fetch skips nothing up to its last event.
theorem mem_fetchEvents_of_le
    (unique : ∀ first ∈ events, ∀ second ∈ events, first.id = second.id → first = second)
    {event : ResourceEvent} (committed : event ∈ events) (own : event.resourcePk = resourcePk)
    (above : afterId < event.id)
    (below : event.id ≤ lastId (fetchEvents events resourcePk afterId limit)) :
    event ∈ fetchEvents events resourcePk afterId limit := by
  have listed : event ∈ (events.filter fun event =>
      event.resourcePk = resourcePk ∧ afterId < event.id).insertionSort
        fun first second => first.id ≤ second.id := by
    rw [List.mem_insertionSort, List.mem_filter]
    exact ⟨committed, by simp [own, above]⟩
  cases last : (fetchEvents events resourcePk afterId limit).getLast? with
  | none =>
    simp only [lastId, last, Option.map_none, Option.getD_none] at below
    exact absurd (Nat.lt_of_lt_of_le above below) (Nat.not_lt_zero _)
  | some bound =>
    simp only [lastId, last, Option.map_some, Option.getD_some] at below
    refine mem_take_of_le
      (List.pairwise_insertionSort (fun first second : ResourceEvent => first.id ≤ second.id) _)
      ?_ listed (List.mem_of_getLast? last) below
    intro first one second two
    rw [List.mem_insertionSort, List.mem_filter] at one two
    exact unique first one.1 second two.1

end Fetch

structure Later (before after : State) : Prop where
  nextId : before.nextId ≤ after.nextId
  committed : ∀ event ∈ after.events, Drawn before event
  kept : ∀ event ∈ before.events, event ∈ after.events
  pending : ∀ event, Pending after event → Pending before event ∨
    event.id = before.nextId ∧ before.nextId < after.nextId
  fresh : ∀ first second, Pending after first → Pending after second →
    Pending before first ∨ Pending before second ∨ first = second
  batches : ∀ batch ∈ before.batches, batch ∈ after.batches

section Steps

variable {before : State} {resourcePk : ResourcePk}

theorem pending_closed {i : Nat} {result : RequestStep}
    (closed : ∀ pk rows, result.request ≠ .inserting pk rows) (event : ResourceEvent)
    (pending : Pending (before.afterRequest i result) event) : Pending before event := by
  obtain ⟨other, pk, rows, held, listed⟩ := pending
  by_cases same : other = i
  next =>
    subst same
    simp only [State.afterRequest, Function.update_self] at held
    exact absurd held (closed pk rows)
  next =>
    simp only [State.afterRequest, Function.update_of_ne same] at held
    exact ⟨other, pk, rows, held, listed⟩

theorem pending_inserting {i : Nat} {result : RequestStep} {pk : ResourcePk}
    {rows : List ResourceEvent} (opened : result.request = .inserting pk rows)
    (event : ResourceEvent) (pending : Pending (before.afterRequest i result) event) :
    Pending before event ∨ event ∈ rows := by
  obtain ⟨other, otherPk, otherRows, held, listed⟩ := pending
  by_cases same : other = i
  next =>
    subst same
    simp only [State.afterRequest, Function.update_self] at held
    rw [opened] at held
    cases held
    exact Or.inr listed
  next =>
    simp only [State.afterRequest, Function.update_of_ne same] at held
    exact Or.inl ⟨other, otherPk, otherRows, held, listed⟩

theorem Later.of_quiet {i : Nat} {result : RequestStep} (sameId : result.nextId = before.nextId)
    (nothing : result.committed = [])
    (pending : ∀ event, Pending (before.afterRequest i result) event → Pending before event) :
    Later before (before.afterRequest i result) where
  nextId := by simp [State.afterRequest, sameId]
  committed := by
    intro event listed
    simp only [State.afterRequest, nothing, List.append_nil] at listed
    exact Or.inl listed
  kept := fun event listed => List.mem_append_left _ listed
  pending := fun event held => Or.inl (pending event held)
  fresh := fun first _ one _ => Or.inl (pending first one)
  batches := fun _ listed => listed

theorem committed_closed (pk : ResourcePk) (rows : List ResourceEvent) (otherPk : ResourcePk)
    (otherRows : List ResourceEvent) :
    (if pk = resourcePk ∧ rows ≠ [] then Request.stored rows else .absent) ≠
      .inserting otherPk otherRows := by
  split <;> simp

theorem stepRequest_later {i : Nat} {action : RequestAction} {result : RequestStep}
    (taken : stepRequest resourcePk before.nextId before.row (before.requests i) action =
      some result) : Later before (before.afterRequest i result) := by
  unfold stepRequest at taken
  split at taken
  next pk _ =>
    cases taken
    refine .of_quiet rfl rfl fun event pending => ?_
    rcases pending_inserting rfl event pending with old | new
    next => exact old
    next => cases new
  next pk rows docId held =>
    cases taken
    constructor
    next => exact Nat.le_succ _
    next =>
      intro event listed
      simp only [State.afterRequest, List.append_nil] at listed
      exact Or.inl listed
    next => exact fun event listed => List.mem_append_left _ listed
    next =>
      intro event pending
      rcases pending_inserting rfl event pending with old | new
      next => exact Or.inl old
      next =>
        rcases List.mem_append.mp new with old | drawn
        next => exact Or.inl ⟨i, pk, rows, held, old⟩
        next =>
          rw [List.mem_singleton.mp drawn]
          exact Or.inr ⟨rfl, Nat.lt_succ_self _⟩
    next =>
      intro first second one two
      rcases pending_inserting rfl first one with old | new
      next => exact Or.inl old
      next =>
        rcases pending_inserting rfl second two with old | also
        next => exact Or.inr (Or.inl old)
        next =>
          rcases List.mem_append.mp new with old | drawn
          next => exact Or.inl ⟨i, pk, rows, held, old⟩
          next =>
            rcases List.mem_append.mp also with old | drawnToo
            next => exact Or.inr (Or.inl ⟨i, pk, rows, held, old⟩)
            next => exact Or.inr (Or.inr ((List.mem_singleton.mp drawn).trans
                (List.mem_singleton.mp drawnToo).symm))
    next => exact fun _ listed => listed
  next pk rows held =>
    cases taken
    constructor
    next => exact Nat.le_refl _
    next =>
      intro event listed
      rcases List.mem_append.mp listed with old | new
      next => exact Or.inl old
      next => exact Or.inr ⟨i, pk, rows, held, new⟩
    next => exact fun event listed => List.mem_append_left _ listed
    next => exact fun event pending => Or.inl (pending_closed (committed_closed _ _) event pending)
    next =>
      exact fun first _ one _ => Or.inl (pending_closed (committed_closed _ _) first one)
    next => exact fun _ listed => listed
  next =>
    cases taken
    exact .of_quiet rfl rfl (pending_closed (by simp))
  next =>
    cases taken
    exact .of_quiet rfl rfl (pending_closed (by simp))
  next =>
    cases taken
    exact .of_quiet rfl rfl (pending_closed (by simp))
  next => cases taken

theorem afterRun_later (j : Nat) (result : RunStep) : Later before (before.afterRun j result) where
  nextId := Nat.le_refl _
  committed := fun _ listed => Or.inl listed
  kept := fun _ listed => listed
  pending := fun _ pending => Or.inl pending
  fresh := fun _ _ pending _ => Or.inl pending
  batches := fun _ listed => List.mem_append_right _ listed

theorem step_later {after : State} {action : Action}
    (taken : step resourcePk before action = some after) : Later before after := by
  cases action with
  | request i action =>
    simp only [step, Option.map_eq_some_iff] at taken
    obtain ⟨result, stepped, rfl⟩ := taken
    exact stepRequest_later stepped
  | run j action =>
    simp only [step, Option.map_eq_some_iff] at taken
    obtain ⟨result, _, rfl⟩ := taken
    exact afterRun_later j result
  | burnId =>
    cases taken
    exact ⟨Nat.le_succ _, fun _ listed => Or.inl listed, fun _ listed => listed,
      fun _ pending => Or.inl pending, fun _ _ pending _ => Or.inl pending, fun _ listed => listed⟩

end Steps

section Offsets

variable (resourcePk : ResourcePk) (state : State)

def Sealed (offset : EventId) : Prop :=
  offset < state.nextId ∧
    ∀ event, Pending state event → event.resourcePk = resourcePk → offset < event.id

def Covered (offset : EventId) : Prop :=
  Sealed resourcePk state offset ∧ ∀ event ∈ state.events, event.resourcePk = resourcePk →
    event.id ≤ offset → HasRun state event

structure Fetched (copy : IndexerState) (events : List ResourceEvent) : Prop where
  covered : Covered resourcePk state copy.lastOffset
  shut : Sealed resourcePk state (lastId events)
  committed : ∀ event ∈ events, event ∈ state.events
  sorted : events.Pairwise fun first second => first.id ≤ second.id
  complete : ∀ event ∈ state.events, event.resourcePk = resourcePk → event.id ≤ lastId events →
    event.id ≤ copy.lastOffset ∨ event ∈ events

def RunSound : Run → Prop
  | .loaded copy => Covered resourcePk state copy.lastOffset
  | .fetched copy events => Fetched resourcePk state copy events
  | _ => True

structure Sound : Prop where
  below : ∀ event, Drawn state event → event.id < state.nextId
  unique : ∀ first second, Drawn state first → Drawn state second → first.id = second.id →
    first = second
  zero : Covered resourcePk state 0
  row : ∀ row, state.row = some row → Covered resourcePk state row.lastOffset
  runs : ∀ j, RunSound resourcePk state (state.runs j)

variable {resourcePk state} {before after : State}

theorem HasRun.later {event : ResourceEvent} (later : Later before after)
    (ran : HasRun before event) : HasRun after event := by
  obtain ⟨batch, listed, rest⟩ := ran
  exact ⟨batch, later.batches batch listed, rest⟩

theorem Sealed.later {offset : EventId} (later : Later before after)
    (shut : Sealed resourcePk before offset) : Sealed resourcePk after offset := by
  refine ⟨Nat.lt_of_lt_of_le shut.1 later.nextId, fun event pending own => ?_⟩
  rcases later.pending event pending with old | ⟨drawn, _⟩
  next => exact shut.2 event old own
  next =>
    rw [drawn]
    exact shut.1

-- Nothing joins the committed events at or below a sealed offset.
theorem Sealed.committed {offset : EventId} (later : Later before after)
    (shut : Sealed resourcePk before offset) {event : ResourceEvent}
    (listed : event ∈ after.events) (own : event.resourcePk = resourcePk)
    (below : event.id ≤ offset) : event ∈ before.events := by
  rcases later.committed event listed with old | pending
  next => exact old
  next => exact absurd (shut.2 event pending own) (Nat.not_lt.mpr below)

theorem Covered.later {offset : EventId} (later : Later before after)
    (covered : Covered resourcePk before offset) : Covered resourcePk after offset := by
  refine ⟨covered.1.later later, fun event listed own below => ?_⟩
  have old := covered.1.committed later listed own below
  exact (covered.2 event old own below).later later

theorem Fetched.later {copy : IndexerState} {events : List ResourceEvent}
    (later : Later before after) (held : Fetched resourcePk before copy events) :
    Fetched resourcePk after copy events where
  covered := held.covered.later later
  shut := held.shut.later later
  committed := fun event listed => later.kept event (held.committed event listed)
  sorted := held.sorted
  complete := fun event listed own below =>
    held.complete event (held.shut.committed later listed own below) own below

theorem RunSound.later {run : Run} (later : Later before after)
    (held : RunSound resourcePk before run) : RunSound resourcePk after run := by
  cases run with
  | loaded copy => exact Covered.later later held
  | fetched copy events => exact Fetched.later later held
  | _ => trivial

theorem Drawn.later {event : ResourceEvent} (later : Later before after)
    (drawn : Drawn after event) : Drawn before event ∨
      event.id = before.nextId ∧ before.nextId < after.nextId := by
  rcases drawn with committed | pending
  next => exact Or.inl (later.committed event committed)
  next =>
    rcases later.pending event pending with old | new
    next => exact Or.inl (Or.inr old)
    next => exact Or.inr new

theorem fresh_eq (later : Later before after)
    (below : ∀ event, Drawn before event → event.id < before.nextId)
    {first second : ResourceEvent} (one : Drawn after first) (two : Drawn after second)
    (new : first.id = before.nextId) (newToo : second.id = before.nextId) : first = second := by
  have undrawn : ∀ event : ResourceEvent, event.id = before.nextId → ¬ Drawn before event :=
    fun event drawn held => absurd drawn (Nat.ne_of_lt (below event held))
  rcases one with committed | pending
  next => exact absurd (later.committed first committed) (undrawn first new)
  next =>
    rcases two with committed | pendingToo
    next => exact absurd (later.committed second committed) (undrawn second newToo)
    next =>
      rcases later.fresh first second pending pendingToo with old | old | same
      next => exact absurd (Or.inr old) (undrawn first new)
      next => exact absurd (Or.inr old) (undrawn second newToo)
      next => exact same

theorem Later.below (later : Later before after)
    (below : ∀ event, Drawn before event → event.id < before.nextId) (event : ResourceEvent)
    (drawn : Drawn after event) : event.id < after.nextId := by
  rcases drawn.later later with old | ⟨new, moved⟩
  next => exact Nat.lt_of_lt_of_le (below event old) later.nextId
  next =>
    rw [new]
    exact moved

-- The ids stay unique: a new one is above all drawn before.
theorem Later.unique (later : Later before after)
    (below : ∀ event, Drawn before event → event.id < before.nextId)
    (unique : ∀ first second, Drawn before first → Drawn before second → first.id = second.id →
      first = second) (first second : ResourceEvent) (one : Drawn after first)
    (two : Drawn after second) (same : first.id = second.id) : first = second := by
  rcases one.later later with old | ⟨new, _⟩
  next =>
    rcases two.later later with also | ⟨new, _⟩
    next => exact unique first second old also same
    next => exact absurd (same.trans new) (Nat.ne_of_lt (below first old))
  next =>
    rcases two.later later with also | ⟨newToo, _⟩
    next => exact absurd (same.symm.trans new) (Nat.ne_of_lt (below second also))
    next => exact fresh_eq later below one two new newToo

theorem Sound.later (later : Later before after) (sound : Sound resourcePk before)
    (row : ∀ row, after.row = some row → Covered resourcePk after row.lastOffset)
    (runs : ∀ j, RunSound resourcePk after (after.runs j)) : Sound resourcePk after where
  below := later.below sound.below
  unique := later.unique sound.below sound.unique
  zero := sound.zero.later later
  row := row
  runs := runs

theorem stepRequest_row {nextId : EventId} {read : Option IndexerState} {request : Request}
    {action : RequestAction} {result : RequestStep}
    (taken : stepRequest resourcePk nextId read request action = some result) :
    result.row = read ∨ ∃ write, result.row = commitWrite read write := by
  unfold stepRequest at taken
  split at taken
  case h_5 write =>
    cases taken
    exact Or.inr ⟨write, rfl⟩
  all_goals
    cases taken
  all_goals exact Or.inl rfl

theorem commitWrite_lastOffset {read : Option IndexerState} {write : RowWrite} {row : IndexerState}
    (written : commitWrite read write = some row) :
    row.lastOffset = 0 ∨ ∃ old, read = some old ∧ row.lastOffset = old.lastOffset := by
  cases write with
  | create =>
    cases read with
    | none =>
      cases written
      exact Or.inl rfl
    | some old =>
      cases written
      exact Or.inr ⟨row, rfl, rfl⟩
  | wake =>
    simp only [commitWrite, Option.map_eq_some_iff] at written
    obtain ⟨old, here, rfl⟩ := written
    exact Or.inr ⟨old, here, rfl⟩
  | leave => exact Or.inr ⟨row, written, rfl⟩

theorem Sound.afterRequest {i : Nat} {action : RequestAction} {result : RequestStep}
    (sound : Sound resourcePk before)
    (taken : stepRequest resourcePk before.nextId before.row (before.requests i) action =
      some result) : Sound resourcePk (before.afterRequest i result) := by
  have later := stepRequest_later taken
  refine sound.later later ?_ fun j => (sound.runs j).later later
  intro row written
  have old : row.lastOffset = 0 ∨ ∃ old, before.row = some old ∧ row.lastOffset = old.lastOffset := by
    rcases stepRequest_row taken with same | ⟨write, committed⟩
    next => exact Or.inr ⟨row, by rw [← same]; exact written, rfl⟩
    next => exact commitWrite_lastOffset (by rw [← committed]; exact written)
  rcases old with new | ⟨read, here, same⟩
  next =>
    rw [new]
    exact sound.zero.later later
  next =>
    rw [same]
    exact (sound.row read here).later later

theorem Fetched.commit {j batchLen : Nat} {outcome : ResourceEvent → Outcome} {copy : IndexerState}
    {events : List ResourceEvent} {reason : Option SkipReason} (sound : Sound resourcePk before)
    (held : Fetched resourcePk before copy events)
    (fits : (byEventId (keptEntries copy.failedEvents copy.lastOffset
      (lastId (events.take batchLen)) ++
        (runEvents outcome copy.lastOffset (events.take batchLen)).failures)).length ≤
          maxRecordedFailedEvents) :
    Covered resourcePk
      (before.afterRun j (commitBatch before.row copy (events.take batchLen) reason outcome))
      (runEvents outcome copy.lastOffset (events.take batchLen)).lastOffset := by
  have later : Later before (before.afterRun j
      (commitBatch before.row copy (events.take batchLen) reason outcome)) := afterRun_later _ _
  have unique : ∀ first ∈ events, ∀ second ∈ events, first.id = second.id → first = second :=
    fun first one second two => sound.unique first second (Or.inl (held.committed first one))
      (Or.inl (held.committed second two))
  rcases runEvents_lastOffset outcome copy.lastOffset (events.take batchLen) with
    stays | ⟨bound, front, moves⟩
  next =>
    rw [stays]
    exact held.covered.later later
  next =>
    rw [moves]
    have reached := le_lastId held.sorted (List.mem_of_mem_take front)
    refine ⟨?_, fun event listed own below => ?_⟩
    next =>
      have shut := held.shut.later later
      exact ⟨Nat.lt_of_le_of_lt reached shut.1, fun event pending own =>
        Nat.lt_of_le_of_lt reached (shut.2 event pending own)⟩
    next =>
      rcases held.complete event listed own (Nat.le_trans below reached) with ran | fetched
      next => exact (held.covered.2 event listed own ran).later later
      next =>
        have inside := mem_take_of_le held.sorted unique fetched front below
        refine ⟨_, List.mem_append_left _ (List.mem_singleton_self _), outcome event, ?_, ?_⟩
        next => exact List.mem_map_of_mem inside
        next =>
          intro errorClass ended
          refine mem_mergeFailedEvents ?_ ?_ fits
          next => exact (mem_failures outcome).mpr ⟨event, inside, errorClass, ended, rfl⟩
          next =>
            intro other failed same
            obtain ⟨again, also, otherClass, endedToo, rfl⟩ := (mem_failures outcome).mp failed
            have one := unique again (List.mem_of_mem_take also) event fetched same
            subst one
            rw [ended] at endedToo
            cases endedToo
            rfl

@[simp]
theorem writeStatus_lastOffset (copy : Option JobStatus) (status : JobStatus) (row : IndexerState) :
    (writeStatus copy status row).lastOffset = row.lastOffset := by
  unfold writeStatus
  split <;> rfl

theorem writeFinal_lastOffset {read : Option IndexerState} {copy : Option JobStatus}
    {status : JobStatus} {record : List FailedEvent} {row : IndexerState}
    (written : writeFinal read copy status record = some row) :
    ∃ old, read = some old ∧ row.lastOffset = old.lastOffset := by
  obtain ⟨old, here, rfl⟩ := Option.map_eq_some_iff.mp written
  exact ⟨old, here, writeStatus_lastOffset copy status old⟩

theorem Sound.afterRun {j : Nat} {result : RunStep} (sound : Sound resourcePk before)
    (row : ∀ row, result.row = some row →
      (∃ old, before.row = some old ∧ row.lastOffset = old.lastOffset) ∨
        Covered resourcePk (before.afterRun j result) row.lastOffset)
    (run : RunSound resourcePk (before.afterRun j result) result.run) :
    Sound resourcePk (before.afterRun j result) := by
  have later : Later before (before.afterRun j result) := afterRun_later j result
  refine sound.later later ?_ ?_
  next =>
    intro written here
    rcases row written here with ⟨old, there, same⟩ | covered
    next =>
      rw [same]
      exact (sound.row old there).later later
    next => exact covered
  next =>
    intro other
    by_cases same : other = j
    next =>
      subst same
      simpa [State.afterRun] using run
    next =>
      simpa [State.afterRun, Function.update_of_ne same] using (sound.runs other).later later

theorem Sound.fetch {j limit : Nat} {copy : IndexerState} (sound : Sound resourcePk before)
    (loaded : before.runs j = .loaded copy)
    (allowed : ∀ event, Pending before event → event.resourcePk = resourcePk →
      lastId (fetchEvents before.events resourcePk copy.lastOffset limit) < event.id) :
    RunSound resourcePk before
      (fetched copy (fetchEvents before.events resourcePk copy.lastOffset limit)) := by
  have covered : Covered resourcePk before copy.lastOffset := by
    have held := sound.runs j
    rw [loaded] at held
    exact held
  have unique : ∀ first ∈ before.events, ∀ second ∈ before.events, first.id = second.id →
      first = second :=
    fun first one second two => sound.unique first second (Or.inl one) (Or.inl two)
  have read : Fetched resourcePk before copy
      (fetchEvents before.events resourcePk copy.lastOffset limit) :=
    { covered
      shut := by
        refine ⟨?_, allowed⟩
        cases last : (fetchEvents before.events resourcePk copy.lastOffset limit).getLast? with
        | none => simpa [lastId, last] using sound.zero.1.1
        | some bound =>
          have listed := (mem_fetchEvents (List.mem_of_getLast? last)).1
          simpa [lastId, last] using sound.below bound (Or.inl listed)
      committed := fun event listed => (mem_fetchEvents listed).1
      sorted := fetchEvents_sorted
      complete := fun event listed own below => by
        rcases Nat.lt_or_ge copy.lastOffset event.id with above | ran
        next => exact Or.inr (mem_fetchEvents_of_le unique listed own above below)
        next => exact Or.inl ran }
  unfold fetched
  split
  next => trivial
  next event rest here =>
    rw [here] at read
    exact read

theorem Sound.run {j : Nat} {action : RunAction} {result : RunStep}
    (sound : Sound resourcePk before)
    (allowed : NothingBehind resourcePk before (.run j action))
    (taken : stepRun resourcePk before.events before.row (before.runs j) action = some result) :
    Sound resourcePk (before.afterRun j result) := by
  have keeps : ∀ run, RunSound resourcePk before run →
      RunSound resourcePk (before.afterRun j result) run :=
    fun run held => held.later (afterRun_later j result)
  unfold stepRun at taken
  split at taken
  next =>
    split at taken
    next =>
      cases taken
      exact sound.afterRun (fun row here => Or.inl ⟨row, here, rfl⟩) trivial
    next => cases taken
  next =>
    obtain ⟨read, here, rfl⟩ := Option.map_eq_some_iff.mp taken
    exact sound.afterRun (fun row same => Or.inl ⟨row, here.trans same, rfl⟩) trivial
  next =>
    cases taken
    exact sound.afterRun (fun row here => Or.inl ⟨row, here, rfl⟩) trivial
  next =>
    cases taken
    refine sound.afterRun (fun row here => Or.inl ?_) trivial
    obtain ⟨old, there, rfl⟩ := Option.map_eq_some_iff.mp here
    exact ⟨old, there, writeStatus_lastOffset _ _ old⟩
  next =>
    obtain ⟨read, here, rfl⟩ := Option.map_eq_some_iff.mp taken
    exact sound.afterRun (fun row same => Or.inl ⟨row, here.trans same, rfl⟩)
      (keeps (.loaded read) (sound.row read here))
  next copy limit loaded =>
    cases taken
    exact sound.afterRun (fun row here => Or.inl ⟨row, here, rfl⟩)
      (keeps _ (sound.fetch loaded (allowed copy loaded)))
  next =>
    split at taken
    next => cases taken
    next =>
      cases taken
      exact sound.afterRun (fun row here => Or.inl ⟨row, here, rfl⟩) trivial
  next copy events batchLen outcome held =>
    split at taken
    next => cases taken
    next =>
      cases taken
      refine sound.afterRun (fun row here => ?_) trivial
      obtain ⟨old, there, rfl⟩ := Option.map_eq_some_iff.mp here
      simp only [writeOffset]
      split
      next => exact Or.inl ⟨old, there, rfl⟩
      next =>
        have fetched : Fetched resourcePk before copy events := by
          have kept := sound.runs j
          rw [held] at kept
          exact kept
        exact Or.inr (fetched.commit sound (allowed copy events held))
  next =>
    cases taken
    exact sound.afterRun (fun row here => Or.inl ⟨row, here, rfl⟩) trivial
  next =>
    cases taken
    exact sound.afterRun (fun row here => Or.inl ⟨row, here, rfl⟩) trivial
  next =>
    cases taken
    exact sound.afterRun (fun row here => Or.inl (writeFinal_lastOffset here)) trivial
  next =>
    cases taken
    exact sound.afterRun (fun row here => Or.inl (writeFinal_lastOffset here)) trivial
  next =>
    cases taken
    exact sound.afterRun (fun row here => Or.inl (writeFinal_lastOffset here)) trivial
  next =>
    cases taken
    exact sound.afterRun (fun row here => Or.inl (writeFinal_lastOffset here)) trivial
  next =>
    cases taken
    exact sound.afterRun (fun row here => Or.inl ⟨row, here, rfl⟩) trivial
  next => cases taken

theorem Sound.step {after : State} {action : Action} (sound : Sound resourcePk before)
    (allowed : NothingBehind resourcePk before action)
    (taken : step resourcePk before action = some after) : Sound resourcePk after := by
  cases action with
  | request i action =>
    obtain ⟨result, stepped, rfl⟩ := Option.map_eq_some_iff.mp taken
    exact sound.afterRequest stepped
  | run j action =>
    obtain ⟨result, stepped, rfl⟩ := Option.map_eq_some_iff.mp taken
    exact sound.run allowed stepped
  | burnId =>
    have later := step_later taken
    cases taken
    exact sound.later later (fun row here => (sound.row row here).later later)
      fun j => (sound.runs j).later later

theorem sound_initial : Sound resourcePk initial := by
  have nothing : ∀ event, ¬ Drawn initial event := by
    rintro event (committed | ⟨i, pk, rows, held, _⟩)
    next => cases committed
    next => cases held
  have zero : Covered resourcePk initial 0 :=
    ⟨⟨Nat.zero_lt_one, fun event pending _ => absurd (Or.inr pending) (nothing event)⟩,
      fun event committed _ _ => absurd (Or.inl committed) (nothing event)⟩
  exact
    { below := fun event drawn => absurd drawn (nothing event)
      unique := fun first _ drawn _ _ => absurd drawn (nothing first)
      zero
      row := fun row here => by cases here
      runs := fun j => trivial }

end Offsets

theorem offset_passes_only_run_events (resourcePk : ResourcePk) (state : State)
    (reached : Runs.Reaches (step resourcePk) (NothingBehind resourcePk) initial state) :
    OffsetLaw resourcePk state := by
  have sound : Sound resourcePk state :=
    reached.invariant (Sound resourcePk) sound_initial fun _ _ _ sound allowed taken =>
      sound.step allowed taken
  intro row here event committed own below
  exact (sound.row row here).2 event committed own below

def jobRun (j : Nat) (outcome : ResourceEvent → Outcome) : List Action :=
  [.run j .pick, .run j .refresh, .run j .mark, .run j .load, .run j (.fetch 100),
    .run j (.commitBatch 100 outcome), .run j .finish]

def ingest (i : Nat) (docIds : List String) : List Action :=
  .request i (.openTransaction 7) ::
    docIds.map (fun docId => .request i (.insertEvent docId)) ++
      [.request i .commitEvents, .request i .readState, .request i .writeState]

theorem offset_passes_only_run_events_two :
    ∃ state, Runs.Reaches (step 7) (NothingBehind 7) initial state ∧
      state.row.map IndexerState.lastOffset = some 2 ∧ OffsetLaw 7 state := by
  let outcome : ResourceEvent → Outcome := fun event =>
    if event.id = 1 then some "QdrantError" else none
  have allowed : Runs.Allowed (step 7) (NothingBehind 7) initial
      (ingest 0 ["doc-1", "doc-2"] ++ jobRun 0 outcome) := by
    iterate 10
      refine ⟨trivial, fun next taken => ?_⟩
      cases taken
    refine ⟨?_, fun next taken => ?_⟩
    next =>
      rintro copy _ event ⟨i, pk, rows, held, _⟩
      simp [State.afterRequest, State.afterRun, initial] at held
    cases taken
    refine ⟨?_, fun next taken => ?_⟩
    next =>
      intro copy events held
      cases held
      decide
    cases taken
    refine ⟨trivial, fun next taken => trivial⟩
  obtain ⟨state, reached, offset⟩ := Runs.Reaches.of_run
    (fun state => state.row.map IndexerState.lastOffset) allowed rfl
  exact ⟨state, reached, offset, offset_passes_only_run_events 7 state reached⟩

-- Event 1 is drawn first and committed after the batch that ran event 2.
def lateCommit : List Action :=
  [.request 0 (.openTransaction 7), .request 0 (.insertEvent "doc-1")] ++ ingest 1 ["doc-2"] ++
    jobRun 0 (fun _ => none) ++ [.request 0 .commitEvents]

theorem offset_passes_late_commit :
    ∃ state, Runs.Reaches (step 7) (fun _ _ => True) initial state ∧ ¬ OffsetLaw 7 state := by
  have seen : (Runs.run (step 7) initial lateCommit).map
      (fun state => (state.row, state.events, state.batches)) =
      some (some ⟨2, .idle, []⟩, [⟨2, 7, "doc-2"⟩, ⟨1, 7, "doc-1"⟩],
        [⟨[(⟨2, 7, "doc-2"⟩, none)], []⟩]) := rfl
  obtain ⟨state, reached, seen⟩ := Runs.Reaches.of_run _
    (Runs.allowed_of_always (fun _ _ => trivial) initial lateCommit) seen
  simp only [Prod.mk.injEq] at seen
  obtain ⟨row, events, batches⟩ := seen
  refine ⟨state, reached, fun law => ?_⟩
  obtain ⟨batch, listed, outcome, ran, _⟩ := law _ row ⟨1, 7, "doc-1"⟩ (by simp [events]) rfl
    (by decide)
  simp only [batches, List.mem_singleton] at listed
  simp [listed] at ran

end MemoryCloud.Indexer
