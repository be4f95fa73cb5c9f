import MemoryCloud.Indexer.Offsets

set_option autoImplicit false

namespace MemoryCloud.Indexer

def Request.InProgress (resourcePk : ResourcePk) : Request → Prop
  | .absent => False
  | .inserting pk _ => pk = resourcePk
  | .stored _ => True
  | .scheduled _ _ => True

-- With no request and no run in progress, an event above the offset finds the row queued.
def WakeupLaw (resourcePk : ResourcePk) (state : State) : Prop :=
  (∀ i, ¬ (state.requests i).InProgress resourcePk) → (∀ j, state.runs j = .absent) →
    ∀ event ∈ state.events, event.resourcePk = resourcePk →
      ∃ row, state.row = some row ∧ (row.lastOffset < event.id → row.jobStatus = .queued)

-- No event and no run fails, no run is killed, no batch is cut by the batch size, and a request
-- whose events are committed goes on to its wake-up.
def Undisturbed (resourcePk : ResourcePk) (state : State) : Action → Prop
  | .request i .abort => ∀ rows write, state.requests i ≠ .stored rows ∧
      state.requests i ≠ .scheduled rows write
  | .run j (.fetch limit) => ∀ copy, state.runs j = .loaded copy →
      (state.events.filter fun event =>
        event.resourcePk = resourcePk ∧ copy.lastOffset < event.id).length ≤ limit
  | .run j (.commitBatch _ outcome) => ∀ copy events, state.runs j = .fetched copy events →
      ∀ event ∈ events, outcome event = none
  | .run _ .failRun => False
  | .run _ .failJob => False
  | .run _ .kill => False
  | _ => True

def Passed (row : Option IndexerState) (event : ResourceEvent) : Prop :=
  ∃ read, row = some read ∧ event.id ≤ read.lastOffset

def Told (row : Option IndexerState) (event : ResourceEvent) : Run → Prop
  | .fetched copy events => event.id ≤ copy.lastOffset ∨ event ∈ events
  | .returned _ reason _ => statusAfter reason = .idle → Passed row event
  | _ => True

-- A request reads the row only when no run that fetched before the request's commit is still short
-- of its last commit; no run parks its events for want of a schema; no batch moves the row's offset
-- back.
def Noticed (state : State) : Action → Prop
  | .request i .readState => ∀ rows, state.requests i = .stored rows → ∀ event ∈ rows, ∀ j,
      Told state.row event (state.runs j)
  | .run _ (.holdBack reason) => reason ≠ .schemaNotFound
  | .run j (.commitBatch batchLen _) => ∀ copy events row, state.runs j = .fetched copy events →
      state.row = some row → row.lastOffset ≤ lastId (events.take batchLen)
  | _ => True

def RowWakes (row : Option IndexerState) (event : ResourceEvent) : Prop :=
  ∃ read, row = some read ∧ (event.id ≤ read.lastOffset ∨ read.jobStatus = .queued)

def Carries (event : ResourceEvent) : Run → Prop
  | .marked => True
  | .loaded copy => copy.jobStatus ≠ .queued
  | .fetched copy events => copy.jobStatus ≠ .queued ∧ event ∈ events
  | .returned status reason _ => status ≠ some .queued ∧ statusAfter reason = .queued
  | _ => False

def MarkedRunning : Run → Prop
  | .marked => True
  | .loaded copy => copy.jobStatus = .running
  | .fetched copy _ => copy.jobStatus = .running
  | .returned status _ _ => status = some .running
  | _ => False

def Behind (row : Option IndexerState) : Run → Prop
  | .absent => True
  | .loaded copy => ∃ read, row = some read ∧ copy.lastOffset ≤ read.lastOffset
  | .fetched copy events => (∃ read, row = some read ∧ copy.lastOffset ≤ read.lastOffset) ∧
      events ≠ [] ∧ events.Pairwise fun first second => first.id ≤ second.id
  | _ => row.isSome = true

def Owed (state : State) (event : ResourceEvent) : Prop :=
  ∃ i rows, state.requests i = .stored rows ∧ event ∈ rows

def RequestWakes (row : Option IndexerState) : Request → Prop
  | .scheduled _ .wake => True
  | .scheduled _ .create => row = none
  | _ => False

def RequestSound (row : Option IndexerState) : Request → Prop
  | .inserting pk rows => ∀ event ∈ rows, event.resourcePk = pk
  | .scheduled _ .wake => row.isSome = true
  | _ => True

def Woken (state : State) (event : ResourceEvent) : Prop :=
  RowWakes state.row event ∨ (∃ i, RequestWakes state.row (state.requests i)) ∨
    ∃ j, Carries event (state.runs j)

structure Alert (resourcePk : ResourcePk) (state : State) : Prop where
  requests : ∀ i, RequestSound state.row (state.requests i)
  behind : ∀ j, Behind state.row (state.runs j)
  told : ∀ event ∈ state.events, event.resourcePk = resourcePk → ¬ Owed state event →
    ∀ j, Told state.row event (state.runs j)
  woken : ∀ event ∈ state.events, event.resourcePk = resourcePk → ¬ Owed state event →
    Woken state event
  running : state.row.map IndexerState.jobStatus = some .running →
    ∃ j, MarkedRunning (state.runs j)
  working : state.row.map IndexerState.jobStatus ≠ some .failed

def RowGrows (before after : Option IndexerState) : Prop :=
  ∀ read, before = some read → ∃ written, after = some written ∧
    read.lastOffset ≤ written.lastOffset

structure RunKept (resourcePk : ResourcePk) (before : State) (j : Nat) (result : RunStep) :
    Prop where
  stays : result.row.isSome = before.row.isSome
  grows : RowGrows before.row result.row
  behind : Behind result.row result.run
  told : ∀ event ∈ before.events, event.resourcePk = resourcePk → ¬ Owed before event →
    Told result.row event result.run
  woken : ∀ event ∈ before.events, event.resourcePk = resourcePk → ¬ Owed before event →
    Carries event (before.runs j) ∨ RowWakes before.row event →
      Carries event result.run ∨ RowWakes result.row event
  running : result.row.map IndexerState.jobStatus = some .running → MarkedRunning result.run ∨
    before.row.map IndexerState.jobStatus = some .running ∧ ¬ MarkedRunning (before.runs j)
  working : result.row.map IndexerState.jobStatus ≠ some .failed

section Growth

variable {before after : Option IndexerState}

theorem RowGrows.refl (row : Option IndexerState) : RowGrows row row :=
  fun read here => ⟨read, here, Nat.le_refl _⟩

theorem RowGrows.isSome (grows : RowGrows before after) (present : before.isSome = true) :
    after.isSome = true := by
  obtain ⟨read, here⟩ := Option.isSome_iff_exists.mp present
  obtain ⟨written, there, _⟩ := grows read here
  simp [there]

theorem Passed.grows {event : ResourceEvent} (grows : RowGrows before after)
    (passed : Passed before event) : Passed after event := by
  obtain ⟨read, here, below⟩ := passed
  obtain ⟨written, there, more⟩ := grows read here
  exact ⟨written, there, Nat.le_trans below more⟩

theorem Told.grows {event : ResourceEvent} {run : Run} (grows : RowGrows before after)
    (told : Told before event run) : Told after event run := by
  cases run with
  | fetched copy events => exact told
  | returned status reason record => exact fun idle => (told idle).grows grows
  | _ => trivial

theorem Behind.grows {run : Run} (grows : RowGrows before after) (held : Behind before run) :
    Behind after run := by
  have copyGrows : ∀ offset : EventId, (∃ read, before = some read ∧ offset ≤ read.lastOffset) →
      ∃ read, after = some read ∧ offset ≤ read.lastOffset := by
    rintro offset ⟨read, here, below⟩
    obtain ⟨written, there, more⟩ := grows read here
    exact ⟨written, there, Nat.le_trans below more⟩
  cases run with
  | absent => trivial
  | loaded copy => exact copyGrows _ held
  | fetched copy events => exact ⟨copyGrows _ held.1, held.2⟩
  | picked => exact grows.isSome held
  | refreshed status => exact grows.isSome held
  | marked => exact grows.isSome held
  | returned status reason record => exact grows.isSome held

end Growth

section RunSteps

variable {resourcePk : ResourcePk} {before : State}

theorem update_cases {α : Type} (f : Nat → α) (j : Nat) (value : α) (other : Nat) :
    Function.update f j value other = value ∧ other = j ∨
      Function.update f j value other = f other ∧ other ≠ j := by
  by_cases same : other = j
  next =>
    subst same
    exact Or.inl ⟨Function.update_self .., rfl⟩
  next => exact Or.inr ⟨Function.update_of_ne same .., same⟩

theorem Alert.afterRun {j : Nat} {result : RunStep} (alert : Alert resourcePk before)
    (kept : RunKept resourcePk before j result) : Alert resourcePk (before.afterRun j result) where
  requests := by
    intro i
    have held := alert.requests i
    simp only [State.afterRun]
    cases request : before.requests i with
    | scheduled rows write =>
      rw [request] at held
      cases write with
      | wake => simpa [RequestSound, kept.stays] using held
      | _ => trivial
    | inserting pk rows =>
      rw [request] at held
      exact held
    | _ => trivial
  behind := by
    intro other
    simp only [State.afterRun]
    rcases update_cases before.runs j result.run other with ⟨here, _⟩ | ⟨there, _⟩
    next =>
      rw [here]
      exact kept.behind
    next =>
      rw [there]
      exact (alert.behind other).grows kept.grows
  told := by
    intro event committed own unowed other
    simp only [State.afterRun]
    rcases update_cases before.runs j result.run other with ⟨here, _⟩ | ⟨there, _⟩
    next =>
      rw [here]
      exact kept.told event committed own unowed
    next =>
      rw [there]
      exact (alert.told event committed own unowed other).grows kept.grows
  woken := by
    intro event committed own unowed
    have moved := kept.woken event committed own unowed
    have onward : Carries event (before.runs j) ∨ RowWakes before.row event →
        Woken (before.afterRun j result) event := by
      intro source
      rcases moved source with carried | row
      next => exact Or.inr (Or.inr ⟨j, by simpa [State.afterRun] using carried⟩)
      next => exact Or.inl row
    rcases alert.woken event committed own unowed with row | ⟨i, request⟩ | ⟨other, carried⟩
    next => exact onward (Or.inr row)
    next =>
      refine Or.inr (Or.inl ⟨i, ?_⟩)
      simp only [State.afterRun]
      cases held : before.requests i with
      | scheduled rows write =>
        rw [held] at request
        cases write with
        | wake => trivial
        | create =>
          have absent : before.row = none := request
          have stays := kept.stays
          rw [absent] at stays
          exact Option.isSome_eq_false_iff.mp stays |> Option.isNone_iff_eq_none.mp
        | leave => exact request
      | _ =>
        rw [held] at request
        exact request
    next =>
      by_cases same : other = j
      next =>
        subst same
        exact onward (Or.inl carried)
      next =>
        exact Or.inr (Or.inr ⟨other, by simpa [State.afterRun, Function.update_of_ne same]⟩)
  running := by
    intro running
    rcases kept.running running with marked | ⟨was, unmarked⟩
    next => exact ⟨j, by simpa [State.afterRun] using marked⟩
    next =>
      obtain ⟨other, marked⟩ := alert.running was
      have different : other ≠ j := by
        rintro rfl
        exact unmarked marked
      exact ⟨other, by simpa [State.afterRun, Function.update_of_ne different] using marked⟩
  working := kept.working

theorem RunKept.of_run {j : Nat} {run : Run} {batches : List Batch}
    (alert : Alert resourcePk before) (behind : Behind before.row run)
    (told : ∀ event ∈ before.events, event.resourcePk = resourcePk → ¬ Owed before event →
      Told before.row event run)
    (woken : ∀ event ∈ before.events, event.resourcePk = resourcePk →
      Carries event (before.runs j) → Carries event run ∨ RowWakes before.row event)
    (running : before.row.map IndexerState.jobStatus = some .running →
      MarkedRunning (before.runs j) → MarkedRunning run) :
    RunKept resourcePk before j { run, row := before.row, batches } where
  stays := rfl
  grows := RowGrows.refl _
  behind := behind
  told := told
  woken := by
    rintro event committed own _ (carried | row)
    next => exact woken event committed own carried
    next => exact Or.inr row
  running := by
    intro status
    by_cases marked : MarkedRunning (before.runs j)
    next => exact Or.inl (running status marked)
    next => exact Or.inr ⟨status, marked⟩
  working := alert.working

@[simp]
theorem writeStatus_jobStatus (copy : Option JobStatus) (status : JobStatus) (row : IndexerState)
    (differs : copy ≠ some status) : (writeStatus copy status row).jobStatus = status := by
  simp [writeStatus, differs]

theorem RunKept.mark {j : Nat} {status : JobStatus} (alert : Alert resourcePk before)
    (held : before.runs j = .refreshed status) :
    RunKept resourcePk before j
      { run := .marked, row := before.row.map (writeStatus (some status) .running), batches := [] } := by
  have present : before.row.isSome = true := by
    have behind := alert.behind j
    rw [held] at behind
    exact behind
  obtain ⟨read, here⟩ := Option.isSome_iff_exists.mp present
  constructor
  next => simp
  next =>
    intro old there
    rw [there]
    exact ⟨_, rfl, by simp⟩
  next => simp [Behind, here]
  next => exact fun _ _ _ _ => trivial
  next => exact fun _ _ _ _ _ => Or.inl trivial
  next => exact fun _ => Or.inl trivial
  next =>
    have working := alert.working
    simp only [here, Option.map_some] at working ⊢
    unfold writeStatus
    split
    next => exact working
    next => simp

theorem RunKept.load {j : Nat} {read : IndexerState} (alert : Alert resourcePk before)
    (here : before.row = some read) :
    RunKept resourcePk before j { run := .loaded read, row := before.row, batches := [] } := by
  refine .of_run alert ⟨read, here, Nat.le_refl _⟩ (fun _ _ _ _ => trivial) ?_ ?_
  next =>
    intro event _ _ _
    by_cases queued : read.jobStatus = .queued
    next => exact Or.inr ⟨read, here, Or.inr queued⟩
    next => exact Or.inl queued
  next =>
    intro status _
    rw [here] at status
    simpa [MarkedRunning] using status

theorem mem_fetchEvents_all {events : List ResourceEvent} {afterId : EventId} {limit : Nat}
    (uncut : (events.filter fun event =>
      event.resourcePk = resourcePk ∧ afterId < event.id).length ≤ limit)
    {event : ResourceEvent} (committed : event ∈ events) (own : event.resourcePk = resourcePk)
    (above : afterId < event.id) : event ∈ fetchEvents events resourcePk afterId limit := by
  rw [fetchEvents, List.take_of_length_le (by simpa using uncut), List.mem_insertionSort,
    List.mem_filter]
  exact ⟨committed, by simp [own, above]⟩

theorem RunKept.fetch {j limit : Nat} {copy : IndexerState} (alert : Alert resourcePk before)
    (held : before.runs j = .loaded copy)
    (uncut : (before.events.filter fun event =>
      event.resourcePk = resourcePk ∧ copy.lastOffset < event.id).length ≤ limit) :
    RunKept resourcePk before j
      { run := fetched copy (fetchEvents before.events resourcePk copy.lastOffset limit)
        row := before.row
        batches := [] } := by
  have behind : ∃ read, before.row = some read ∧ copy.lastOffset ≤ read.lastOffset := by
    have kept := alert.behind j
    rw [held] at kept
    exact kept
  obtain ⟨read, here, below⟩ := behind
  have reached : ∀ event ∈ before.events, event.resourcePk = resourcePk →
      event.id ≤ copy.lastOffset ∨
        event ∈ fetchEvents before.events resourcePk copy.lastOffset limit := by
    intro event committed own
    rcases Nat.lt_or_ge copy.lastOffset event.id with above | passed
    next => exact Or.inr (mem_fetchEvents_all uncut committed own above)
    next => exact Or.inl passed
  have sorted : (fetchEvents before.events resourcePk copy.lastOffset limit).Pairwise
      fun first second => first.id ≤ second.id := fetchEvents_sorted
  have marked : MarkedRunning (before.runs j) → copy.jobStatus = .running := by
    rw [held]
    exact id
  have carries : ∀ event, Carries event (before.runs j) → copy.jobStatus ≠ .queued := by
    rw [held]
    exact fun _ => id
  cases found : fetchEvents before.events resourcePk copy.lastOffset limit with
  | nil =>
    have passed : ∀ event ∈ before.events, event.resourcePk = resourcePk →
        event.id ≤ read.lastOffset := by
      intro event committed own
      rcases reached event committed own with low | listed
      next => exact Nat.le_trans low below
      next =>
        rw [found] at listed
        cases listed
    refine .of_run alert (by simp [fetched, Behind, here]) ?_ ?_ ?_
    next => exact fun event committed own _ _ => ⟨read, here, passed event committed own⟩
    next =>
      exact fun event committed own _ => Or.inr ⟨read, here, Or.inl (passed event committed own)⟩
    next => exact fun _ was => by simp [fetched, MarkedRunning, marked was]
  | cons first rest =>
    rw [found] at reached sorted
    refine .of_run alert ⟨⟨read, here, below⟩, by simp, sorted⟩ ?_ ?_ ?_
    next => exact fun event committed own _ => reached event committed own
    next =>
      intro event committed own carried
      rcases reached event committed own with low | listed
      next => exact Or.inr ⟨read, here, Or.inl (Nat.le_trans low below)⟩
      next => exact Or.inl ⟨carries event carried, listed⟩
    next => exact fun _ was => marked was

theorem RunKept.holdBack {j : Nat} {copy : IndexerState} {events : List ResourceEvent}
    {reason : SkipReason} (alert : Alert resourcePk before)
    (held : before.runs j = .fetched copy events) (pending : reason ≠ .noPendingEvents)
    (schema : reason ≠ .schemaNotFound) :
    RunKept resourcePk before j
      { run := .returned (some copy.jobStatus) (some reason) copy.failedEvents
        row := before.row
        batches := [] } := by
  have again : statusAfter (some reason) = .queued := by
    cases reason <;> simp_all [statusAfter]
  have behind := alert.behind j
  rw [held] at behind
  obtain ⟨⟨read, here, _⟩, _⟩ := behind
  refine .of_run alert (by simp [Behind, here]) ?_ ?_ ?_
  next =>
    intro event _ _ _ idle
    rw [again] at idle
    cases idle
  next =>
    intro event _ _ carried
    rw [held] at carried
    exact Or.inl ⟨by simpa using carried.1, again⟩
  next =>
    intro _ was
    rw [held] at was
    simpa [MarkedRunning] using was

theorem runEvents_applied {outcome : ResourceEvent → Outcome} {lastOffset : EventId}
    {events : List ResourceEvent} (some_event : events ≠ [])
    (applied : ∀ event ∈ events, outcome event = none) :
    (runEvents outcome lastOffset events).lastOffset = lastId events := by
  induction events using List.reverseRecOn with
  | nil => exact absurd rfl some_event
  | append_singleton front last _ =>
    rw [runEvents_append]
    simp [runEvent, applied last, lastId]

theorem RunKept.commitBatch {j batchLen : Nat} {copy : IndexerState} {events : List ResourceEvent}
    {outcome : ResourceEvent → Outcome} (alert : Alert resourcePk before)
    (held : before.runs j = .fetched copy events) (positive : batchLen ≠ 0)
    (applied : ∀ event ∈ events, outcome event = none)
    (forward : ∀ row, before.row = some row → row.lastOffset ≤ lastId (events.take batchLen)) :
    RunKept resourcePk before j (Indexer.commitBatch before.row copy (events.take batchLen)
      (batchReason events batchLen) outcome) := by
  have behind := alert.behind j
  rw [held] at behind
  obtain ⟨⟨read, here, below⟩, nonempty, sorted⟩ := behind
  have reached : (runEvents outcome copy.lastOffset (events.take batchLen)).lastOffset =
      lastId (events.take batchLen) :=
    runEvents_applied (by simp [positive, nonempty])
      fun event listed => applied event (List.mem_of_mem_take listed)
  have ahead := forward read here
  -- The offset written, or left because the copy already held it.
  have offset : (writeOffset copy.lastOffset (lastId (events.take batchLen)) read).lastOffset =
      lastId (events.take batchLen) := by
    unfold writeOffset
    split
    next same => exact Nat.le_antisymm ahead (by rw [← same]; exact below)
    next => rfl
  have status : (writeOffset copy.lastOffset (lastId (events.take batchLen)) read).jobStatus =
      read.jobStatus := by
    unfold writeOffset
    split <;> rfl
  have told := fun event committed own unowed => alert.told event committed own unowed j
  rw [held] at told
  -- A batch that is not cut has moved the offset past everything the run was to see.
  have passed : ¬ batchLen < events.length → ∀ event ∈ before.events,
      event.resourcePk = resourcePk → ¬ Owed before event →
        event.id ≤ lastId (events.take batchLen) := by
    intro whole event committed own unowed
    rcases told event committed own unowed with low | listed
    next => exact Nat.le_trans low (Nat.le_trans below ahead)
    next =>
      rw [List.take_of_length_le (Nat.not_lt.mp whole)]
      exact le_lastId sorted listed
  constructor
  next => simp [Indexer.commitBatch]
  next =>
    intro old there
    rw [here] at there
    cases there
    exact ⟨_, by simp [Indexer.commitBatch, here]; rfl, by simpa [reached, offset] using ahead⟩
  next => simp [Indexer.commitBatch, Behind, here]
  next =>
    intro event committed own unowed idle
    have whole : ¬ batchLen < events.length := by
      intro cut
      simp [batchReason, cut, statusAfter] at idle
    refine ⟨_, by simp [Indexer.commitBatch, here]; rfl, ?_⟩
    simpa [reached, offset] using passed whole event committed own unowed
  next =>
    intro event committed own unowed source
    by_cases cut : batchLen < events.length
    next =>
      rcases source with carried | ⟨old, there, wakes⟩
      next =>
        rw [held] at carried
        refine Or.inl ⟨by simpa using carried.1, ?_⟩
        simp [batchReason, cut, statusAfter]
      next =>
        rw [here] at there
        cases there
        refine Or.inr ⟨_, by simp [Indexer.commitBatch, here]; rfl, ?_⟩
        rcases wakes with low | queued
        next => exact Or.inl (by simpa [reached, offset] using Nat.le_trans low ahead)
        next => exact Or.inr (by simpa [reached, status] using queued)
    next =>
      refine Or.inr ⟨_, by simp [Indexer.commitBatch, here]; rfl, Or.inl ?_⟩
      simpa [reached, offset] using passed cut event committed own unowed
  next =>
    intro running
    have was : before.row.map IndexerState.jobStatus = some .running := by
      simpa [Indexer.commitBatch, here, reached, status] using running
    by_cases marked : MarkedRunning (before.runs j)
    next =>
      rw [held] at marked
      exact Or.inl (by simpa [Indexer.commitBatch, MarkedRunning] using marked)
    next => exact Or.inr ⟨was, marked⟩
  next =>
    have working := alert.working
    simpa [Indexer.commitBatch, here, reached, status] using working

theorem statusAfter_cases (reason : Option SkipReason) :
    statusAfter reason = .idle ∨ statusAfter reason = .queued := by
  rcases reason with _ | reason
  next => exact Or.inl rfl
  next => cases reason <;> simp [statusAfter]

theorem RunKept.finish {j : Nat} {status : Option JobStatus} {reason : Option SkipReason}
    {record : List FailedEvent} (alert : Alert resourcePk before)
    (held : before.runs j = .returned status reason record) :
    RunKept resourcePk before j
      { run := .absent
        row := writeFinal before.row status (statusAfter reason) record
        batches := [] } := by
  have present := alert.behind j
  rw [held] at present
  obtain ⟨read, here⟩ := Option.isSome_iff_exists.mp present
  have told := fun event committed own unowed => alert.told event committed own unowed j
  rw [held] at told
  constructor
  next => simp [writeFinal]
  next =>
    intro old there
    rw [here] at there
    cases there
    exact ⟨_, by simp [writeFinal, here]; rfl, by simp⟩
  next => trivial
  next => exact fun _ _ _ _ => trivial
  next =>
    intro event committed own unowed source
    refine Or.inr ⟨_, by simp [writeFinal, here]; rfl, ?_⟩
    rcases statusAfter_cases reason with idle | queued
    next =>
      obtain ⟨old, there, low⟩ := told event committed own unowed idle
      rw [here] at there
      cases there
      exact Or.inl (by simpa using low)
    next =>
      by_cases same : status = some .queued
      next =>
        rcases source with carried | ⟨old, there, wakes⟩
        next =>
          rw [held] at carried
          exact absurd same carried.1
        next =>
          rw [here] at there
          cases there
          simpa [writeStatus, queued, same] using wakes
      next => exact Or.inr (by simp [queued, same])
  next =>
    intro running
    by_cases same : status = some (statusAfter reason)
    next =>
      refine Or.inr ⟨by simpa [writeFinal, here, writeStatus, same] using running, ?_⟩
      rw [held]
      intro marked
      rw [MarkedRunning, same] at marked
      rcases statusAfter_cases reason with idle | queued
      next => simp [idle] at marked
      next => simp [queued] at marked
    next =>
      simp only [writeFinal, here, Option.map_some, writeStatus, same, if_false] at running
      rcases statusAfter_cases reason with idle | queued
      next => simp [idle] at running
      next => simp [queued] at running
  next =>
    have working := alert.working
    rw [here] at working
    by_cases same : status = some (statusAfter reason)
    next => simpa [writeFinal, here, writeStatus, same] using working
    next =>
      rcases statusAfter_cases reason with idle | queued
      next => simp_all [writeFinal, writeStatus]
      next => simp_all [writeFinal, writeStatus]

theorem Alert.run {j : Nat} {action : RunAction} {result : RunStep}
    (alert : Alert resourcePk before)
    (undisturbed : Undisturbed resourcePk before (.run j action))
    (noticed : Noticed before (.run j action))
    (taken : stepRun resourcePk before.events before.row (before.runs j) action = some result) :
    RunKept resourcePk before j result := by
  unfold stepRun at taken
  split at taken
  next held =>
    split at taken
    next queued =>
      cases taken
      refine .of_run alert ?_ (fun _ _ _ _ => trivial) ?_ ?_
      next =>
        cases here : before.row with
        | none => simp [here] at queued
        | some read => rfl
      next =>
        intro event _ _ carried
        rw [held] at carried
        cases carried
      next =>
        intro status
        rw [queued] at status
        cases status
    next => cases taken
  next held =>
    obtain ⟨read, here, rfl⟩ := Option.map_eq_some_iff.mp taken
    rw [← here]
    refine .of_run alert (by simp [Behind, here]) (fun _ _ _ _ => trivial) ?_ ?_
    next =>
      intro event _ _ carried
      rw [held] at carried
      cases carried
    next =>
      intro _ marked
      rw [held] at marked
      cases marked
  next held =>
    cases taken
    refine .of_run alert trivial (fun _ _ _ _ => trivial) ?_ ?_
    next =>
      intro event _ _ carried
      rw [held] at carried
      cases carried
    next =>
      intro _ marked
      rw [held] at marked
      cases marked
  next status held =>
    cases taken
    exact .mark alert held
  next =>
    obtain ⟨read, here, rfl⟩ := Option.map_eq_some_iff.mp taken
    rw [← here]
    exact .load alert here
  next copy limit held =>
    cases taken
    exact .fetch alert held (undisturbed copy held)
  next copy events reason held =>
    split at taken
    next => cases taken
    next pending =>
      cases taken
      exact .holdBack alert held pending noticed
  next copy events batchLen outcome held =>
    split at taken
    next => cases taken
    next positive =>
      cases taken
      exact .commitBatch alert held positive (undisturbed copy events held)
        fun row => noticed copy events row held
  case h_14 status reason record held =>
    cases taken
    exact .finish alert held
  case h_16 => cases taken
  all_goals exact undisturbed.elim

end RunSteps

section RequestSteps

variable {resourcePk : ResourcePk} {before : State}

-- What a request held back from the row before its step is still owed, or released by it.
theorem owed_before {i : Nat} {result : RequestStep} {event : ResourceEvent}
    (unowed : ¬ Owed (before.afterRequest i result) event) (owed : Owed before event) :
    ∃ rows, before.requests i = .stored rows ∧ event ∈ rows := by
  obtain ⟨other, rows, held, listed⟩ := owed
  by_cases same : other = i
  next =>
    subst same
    exact ⟨rows, held, listed⟩
  next =>
    refine absurd ⟨other, rows, ?_, listed⟩ unowed
    simpa [State.afterRequest, Function.update_of_ne same] using held

theorem committed_before {i : Nat} {result : RequestStep} {event : ResourceEvent}
    (owes : ∀ event ∈ result.committed, event.resourcePk = resourcePk →
      ∃ rows, result.request = .stored rows ∧ event ∈ rows)
    (unowed : ¬ Owed (before.afterRequest i result) event) (own : event.resourcePk = resourcePk)
    (committed : event ∈ (before.afterRequest i result).events) : event ∈ before.events := by
  rcases List.mem_append.mp committed with old | new
  next => exact old
  next =>
    obtain ⟨rows, held, listed⟩ := owes event new own
    exact absurd ⟨i, rows, by simpa [State.afterRequest] using held, listed⟩ unowed

theorem Alert.afterRequest {i : Nat} {result : RequestStep} (alert : Alert resourcePk before)
    (same : result.row = before.row) (sound : RequestSound before.row result.request)
    (owes : ∀ event ∈ result.committed, event.resourcePk = resourcePk →
      ∃ rows, result.request = .stored rows ∧ event ∈ rows)
    (released : ∀ rows, before.requests i = .stored rows → ∀ event ∈ rows,
      (∀ j, Told before.row event (before.runs j)) ∧
        (RowWakes before.row event ∨ RequestWakes before.row result.request ∨
          ∃ j, Carries event (before.runs j)))
    (wakes : RequestWakes before.row (before.requests i) →
      RequestWakes before.row result.request) :
    Alert resourcePk (before.afterRequest i result) where
  requests := by
    intro other
    simp only [State.afterRequest, same]
    rcases update_cases before.requests i result.request other with ⟨here, _⟩ | ⟨there, _⟩
    next =>
      rw [here]
      exact sound
    next =>
      rw [there]
      exact alert.requests other
  behind := by
    intro j
    simp only [State.afterRequest, same]
    exact alert.behind j
  told := by
    intro event committed own unowed j
    have old := committed_before owes unowed own committed
    simp only [State.afterRequest, same]
    by_cases owed : Owed before event
    next =>
      obtain ⟨rows, held, listed⟩ := owed_before unowed owed
      exact (released rows held event listed).1 j
    next => exact alert.told event old own owed j
  woken := by
    intro event committed own unowed
    have old := committed_before owes unowed own committed
    have here : RequestWakes before.row result.request → ∃ other, RequestWakes before.row
        (Function.update before.requests i result.request other) := by
      intro held
      exact ⟨i, by simpa using held⟩
    simp only [Woken, State.afterRequest, same]
    by_cases owed : Owed before event
    next =>
      obtain ⟨rows, held, listed⟩ := owed_before unowed owed
      rcases (released rows held event listed).2 with row | request | run
      next => exact Or.inl row
      next => exact Or.inr (Or.inl (here request))
      next => exact Or.inr (Or.inr run)
    next =>
      rcases alert.woken event old own owed with row | ⟨other, request⟩ | run
      next => exact Or.inl row
      next =>
        refine Or.inr (Or.inl ?_)
        by_cases this : other = i
        next =>
          subst this
          exact here (wakes request)
        next => exact ⟨other, by simpa [Function.update_of_ne this] using request⟩
      next => exact Or.inr (Or.inr run)
  running := by
    simp only [State.afterRequest, same]
    exact alert.running
  working := by
    simp only [State.afterRequest, same]
    exact alert.working

theorem Alert.queued {i : Nat} {nextId : EventId} {rows : List ResourceEvent} {write : RowWrite}
    {written : IndexerState} (alert : Alert resourcePk before)
    (held : before.requests i = .scheduled rows write) (grows : RowGrows before.row (some written))
    (queued : written.jobStatus = .queued) :
    Alert resourcePk (before.afterRequest i
      { request := .absent, row := some written, nextId, committed := [] }) where
  requests := by
    intro other
    simp only [State.afterRequest]
    rcases update_cases before.requests i .absent other with ⟨here, _⟩ | ⟨there, _⟩
    next =>
      rw [here]
      trivial
    next =>
      rw [there]
      have sound := alert.requests other
      cases request : before.requests other with
      | inserting pk rows =>
        rw [request] at sound
        exact sound
      | scheduled rows write =>
        cases write with
        | wake => rfl
        | _ => trivial
      | _ => trivial
  behind := fun j => (alert.behind j).grows grows
  told := by
    intro event committed own unowed j
    have owed : ¬ Owed before event := by
      intro owed
      obtain ⟨stored, here, _⟩ := owed_before unowed owed
      rw [held] at here
      cases here
    simp only [State.afterRequest, List.append_nil] at committed
    exact (alert.told event committed own owed j).grows grows
  woken := fun event _ _ _ => Or.inl ⟨written, rfl, Or.inr queued⟩
  running := by
    intro running
    simp [State.afterRequest, queued] at running
  working := by simp [State.afterRequest, queued]

-- The row a request reads brings its events to a run, or the request or a run in progress does.
theorem Alert.read {rows : List ResourceEvent} {event : ResourceEvent}
    (alert : Alert resourcePk before) (told : ∀ j, Told before.row event (before.runs j)) :
    RowWakes before.row event ∨
      RequestWakes before.row (.scheduled rows (scheduleIndexer before.row)) ∨
        ∃ j, Carries event (before.runs j) := by
  cases here : before.row with
  | none => exact Or.inr (Or.inl rfl)
  | some row =>
    cases status : row.jobStatus with
    | idle => exact Or.inr (Or.inl (by simp [scheduleIndexer, status, RequestWakes]))
    | queued => exact Or.inl ⟨row, rfl, Or.inr status⟩
    | failed => exact absurd (by simp [here, status]) alert.working
    | running =>
      obtain ⟨j, marked⟩ := alert.running (by simp [here, status])
      have seen := told j
      have behind := alert.behind j
      rw [here] at seen behind
      cases run : before.runs j with
      | marked => exact Or.inr (Or.inr ⟨j, by rw [run]; trivial⟩)
      | loaded copy =>
        rw [run] at marked
        refine Or.inr (Or.inr ⟨j, ?_⟩)
        rw [MarkedRunning] at marked
        simp [run, Carries, marked]
      | fetched copy events =>
        rw [run] at marked seen behind
        rw [MarkedRunning] at marked
        rcases seen with low | listed
        next =>
          obtain ⟨⟨read, same, more⟩, _⟩ := behind
          exact Or.inl ⟨read, same, Or.inl (Nat.le_trans low more)⟩
        next => exact Or.inr (Or.inr ⟨j, by simp [run, Carries, marked, listed]⟩)
      | returned copy reason record =>
        rw [run] at marked seen
        rw [MarkedRunning] at marked
        rcases statusAfter_cases reason with idle | queued
        next =>
          obtain ⟨read, same, low⟩ := seen idle
          exact Or.inl ⟨read, same, Or.inl low⟩
        next => exact Or.inr (Or.inr ⟨j, by simp [run, Carries, marked, queued]⟩)
      | _ =>
        rw [run] at marked
        cases marked

theorem Alert.write {i : Nat} {rows : List ResourceEvent} {write : RowWrite}
    (alert : Alert resourcePk before) (held : before.requests i = .scheduled rows write) :
    Alert resourcePk (before.afterRequest i
      { request := .absent
        row := commitWrite before.row write
        nextId := before.nextId
        committed := [] }) := by
  have unstored : ∀ stored, before.requests i ≠ .stored stored := by simp [held]
  cases write with
  | leave =>
    refine alert.afterRequest rfl trivial (fun _ listed => by cases listed) ?_ ?_
    next => exact fun stored same => absurd same (unstored stored)
    next => simp [held, RequestWakes]
  | wake =>
    have present := alert.requests i
    rw [held] at present
    obtain ⟨row, here⟩ := Option.isSome_iff_exists.mp present
    rw [here]
    refine alert.queued held ?_ rfl
    intro read same
    rw [here] at same
    cases same
    exact ⟨_, rfl, Nat.le_refl _⟩
  | create =>
    cases here : before.row with
    | none =>
      refine alert.queued held ?_ rfl
      intro read same
      rw [here] at same
      cases same
    | some row =>
      refine alert.afterRequest here.symm trivial (fun _ listed => by cases listed) ?_ ?_
      next => exact fun stored same => absurd same (unstored stored)
      next => simp [held, RequestWakes, here]

theorem Alert.request {i : Nat} {action : RequestAction} {result : RequestStep}
    (alert : Alert resourcePk before)
    (undisturbed : Undisturbed resourcePk before (.request i action))
    (noticed : Noticed before (.request i action))
    (taken : stepRequest resourcePk before.nextId before.row (before.requests i) action =
      some result) : Alert resourcePk (before.afterRequest i result) := by
  unfold stepRequest at taken
  split at taken
  next held =>
    cases taken
    refine alert.afterRequest rfl (fun _ listed => by cases listed) (fun _ listed => by cases listed)
      ?_ ?_ <;> simp [held, RequestWakes]
  next pk rows docId held =>
    cases taken
    have sound := alert.requests i
    rw [held] at sound
    refine alert.afterRequest rfl ?_ (fun _ listed => by cases listed) ?_ ?_
    next =>
      intro event listed
      rcases List.mem_append.mp listed with old | new
      next => exact sound event old
      next => rw [List.mem_singleton.mp new]
    next => simp [held]
    next => simp [held, RequestWakes]
  next pk rows held =>
    cases taken
    have sound := alert.requests i
    rw [held] at sound
    refine alert.afterRequest rfl ?_ ?_ ?_ ?_
    next =>
      dsimp only
      split <;> trivial
    next =>
      intro event listed own
      have same : pk = resourcePk := by rw [← sound event listed, own]
      exact ⟨rows, by simp [same, List.ne_nil_of_mem listed], listed⟩
    next => simp [held]
    next => simp [held, RequestWakes]
  next rows held =>
    cases taken
    refine alert.afterRequest rfl ?_ (fun _ listed => by cases listed) ?_ ?_
    next =>
      cases here : before.row with
      | none => trivial
      | some row =>
        simp only [scheduleIndexer]
        split <;> trivial
    next =>
      intro stored same event listed
      rw [held] at same
      cases same
      have told := noticed rows held event listed
      exact ⟨told, alert.read told⟩
    next => simp [held, RequestWakes]
  next rows write held =>
    cases taken
    exact alert.write held
  next =>
    cases taken
    refine alert.afterRequest rfl trivial (fun _ listed => by cases listed) ?_ ?_
    next =>
      intro rows held
      exact absurd held (undisturbed rows .leave).1
    next =>
      intro wakes
      cases held : before.requests i with
      | scheduled rows write => exact absurd held (undisturbed rows write).2
      | _ =>
        rw [held] at wakes
        exact wakes
  next => cases taken

end RequestSteps

theorem Alert.step {resourcePk : ResourcePk} {before after : State} {action : Action}
    (alert : Alert resourcePk before) (undisturbed : Undisturbed resourcePk before action)
    (noticed : Noticed before action) (taken : step resourcePk before action = some after) :
    Alert resourcePk after := by
  cases action with
  | request i action =>
    obtain ⟨result, stepped, rfl⟩ := Option.map_eq_some_iff.mp taken
    exact alert.request undisturbed noticed stepped
  | run j action =>
    obtain ⟨result, stepped, rfl⟩ := Option.map_eq_some_iff.mp taken
    exact alert.afterRun (alert.run undisturbed noticed stepped)
  | burnId =>
    cases taken
    exact ⟨alert.requests, alert.behind, alert.told, alert.woken, alert.running, alert.working⟩

theorem alert_initial (resourcePk : ResourcePk) : Alert resourcePk initial where
  requests := fun _ => trivial
  behind := fun _ => trivial
  told := fun _ committed => by cases committed
  woken := fun _ committed => by cases committed
  running := fun running => by cases running
  working := fun failed => by cases failed

theorem wakeup_is_kept (resourcePk : ResourcePk) (state : State)
    (reached : Runs.Reaches (step resourcePk)
      (fun state action => Undisturbed resourcePk state action ∧ Noticed state action)
      initial state) : WakeupLaw resourcePk state := by
  have alert : Alert resourcePk state :=
    reached.invariant (Alert resourcePk) (alert_initial resourcePk)
      fun _ _ _ alert allowed taken => alert.step allowed.1 allowed.2 taken
  intro requests runs event committed own
  have unowed : ¬ Owed state event := by
    rintro ⟨i, rows, held, _⟩
    have quiet := requests i
    rw [held] at quiet
    exact quiet trivial
  rcases alert.woken event committed own unowed with ⟨row, here, wakes⟩ | ⟨i, wakes⟩ | ⟨j, carries⟩
  next =>
    refine ⟨row, here, fun above => ?_⟩
    rcases wakes with low | queued
    next => exact absurd above (Nat.not_lt.mpr low)
    next => exact queued
  next =>
    have quiet := requests i
    cases held : state.requests i with
    | scheduled rows write =>
      rw [held] at quiet
      exact absurd trivial quiet
    | _ =>
      rw [held] at wakes
      cases wakes
  next =>
    rw [runs j] at carries
    cases carries

theorem wakeup_is_kept_second :
    ∃ state, Runs.Reaches (step 7)
      (fun state action => Undisturbed 7 state action ∧ Noticed state action) initial state ∧
      state.row = some ⟨1, .queued, []⟩ ∧ WakeupLaw 7 state := by
  have allowed : Runs.Allowed (step 7)
      (fun state action => Undisturbed 7 state action ∧ Noticed state action) initial
      (ingest 0 ["doc-1"] ++ jobRun 0 (fun _ => none) ++ ingest 0 ["doc-2"]) := by
    iterate 3
      refine ⟨⟨trivial, trivial⟩, fun next taken => ?_⟩
      cases taken
    refine ⟨⟨trivial, ?_⟩, fun next taken => ?_⟩
    next => exact fun _ _ _ _ _ => trivial
    cases taken
    iterate 5
      refine ⟨⟨trivial, trivial⟩, fun next taken => ?_⟩
      cases taken
    refine ⟨⟨?_, trivial⟩, fun next taken => ?_⟩
    next =>
      intro copy held
      cases held
      decide
    cases taken
    refine ⟨⟨fun _ _ _ _ _ => rfl, ?_⟩, fun next taken => ?_⟩
    next =>
      intro copy events row held here
      cases held
      cases here
      decide
    cases taken
    iterate 4
      refine ⟨⟨trivial, trivial⟩, fun next taken => ?_⟩
      cases taken
    refine ⟨⟨trivial, ?_⟩, fun next taken => ?_⟩
    next =>
      intro rows _ event _ j
      simp [State.afterRequest, State.afterRun, initial, Told]
    cases taken
    exact ⟨⟨trivial, trivial⟩, fun _ _ => trivial⟩
  obtain ⟨state, reached, row⟩ := Runs.Reaches.of_run State.row allowed rfl
  exact ⟨state, reached, row, wakeup_is_kept 7 state reached⟩

-- The second request commits its event after the run's fetch and reads a running row.
def lateIngest : List Action :=
  ingest 0 ["doc-1"] ++
    [.run 0 .pick, .run 0 .refresh, .run 0 .mark, .run 0 .load, .run 0 (.fetch 100)] ++
    ingest 1 ["doc-2"] ++ [.run 0 (.commitBatch 100 fun _ => none), .run 0 .finish]

theorem wakeup_is_lost :
    ∃ state, Runs.Reaches (step 7) (Undisturbed 7) initial state ∧ ¬ WakeupLaw 7 state := by
  have allowed : Runs.Allowed (step 7) (Undisturbed 7) initial lateIngest := by
    iterate 9
      refine ⟨trivial, fun next taken => ?_⟩
      cases taken
    refine ⟨?_, fun next taken => ?_⟩
    next =>
      intro copy held
      cases held
      decide
    cases taken
    iterate 5
      refine ⟨trivial, fun next taken => ?_⟩
      cases taken
    refine ⟨fun _ _ _ _ _ => rfl, fun next taken => ?_⟩
    cases taken
    exact ⟨trivial, fun _ _ => trivial⟩
  have quiet : ∀ state, Runs.run (step 7) initial lateIngest = some state →
      (∀ i, ¬ (state.requests i).InProgress 7) ∧ ∀ j, state.runs j = .absent := by
    intro state taken
    cases taken
    constructor
    next =>
      intro i
      simp [State.afterRequest, State.afterRun, initial, Request.InProgress]
    next =>
      intro j
      simp [State.afterRequest, State.afterRun, initial]
  have seen : (Runs.run (step 7) initial lateIngest).map (fun state => (state.row, state.events)) =
      some (some ⟨1, .idle, []⟩, [⟨1, 7, "doc-1"⟩, ⟨2, 7, "doc-2"⟩]) := rfl
  obtain ⟨state, taken, seen⟩ := Option.map_eq_some_iff.mp seen
  simp only [Prod.mk.injEq] at seen
  obtain ⟨row, events⟩ := seen
  refine ⟨state, .append .start allowed taken, fun law => ?_⟩
  obtain ⟨read, here, wakes⟩ := law (quiet state taken).1 (quiet state taken).2 ⟨2, 7, "doc-2"⟩
    (by simp [events]) rfl
  rw [row] at here
  cases here
  exact absurd (wakes (by decide)) (by decide)

end MemoryCloud.Indexer
