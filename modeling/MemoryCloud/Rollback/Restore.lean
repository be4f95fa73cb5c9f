import Mathlib.Data.List.Pairwise
import MemoryCloud.Rollback.Tables

set_option autoImplicit false

/-!
# What a restore puts back

The plan reads the unhandled events of the scope. An event of the scope that an earlier
call skipped is neither in the plan nor another writer's, so the plan goes back whole
only while such an event is not the first to change a field.
-/

namespace MemoryCloud.Rollback

open UndoLog Versions

variable {D : Type}

-- No update of the scope that an earlier call handled is, among the updates from the first
-- unhandled one on, the first to change a field.
def Unbroken (db : Db D) (scope : SessionScope) (id : MemoryId) : Prop :=
  ∀ row ∈ edits (eventsOf db.rows id), apiEventPredicates scope row = true → row.undoneBy ≠ none →
    (∃ first ∈ edits (eventsOf (unhandled db scope) id), first.id < row.id) →
    ∀ field, row.prior.values field ≠ none →
      ∃ earlier ∈ edits (eventsOf (unhandled db scope) id),
        earlier.id < row.id ∧ earlier.prior.values field ≠ none

section Prior

theorem combineEvent_unmarked {event : SessionEvent D} (unmarked : event.prior.erased = [])
    (acc : Combined D) :
    (combineEvent acc event).erased = acc.erased ∧
      ∀ field, acc.seen field = (acc.values field).isSome →
        (combineEvent acc event).values field = (acc.values field).or (event.prior.values field) ∧
          (combineEvent acc event).seen field =
            ((combineEvent acc event).values field).isSome := by
  refine ⟨by simp [combineEvent, priorErased, unmarked], ?_⟩
  intro field seen
  cases held : acc.values field with
  | none => simp [combineEvent, priorErased, priorValues, unmarked, seen, held]
  | some value => simp [combineEvent, priorErased, unmarked, seen, held]

theorem combinedPrior_unmarked {updates : List (SessionEvent D)}
    (unmarked : ∀ event ∈ updates, event.prior.erased = []) :
    (combinedPrior updates).erased = false ∧
      (combinedPrior updates).values = firstNamed (updates.map (·.prior.values)) := by
  have folded : ∀ acc : Combined D, (∀ field, acc.seen field = (acc.values field).isSome) →
      (updates.foldl combineEvent acc).erased = acc.erased ∧
        ∀ field, (updates.foldl combineEvent acc).values field =
          (acc.values field).or (firstNamed (updates.map (·.prior.values)) field) := by
    induction updates with
    | nil =>
      intro acc _
      exact ⟨rfl, fun field => by simp [firstNamed]⟩
    | cons event rest ih =>
      intro acc seen
      have one := combineEvent_unmarked (unmarked event (by simp)) acc
      have later := ih (fun other listed => unmarked other (by simp [listed]))
        (combineEvent acc event) (fun field => (one.2 field (seen field)).2)
      refine ⟨later.1.trans one.1, fun field => ?_⟩
      rw [List.foldl_cons, later.2 field, (one.2 field (seen field)).1, Option.or_assoc]
      congr 1
      simp only [firstNamed, List.map_cons, List.findSome?_cons]
      cases event.prior.values field <;> rfl
  have whole := folded ⟨fun _ => none, fun _ => false, false⟩ (fun _ => rfl)
  refine ⟨whole.1, funext fun field => ?_⟩
  simpa [combinedPrior] using whole.2 field

end Prior

section Plan

variable [DecidableEq D]

structure Restored (first : SessionEvent D) (rest : List (SessionEvent D)) (state : MemoryState D)
    (item : PlanItem D) : Prop where
  unshared : state.foreignAfter = false
  values : item.values = changedValues
    (combinedPrior ((first :: rest).filter fun event => decide (event.kind = .updated))).values
    state.current
  some : Prior.isEmpty item.values = false
  fromVersion : item.fromVersion =
    (((first :: rest).filter fun event => decide (event.kind = .updated)).map (·.version)).min?

theorem planMemory_restore {sleepActors : List UserId} {first : SessionEvent D}
    {rest : List (SessionEvent D)} {state : Option (MemoryState D)}
    (restore : (planMemory sleepActors first rest state).action = .restore) :
    ∃ known, state = some known ∧
      Restored first rest known (planMemory sleepActors first rest state) := by
  unfold planMemory at restore ⊢
  simp only at restore ⊢
  cases state with
  | none => cases restore
  | some state =>
    refine ⟨state, rfl, ?_⟩
    simp only at restore ⊢
    split at restore
    next => cases restore
    next owned =>
      rw [if_neg owned]
      split at restore
      next => cases restore
      next allowed =>
        rw [if_neg allowed]
        split at restore
        next => cases restore
        next unshared =>
          rw [if_neg unshared]
          split at restore
          next => cases restore
          next alive =>
            rw [if_neg alive]
            split at restore
            next =>
              split at restore
              next => cases restore
              next => cases restore
            next uncreated =>
              rw [if_neg uncreated]
              split at restore
              next => cases restore
              next kept =>
                rw [if_neg kept]
                split at restore
                next changes =>
                  rw [if_pos changes]
                  simp only [Bool.or_eq_true, not_or, Bool.not_eq_true] at unshared
                  exact ⟨unshared.1, rfl, by simpa using changes, rfl⟩
                next =>
                  split at restore
                  next => cases restore
                  next => cases restore

theorem planMemory_memoryId (sleepActors : List UserId) (first : SessionEvent D)
    (rest : List (SessionEvent D)) (state : Option (MemoryState D)) :
    (planMemory sleepActors first rest state).memoryId = first.memoryId := by
  unfold planMemory
  simp only
  repeat' split
  all_goals rfl

theorem planMemory_eventIds (sleepActors : List UserId) (first : SessionEvent D)
    (rest : List (SessionEvent D)) (state : Option (MemoryState D)) :
    (planMemory sleepActors first rest state).eventIds = (first :: rest).map (·.id) := by
  unfold planMemory
  simp only
  repeat' split
  all_goals rfl

omit [DecidableEq D] in
theorem judgeRestoredType_cases (call : Call D) (item : PlanItem D) (memory : Option (Memory D)) :
    judgeRestoredType call item memory = item ∨
      ((judgeRestoredType call item memory).action = .skip ∧
        (judgeRestoredType call item memory).memoryId = item.memoryId ∧
        (judgeRestoredType call item memory).eventIds = item.eventIds ∧
        (judgeRestoredType call item memory).unforget = false) := by
  unfold judgeRestoredType
  split
  next =>
    split
    next => exact .inl rfl
    next => exact .inr ⟨rfl, rfl, rfl, rfl⟩
  next => exact .inl rfl

theorem planItem_memoryId {db : Db D} {scope : SessionScope} {call : Call D} {id : MemoryId}
    {item : PlanItem D} (planned : planItem db scope call id = some item) : item.memoryId = id := by
  unfold planItem at planned
  split at planned
  next => cases planned
  next first rest events =>
    have own : first.memoryId = id := by
      have listed : first ∈ (eventsOf (unhandled db scope) id).map sessionEvent := by
        rw [events]
        exact List.mem_cons_self
      obtain ⟨row, present, rfl⟩ := List.mem_map.mp listed
      exact (mem_eventsOf.mp present).2
    rw [Option.some.injEq] at planned
    rw [← planned]
    rcases judgeRestoredType_cases call _ (db.memory? id) with same | ⟨_, same, _⟩
    next => rw [same, planMemory_memoryId, own]
    next => rw [same, planMemory_memoryId, own]

omit [DecidableEq D] in
theorem mem_deferExtraUnforgets {unforgets : Nat} {items : List (PlanItem D)} {item : PlanItem D}
    (kept : item ∈ deferExtraUnforgets unforgets items) : item ∈ items := by
  induction items generalizing unforgets with
  | nil => exact kept
  | cons next rest ih =>
    unfold deferExtraUnforgets at kept
    split at kept
    next =>
      split at kept
      next => exact List.mem_cons_of_mem _ (ih kept)
      next =>
        rcases List.mem_cons.mp kept with is | later
        next => exact is ▸ List.mem_cons_self
        next => exact List.mem_cons_of_mem _ (ih later)
    next =>
      rcases List.mem_cons.mp kept with is | later
      next => exact is ▸ List.mem_cons_self
      next => exact List.mem_cons_of_mem _ (ih later)

theorem readBatch_planned {db : Db D} {scope : SessionScope} {call : Call D} {item : PlanItem D}
    (listed : item ∈ (readBatch db scope call).items) :
    planItem db scope call item.memoryId = some item := by
  unfold readBatch at listed
  simp only at listed
  split at listed
  next => cases listed
  next =>
    obtain ⟨id, _, planned⟩ := List.mem_filterMap.mp (mem_deferExtraUnforgets listed)
    rw [planItem_memoryId planned]
    exact planned

end Plan

section Versions

variable {past : Nat → Snapshot D} {memory : Memory D} {rows : List (Revision D)}

def SameOrder (a b : Revision D) : Prop :=
  (a.id < b.id ↔ a.version < b.version) ∧ (b.id < a.id ↔ b.version < a.version)

theorem edits_ordered (ledger : Ledger past memory rows)
    (ascending : (rows.map (·.id)).Pairwise (· < ·)) {a b : Revision D} (left : a ∈ edits rows)
    (right : b ∈ edits rows) : SameOrder a b := by
  have ids : (edits rows).Pairwise fun a b => a.id < b.id :=
    (List.pairwise_map.mp ascending).sublist List.filter_sublist
  have versions : (edits rows).Pairwise fun a b => a.version < b.version := by
    apply List.pairwise_map.mp
    rw [ledger.versions]
    exact List.pairwise_lt_range' ..
  have agree : (edits rows).Pairwise SameOrder := by
    apply (ids.and versions).imp
    intro a b order
    unfold SameOrder
    omega
  have symm : Std.Symm (SameOrder (D := D)) := ⟨fun _ _ order => ⟨order.2, order.1⟩⟩
  have refl : ∀ row ∈ edits rows, SameOrder row row := by
    intro row _
    unfold SameOrder
    omega
  exact List.Pairwise.forall_of_forall refl agree left right

theorem changedValues_reads [DecidableEq D] (values : Patch (Stored D)) (current : Snapshot D)
    (field : Field) :
    comparable field (overlay current (changedValues values current) field) =
      comparable field (overlay current values field) := by
  cases held : values field with
  | none => simp [overlay, changedValues, held]
  | some value =>
    by_cases same : comparable field value = comparable field (current field)
    next => simp [overlay, changedValues, held, same]
    next => simp [overlay, changedValues, held, same]

-- The updates of the plan, oldest first; `covered` is what keeps them from skipping a value.
theorem firstNamed_whole (ledger : Ledger past memory rows) {first : Revision D}
    {rest : List (Revision D)} (present : ∀ row ∈ first :: rest, row ∈ edits rows)
    (ordered : (first :: rest).Pairwise fun a b => a.version < b.version)
    (covered : ∀ row ∈ edits rows, first.version ≤ row.version → ∀ field,
      row.prior.values field ≠ none →
        ∃ named ∈ first :: rest, named.version ≤ row.version ∧ named.prior.values field ≠ none) :
    Same comparable (overlay memory.fields (firstNamed ((first :: rest).map (·.prior.values))))
      (past (first.version - 1)) := by
  intro field
  have firstBounds := ledger.edit_bounds (present first (by simp))
  cases found : firstNamed ((first :: rest).map (·.prior.values)) field with
  | none =>
    have silent : ∀ row ∈ edits rows, first.version - 1 < row.version →
        row.version ≤ memory.version → row.prior.values field = none := by
      intro row listed above _
      by_contra names
      obtain ⟨named, planned, _, naming⟩ := covered row listed (by omega) field names
      have missed := List.findSome?_eq_none_iff.mp found named.prior.values
        (List.mem_map_of_mem planned)
      exact naming missed
    have constant := ledger.unnamed (by omega) (by omega) (Nat.le_refl _) silent
    simp only [overlay, found, Option.getD_none]
    exact (ledger.live field).trans constant
  | some value =>
    rw [firstNamed, List.findSome?_map] at found
    obtain ⟨before, row, after, split, held, unnamed⟩ := List.findSome?_eq_some_iff.mp found
    have held' : row.prior.values field = some value := held
    have listed : row ∈ edits rows := present row (by rw [split]; simp)
    have bounds := ledger.edit_bounds listed
    rw [split] at ordered
    have later := List.pairwise_append.mp ordered
    have above : first.version ≤ row.version := by
      cases before with
      | nil =>
        rw [List.nil_append, List.cons.injEq] at split
        rw [split.1]
      | cons head tail =>
        rw [List.cons_append, List.cons.injEq] at split
        rw [split.1]
        exact Nat.le_of_lt (later.2.2 head (by simp) row (by simp))
    have silent : ∀ other ∈ edits rows, first.version - 1 < other.version →
        other.version ≤ row.version - 1 → other.prior.values field = none := by
      intro other known high low
      by_contra names
      obtain ⟨named, planned, under, naming⟩ := covered other known (by omega) field names
      rw [split] at planned
      rcases List.mem_append.mp planned with early | late
      next => exact naming (unnamed named early)
      next =>
        have notBefore : row.version ≤ named.version := by
          rcases List.mem_cons.mp late with is | beyond
          next => rw [is]
          next => exact Nat.le_of_lt ((List.pairwise_cons.mp later.2.1).1 named beyond)
        omega
    have constant := ledger.unnamed (by omega) (by omega) (by omega) silent
    have restored := ledger.restores row listed field
    simp only [overlay, held', Option.getD_some] at restored
    have whole : firstNamed ((first :: rest).map (·.prior.values)) field = some value := by
      rw [firstNamed, List.findSome?_map]
      exact found
    simp only [overlay, whole, Option.getD_some]
    exact restored.trans constant

end Versions

section Scopes

theorem api_of_not_foreign {scope : SessionScope} {row : Revision D}
    (placed : row.contextId = scope.contextId) (own : foreignPredicate scope row = false) :
    apiEventPredicates scope row = true := by
  cases scope with
  | session contextId sessionId principal =>
    cases principal with
    | none =>
      simp_all [foreignPredicate, apiEventPredicates, scopePredicates, SessionScope.contextId]
    | some principal =>
      simp_all [foreignPredicate, apiEventPredicates, scopePredicates, principalPredicate,
        SessionScope.contextId]
  | window contextId principal since until_ ordered narrow =>
    simp_all [foreignPredicate, apiEventPredicates, scopePredicates, principalPredicate,
      SessionScope.contextId]

theorem api_context {scope : SessionScope} {row : Revision D}
    (api : apiEventPredicates scope row = true) : row.contextId = scope.contextId := by
  cases scope with
  | session contextId sessionId principal =>
    simp_all [apiEventPredicates, scopePredicates, SessionScope.contextId]
  | window contextId principal since until_ ordered narrow =>
    simp_all [apiEventPredicates, scopePredicates, SessionScope.contextId]

theorem mem_unhandled {db : Db D} {scope : SessionScope} {row : Revision D} :
    row ∈ unhandled db scope ↔
      row ∈ db.rows ∧ apiEventPredicates scope row = true ∧ row.undoneBy = none := by
  simp [unhandled]

end Scopes

section Whole

variable [DecidableEq D] {db : Db D} {scope : SessionScope} {call : Call D} {item : PlanItem D}

omit [DecidableEq D] in
theorem edits_unhandled (id : MemoryId) :
    (edits (eventsOf (unhandled db scope) id)).Sublist (edits (eventsOf db.rows id)) :=
  (List.filter_sublist.filter _).filter _

omit [DecidableEq D] in
theorem updates_of_events {id : MemoryId} {first : SessionEvent D} {rest : List (SessionEvent D)}
    (events : (eventsOf (unhandled db scope) id).map sessionEvent = first :: rest) :
    ((first :: rest).filter fun event => decide (event.kind = .updated)) =
      (edits (eventsOf (unhandled db scope) id)).map sessionEvent := by
  rw [← events, List.filter_map, edits]
  rfl

omit [DecidableEq D] in
-- No other writer since the first event of the plan: every later update is covered.
theorem Unbroken.covers (consistent : Consistent db) {memory : Memory D}
    (unbroken : Unbroken db scope memory.id) {firstEvent : Revision D}
    {restEvents : List (Revision D)}
    (events : eventsOf (unhandled db scope) memory.id = firstEvent :: restEvents)
    {call : Call D} (unshared : (memoryState db scope call memory firstEvent.id).foreignAfter = false)
    {past : Nat → Snapshot D} (ledger : Ledger past memory (eventsOf db.rows memory.id))
    {first : Revision D} {rest : List (Revision D)}
    (updates : edits (eventsOf (unhandled db scope) memory.id) = first :: rest) :
    ∀ row ∈ edits (eventsOf db.rows memory.id), first.version ≤ row.version → ∀ field,
      row.prior.values field ≠ none →
        ∃ named ∈ first :: rest, named.version ≤ row.version ∧ named.prior.values field ≠ none := by
  intro row listed above field names
  have ascending : ((eventsOf db.rows memory.id).map (·.id)).Pairwise (· < ·) :=
    consistent.ascending.sublist (List.filter_sublist.map _)
  have known : ∀ update ∈ first :: rest, update ∈ edits (eventsOf db.rows memory.id) := by
    intro update planned
    rw [← updates] at planned
    exact (edits_unhandled memory.id).subset planned
  have firstListed : first ∈ edits (eventsOf db.rows memory.id) := known first (by simp)
  have order := edits_ordered ledger ascending firstListed listed
  have notBefore : first.id ≤ row.id := by
    by_contra before
    have lower := order.2.mp (by omega)
    omega
  have firstIsLate : firstEvent.id ≤ first.id := by
    have planned : first ∈ eventsOf (unhandled db scope) memory.id :=
      (mem_edits.mp (updates ▸ List.mem_cons_self)).1
    rw [events] at planned
    rcases List.mem_cons.mp planned with is | beyond
    next => rw [is]
    next =>
      have sorted : ((firstEvent :: restEvents).map (·.id)).Pairwise (· < ·) := by
        rw [← events]
        exact ascending.sublist ((List.filter_sublist.filter _).map _)
      exact Nat.le_of_lt ((List.pairwise_cons.mp sorted).1 first.id (List.mem_map_of_mem beyond))
  have rowListed := mem_eventsOf.mp (mem_edits.mp listed).1
  by_cases isFirst : row.id = first.id
  next =>
    have same : row.version = first.version := by
      have upper := order.1
      have lower := order.2
      omega
    have isRow : row = first :=
      List.inj_on_of_nodup_map (ledger.versions ▸ List.nodup_range' ..) listed firstListed same
    exact ⟨first, by simp, by omega, isRow ▸ names⟩
  next =>
    have own : foreignPredicate scope row = false := by
      simp only [memoryState, List.any_eq_false, Bool.and_eq_true, decide_eq_true_eq, not_and]
        at unshared
      by_contra foreign
      exact unshared row (mem_edits.mp listed).1 (by simpa using foreign) (by omega)
    obtain ⟨owner, present, owns, context⟩ := consistent.placed row rowListed.1
    have firstPlaced := mem_unhandled.mp
      (mem_eventsOf.mp (mem_edits.mp (updates ▸ List.mem_cons_self : first ∈ edits _)).1).1
    obtain ⟨owner', present', owns', context'⟩ := consistent.placed first firstPlaced.1
    have sameOwner : owner = owner' := by
      apply List.inj_on_of_nodup_map consistent.distinct present present'
      have ownFirst := (mem_eventsOf.mp (mem_edits.mp firstListed).1).2
      rw [owns, owns', rowListed.2, ownFirst]
    have sameContext : row.contextId = scope.contextId := by
      rw [← api_context firstPlaced.2.1]
      rw [sameOwner] at context
      exact Option.some.inj (context.symm.trans context')
    have api := api_of_not_foreign sameContext own
    by_cases open_ : row.undoneBy = none
    next =>
      have planned : row ∈ edits (eventsOf (unhandled db scope) memory.id) :=
        mem_edits.mpr ⟨mem_eventsOf.mpr ⟨mem_unhandled.mpr ⟨rowListed.1, api, open_⟩, rowListed.2⟩,
          (mem_edits.mp listed).2⟩
      exact ⟨row, updates ▸ planned, Nat.le_refl _, names⟩
    next =>
      obtain ⟨named, planned, before, naming⟩ := unbroken row listed api open_
        ⟨first, updates ▸ List.mem_cons_self, by omega⟩ field names
      have namedOrder := edits_ordered ledger ascending ((edits_unhandled memory.id).subset planned)
        listed
      exact ⟨named, updates ▸ planned, Nat.le_of_lt (namedOrder.1.mp before), naming⟩

omit [DecidableEq D] in
theorem min?_ascending {first : Nat} {rest : List Nat}
    (ordered : (first :: rest).Pairwise (· < ·)) : (first :: rest).min? = some first := by
  rw [List.min?_eq_some_iff]
  refine ⟨by simp, ?_⟩
  intro other listed
  rcases List.mem_cons.mp listed with is | beyond
  next => rw [is]
  next => exact Nat.le_of_lt ((List.pairwise_cons.mp ordered).1 other beyond)

theorem planItem_restore {id : MemoryId} (planned : planItem db scope call id = some item)
    (restore : item.action = .restore) :
    ∃ memory firstEvent restEvents, db.memory? id = some memory ∧
      eventsOf (unhandled db scope) id = firstEvent :: restEvents ∧
      Restored (sessionEvent firstEvent) (restEvents.map sessionEvent)
        (memoryState db scope call memory firstEvent.id) item := by
  unfold planItem at planned
  split at planned
  next => cases planned
  next first rest events =>
    rw [Option.some.injEq] at planned
    rcases judgeRestoredType_cases call (planMemory call.sleepActors first rest
      ((db.memory? id).map fun memory => memoryState db scope call memory first.id))
      (db.memory? id) with same | ⟨skipped, _⟩
    next =>
      have isPlan := same.symm.trans planned
      rw [← isPlan] at restore
      obtain ⟨known, state, restored⟩ := planMemory_restore restore
      obtain ⟨memory, found, rfl⟩ := Option.map_eq_some_iff.mp state
      obtain ⟨firstEvent, restEvents, rows, rfl, rfl⟩ := List.map_eq_cons_iff.mp events
      refine ⟨memory, firstEvent, restEvents, found, rows, ?_⟩
      rw [← isPlan]
      exact restored
    next =>
      rw [planned, restore] at skipped
      cases skipped

theorem restored_updates {firstEvent : Revision D} {restEvents : List (Revision D)} {id : MemoryId}
    {state : MemoryState D} (events : eventsOf (unhandled db scope) id = firstEvent :: restEvents)
    (restored : Restored (sessionEvent firstEvent) (restEvents.map sessionEvent) state item)
    (unmarked : ∀ row ∈ edits (eventsOf db.rows id), row.prior.erased = []) :
    item.values = changedValues
        (firstNamed ((edits (eventsOf (unhandled db scope) id)).map (·.prior.values)))
        state.current ∧
      item.fromVersion = ((edits (eventsOf (unhandled db scope) id)).map (·.version)).min? := by
  have asEvents : (eventsOf (unhandled db scope) id).map sessionEvent =
      sessionEvent firstEvent :: restEvents.map sessionEvent := by
    rw [events]
    rfl
  have updates := updates_of_events asEvents
  have clean : ∀ event ∈ (edits (eventsOf (unhandled db scope) id)).map sessionEvent,
      event.prior.erased = [] := by
    intro event listed
    obtain ⟨row, present, rfl⟩ := List.mem_map.mp listed
    exact unmarked row ((edits_unhandled id).subset present)
  refine ⟨?_, ?_⟩
  · rw [restored.values, updates, (combinedPrior_unmarked clean).2, List.map_map]
    rfl
  · rw [restored.fromVersion, updates, List.map_map]
    rfl

theorem rollback_restores_whole (steps : List (Step D)) (scope : SessionScope) (call : Call D)
    (item : PlanItem D) (planned : item ∈ (readBatch (run steps) scope call).items)
    (restore : item.action = .restore) (unbroken : Unbroken (run steps) scope item.memoryId) :
    ∃ memory first rest version,
      (run steps).memory? item.memoryId = some memory ∧
      edits (eventsOf (unhandled (run steps) scope) item.memoryId) = first :: rest ∧
      item.fromVersion = some first.version ∧
      reconstructVersion memory.fields memory.version
        (eventsOf (run steps).rows item.memoryId) (first.version - 1 : Nat) = .ok version ∧
      ReadsAs version (overlay memory.fields item.values) := by
  have consistent : Consistent (run steps) := run_consistent steps
  obtain ⟨memory, firstEvent, restEvents, found, events, restored⟩ :=
    planItem_restore (readBatch_planned planned) restore
  obtain ⟨present, sameId⟩ := Db.memory?_some found
  rw [← sameId] at found events unbroken ⊢
  obtain ⟨past, ledger⟩ := consistent.ledger memory present
  have unmarked : ∀ row ∈ edits (eventsOf (run steps).rows memory.id), row.prior.erased = [] :=
    fun row listed => (ledger.unmarked row listed).1
  obtain ⟨values, fromVersion⟩ := restored_updates events restored unmarked
  cases updates : edits (eventsOf (unhandled (run steps) scope) memory.id) with
  | nil =>
    -- nothing changed a value, so nothing would be put back
    have empty := restored.some
    rw [values, updates] at empty
    simp [Prior.isEmpty, changedValues, firstNamed] at empty
  | cons first rest =>
    rw [updates] at values fromVersion
    have covered := unbroken.covers consistent events restored.unshared ledger updates
    have sublist : (edits (eventsOf (unhandled (run steps) scope) memory.id)).Sublist
        (edits (eventsOf (run steps).rows memory.id)) := edits_unhandled memory.id
    rw [updates] at sublist
    have ordered : (first :: rest).Pairwise fun a b => a.version < b.version := by
      apply List.pairwise_map.mp
      exact (ledger.versions ▸ List.pairwise_lt_range' ..).sublist (sublist.map _)
    have whole := firstNamed_whole ledger (fun row listed => sublist.subset listed) ordered covered
    have bounds := ledger.edit_bounds (sublist.subset (List.mem_cons_self (a := first)))
    have low : 1 ≤ first.version - 1 := by omega
    have high : first.version - 1 ≤ memory.version := by omega
    obtain ⟨version, rebuilt, _, available, held, asHeld, same⟩ :=
      ledger.reconstructs (List.Perm.refl _) low high
    refine ⟨memory, first, rest, version, found, rfl, ?_, rebuilt, available, ?_⟩
    · rw [fromVersion]
      exact min?_ascending (List.pairwise_map.mpr ordered)
    · intro field
      rw [asHeld, values]
      exact congrArg some ((same field).trans
        ((changedValues_reads _ _ field).trans (whole field)).symm)

end Whole

section Gap

def draft : Snapshot Nat
  | .summary => "draft"
  | .contextSummary => none
  | .content => "old text"
  | .details => none
  | .type => "note"
  | .importance => 1
  | .tags => none

def draftMemory : Memory Nat :=
  { id := 7, userId := 2, contextId := none, fields := draft, version := 1, updatedAt := none
    deletedAt := none, deletedBy := none, resourceId := none, agentId := none, sessionId := none }

def member : SessionPrincipal := ⟨1, none, [1], by decide⟩

def memberCall : Call Nat :=
  { requestedBy := 1, provenance := {}, now := 100, dryRun := false, permits := fun _ _ => true
    sleepActors := [], fails := fun _ => false, outOfTime := fun _ => false }

def memberWindow (since until_ : Time) (ordered : since < until_)
    (narrow : until_ - since ≤ maxRollbackWindow) : SessionScope :=
  .window 3 member since until_ ordered narrow

def threeEdits : List (Step Nat) :=
  [ .create draftMemory 3 2 5 {},
    .edit 7 (Function.update draft .summary "better") 1 10 {},
    .edit 7 (Function.update (Function.update draft .summary "better") .content "new text") 1 20 {},
    .edit 7 (Function.update (Function.update draft .summary "best") .content "new text") 1 30 {} ]

def wideWindow : SessionScope := memberWindow 10 40 (by decide) (by decide)

def plannedRestore (steps : List (Step Nat)) : Option (PlanItem Nat) :=
  (readBatch (run steps) wideWindow memberCall).items.head?

theorem threeEdits_planned :
    ∃ item ∈ (readBatch (run threeEdits) wideWindow memberCall).items, item.action = .restore ∧
      Unbroken (run threeEdits) wideWindow item.memoryId := by
  have planned : (plannedRestore threeEdits).map (·.action) = some .restore := by decide +kernel
  obtain ⟨item, head, restore⟩ := Option.map_eq_some_iff.mp planned
  refine ⟨item, List.mem_of_head? head, restore, ?_⟩
  intro row listed _ handled
  have unmarked : ∀ row ∈ (run threeEdits).rows, row.undoneBy = none := by decide +kernel
  exact absurd (unmarked row (mem_eventsOf.mp (mem_edits.mp listed).1).1) handled

theorem rollback_restores_threeEdits :
    ∃ item ∈ (readBatch (run threeEdits) wideWindow memberCall).items, item.action = .restore ∧
      ∃ memory version, (run threeEdits).memory? item.memoryId = some memory ∧
        ReadsAs version (overlay memory.fields item.values) := by
  obtain ⟨item, planned, restore, unbroken⟩ := threeEdits_planned
  obtain ⟨memory, _, _, version, found, _, _, _, reads⟩ :=
    rollback_restores_whole threeEdits wideWindow memberCall item planned restore unbroken
  exact ⟨item, planned, restore, memory, version, found, reads⟩

-- A window around the middle edit alone skips it: the third came after.
def skippedMiddle : List (Step Nat) :=
  threeEdits ++ [.rollback (memberWindow 20 30 (by decide) (by decide)) memberCall]

theorem rollback_keeps_skipped_edit :
    ¬∀ item ∈ (readBatch (run skippedMiddle) wideWindow memberCall).items, item.action = .restore →
      ∃ memory first rest version,
        (run skippedMiddle).memory? item.memoryId = some memory ∧
        edits (eventsOf (unhandled (run skippedMiddle) wideWindow) item.memoryId) = first :: rest ∧
        reconstructVersion memory.fields memory.version
          (eventsOf (run skippedMiddle).rows item.memoryId) (first.version - 1 : Nat) = .ok version ∧
        ReadsAs version (overlay memory.fields item.values) := by
  intro whole
  have planned : (plannedRestore skippedMiddle).map
      (fun item => (item.action, item.memoryId, item.values .content)) =
      some (.restore, 7, none) := by
    decide +kernel
  obtain ⟨item, head, is⟩ := Option.map_eq_some_iff.mp planned
  simp only [Prod.mk.injEq] at is
  obtain ⟨restore, id, kept⟩ := is
  obtain ⟨memory, first, rest, version, found, updates, rebuilt, _, reads⟩ :=
    whole item (List.mem_of_head? head) restore
  rw [id] at found updates rebuilt
  have live : ((run skippedMiddle).memory? 7).map (fun memory => memory.fields .content) =
      some "new text" := by
    decide +kernel
  have versions : (edits (eventsOf (unhandled (run skippedMiddle) wideWindow) 7)).map (·.version) =
      [2, 4] := by
    decide +kernel
  have old : ((run skippedMiddle).memory? 7).map (fun memory =>
      (reconstructVersion memory.fields memory.version (eventsOf (run skippedMiddle).rows 7)
        ((1 : Nat) : Int)).toOption.map fun version => version.values .content) =
      some (some (some "old text")) := by
    decide +kernel
  rw [updates, List.map_cons, List.cons.injEq] at versions
  rw [versions.1] at rebuilt
  simp only [found, Option.map_some, Option.some.injEq] at live old
  rw [rebuilt] at old
  have was : version.values .content = some "old text" := by simpa [Except.toOption] using old
  have reading := reads .content
  simp [was, overlay, kept, comparable] at reading
  rw [← reading] at live
  revert live
  decide

end Gap

end MemoryCloud.Rollback
