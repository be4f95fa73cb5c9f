import Mathlib.Data.List.Induction
import MemoryCloud.Rollback.Restore

set_option autoImplicit false

/-!
# Every event once, and to the end

A call's `remaining` is what is unhandled after it, so a call that finds unhandled events
and fails on none leaves fewer behind.
-/

namespace MemoryCloud.Rollback

open UndoLog Versions

variable {D : Type}

section Batches

variable {db : Db D} {scope : SessionScope} {call : Call D}

theorem choose_takes (chosen : List MemoryId) (taken : Nat) (found : List Group) :
    ∃ count, choose chosen taken found = chosen ++ (found.map (·.memoryId)).take count := by
  induction found generalizing chosen taken with
  | nil => exact ⟨0, by simp [choose]⟩
  | cons next rest ih =>
    unfold choose
    split
    next => exact ⟨0, by simp⟩
    next =>
      obtain ⟨count, tail⟩ := ih (chosen ++ [next.memoryId]) (taken + next.count)
      exact ⟨count + 1, by simp [tail]⟩

theorem groups_distinct (rows : List (Revision D)) : ((groups rows).map (·.memoryId)).Nodup := by
  have whole : ((((rows.map (·.memoryId)).dedup.map (group rows)).insertionSort newestGroup).map
      (·.memoryId)).Perm (rows.map (·.memoryId)).dedup := by
    have sorted := (List.perm_insertionSort newestGroup
      ((rows.map (·.memoryId)).dedup.map (group rows))).map (·.memoryId)
    rw [List.map_map] at sorted
    have names : ((·.memoryId) ∘ group rows) = id := rfl
    rw [names, List.map_id] at sorted
    exact sorted
  have distinct := whole.symm.nodup (List.nodup_dedup _)
  exact distinct.sublist ((List.take_sublist _ _).map _)

theorem chosen_distinct (rows : List (Revision D)) : (choose [] 0 (groups rows)).Nodup := by
  obtain ⟨count, taken⟩ := choose_takes [] 0 (groups rows)
  rw [taken, List.nil_append]
  exact (groups_distinct rows).sublist (List.take_sublist _ _)

-- The first group is taken whatever its size.
theorem chosen_some {rows : List (Revision D)} (some : rows ≠ []) :
    ∃ id rest, choose [] 0 (groups rows) = id :: rest ∧ eventsOf rows id ≠ [] := by
  cases first : groups rows with
  | nil =>
    have none : (groups rows).length = 0 := by rw [first]; rfl
    simp only [groups, List.length_take, List.length_insertionSort, List.length_map,
      maxRollbackEventsPerCall] at none
    have noIds : (rows.map (·.memoryId)).dedup = [] := List.length_eq_zero_iff.mp (by omega)
    rw [List.dedup_eq_nil, List.map_eq_nil_iff] at noIds
    exact absurd noIds some
  | cons head tail =>
    obtain ⟨count, taken⟩ := choose_takes [head.memoryId] head.count tail
    refine ⟨head.memoryId, (tail.map (·.memoryId)).take count, ?_, ?_⟩
    · unfold choose
      simp [taken]
    · have listed : head ∈ groups rows := by rw [first]; exact List.mem_cons_self
      have sorted := List.mem_of_mem_take listed
      rw [List.mem_insertionSort] at sorted
      obtain ⟨id, present, rfl⟩ := List.mem_map.mp sorted
      rw [List.mem_dedup] at present
      obtain ⟨row, known, rfl⟩ := List.mem_map.mp present
      exact List.ne_nil_of_mem (mem_eventsOf.mpr ⟨known, rfl⟩)

theorem deferExtraUnforgets_sublist (unforgets : Nat) (items : List (PlanItem D)) :
    (deferExtraUnforgets unforgets items).Sublist items := by
  induction items generalizing unforgets with
  | nil => exact List.Sublist.refl _
  | cons item rest ih =>
    unfold deferExtraUnforgets
    split
    next =>
      split
      next => exact (ih _).cons _
      next => exact (ih _).cons_cons _
    next => exact (ih _).cons_cons _

theorem deferExtraUnforgets_first (item : PlanItem D) (rest : List (PlanItem D)) :
    deferExtraUnforgets 0 (item :: rest) ≠ [] := by
  unfold deferExtraUnforgets
  simp only [maxUnforgetsPerCall]
  split <;> simp

variable [DecidableEq D]

theorem planItem_events {id : MemoryId} {item : PlanItem D}
    (planned : planItem db scope call id = some item) :
    item.eventIds = (eventsOf (unhandled db scope) id).map (·.id) ∧ item.eventIds ≠ [] := by
  unfold planItem at planned
  split at planned
  next => cases planned
  next first rest events =>
    rw [Option.some.injEq] at planned
    have ids : item.eventIds = (first :: rest).map (·.id) := by
      rw [← planned]
      rcases judgeRestoredType_cases call _ (db.memory? id) with same | ⟨_, _, same, _⟩
      next => rw [same, planMemory_eventIds]
      next => rw [same, planMemory_eventIds]
    refine ⟨?_, by simp [ids]⟩
    rw [ids, ← events, List.map_map]
    rfl

theorem planItem_exists (call : Call D) {id : MemoryId} (events : eventsOf (unhandled db scope) id ≠ []) :
    ∃ item, planItem db scope call id = some item := by
  unfold planItem
  split
  next none =>
    rw [List.map_eq_nil_iff] at none
    exact absurd none events
  next => exact ⟨_, rfl⟩

theorem readBatch_distinct (db : Db D) (scope : SessionScope) (call : Call D) :
    ((readBatch db scope call).items.map (·.memoryId)).Nodup := by
  unfold readBatch
  simp only
  split
  next => simp
  next =>
    have kept : ((choose [] 0 (groups (unhandled db scope))).filterMap (planItem db scope call)).map
        (·.memoryId) =
        (choose [] 0 (groups (unhandled db scope))).filter
          fun id => (planItem db scope call id).isSome := by
      induction choose [] 0 (groups (unhandled db scope)) with
      | nil => rfl
      | cons id rest ih =>
        cases planned : planItem db scope call id with
        | none => simp [planned, ih]
        | some item => simp [planned, ih, planItem_memoryId planned]
    have sublist := (deferExtraUnforgets_sublist 0
      ((choose [] 0 (groups (unhandled db scope))).filterMap (planItem db scope call))).map
      (·.memoryId)
    rw [kept] at sublist
    exact (chosen_distinct _).sublist (sublist.trans List.filter_sublist)

theorem readBatch_some (call : Call D) (some : unhandled db scope ≠ []) :
    (readBatch db scope call).items ≠ [] := by
  obtain ⟨id, rest, chosen, events⟩ := chosen_some some
  obtain ⟨item, planned⟩ := planItem_exists call events
  unfold readBatch
  simp only [chosen, List.isEmpty_cons, Bool.false_eq_true, if_false, List.filterMap_cons, planned]
  exact deferExtraUnforgets_first _ _

omit [DecidableEq D] in
theorem itemEvents_distinct {items : List (PlanItem D)} {rows : List (Revision D)}
    (ascending : (rows.map (·.id)).Pairwise (· < ·))
    (planned : ∀ item ∈ items, item.eventIds = (eventsOf rows item.memoryId).map (·.id))
    (distinct : (items.map (·.memoryId)).Nodup) :
    (itemEvents items).Nodup ∧ ∀ id ∈ itemEvents items, id ∈ rows.map (·.id) := by
  have member : ∀ item ∈ items, ∀ id ∈ item.eventIds, ∃ row ∈ rows,
      row.memoryId = item.memoryId ∧ row.id = id := by
    intro item listed id event
    rw [planned item listed] at event
    obtain ⟨row, present, rfl⟩ := List.mem_map.mp event
    obtain ⟨known, own⟩ := mem_eventsOf.mp present
    exact ⟨row, known, own, rfl⟩
  have nodup : (rows.map (·.id)).Nodup := ascending.imp Nat.ne_of_lt
  refine ⟨?_, ?_⟩
  · rw [itemEvents, List.nodup_flatMap]
    refine ⟨?_, ?_⟩
    · intro item listed
      rw [planned item listed]
      exact nodup.sublist (List.filter_sublist.map _)
    · have apart := List.pairwise_map.mp distinct
      apply apart.imp_of_mem
      intro left right leftListed rightListed different id inLeft inRight
      obtain ⟨row, known, own, rfl⟩ := member left leftListed id inLeft
      obtain ⟨row', known', own', same⟩ := member right rightListed _ inRight
      have isRow : row' = row := List.inj_on_of_nodup_map nodup known' known same
      rw [isRow] at own'
      exact different (own.symm.trans own')
  · intro id event
    obtain ⟨item, listed, held⟩ := List.mem_flatMap.mp event
    obtain ⟨row, known, _, rfl⟩ := member item listed id held
    exact List.mem_map_of_mem known

end Batches

section Marks

structure Worked (start : Db D) (rollbackId : Nat) (handled : List Nat) (db : Db D) : Prop where
  consistent : Consistent db
  nextId : start.nextId ≤ db.nextId
  rows : ∃ added, db.rows = start.rows.map (mark handled rollbackId) ++ added ∧
    ∀ row ∈ added, row.writer = .rollback ∧ start.nextId ≤ row.id

theorem mark_mark (first second : List Nat) (rollbackId : Nat) (row : Revision D) :
    mark second rollbackId (mark first rollbackId row) = mark (first ++ second) rollbackId row := by
  by_cases open_ : row.undoneBy = none
  next =>
    by_cases early : row.id ∈ first
    next => simp [mark, open_, early]
    next =>
      by_cases late : row.id ∈ second
      next => simp [mark, open_, early, late]
      next => simp [mark, open_, early, late]
  next => simp [mark, open_]

theorem Worked.grows {start db after : Db D} {rollbackId : Nat} {handled : List Nat}
    {added : List (Revision D)} (worked : Worked start rollbackId handled db)
    (grown : Grows .rollback db after added) : Worked start rollbackId handled after := by
  obtain ⟨before, rows, own⟩ := worked.rows
  have nextId := worked.nextId
  refine ⟨grown.consistent, by rw [grown.nextId]; omega, before ++ added, ?_, ?_⟩
  · rw [grown.rows, rows, List.append_assoc]
  · intro row present
    rcases List.mem_append.mp present with old | new
    next => exact own row old
    next =>
      have listed : row.id ∈ added.map (·.id) := List.mem_map_of_mem new
      rw [grown.numbered, List.mem_range'_1] at listed
      exact ⟨(grown.fresh row new).1, by omega⟩

theorem mark_writer (ids : List Nat) (rollbackId : Nat) (row : Revision D) :
    (mark ids rollbackId row).writer = row.writer := by
  unfold mark
  split <;> rfl

theorem Worked.marked {start db : Db D} {rollbackId : Nat} {handled : List Nat}
    (worked : Worked start rollbackId handled db) (ids : List Nat) :
    Worked start rollbackId (handled ++ ids) (markHandled db ids rollbackId) := by
  obtain ⟨before, rows, own⟩ := worked.rows
  refine ⟨worked.consistent.marked ids rollbackId, worked.nextId,
    before.map (mark ids rollbackId), ?_, ?_⟩
  · have marked : (markHandled db ids rollbackId).rows = db.rows.map (mark ids rollbackId) := rfl
    rw [marked, rows, List.map_append, List.map_map]
    congr 1
    apply List.map_congr_left
    intro row _
    exact mark_mark handled ids rollbackId row
  · intro row present
    obtain ⟨old, listed, rfl⟩ := List.mem_map.mp present
    rw [mark_writer, (mark_relabels ids rollbackId).id]
    exact own old listed

theorem api_mark (scope : SessionScope) (ids : List Nat) (rollbackId : Nat) (row : Revision D) :
    apiEventPredicates scope (mark ids rollbackId row) = apiEventPredicates scope row := by
  unfold mark
  split
  next => cases scope <;> rfl
  next => rfl

theorem Worked.unhandled {start db : Db D} {rollbackId : Nat} {handled : List Nat}
    (worked : Worked start rollbackId handled db) (scope : SessionScope) :
    unhandled db scope =
      (unhandled start scope).filter fun row => decide (row.id ∉ handled) := by
  obtain ⟨added, rows, own⟩ := worked.rows
  have nothing : (added.filter fun row => apiEventPredicates scope row && row.undoneBy.isNone) =
      [] := by
    rw [List.filter_eq_nil_iff]
    intro row present
    simp [apiEventPredicates, (own row present).1]
  rw [Rollback.unhandled, rows, List.filter_append, nothing, List.append_nil, Rollback.unhandled]
  induction start.rows with
  | nil => rfl
  | cons row rest ih =>
    rw [List.map_cons, List.filter_cons, List.filter_cons, api_mark, ih]
    by_cases api : apiEventPredicates scope row = true
    next =>
      by_cases open_ : row.undoneBy = none
      next =>
        by_cases listed : row.id ∈ handled
        next => simp [mark, api, open_, listed]
        next => simp [mark, api, open_, listed]
      next => simp [mark, api, open_]
    next => simp [api]

theorem filter_length_outside {rows : List (Revision D)} {ids : List Nat}
    (distinct : (rows.map (·.id)).Nodup) (idsDistinct : ids.Nodup)
    (listed : ∀ id ∈ ids, id ∈ rows.map (·.id)) :
    (rows.filter fun row => decide (row.id ∉ ids)).length + ids.length = rows.length := by
  have inside : ((rows.filter fun row => decide (row.id ∈ ids)).map (·.id)).Perm ids := by
    rw [List.perm_ext_iff_of_nodup (distinct.sublist (List.filter_sublist.map _)) idsDistinct]
    intro id
    constructor
    next =>
      intro present
      obtain ⟨row, held, rfl⟩ := List.mem_map.mp present
      simpa using (List.mem_filter.mp held).2
    next =>
      intro present
      obtain ⟨row, known, rfl⟩ := List.mem_map.mp (listed id present)
      exact List.mem_map_of_mem (List.mem_filter.mpr ⟨known, by simpa using present⟩)
  have whole := (List.filter_append_perm (fun row : Revision D => decide (row.id ∈ ids)) rows).length_eq
  have count := inside.length_eq
  rw [List.length_map] at count
  rw [List.length_append, count] at whole
  have same : (rows.filter fun row => !decide (row.id ∈ ids)) =
      rows.filter fun row => decide (row.id ∉ ids) := by
    apply List.filter_congr
    intro row _
    simp
  rw [same] at whole
  omega

end Marks

section Executions

variable {scope : SessionScope} {call : Call D}

theorem chunks_items (fuel : Nat) (items : List (PlanItem D)) (enough : items.length ≤ fuel) :
    (chunks fuel items).flatMap (·.items) = items := by
  induction fuel generalizing items with
  | zero =>
    have none : items = [] := List.length_eq_zero_iff.mp (by omega)
    rw [none]
    rfl
  | succ fuel ih =>
    cases items with
    | nil => rfl
    | cons item rest =>
      have fewer : ((item :: rest).drop forgetChunk).length ≤ fuel := by
        rw [List.length_drop, List.length_cons, forgetChunk]
        rw [List.length_cons] at enough
        omega
      rw [chunks, List.flatMap_cons, ih _ fewer]
      · exact List.take_append_drop _ _
      · simp

theorem units_items (items : List (PlanItem D)) :
    (units items).flatMap (·.items) =
      (items.filter fun item => decide (item.action = .forget)) ++
        items.filter fun item => decide (item.action = .restore ∨ item.action = .unforget) := by
  unfold units
  simp only [List.flatMap_append]
  rw [chunks_items _ _ (Nat.le_refl _), List.flatMap_map, List.flatMap_singleton']

-- Skips, forgets and restores are all of a plan.
theorem units_perm (items : List (PlanItem D)) :
    ((items.filter fun item => decide (item.action = .skip)) ++
      (units items).flatMap (·.items)).Perm items := by
  rw [units_items]
  induction items with
  | nil => exact List.Perm.refl _
  | cons item rest ih =>
    cases action : item.action with
    | skip => simpa [List.filter_cons, action] using ih
    | forget =>
      simp only [List.filter_cons, action, reduceCtorEq, decide_false, decide_true,
        Bool.false_eq_true, if_false, if_true, or_self, List.cons_append]
      exact List.perm_middle.trans (ih.cons item)
    | restore =>
      simp only [List.filter_cons, action, reduceCtorEq, decide_false, decide_true,
        Bool.false_eq_true, if_false, if_true, or_false]
      rw [← List.append_assoc] at ih ⊢
      exact List.perm_middle.trans (ih.cons item)
    | unforget =>
      simp only [List.filter_cons, action, reduceCtorEq, decide_false, decide_true,
        Bool.false_eq_true, if_false, if_true, or_true]
      rw [← List.append_assoc] at ih ⊢
      exact List.perm_middle.trans (ih.cons item)

theorem itemEvents_append (left right : List (PlanItem D)) :
    itemEvents (left ++ right) = itemEvents left ++ itemEvents right :=
  List.flatMap_append

theorem units_some {items : List (PlanItem D)}
    (work : ((units items).flatMap (·.items)) ≠ []) :
    ∃ unit rest, units items = unit :: rest ∧ unit.items ≠ [] := by
  unfold units at work ⊢
  simp only at work ⊢
  cases forgets : items.filter fun item => decide (item.action = .forget) with
  | nil =>
    rw [forgets] at work
    cases restores : items.filter fun item =>
        decide (item.action = .restore ∨ item.action = .unforget) with
    | nil =>
      rw [restores] at work
      exact absurd rfl work
    | cons item rest =>
      exact ⟨⟨.restore, [item]⟩, rest.map fun item => ⟨.restore, [item]⟩, by simp [chunks], by simp⟩
  | cons item rest =>
    rw [List.length_cons, chunks, List.cons_append]
    · exact ⟨_, _, rfl, by simp [forgetChunk]⟩
    · simp

variable [DecidableEq D] (scope) (call)

structure Accounts (start : Db D) (rollbackId : Nat) (skipped pending : List Nat)
    (state : Executed D) : Prop where
  worked : Worked start rollbackId (skipped ++ state.reversed) state.db
  events : (state.reversed ++ state.failed ++ itemEvents state.deferred).Perm pending

theorem guarded_accounts {start : Db D} {rollbackId : Nat} {skipped pending : List Nat}
    {state : Executed D} (accounts : Accounts start rollbackId skipped pending state)
    (index : Nat) (unit : WorkUnit D) :
    Accounts start rollbackId skipped (pending ++ itemEvents unit.items)
      (guarded scope call rollbackId state index unit) := by
  have counted := List.perm_iff_count.mp accounts.events
  unfold guarded
  simp only
  split
  next db ran =>
    split at ran
    next => cases ran
    next =>
      obtain ⟨added, grown⟩ := runUnit_grows accounts.worked.consistent ran
      refine ⟨?_, ?_⟩
      · have marked := (accounts.worked.grows grown).marked (itemEvents unit.items)
        rw [List.append_assoc] at marked
        exact marked
      · rw [List.perm_iff_count]
        intro id
        have before := counted id
        simp only [List.count_append] at before ⊢
        omega
  next =>
    refine ⟨accounts.worked, ?_⟩
    rw [List.perm_iff_count]
    intro id
    have before := counted id
    simp only [List.count_append] at before ⊢
    omega

theorem runUnits_accounts {start : Db D} {rollbackId : Nat} {skipped pending : List Nat}
    {state : Executed D} (accounts : Accounts start rollbackId skipped pending state)
    (index : Nat) (units : List (WorkUnit D)) :
    Accounts start rollbackId skipped (pending ++ itemEvents (units.flatMap (·.items)))
      (runUnits scope call rollbackId state index units) := by
  induction units generalizing state pending index with
  | nil =>
    have same : pending ++ itemEvents (([] : List (WorkUnit D)).flatMap (·.items)) = pending := by
      simp [itemEvents]
    rw [same]
    exact accounts
  | cons unit rest ih =>
    unfold runUnits
    split
    next =>
      refine ⟨accounts.worked, ?_⟩
      have later := accounts.events.append_right (itemEvents ((unit :: rest).flatMap (·.items)))
      rw [List.append_assoc, ← itemEvents_append] at later
      exact later
    next =>
      have later := ih (guarded_accounts scope call accounts index unit) (index + 1)
      rw [List.append_assoc, ← itemEvents_append] at later
      exact later

-- Nothing leaves the lists of reversed and failed events.
theorem runUnits_keeps (rollbackId : Nat) (state : Executed D) (index : Nat)
    (units : List (WorkUnit D)) :
    (∃ more, (runUnits scope call rollbackId state index units).reversed = state.reversed ++ more) ∧
      ∃ more, (runUnits scope call rollbackId state index units).failed = state.failed ++ more := by
  induction units generalizing state index with
  | nil => exact ⟨⟨[], by simp [runUnits]⟩, ⟨[], by simp [runUnits]⟩⟩
  | cons unit rest ih =>
    unfold runUnits
    split
    next => exact ⟨⟨[], by simp⟩, ⟨[], by simp⟩⟩
    next =>
      obtain ⟨⟨reversed, reversedIs⟩, ⟨failed, failedIs⟩⟩ :=
        ih (guarded scope call rollbackId state index unit) (index + 1)
      rw [reversedIs, failedIs]
      unfold guarded
      simp only
      split
      next =>
        exact ⟨⟨itemEvents unit.items ++ reversed, by rw [List.append_assoc]⟩, ⟨failed, rfl⟩⟩
      next =>
        exact ⟨⟨reversed, rfl⟩, ⟨itemEvents unit.items ++ failed, by rw [List.append_assoc]⟩⟩

-- The first unit runs whatever the time; it is done or it fails.
theorem runUnits_first (rollbackId : Nat) (state : Executed D) (unit : WorkUnit D)
    (rest : List (WorkUnit D)) (work : itemEvents unit.items ≠ [])
    (noFailure : (runUnits scope call rollbackId state 0 (unit :: rest)).failed = []) :
    (runUnits scope call rollbackId state 0 (unit :: rest)).reversed ≠ [] := by
  unfold runUnits at noFailure ⊢
  simp only [ne_eq, not_true_eq_false, decide_false, Bool.false_and, Bool.false_eq_true, if_false]
    at noFailure ⊢
  obtain ⟨⟨reversed, reversedIs⟩, ⟨failed, failedIs⟩⟩ := runUnits_keeps scope
    call rollbackId (guarded scope call rollbackId state 0 unit) (0 + 1) rest
  rw [failedIs] at noFailure
  rw [reversedIs]
  unfold guarded at noFailure ⊢
  simp only at noFailure ⊢
  split at noFailure
  next => simp [work]
  next => simp [work] at noFailure

end Executions

section Calls

variable {db after : Db D} {scope : SessionScope} {call : Call D}

theorem openRecord_worked (consistent : Consistent db) (scope : SessionScope) (call : Call D) :
    Worked db (openRecord db scope call).2.id [] (openRecord db scope call).1 := by
  have unmarked : db.rows.map (mark [] (openRecord db scope call).2.id) = db.rows := by
    have same : ∀ row ∈ db.rows, mark [] (openRecord db scope call).2.id row = row := by
      intro row _
      simp [mark]
    exact (List.map_congr_left same).trans (List.map_id _)
  have rows : (openRecord db scope call).1.rows = db.rows := by
    unfold openRecord
    split <;> rfl
  have nextId : (openRecord db scope call).1.nextId = db.nextId := by
    unfold openRecord
    split <;> rfl
  refine ⟨openRecord_consistent consistent, by rw [nextId], [], ?_, by simp⟩
  rw [rows, unmarked, List.append_nil]

theorem itemEvents_some {items : List (PlanItem D)} (some : items ≠ [])
    (events : ∀ item ∈ items, item.eventIds ≠ []) : itemEvents items ≠ [] := by
  cases items with
  | nil => exact absurd rfl some
  | cons item rest => simp [itemEvents, events item (by simp)]

def skippedEvents (items : List (PlanItem D)) : List Nat :=
  itemEvents (items.filter fun item => decide (item.action = .skip))

variable [DecidableEq D]

structure Handles (db : Db D) (scope : SessionScope) (after : Db D) (result : RollbackResult D)
    (rollbackId : Nat) (handled : List Nat) : Prop where
  worked : Worked db rollbackId handled after
  record : result.rollbackId = some rollbackId
  distinct : handled.Nodup
  open_ : ∀ id ∈ handled, id ∈ (unhandled db scope).map (·.id)
  reversedDistinct : result.reversed.Nodup
  reversed : ∀ id ∈ result.reversed, id ∈ handled
  remaining : result.remaining = unhandledCount after scope
  status : result.status = some (finalStatus result.remaining result.failed.length)
  progress : result.failed = [] → unhandled db scope ≠ [] → handled ≠ []

theorem execute_accounts (consistent : Consistent db) (scope : SessionScope) (call : Call D)
    (items : List (PlanItem D)) :
    Accounts db (openRecord db scope call).2.id (skippedEvents items)
      (itemEvents ((units items).flatMap (·.items)))
      (execute (openRecord db scope call).1 scope call (openRecord db scope call).2.id items) := by
  have start : Accounts db (openRecord db scope call).2.id (skippedEvents items) []
      ⟨markHandled (openRecord db scope call).1 (skippedEvents items)
        (openRecord db scope call).2.id, [], [], []⟩ := by
    refine ⟨?_, List.Perm.refl _⟩
    rw [List.append_nil]
    exact (openRecord_worked consistent scope call).marked (skippedEvents items)
  have accounts := runUnits_accounts scope call start 0 (units items)
  rw [List.nil_append] at accounts
  exact accounts

-- A plan without failures handles something: a skip, or the first unit.
theorem execute_progress {items : List (PlanItem D)} (some : items ≠ [])
    (events : ∀ item ∈ items, item.eventIds ≠ []) (db : Db D) (scope : SessionScope)
    (call : Call D) (rollbackId : Nat)
    (noFailure : (execute db scope call rollbackId items).failed = []) :
    skippedEvents items ++ (execute db scope call rollbackId items).reversed ≠ [] := by
  intro nothing
  obtain ⟨noSkips, noReversed⟩ := List.append_eq_nil_iff.mp nothing
  have skips : (items.filter fun item => decide (item.action = .skip)) = [] := by
    by_contra listed
    exact itemEvents_some listed (fun item present => events item (List.mem_of_mem_filter present))
      noSkips
  have work : (units items).flatMap (·.items) ≠ [] := by
    intro none
    have perm := units_perm items
    rw [skips, none] at perm
    exact some perm.nil_eq.symm
  obtain ⟨unit, rest, unitsAre, unitItems⟩ := units_some work
  have unitEvents : itemEvents unit.items ≠ [] := by
    apply itemEvents_some unitItems
    intro item present
    apply events item
    apply (units_perm items).subset
    apply List.mem_append_right
    rw [unitsAre, List.flatMap_cons]
    exact List.mem_append_left _ present
  unfold execute at noFailure noReversed
  rw [unitsAre] at noFailure noReversed
  exact runUnits_first scope call rollbackId _ unit rest unitEvents noFailure noReversed

theorem readBatch_remaining (db : Db D) (scope : SessionScope) (call : Call D) :
    (readBatch db scope call).remaining =
      (unhandled db scope).length - (itemEvents (readBatch db scope call).items).length := by
  unfold readBatch
  simp only [unhandledCount]
  split
  next => simp [itemEvents]
  next => rfl

theorem readBatch_events (consistent : Consistent db) (scope : SessionScope) (call : Call D) :
    (itemEvents (readBatch db scope call).items).Nodup ∧
      ∀ id ∈ itemEvents (readBatch db scope call).items, id ∈ (unhandled db scope).map (·.id) := by
  have ascending : ((unhandled db scope).map (·.id)).Pairwise (· < ·) :=
    consistent.ascending.sublist (List.filter_sublist.map _)
  exact itemEvents_distinct ascending
    (fun item listed => (planItem_events (readBatch_planned listed)).1)
    (readBatch_distinct db scope call)

theorem rollbackBatch_handles (consistent : Consistent db) (scope : SessionScope) (call : Call D) :
    ∃ rollbackId handled,
      Handles db scope (rollbackBatch db scope call (readBatch db scope call)).1
        (rollbackBatch db scope call (readBatch db scope call)).2 rollbackId handled := by
  have events := readBatch_events consistent scope call
  have accounts := execute_accounts consistent scope call (readBatch db scope call).items
  have planned : ∀ item ∈ (readBatch db scope call).items, item.eventIds ≠ [] :=
    fun item listed => (planItem_events (readBatch_planned listed)).2
  have remaining := readBatch_remaining db scope call
  have progress := fun some : unhandled db scope ≠ [] =>
    execute_progress (readBatch_some call some) planned (openRecord db scope call).1 scope call
      (openRecord db scope call).2.id
  unfold rollbackBatch
  simp only
  generalize (readBatch db scope call).items = items at *
  generalize execute (openRecord db scope call).1 scope call (openRecord db scope call).2.id items =
    done at *
  have whole : (skippedEvents items ++
      (done.reversed ++ done.failed ++ itemEvents done.deferred)).Perm (itemEvents items) := by
    have all := (units_perm items).flatMap_right (·.eventIds)
    rw [List.flatMap_append] at all
    exact (accounts.events.append_left (skippedEvents items)).trans all
  have wholeDistinct := whole.symm.nodup events.1
  have handledSublist : (skippedEvents items ++ done.reversed).Sublist
      (skippedEvents items ++ (done.reversed ++ done.failed ++ itemEvents done.deferred)) := by
    rw [List.append_assoc]
    exact (List.Sublist.refl _).append (List.sublist_append_left _ _)
  have distinct := wholeDistinct.sublist handledSublist
  have listed : ∀ id ∈ skippedEvents items ++ done.reversed, id ∈ (unhandled db scope).map (·.id) :=
    fun id present => events.2 id (whole.subset (handledSublist.subset present))
  refine ⟨_, skippedEvents items ++ done.reversed, ?_, rfl, distinct, listed, ?_, ?_, ?_, rfl, ?_⟩
  · exact ⟨accounts.worked.consistent.tables rfl rfl rfl, accounts.worked.nextId,
      accounts.worked.rows⟩
  · exact distinct.sublist (List.sublist_append_right _ _)
  · exact fun id present => List.mem_append_right _ present
  · -- total - taken + failed + deferred = total - handled
    have idsDistinct : ((unhandled db scope).map (·.id)).Nodup :=
      (consistent.ascending.sublist (List.filter_sublist.map _)).imp Nat.ne_of_lt
    have count := filter_length_outside idsDistinct distinct listed
    have size := whole.length_eq
    have fits := (List.subperm_of_subset events.1 events.2).length_le
    have left : unhandledCount done.db scope =
        ((unhandled db scope).filter fun row =>
          decide (row.id ∉ skippedEvents items ++ done.reversed)).length := by
      rw [unhandledCount, accounts.worked.unhandled]
    change (readBatch db scope call).remaining + done.failed.length +
      (itemEvents done.deferred).length = unhandledCount done.db scope
    rw [left, remaining]
    rw [List.length_map] at fits
    simp only [List.length_append] at count size
    omega
  · exact fun noFailure some => progress some noFailure

end Calls

section Runs

-- What a step may do to the rows: `undone_by` is set at most once, ids are never used again.
structure Keeps (db after : Db D) : Prop where
  nextId : db.nextId ≤ after.nextId
  rows : ∀ row' ∈ after.rows, db.nextId ≤ row'.id ∨ ∃ row ∈ db.rows, row'.id = row.id ∧
    (row.undoneBy ≠ none → row'.undoneBy = row.undoneBy)

theorem Keeps.refl (db : Db D) : Keeps db db :=
  ⟨Nat.le_refl _, fun row present => .inr ⟨row, present, rfl, fun _ => rfl⟩⟩

theorem Keeps.trans {db middle after : Db D} (first : Keeps db middle) (second : Keeps middle after) :
    Keeps db after := by
  have nextId := first.nextId
  refine ⟨Nat.le_trans first.nextId second.nextId, ?_⟩
  intro row'' present
  rcases second.rows row'' present with new | ⟨row', between, sameId, kept⟩
  next => exact .inl (Nat.le_trans nextId new)
  next =>
    rcases first.rows row' between with new | ⟨row, before, sameId', kept'⟩
    next => exact .inl (by rw [sameId]; exact new)
    next =>
      refine .inr ⟨row, before, sameId.trans sameId', ?_⟩
      intro handled
      have held := kept' handled
      rw [kept (held ▸ handled), held]

theorem Grows.keeps {writer : RevisionWriter} {db after : Db D} {added : List (Revision D)}
    (grown : Grows writer db after added) : Keeps db after := by
  refine ⟨by rw [grown.nextId]; omega, ?_⟩
  intro row present
  rw [grown.rows] at present
  rcases List.mem_append.mp present with old | new
  next => exact .inr ⟨row, old, rfl, fun _ => rfl⟩
  next =>
    have listed : row.id ∈ added.map (·.id) := List.mem_map_of_mem new
    rw [grown.numbered, List.mem_range'_1] at listed
    exact .inl listed.1

theorem Worked.keeps {db after : Db D} {rollbackId : Nat} {handled : List Nat}
    (worked : Worked db rollbackId handled after) : Keeps db after := by
  obtain ⟨added, rows, own⟩ := worked.rows
  refine ⟨worked.nextId, ?_⟩
  intro row present
  rw [rows] at present
  rcases List.mem_append.mp present with old | new
  next =>
    obtain ⟨before, known, rfl⟩ := List.mem_map.mp old
    refine .inr ⟨before, known, (mark_relabels handled rollbackId).id before, ?_⟩
    intro held
    simp [mark, held]
  next => exact .inl (own row new).2

theorem Keeps.same {db after : Db D} (consistent : Consistent db) (keeps : Keeps db after)
    {row row' : Revision D} (before : row ∈ db.rows) (later : row' ∈ after.rows)
    (sameId : row'.id = row.id) (handled : row.undoneBy ≠ none) : row'.undoneBy = row.undoneBy := by
  have low := consistent.below row before
  rcases keeps.rows row' later with new | ⟨source, known, is, kept⟩
  next => omega
  next =>
    have isRow : source = row :=
      List.inj_on_of_nodup_map (consistent.ascending.imp Nat.ne_of_lt) known before
        (is.symm.trans sameId)
    rw [isRow] at kept
    exact kept handled

variable [DecidableEq D]

theorem rollbackSession_keeps {db after : Db D} {scope : SessionScope} {call : Call D}
    {result : RollbackResult D} (consistent : Consistent db)
    (ok : rollbackSession db scope call = .ok (after, result)) : Keeps db after := by
  rcases rollbackSession_cases ok with ⟨rfl, _⟩ | ⟨_, worked⟩
  next => exact Keeps.refl _
  next =>
    obtain ⟨rollbackId, handled, handles⟩ := rollbackBatch_handles consistent scope call
    rw [← worked] at handles
    exact handles.worked.keeps

theorem step_keeps {db : Db D} (consistent : Consistent db) (action : Step D) :
    Keeps db (step db action) := by
  rcases step_cases consistent action with ⟨_, _, grown⟩ | ⟨id, rfl⟩ | ⟨scope, call, rfl⟩
  next => exact grown.keeps
  next =>
    refine ⟨Nat.le_refl _, ?_⟩
    intro row present
    exact .inr ⟨row, List.mem_of_mem_filter present, rfl, fun _ => rfl⟩
  next =>
    simp only [step]
    split
    next after result ok => exact rollbackSession_keeps consistent ok
    next => exact Keeps.refl db

theorem run_append (steps later : List (Step D)) : run (steps ++ later) = later.foldl step (run steps) :=
  List.foldl_append

theorem run_keeps (steps later : List (Step D)) : Keeps (run steps) (run (steps ++ later)) := by
  induction later using List.reverseRecOn with
  | nil =>
    rw [List.append_nil]
    exact Keeps.refl _
  | append_singleton later action ih =>
    have last : run (steps ++ (later ++ [action])) = step (run (steps ++ later)) action := by
      rw [← List.append_assoc, run_append]
      rfl
    rw [last]
    exact ih.trans (step_keeps (run_consistent _) action)

def reversedBy (db : Db D) : Step D → List Nat
  | .rollback scope call =>
      match rollbackSession db scope call with
      | .ok (_, result) => result.reversed
      | .error _ => []
  | _ => []

def reversals (db : Db D) : List (Step D) → List Nat
  | [] => []
  | action :: rest => reversedBy db action ++ reversals (step db action) rest

theorem reversedBy_handled {db : Db D} (consistent : Consistent db) (action : Step D) :
    (reversedBy db action).Nodup ∧ ∀ id ∈ reversedBy db action,
      (∃ row ∈ db.rows, row.id = id ∧ row.undoneBy = none) ∧
        ∀ row ∈ (step db action).rows, row.id = id → row.undoneBy ≠ none := by
  cases action with
  | rollback scope call =>
    cases outcome : rollbackSession db scope call with
    | error refused => simp [reversedBy, outcome]
    | ok done =>
      obtain ⟨after, result⟩ := done
      have becomes : step db (.rollback scope call) = after := by simp only [step, outcome]
      have named : reversedBy db (.rollback scope call) = result.reversed := by
        simp only [reversedBy, outcome]
      rw [becomes, named]
      rcases rollbackSession_cases outcome with ⟨_, none, _⟩ | ⟨_, worked⟩
      next => simp [none]
      next =>
        obtain ⟨rollbackId, handled, handles⟩ := rollbackBatch_handles consistent scope call
        rw [← worked] at handles
        refine ⟨handles.reversedDistinct, ?_⟩
        intro id reversed
        have isHandled := handles.reversed id reversed
        obtain ⟨row, pending, rfl⟩ := List.mem_map.mp (handles.open_ id isHandled)
        obtain ⟨present, _, free⟩ := mem_unhandled.mp pending
        refine ⟨⟨row, present, rfl, free⟩, ?_⟩
        intro row' later sameId
        obtain ⟨added, rows, own⟩ := handles.worked.rows
        rw [show after.rows = _ from rows] at later
        rcases List.mem_append.mp later with old | new
        next =>
          obtain ⟨before, known, rfl⟩ := List.mem_map.mp old
          rw [(mark_relabels handled rollbackId).id] at sameId
          have isRow : before = row :=
            List.inj_on_of_nodup_map (consistent.ascending.imp Nat.ne_of_lt) known present sameId
          rw [isRow]
          simp [mark, isHandled, free]
        next =>
          have high := (own row' new).2
          have low := consistent.below row present
          omega
  | _ => simp [reversedBy]

theorem reversals_distinct {db : Db D} (consistent : Consistent db) (steps : List (Step D)) :
    (reversals db steps).Nodup ∧ ∀ id ∈ reversals db steps,
      (∃ row ∈ db.rows, row.id = id ∧ row.undoneBy = none) ∨ db.nextId ≤ id := by
  induction steps generalizing db with
  | nil => simp [reversals]
  | cons action rest ih =>
    have later := ih (step_consistent consistent action)
    have here := reversedBy_handled consistent action
    have keeps := step_keeps consistent action
    refine ⟨?_, ?_⟩
    · rw [reversals, List.nodup_append]
      refine ⟨here.1, later.1, ?_⟩
      intro id now other after same
      obtain ⟨⟨row, present, isId, _⟩, handled⟩ := here.2 id now
      rcases later.2 other after with ⟨row', known, isId', free⟩ | new
      next => exact handled row' known (isId'.trans same.symm) free
      next =>
        have low := consistent.below row present
        have nextId := keeps.nextId
        omega
    · intro id listed
      rcases List.mem_append.mp listed with now | after
      next => exact .inl (here.2 id now).1
      next =>
        have nextId := keeps.nextId
        rcases later.2 id after with ⟨row', known, isId, free⟩ | new
        next =>
          rcases keeps.rows row' known with fresh | ⟨row, before, sameId, kept⟩
          next => exact .inr (by omega)
          next =>
            refine .inl ⟨row, before, sameId.symm.trans isId, ?_⟩
            by_contra handled
            exact handled ((kept handled) ▸ free)
        next => exact .inr (by omega)

end Runs

section Finish

variable {db after : Db D} {scope : SessionScope} {call : Call D}

theorem marks_one {result : RollbackResult D} {rollbackId : Nat} {handled : List Nat}
    (handles : Handles db scope after result rollbackId handled) (some : handled ≠ []) :
    ∃ row ∈ unhandled db scope, ∃ row' ∈ after.rows, row'.id = row.id ∧
      row'.undoneBy = result.rollbackId ∧ result.rollbackId ≠ none := by
  obtain ⟨id, rest, is⟩ := List.exists_cons_of_ne_nil some
  have listed : id ∈ handled := by
    rw [is]
    exact List.mem_cons_self
  obtain ⟨row, pending, rfl⟩ := List.mem_map.mp (handles.open_ id listed)
  obtain ⟨present, _, free⟩ := mem_unhandled.mp pending
  obtain ⟨added, rows, _⟩ := handles.worked.rows
  refine ⟨row, pending, mark handled rollbackId row, ?_, (mark_relabels _ _).id row, ?_, ?_⟩
  · rw [rows]
    exact List.mem_append_left _ (List.mem_map_of_mem present)
  · rw [handles.record]
    simp [mark, listed, free]
  · rw [handles.record]
    simp

variable [DecidableEq D]

theorem rollbackSession_ok (some : unhandled db scope ≠ []) (wet : call.dryRun = false) :
    rollbackSession db scope call = .ok (rollbackBatch db scope call (readBatch db scope call)) := by
  obtain ⟨row, rest, pending⟩ := List.exists_cons_of_ne_nil some
  have listed : row ∈ unhandled db scope := by
    rw [pending]
    exact List.mem_cons_self
  obtain ⟨present, api, _⟩ := mem_unhandled.mp listed
  have exists_ : scopeExists db scope = true := by
    rw [scopeExists, List.any_eq_true]
    refine ⟨row, present, ?_⟩
    split
    next => exact api
    next => exact (Bool.and_eq_true_iff.mp api).1
  have items : (readBatch db scope call).items.isEmpty = false := by
    rw [List.isEmpty_eq_false_iff]
    exact readBatch_some call some
  unfold rollbackSession
  simp only [exists_, items, wet, Bool.not_true, Bool.false_and, Bool.false_eq_true, if_false]
  split <;> rfl

theorem rollback_fewer (consistent : Consistent db) (scope : SessionScope) (call : Call D) :
    (unhandled (step db (.rollback scope call)) scope).length ≤ (unhandled db scope).length := by
  simp only [step]
  split
  next after result ok =>
    rcases rollbackSession_cases ok with ⟨rfl, _⟩ | ⟨_, worked⟩
    next => exact Nat.le_refl _
    next =>
      obtain ⟨rollbackId, handled, handles⟩ := rollbackBatch_handles consistent scope call
      rw [← worked] at handles
      rw [handles.worked.unhandled]
      exact List.length_filter_le _ _
  next => exact Nat.le_refl _

def failedBy (db : Db D) (scope : SessionScope) (call : Call D) : List Nat :=
  match rollbackSession db scope call with
  | .ok (_, result) => result.failed
  | .error _ => []

theorem rollback_progress (consistent : Consistent db) (wet : call.dryRun = false)
    (some : unhandled db scope ≠ []) (noFailure : failedBy db scope call = []) :
    (unhandled (step db (.rollback scope call)) scope).length < (unhandled db scope).length := by
  have ok := rollbackSession_ok some wet
  obtain ⟨rollbackId, handled, handles⟩ := rollbackBatch_handles consistent scope call
  simp only [failedBy, ok] at noFailure
  have marked := handles.progress noFailure some
  simp only [step, ok]
  rw [handles.worked.unhandled]
  have idsDistinct : ((unhandled db scope).map (·.id)).Nodup :=
    (consistent.ascending.sublist (List.filter_sublist.map _)).imp Nat.ne_of_lt
  have count := filter_length_outside idsDistinct handles.distinct handles.open_
  have positive := List.length_pos_iff.mpr marked
  omega

def callAll (db : Db D) (scope : SessionScope) : List (Call D) → Db D
  | [] => db
  | call :: rest => callAll (step db (.rollback scope call)) scope rest

def NoFailures (db : Db D) (scope : SessionScope) : List (Call D) → Prop
  | [] => True
  | call :: rest =>
      failedBy db scope call = [] ∧ NoFailures (step db (.rollback scope call)) scope rest

theorem callAll_finishes (consistent : Consistent db) (calls : List (Call D))
    (wet : ∀ call ∈ calls, call.dryRun = false) (noFailures : NoFailures db scope calls)
    (enough : (unhandled db scope).length ≤ calls.length) :
    unhandled (callAll db scope calls) scope = [] := by
  induction calls generalizing db with
  | nil => exact List.length_eq_zero_iff.mp (Nat.le_zero.mp enough)
  | cons call rest ih =>
    apply ih (step_consistent consistent (.rollback scope call))
    · exact fun other listed => wet other (by simp [listed])
    · exact noFailures.2
    · rw [List.length_cons] at enough
      by_cases none : unhandled db scope = []
      next =>
        have fewer := rollback_fewer consistent scope call
        rw [none, List.length_nil] at fewer
        omega
      next =>
        have fewer := rollback_progress consistent (wet call (by simp)) none noFailures.1
        omega

theorem completed_finished (consistent : Consistent db) {result : RollbackResult D}
    (wet : call.dryRun = false) (ok : rollbackSession db scope call = .ok (after, result))
    (completed : result.status = some .completed) : unhandled after scope = [] := by
  rcases rollbackSession_cases ok with ⟨_, _, dry | ⟨_, unrecorded⟩⟩ | ⟨_, worked⟩
  next => simp [wet] at dry
  next => simp [unrecorded] at completed
  next =>
    obtain ⟨rollbackId, handled, handles⟩ := rollbackBatch_handles consistent scope call
    rw [← worked] at handles
    have status := handles.status
    simp only [completed, Option.some.injEq] at status
    have zero : result.remaining = 0 := by
      by_contra more
      unfold finalStatus at status
      rw [if_neg more] at status
      split at status <;> cases status
    have left := handles.remaining
    simp only [zero] at left
    exact List.length_eq_zero_iff.mp left.symm

theorem rollback_handles_once (steps : List (Step D)) :
    (∀ later, ∀ row ∈ (run steps).rows, ∀ row' ∈ (run (steps ++ later)).rows, row'.id = row.id →
      row.undoneBy ≠ none → row'.undoneBy = row.undoneBy) ∧
    (reversals emptyDb steps).Nodup ∧
    (∀ scope call, call.dryRun = false → unhandled (run steps) scope ≠ [] →
      ∃ after result, rollbackSession (run steps) scope call = .ok (after, result) ∧
        (result.failed = [] → ∃ row ∈ unhandled (run steps) scope, ∃ row' ∈ after.rows,
          row'.id = row.id ∧ row'.undoneBy = result.rollbackId ∧ result.rollbackId ≠ none)) ∧
    (∀ scope call after result, call.dryRun = false →
      rollbackSession (run steps) scope call = .ok (after, result) →
      result.status = some .completed → unhandled after scope = []) ∧
    (∀ scope calls, (∀ call ∈ calls, call.dryRun = false) → NoFailures (run steps) scope calls →
      (unhandled (run steps) scope).length ≤ calls.length →
      unhandled (callAll (run steps) scope calls) scope = []) := by
  have consistent : Consistent (run steps) := run_consistent steps
  refine ⟨?_, (reversals_distinct emptyDb_consistent steps).1, ?_, ?_, ?_⟩
  · intro later row before row' after sameId handled
    exact (run_keeps steps later).same consistent before after sameId handled
  · intro scope call wet some
    refine ⟨_, _, rollbackSession_ok some wet, ?_⟩
    intro noFailure
    obtain ⟨rollbackId, handled, handles⟩ := rollbackBatch_handles consistent scope call
    exact marks_one handles (handles.progress noFailure some)
  · intro scope call after result wet ok completed
    exact completed_finished consistent wet ok completed
  · intro scope calls wet noFailures enough
    exact callAll_finishes consistent calls wet noFailures enough

theorem rollback_handles_threeEdits :
    unhandled (run threeEdits) wideWindow ≠ [] ∧
      unhandled (callAll (run threeEdits) wideWindow [memberCall, memberCall, memberCall])
        wideWindow = [] := by
  have noFailures : NoFailures (run threeEdits) wideWindow [memberCall, memberCall, memberCall] := by
    refine ⟨?_, ?_, ?_, trivial⟩
    all_goals decide +kernel
  refine ⟨?_, ?_⟩
  · exact List.ne_nil_of_length_pos (by decide +kernel)
  · exact (rollback_handles_once threeEdits).2.2.2.2 wideWindow _ (by simp [memberCall]) noFailures
      (by decide +kernel)

end Finish

end MemoryCloud.Rollback
