import Mathlib.Data.List.Forall2
import MemoryCloud.Bindings.Model

set_option autoImplicit false

namespace MemoryCloud.Bindings

open SqlLogic

def rowPasses (binding : AgentContextBinding) (row : MemoryRow) : Bool :=
  dimensionPermits binding.allowedMemoryTypes row.type &&
    dimensionPermits binding.allowedSourceTypes row.sourceType

@[simp] theorem permits_eq (filter : BindingRowFilter) (memoryType sourceType : Option String) :
    filter.permits memoryType sourceType =
      (dimensionPermits filter.allowedMemoryTypes memoryType &&
        dimensionPermits filter.allowedSourceTypes sourceType) := by
  cases permitted : dimensionPermits filter.allowedMemoryTypes memoryType <;>
    simp [BindingRowFilter.permits, permitted]

theorem fromBinding_none {binding : AgentContextBinding} (row : MemoryRow)
    (unrestricted : BindingRowFilter.fromBinding binding = none) :
    rowPasses binding row = true := by
  simp only [BindingRowFilter.fromBinding] at unrestricted
  split at unrestricted
  next absent => simp [rowPasses, dimensionPermits, absent.1, absent.2]
  next => cases unrestricted

theorem fromBinding_some {binding : AgentContextBinding} {filter : BindingRowFilter}
    (row : MemoryRow) (restricted : BindingRowFilter.fromBinding binding = some filter) :
    filter.permits row.type row.sourceType = rowPasses binding row := by
  simp only [BindingRowFilter.fromBinding] at restricted
  split at restricted
  next => cases restricted
  next =>
    cases restricted
    simp [rowPasses]

theorem allowedClause_keeps (column : Option String) (allowed : List String) :
    (allowedClause column allowed).Keeps ↔ dimensionPermits (some allowed) column = true := by
  by_cases empty : allowed = []
  · cases column <;> simp [allowedClause, empty, dimensionPermits]
  · cases column <;> simp [allowedClause, empty, dimensionPermits, isIn_keeps]

theorem rowFilterDims_keeps (filter : BindingRowFilter) (row : MemoryRow) :
    (Tri.all (rowFilterDims filter row)).Keeps ↔
      filter.permits row.type row.sourceType = true := by
  rw [all_keeps]
  cases types : filter.allowedMemoryTypes <;> cases sources : filter.allowedSourceTypes <;>
    simp [rowFilterDims, types, sources, allowedClause_keeps, dimensionPermits]

-- A clause that is not refuted drops the row: `NOT unknown` is unknown.
theorem deniedClause_refuted (row : MemoryRow) (binding : AgentContextBinding)
    (readable : binding.canRead = true) (context : ContextId)
    (located : row.contextId = some context) :
    (∀ clause, deniedClause row binding = some clause → clause = some false) ↔
      (binding.contextId = context → rowPasses binding row = true) := by
  cases restriction : BindingRowFilter.fromBinding binding with
  | none =>
    simp [deniedClause, readable, restriction, fromBinding_none row restriction]
  | some filter =>
    simp only [deniedClause, readable, Bool.not_true, Bool.false_eq_true, if_false, restriction,
      Option.some.injEq, forall_eq', and_refuted, not_refuted, rowFilterDims_keeps,
      fromBinding_some row restriction, eq_refuted, located, exists_eq_left']
    constructor
    · rintro (elsewhere | passes) same
      · exact absurd same.symm elsewhere
      · exact passes
    · intro passes
      by_cases same : context = binding.contextId
      · exact Or.inr (passes same.symm)
      · exact Or.inl same

theorem deniedClause_unreadable (row : MemoryRow) (binding : AgentContextBinding)
    (unreadable : binding.canRead = false) : deniedClause row binding = none := by
  simp [deniedClause, unreadable]

variable (table : BindingTable) (scope : AgentScope) (row : MemoryRow)

theorem mem_forAgent (binding : AgentContextBinding) (agent : AgentId) :
    binding ∈ table.forAgent agent ↔ binding ∈ table.rows ∧ binding.agentId = agent := by
  simp [BindingTable.forAgent]

theorem unique_binding {a b : AgentContextBinding} (left : a ∈ table.rows) (right : b ∈ table.rows)
    (agent : a.agentId = b.agentId) (context : a.contextId = b.contextId) : a = b := by
  by_contra different
  rcases List.pairwise_iff_getElem.mp table.unique with unique
  obtain ⟨i, bi, ai⟩ := List.getElem_of_mem left
  obtain ⟨j, bj, aj⟩ := List.getElem_of_mem right
  rcases Nat.lt_trichotomy i j with less | same | more
  · exact unique i j bi bj less (by rw [ai, aj]; exact agent) (by rw [ai, aj]; exact context)
  · subst same
    exact different (ai.symm.trans aj)
  · exact unique j i bj bi more (by rw [ai, aj]; exact agent.symm)
      (by rw [ai, aj]; exact context.symm)

theorem getBindingForContext_eq (agent : AgentId) (context : Option ContextId)
    (binding : AgentContextBinding) :
    table.getBindingForContext agent context = some binding ↔
      binding ∈ table.rows ∧ binding.agentId = agent ∧ context = some binding.contextId := by
  constructor
  · intro found
    have matched := List.find?_some found
    simp only [Bool.and_eq_true, decide_eq_true_eq] at matched
    exact ⟨List.mem_of_find?_eq_some found, matched⟩
  · rintro ⟨member, sameAgent, sameContext⟩
    cases found : table.getBindingForContext agent context with
    | none =>
      have missing := List.find?_eq_none.mp found binding member
      simp [sameAgent, sameContext] at missing
    | some other =>
      have matched := List.find?_some found
      simp only [Bool.and_eq_true, decide_eq_true_eq] at matched
      have same := unique_binding table (List.mem_of_find?_eq_some found) member
        (matched.1.trans sameAgent.symm)
        (Option.some.inj (matched.2.symm.trans sameContext))
      rw [same]

def Binds (binding : AgentContextBinding) : Prop :=
  binding ∈ table.rows ∧ binding.agentId = scope.agentId ∧
    row.contextId = some binding.contextId

theorem binds_unique {a b : AgentContextBinding} (left : Binds table scope row a)
    (right : Binds table scope row b) : a = b :=
  unique_binding table left.1 right.1 (left.2.1.trans right.2.1.symm)
    (Option.some.inj (left.2.2.symm.trans right.2.2))

theorem membershipGate_keeps :
    (membershipGate (table.forAgent scope.agentId) row).Keeps ↔
      ∃ binding, Binds table scope row binding ∧ binding.canRead = true := by
  set readableIds := ((table.forAgent scope.agentId).filter (·.canRead)).map (·.contextId)
    with readable
  have member (context : ContextId) : context ∈ readableIds ↔
      ∃ binding ∈ table.rows, binding.agentId = scope.agentId ∧ binding.canRead = true ∧
        binding.contextId = context := by
    simp [readable, mem_forAgent, and_assoc]
  by_cases empty : readableIds = []
  · simp only [membershipGate, ← readable, empty, if_true, keeps_some, Bool.false_eq_true,
      false_iff, not_exists, not_and]
    rintro binding ⟨present, agent, -⟩ reads
    have listed := (member binding.contextId).mpr ⟨binding, present, agent, reads, rfl⟩
    simp [empty] at listed
  · simp only [membershipGate, ← readable, if_neg empty, isIn_keeps, member]
    constructor
    · rintro ⟨context, located, binding, present, agent, reads, rfl⟩
      exact ⟨binding, ⟨present, agent, located⟩, reads⟩
    · rintro ⟨binding, ⟨present, agent, located⟩, reads⟩
      exact ⟨_, located, binding, present, agent, reads, rfl⟩

theorem deniedClauses_refuted (context : ContextId) (located : row.contextId = some context) :
    Tri.any ((table.forAgent scope.agentId).filterMap (deniedClause row)) = some false ↔
      ∀ binding, Binds table scope row binding → binding.canRead = true →
        rowPasses binding row = true := by
  rw [any_refuted]
  simp only [List.mem_filterMap, forall_exists_index, and_imp]
  constructor
  · intro refuted binding bound reads
    have own := (deniedClause_refuted row binding reads context located).mp fun clause found =>
      refuted clause binding ((mem_forAgent table _ _).mpr ⟨bound.1, bound.2.1⟩) found
    exact own (Option.some.inj (bound.2.2.symm.trans located))
  · intro passes clause binding present found
    have listed := (mem_forAgent table _ _).mp present
    cases reads : binding.canRead with
    | false => simp [deniedClause_unreadable row binding reads] at found
    | true =>
      refine (deniedClause_refuted row binding reads context located).mpr ?_ clause found
      intro same
      exact passes binding ⟨listed.1, listed.2, by rw [located, same]⟩ reads

theorem sqlKeeps_enforce (enforced : scope.enforcementMode = .enforce) :
    sqlKeeps table (some scope) row ↔
      ∃ binding, Binds table scope row binding ∧ binding.canRead = true ∧
        rowPasses binding row = true := by
  have unfolded : sqlKeeps table (some scope) row ↔
      (membershipGate (table.forAgent scope.agentId) row).Keeps ∧
        Tri.any ((table.forAgent scope.agentId).filterMap (deniedClause row)) = some false := by
    simp only [sqlKeeps, bindingMemorySqlPredicate, enforced, reduceCtorEq, if_false]
    by_cases none : (table.forAgent scope.agentId).filterMap (deniedClause row) = []
    · simp [none, Tri.any]
    · simp only [if_neg none, and_keeps, not_keeps]
  rw [unfolded, membershipGate_keeps]
  constructor
  · rintro ⟨⟨binding, bound, reads⟩, refuted⟩
    exact ⟨binding, bound, reads,
      (deniedClauses_refuted table scope row _ bound.2.2).mp refuted binding bound reads⟩
  · rintro ⟨binding, bound, reads, passes⟩
    refine ⟨⟨binding, bound, reads⟩, (deniedClauses_refuted table scope row _ bound.2.2).mpr ?_⟩
    intro other otherBound _
    rw [binds_unique table scope row otherBound bound]
    exact passes

theorem lookupFilter_some (contexts : List (Option ContextId)) (listed : row.contextId ∈ contexts)
    (filter : BindingRowFilter) :
    lookupFilter (bindingRowFiltersForContexts table scope contexts) row.contextId = some filter ↔
      ∃ binding, Binds table scope row binding ∧
        BindingRowFilter.fromBinding binding = some filter := by
  have entry (context : ContextId) (found : BindingRowFilter) :
      (context, found) ∈ bindingRowFiltersForContexts table scope contexts ↔
        ∃ binding ∈ table.rows, binding.agentId = scope.agentId ∧
          some binding.contextId ∈ contexts ∧ binding.contextId = context ∧
          BindingRowFilter.fromBinding binding = some found := by
    simp only [bindingRowFiltersForContexts, List.mem_filterMap, mem_forAgent]
    constructor
    · rintro ⟨binding, ⟨present, agent⟩, selected⟩
      by_cases inside : some binding.contextId ∈ contexts
      · simp only [inside, if_true, Option.map_eq_some_iff, Prod.mk.injEq] at selected
        obtain ⟨_, restricted, rfl, rfl⟩ := selected
        exact ⟨binding, present, agent, inside, rfl, restricted⟩
      · simp [inside] at selected
    · rintro ⟨binding, present, agent, inside, rfl, restricted⟩
      exact ⟨binding, ⟨present, agent⟩, by simp [inside, restricted]⟩
  constructor
  · intro found
    simp only [lookupFilter, Option.map_eq_some_iff] at found
    obtain ⟨⟨context, _⟩, hit, rfl⟩ := found
    have located : row.contextId = some context := by simpa using List.find?_some hit
    obtain ⟨binding, present, agent, _, rfl, restricted⟩ :=
      (entry _ _).mp (List.mem_of_find?_eq_some hit)
    exact ⟨binding, ⟨present, agent, located⟩, restricted⟩
  · rintro ⟨binding, bound, restricted⟩
    have present := (entry binding.contextId filter).mpr
      ⟨binding, bound.1, bound.2.1, bound.2.2 ▸ listed, rfl, restricted⟩
    cases hit : (bindingRowFiltersForContexts table scope contexts).find?
        (fun entry => decide (row.contextId = some entry.1)) with
    | none =>
      have missing := List.find?_eq_none.mp hit _ present
      simp [bound.2.2] at missing
    | some found =>
      have located : row.contextId = some found.1 := by simpa using List.find?_some hit
      obtain ⟨other, otherPresent, otherAgent, _, otherContext, otherRestricted⟩ :=
        (entry found.1 found.2).mp (List.mem_of_find?_eq_some hit)
      have same := binds_unique table scope row bound
        ⟨otherPresent, otherAgent, by rw [located, otherContext]⟩
      subst same
      simp only [lookupFilter, hit, Option.map_some]
      exact otherRestricted.symm.trans restricted

theorem rowPermitted_iff (contexts : List (Option ContextId)) (listed : row.contextId ∈ contexts) :
    rowPermitted (bindingRowFiltersForContexts table scope contexts) row = true ↔
      ∀ binding, Binds table scope row binding → rowPasses binding row = true := by
  cases found : lookupFilter (bindingRowFiltersForContexts table scope contexts) row.contextId with
  | none =>
    simp only [rowPermitted, found, true_iff]
    intro binding bound
    cases restriction : BindingRowFilter.fromBinding binding with
    | none => exact fromBinding_none row restriction
    | some filter =>
      have hit := (lookupFilter_some table scope row contexts listed filter).mpr
        ⟨binding, bound, restriction⟩
      simp [found] at hit
  | some filter =>
    obtain ⟨binding, bound, restriction⟩ :=
      (lookupFilter_some table scope row contexts listed filter).mp found
    simp only [rowPermitted, found, fromBinding_some row restriction]
    constructor
    · intro passes other otherBound
      rwa [binds_unique table scope row otherBound bound]
    · intro passes
      exact passes binding bound

theorem filterMemoryRowsByBinding_enforce (enforced : scope.enforcementMode = .enforce)
    (rows : List MemoryRow) (fetched : row ∈ rows) :
    row ∈ (filterMemoryRowsByBinding table (some scope) rows).1 ↔
      ∀ binding, Binds table scope row binding → rowPasses binding row = true := by
  set filters := bindingRowFiltersForContexts table scope (rows.map (·.contextId)) with read
  have listed : row.contextId ∈ rows.map (·.contextId) := List.mem_map_of_mem fetched
  have permitted := rowPermitted_iff table scope row _ listed
  rw [← permitted, ← read]
  have nonempty : rows ≠ [] := List.ne_nil_of_mem fetched
  by_cases unrestricted : filters = []
  · have passes : rowPermitted filters row = true := by
      simp [unrestricted, rowPermitted, lookupFilter]
    simp [filterMemoryRowsByBinding, nonempty, ← read, unrestricted, fetched, ← passes]
  · by_cases denied : (rows.filter fun row => !rowPermitted filters row) = []
    · simp only [filterMemoryRowsByBinding, nonempty, if_false, ← read, unrestricted, denied,
        if_true, List.mem_filter, fetched, true_and]
    · simp only [filterMemoryRowsByBinding, nonempty, if_false, ← read, unrestricted, denied,
        enforced, reduceCtorEq, List.mem_filter, fetched, true_and]

theorem evaluateBinding_read (enforced : scope.enforcementMode = .enforce)
    {binding : AgentContextBinding}
    (found : table.getBindingForContext scope.agentId row.contextId = some binding) :
    (evaluateContextAccess table scope row.contextId .read row.type row.sourceType).1 = true ↔
      binding.canRead = true ∧
        ((row.type = none ∧ row.sourceType = none) ∨ rowPasses binding row = true) := by
  cases reads : binding.canRead with
  | false => simp [evaluateContextAccess, found, bindingGrants, reads, enforced]
  | true =>
    cases restriction : BindingRowFilter.fromBinding binding with
    | none =>
      simp [evaluateContextAccess, found, bindingGrants, reads, restriction,
        fromBinding_none row restriction]
    | some filter =>
      have passes := fromBinding_some row restriction
      cases threaded : (row.type.isSome || row.sourceType.isSome) with
      | false =>
        have absent : row.type = none ∧ row.sourceType = none := by simpa using threaded
        simp [evaluateContextAccess, found, bindingGrants, reads, absent]
      | true =>
        have present : ¬(row.type = none ∧ row.sourceType = none) := by
          rintro ⟨type, source⟩
          simp [type, source] at threaded
        cases verdict : rowPasses binding row <;>
          simp only [evaluateContextAccess, found, bindingGrants, reads, threaded, Bool.and_self,
            if_true, restriction, passes, verdict, enforced, Bool.false_eq_true, reduceCtorEq,
            if_false, present, or_self, or_true, and_true, and_false]

theorem evaluateContextAccess_enforce (enforced : scope.enforcementMode = .enforce) :
    (evaluateContextAccess table scope row.contextId .read row.type row.sourceType).1 = true ↔
      ∃ binding, Binds table scope row binding ∧ binding.canRead = true ∧
        ((row.type = none ∧ row.sourceType = none) ∨ rowPasses binding row = true) := by
  cases found : table.getBindingForContext scope.agentId row.contextId with
  | none =>
    simp only [evaluateContextAccess, found, bindingGrants, enforced, reduceCtorEq, if_false,
      Bool.false_eq_true, false_iff, not_exists, not_and]
    intro binding bound
    have hit := (getBindingForContext_eq table _ _ binding).mpr bound
    simp [found] at hit
  | some binding =>
    have bound : Binds table scope row binding := (getBindingForContext_eq table _ _ binding).mp found
    have decided := evaluateBinding_read table scope row enforced found
    rw [decided]
    constructor
    · intro passes
      exact ⟨binding, bound, passes⟩
    · rintro ⟨other, otherBound, passes⟩
      rwa [binds_unique table scope row otherBound bound] at passes

theorem shadow_keeps_all (shadowed : scope.enforcementMode = .shadow) (rows : List MemoryRow) :
    sqlKeeps table (some scope) row ∧
      (filterMemoryRowsByBinding table (some scope) rows).1 = rows ∧
      (evaluateContextAccess table scope row.contextId .read row.type row.sourceType).1 = true := by
  refine ⟨by simp [sqlKeeps, bindingMemorySqlPredicate, shadowed], ?_, ?_⟩
  · set filters := bindingRowFiltersForContexts table scope (rows.map (·.contextId)) with read
    by_cases empty : rows = []
    · simp [filterMemoryRowsByBinding, empty]
    by_cases unrestricted : filters = []
    · simp [filterMemoryRowsByBinding, empty, ← read, unrestricted]
    by_cases denied : (rows.filter fun row => !rowPermitted filters row) = []
    · have all : ∀ row ∈ rows, rowPermitted filters row = true := by
        simpa [List.filter_eq_nil_iff] using denied
      simp only [filterMemoryRowsByBinding, empty, if_false, ← read, unrestricted, denied, if_true]
      exact List.filter_eq_self.mpr all
    · simp [filterMemoryRowsByBinding, empty, ← read, unrestricted, denied, shadowed]
  · have either (permitted : Bool) :
        (if permitted then (true, Decision.allowed) else (true, Decision.wouldDeny)).1 = true := by
      cases permitted <;> rfl
    simp only [evaluateContextAccess, shadowed, if_true]
    exact either _

def RestrictsDimension (old new : Option (List String)) : Prop :=
  match old with
  | none => True
  | some before => ∃ after, new = some after ∧ after ⊆ before

structure Restricts (old new : AgentContextBinding) : Prop where
  agent : new.agentId = old.agentId
  context : new.contextId = old.contextId
  read : new.canRead = true → old.canRead = true
  write : new.writePolicy = .direct → old.writePolicy = .direct
  types : RestrictsDimension old.allowedMemoryTypes new.allowedMemoryTypes
  sources : RestrictsDimension old.allowedSourceTypes new.allowedSourceTypes

theorem RestrictsDimension.permits {old new : Option (List String)}
    (narrower : RestrictsDimension old new) (value : Option String)
    (permitted : dimensionPermits new value = true) : dimensionPermits old value = true := by
  cases old with
  | none => rfl
  | some before =>
    obtain ⟨after, rfl, subset⟩ := narrower
    cases value with
    | none => simp [dimensionPermits] at permitted
    | some found =>
      simp only [dimensionPermits, decide_eq_true_eq] at permitted ⊢
      exact subset permitted

theorem Restricts.rowPasses {old new : AgentContextBinding} (narrower : Restricts old new)
    (permitted : rowPasses new row = true) : rowPasses old row = true := by
  simp only [Bindings.rowPasses, Bool.and_eq_true] at permitted ⊢
  exact ⟨narrower.types.permits _ permitted.1, narrower.sources.permits _ permitted.2⟩

def BindingTable.Restricts (old new : BindingTable) : Prop :=
  List.Forall₂ Bindings.Restricts old.rows new.rows

variable {table} {narrowed : BindingTable}

theorem BindingTable.Restricts.old (narrower : table.Restricts narrowed)
    {new : AgentContextBinding} (bound : Binds narrowed scope row new) :
    ∃ old, Binds table scope row old ∧ Bindings.Restricts old new := by
  obtain ⟨index, inside, rfl⟩ := List.getElem_of_mem bound.1
  have same := narrower.length_eq
  have pair := narrower.get (by omega) inside
  refine ⟨table.rows[index], ⟨List.getElem_mem _, ?_, ?_⟩, pair⟩
  · exact pair.agent.symm.trans bound.2.1
  · exact bound.2.2.trans (congrArg some pair.context)

theorem BindingTable.Restricts.new (narrower : table.Restricts narrowed)
    {old : AgentContextBinding} (bound : Binds table scope row old) :
    ∃ new, Binds narrowed scope row new ∧ Bindings.Restricts old new := by
  obtain ⟨index, inside, rfl⟩ := List.getElem_of_mem bound.1
  have same := narrower.length_eq
  have pair := narrower.get inside (by omega)
  refine ⟨narrowed.rows[index], ⟨List.getElem_mem _, ?_, ?_⟩, pair⟩
  · exact pair.agent.trans bound.2.1
  · exact bound.2.2.trans (congrArg some pair.context.symm)

theorem BindingTable.Restricts.lanes (narrower : table.Restricts narrowed)
    (rows : List MemoryRow) (fetched : row ∈ rows) :
    (sqlKeeps narrowed (some scope) row → sqlKeeps table (some scope) row) ∧
      (row ∈ (filterMemoryRowsByBinding narrowed (some scope) rows).1 →
        row ∈ (filterMemoryRowsByBinding table (some scope) rows).1) ∧
      ((evaluateContextAccess narrowed scope row.contextId .read row.type row.sourceType).1 = true →
        (evaluateContextAccess table scope row.contextId .read row.type row.sourceType).1 =
          true) := by
  cases mode : scope.enforcementMode with
  | shadow =>
    obtain ⟨sql, filtered, evaluated⟩ := shadow_keeps_all table scope row mode rows
    exact ⟨fun _ => sql, fun _ => by rwa [filtered], fun _ => evaluated⟩
  | enforce =>
    rw [sqlKeeps_enforce narrowed scope row mode, sqlKeeps_enforce table scope row mode,
      filterMemoryRowsByBinding_enforce narrowed scope row mode rows fetched,
      filterMemoryRowsByBinding_enforce table scope row mode rows fetched,
      evaluateContextAccess_enforce narrowed scope row mode,
      evaluateContextAccess_enforce table scope row mode]
    refine ⟨?_, ?_, ?_⟩
    · rintro ⟨new, bound, reads, passes⟩
      obtain ⟨old, oldBound, pair⟩ := narrower.old scope row bound
      exact ⟨old, oldBound, pair.read reads, pair.rowPasses row passes⟩
    · intro passes old bound
      obtain ⟨new, newBound, pair⟩ := narrower.new scope row bound
      exact pair.rowPasses row (passes new newBound)
    · rintro ⟨new, bound, reads, decided⟩
      obtain ⟨old, oldBound, pair⟩ := narrower.old scope row bound
      exact ⟨old, oldBound, pair.read reads, decided.imp id (pair.rowPasses row)⟩

theorem contextGate_iff :
    bindingGrants (table.getBindingForContext scope.agentId row.contextId) .read = true ↔
      ∃ binding, Binds table scope row binding ∧ binding.canRead = true := by
  constructor
  · intro granted
    cases found : table.getBindingForContext scope.agentId row.contextId with
    | none => simp [found, bindingGrants] at granted
    | some binding =>
      rw [found] at granted
      exact ⟨binding, (getBindingForContext_eq table _ _ binding).mp found, granted⟩
  · rintro ⟨binding, bound, reads⟩
    rw [(getBindingForContext_eq table _ _ binding).mpr bound]
    exact reads

-- The row filter leaves the context decision to the gate before it, and a row threaded without type
-- and source is judged by its context alone.
theorem lanes_agree (table narrowed : BindingTable) (scope : AgentScope) (row : MemoryRow)
    (rows : List MemoryRow) (fetched : row ∈ rows) (narrower : table.Restricts narrowed) :
    (scope.enforcementMode = .enforce →
      (sqlKeeps table (some scope) row ↔
        bindingGrants (table.getBindingForContext scope.agentId row.contextId) .read = true ∧
          row ∈ (filterMemoryRowsByBinding table (some scope) rows).1) ∧
      (¬(row.type = none ∧ row.sourceType = none) →
        (sqlKeeps table (some scope) row ↔
          (evaluateContextAccess table scope row.contextId .read row.type row.sourceType).1 =
            true))) ∧
    (scope.enforcementMode = .shadow →
      sqlKeeps table (some scope) row ∧
        row ∈ (filterMemoryRowsByBinding table (some scope) rows).1 ∧
        (evaluateContextAccess table scope row.contextId .read row.type row.sourceType).1 =
          true) ∧
    (sqlKeeps narrowed (some scope) row → sqlKeeps table (some scope) row) ∧
    (row ∈ (filterMemoryRowsByBinding narrowed (some scope) rows).1 →
      row ∈ (filterMemoryRowsByBinding table (some scope) rows).1) ∧
    ((evaluateContextAccess narrowed scope row.contextId .read row.type row.sourceType).1 = true →
      (evaluateContextAccess table scope row.contextId .read row.type row.sourceType).1 =
        true) := by
  refine ⟨?_, ?_, narrower.lanes scope row rows fetched⟩
  · intro enforced
    rw [sqlKeeps_enforce table scope row enforced, contextGate_iff,
      filterMemoryRowsByBinding_enforce table scope row enforced rows fetched,
      evaluateContextAccess_enforce table scope row enforced]
    constructor
    · constructor
      · rintro ⟨binding, bound, reads, passes⟩
        refine ⟨⟨binding, bound, reads⟩, ?_⟩
        intro other otherBound
        rwa [binds_unique table scope row otherBound bound]
      · rintro ⟨⟨binding, bound, reads⟩, passes⟩
        exact ⟨binding, bound, reads, passes binding bound⟩
    · intro threaded
      simp [threaded]
  · intro shadowed
    obtain ⟨sql, filtered, evaluated⟩ := shadow_keeps_all table scope row shadowed rows
    exact ⟨sql, by rwa [filtered], evaluated⟩

def factsOnly : AgentContextBinding :=
  { agentId := 1, contextId := 7, canRead := true, writePolicy := .deny
    allowedMemoryTypes := some ["fact"], allowedSourceTypes := none }

def factsTable : BindingTable := ⟨[factsOnly], by simp⟩

def manualOnly : AgentContextBinding := { factsOnly with allowedSourceTypes := some ["manual"] }

def manualTable : BindingTable := ⟨[manualOnly], by simp⟩

-- The narrower table hides a fact that came from a chat; a note is hidden by both.
theorem lanes_agree_facts :
    let scope : AgentScope := ⟨1, .enforce⟩
    let chat : MemoryRow := ⟨4, some 7, some "fact", some "chat"⟩
    let note : MemoryRow := ⟨5, some 7, some "note", some "manual"⟩
    sqlKeeps factsTable (some scope) chat ∧
      (filterMemoryRowsByBinding manualTable (some scope) [chat, note]).1 = [] ∧
      ¬ sqlKeeps factsTable (some scope) note ∧ ¬ sqlKeeps manualTable (some scope) note := by
  intro scope chat note
  have narrower : factsTable.Restricts manualTable :=
    .cons ⟨rfl, rfl, id, id, ⟨_, rfl, fun _ => id⟩, trivial⟩ .nil
  have agree (row : MemoryRow) (listed : row ∈ [chat, note]) :=
    lanes_agree factsTable manualTable scope row [chat, note] listed narrower
  obtain ⟨kept, _⟩ := agree chat (by simp)
  obtain ⟨hidden, _, narrowed, _⟩ := agree note (by simp)
  have unkept : ¬ sqlKeeps factsTable (some scope) note := by
    rw [(hidden rfl).2 (by decide)]
    decide
  refine ⟨((kept rfl).2 (by decide)).mpr (by decide), by decide, unkept, fun keeps => ?_⟩
  exact unkept (narrowed keeps)

-- A row of an unbound context passes the row filter and nothing else; a row without type and source
-- passes the access decision and nothing else.
theorem lanes_disagree :
    (¬ sqlKeeps factsTable (some ⟨1, .enforce⟩) ⟨3, some 8, some "fact", some "manual"⟩ ∧
      ⟨3, some 8, some "fact", some "manual"⟩ ∈
        (filterMemoryRowsByBinding factsTable (some ⟨1, .enforce⟩)
          [⟨3, some 8, some "fact", some "manual"⟩]).1 ∧
      (evaluateContextAccess factsTable ⟨1, .enforce⟩ (some 8) .read (some "fact")
        (some "manual")).1 = false) ∧
    (¬ sqlKeeps factsTable (some ⟨1, .enforce⟩) ⟨3, some 7, none, none⟩ ∧
      ⟨3, some 7, none, none⟩ ∉
        (filterMemoryRowsByBinding factsTable (some ⟨1, .enforce⟩) [⟨3, some 7, none, none⟩]).1 ∧
      (evaluateContextAccess factsTable ⟨1, .enforce⟩ (some 7) .read none none).1 = true) := by
  refine ⟨⟨?_, by decide, by decide⟩, ⟨?_, by decide, by decide⟩⟩
  · rw [sqlKeeps_enforce _ _ _ rfl]
    rintro ⟨binding, ⟨present, -, located⟩, -⟩
    simp only [factsTable, List.mem_singleton] at present
    subst present
    simp [factsOnly] at located
  · rw [sqlKeeps_enforce _ _ _ rfl]
    rintro ⟨binding, ⟨present, -, -⟩, -, passes⟩
    simp only [factsTable, List.mem_singleton] at present
    subst present
    simp [factsOnly, rowPasses, dimensionPermits] at passes

end MemoryCloud.Bindings
