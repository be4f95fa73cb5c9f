import Mathlib.Algebra.GroupWithZero.Nat
import MemoryCloud.Edges.Model
import MemoryCloud.Shared.Acyclic
import MemoryCloud.Shared.Runs

set_option autoImplicit false

namespace MemoryCloud.Edges

open Relation Relations

variable {W : Type}

structure Store (W : Type) where
  memories : List Memory
  table : Table W

def Supersedes (store : Store W) (source target : MemoryId) : Prop :=
  ∃ edge ∈ store.table.rows, edge.edgeType = .supersedes ∧ edge.srcId = source ∧
    edge.dstId = target ∧ alive store.memories source = true

section Read

-- The joined rows of the shadowing query, oldest superseder first.
def shadowRows (store : Store W) (candidates : List MemoryId) : List (Edge W × Memory) :=
  ((store.table.rows.filter fun edge => edge.edgeType = .supersedes ∧ edge.dstId ∈ candidates).flatMap
    fun edge => (store.memories.filter fun memory =>
      memory.id = edge.srcId ∧ memory.deletedAt = none).map fun memory => (edge, memory)).insertionSort
        fun first second => first.2.createdAt < second.2.createdAt ∨
          first.2.createdAt = second.2.createdAt ∧ first.2.id ≤ second.2.id

def shadowMap (rows : List (Edge W × Memory)) (target : MemoryId) : Option MemoryId :=
  ((rows.filter fun row => row.1.dstId = target).getLast?).map fun row => row.1.srcId

def contradictionMap (store : Store W) (candidates : List MemoryId) (id : MemoryId) :
    List MemoryId :=
  (store.table.rows.filter fun edge => edge.edgeType = .contradicts ∧
    (edge.srcId ∈ candidates ∨ edge.dstId ∈ candidates)).flatMap fun edge =>
      (if edge.srcId = id then [edge.dstId] else []) ++ if edge.dstId = id then [edge.srcId] else []

def applySupersedeShadowing (store : Store W) (searchResults : List String)
    (memories : String → Option MemoryId) (includeSuperseded : Bool) :
    List String × (MemoryId → Option MemoryId) × (MemoryId → List MemoryId) :=
  let candidates := searchResults.filterMap memories
  let shadows := shadowMap (shadowRows store candidates)
  let kept :=
    if includeSuperseded then searchResults
    else searchResults.filter fun result =>
      match memories result with
      | none => true
      | some id => (shadows id).isNone
  (kept, shadows, contradictionMap store candidates)

theorem mem_shadowRows {store : Store W} {candidates : List MemoryId} {row : Edge W × Memory} :
    row ∈ shadowRows store candidates ↔ row.1 ∈ store.table.rows ∧
      row.1.edgeType = .supersedes ∧ row.1.dstId ∈ candidates ∧ row.2 ∈ store.memories ∧
        row.2.id = row.1.srcId ∧ row.2.deletedAt = none := by
  obtain ⟨edge, memory⟩ := row
  simp only [shadowRows, List.mem_insertionSort, List.mem_flatMap, List.mem_filter, List.mem_map,
    decide_eq_true_eq, Prod.mk.injEq]
  constructor
  next =>
    rintro ⟨found, ⟨stored, kind, candidate⟩, read, ⟨present, same, live⟩, rfl, rfl⟩
    exact ⟨stored, kind, candidate, present, same, live⟩
  next =>
    rintro ⟨stored, kind, candidate, present, same, live⟩
    exact ⟨edge, ⟨stored, kind, candidate⟩, memory, ⟨present, same, live⟩, rfl, rfl⟩

theorem shadowMap_isSome {store : Store W} {candidates : List MemoryId} {target : MemoryId}
    (candidate : target ∈ candidates) :
    (shadowMap (shadowRows store candidates) target).isSome = true ↔
      ∃ source, Supersedes store source target := by
  rw [shadowMap, Option.isSome_map]
  constructor
  next =>
    intro shadowed
    obtain ⟨row, last⟩ := Option.isSome_iff_exists.mp shadowed
    have listed := List.mem_of_getLast? last
    rw [List.mem_filter, mem_shadowRows, decide_eq_true_eq] at listed
    obtain ⟨⟨stored, kind, _, present, same, live⟩, towards⟩ := listed
    refine ⟨row.1.srcId, row.1, stored, kind, rfl, towards, ?_⟩
    simp only [alive, List.any_eq_true, decide_eq_true_eq]
    exact ⟨row.2, present, same, live⟩
  next =>
    rintro ⟨source, edge, stored, kind, rfl, rfl, living⟩
    simp only [alive, List.any_eq_true, decide_eq_true_eq] at living
    obtain ⟨memory, present, same, live⟩ := living
    have listed : (edge, memory) ∈ (shadowRows store candidates).filter
        fun row => row.1.dstId = edge.dstId := by
      rw [List.mem_filter, mem_shadowRows]
      exact ⟨⟨stored, kind, candidate, present, same, live⟩, by simp⟩
    rw [Option.isSome_iff_ne_none, Ne, List.getLast?_eq_none_iff]
    exact List.ne_nil_of_mem listed

theorem removed_iff {store : Store W} {searchResults : List String}
    {memories : String → Option MemoryId} {result : String} {id : MemoryId}
    (listed : result ∈ searchResults) (hydrated : memories result = some id) :
    result ∉ (applySupersedeShadowing store searchResults memories false).1 ↔
      ∃ source, Supersedes store source id := by
  have candidate : id ∈ searchResults.filterMap memories :=
    List.mem_filterMap.mpr ⟨result, listed, hydrated⟩
  rw [← shadowMap_isSome candidate]
  simp [applySupersedeShadowing, List.mem_filter, listed, hydrated, Option.isSome_iff_ne_none]

end Read

section Writers

variable [One W] [LT W] [DecidableLT W] [DecidableEq W]

inductive Action (W : Type)
  | declare (input : DeclaredEdge W)
  | shadowMerge (merge : Merge)
  | removeMerge (merge : Merge)
  | deleteEdge (userId : UserId) (srcId dstId : MemoryId)
  | deleteNodeEdges (userId : UserId) (nodeId : MemoryId) (scope : Scope)
  | deleteMemory (id : MemoryId) (now : Nat)

def step (own : UserId → ContextId → Memory → Bool) (store : Store W) : Action W → Option (Store W)
  | .declare input =>
    (createDeclaredEdge own store.memories store.table input).map
      fun written => { store with table := written.2.2 }
  | .shadowMerge merge =>
    (executeShadowMerge store.memories store.table merge).map fun table => { store with table }
  | .removeMerge merge =>
    (executeMerge store.memories store.table merge).map
      fun (memories, table) => { memories, table }
  | .deleteEdge userId srcId dstId =>
    some { store with table := Edges.deleteEdge store.table userId srcId dstId }
  | .deleteNodeEdges userId nodeId scope =>
    some { store with table := Edges.deleteNodeEdges store.table userId nodeId scope }
  | .deleteMemory id now => some { store with memories := softDelete store.memories id now }

-- The writer closes no cycle of live supersedes edges: a new edge's target does not supersede its
-- source already, and no chain between a merged pair passes through a third memory.
def Unclosing (store : Store W) : Action W → Prop
  | .declare input => input.edgeType = .supersedes →
      ¬ ReflTransGen (Supersedes store) input.targetId input.sourceId
  | .shadowMerge merge => ¬ ReflTransGen (Supersedes store) merge.loser merge.winner
  | .removeMerge merge => Unbridged (Supersedes store) merge.winner merge.loser
  | _ => True

end Writers

section Steps

variable {memories : List Memory} {table written : Table W}

theorem upsertRow_supersedes {upsert : Upsert W} {source target : MemoryId}
    (arrow : Supersedes ⟨memories, upsertRow table upsert⟩ source target) :
    Supersedes ⟨memories, table⟩ source target ∨
      upsert.edgeType = .supersedes ∧ source = upsert.srcId ∧ target = upsert.dstId := by
  obtain ⟨edge, listed, kind, rfl, rfl, living⟩ := arrow
  unfold upsertRow at listed
  split at listed
  next =>
    rcases List.mem_append.mp listed with old | new
    next => exact Or.inl ⟨edge, old, kind, rfl, rfl, living⟩
    next =>
      rw [List.mem_singleton.mp new] at kind ⊢
      exact Or.inr ⟨kind, rfl, rfl⟩
  next =>
    obtain ⟨old, stored, rfl⟩ := List.mem_map.mp listed
    unfold writeConflict at kind living ⊢
    split at kind
    next same =>
      simp only [same, if_true] at living ⊢
      by_cases guarded : upsert.protectDeclaredLink = true ∧ old.origin = .declared
      next =>
        have before : old.edgeType = .supersedes := by
          simpa [onConflict, typeSet, guarded] using kind
        exact Or.inl ⟨old, stored, before, rfl, rfl, living⟩
      next =>
        have fresh : upsert.edgeType = .supersedes := by
          simpa [onConflict, typeSet, guarded] using kind
        simp only [Edge.pair, Upsert.pair, Prod.mk.injEq] at same
        exact Or.inr ⟨fresh, same.2.1, same.2.2⟩
    next other =>
      simp only [other, if_false] at living ⊢
      exact Or.inl ⟨old, stored, kind, rfl, rfl, living⟩

theorem createOrUpdateEdge_acyclic {upsert : Upsert W}
    (acyclic : Acyclic (Supersedes ⟨memories, table⟩))
    (unclosed : upsert.edgeType = .supersedes →
      ¬ ReflTransGen (Supersedes ⟨memories, table⟩) upsert.dstId upsert.srcId)
    (upserted : createOrUpdateEdge memories table upsert = some written) :
    Acyclic (Supersedes ⟨memories, written⟩) := by
  unfold createOrUpdateEdge at upserted
  split at upserted
  next =>
    cases upserted
    by_cases kind : upsert.edgeType = .supersedes
    next =>
      refine acyclic.insert (unclosed kind) fun source target arrow => ?_
      rcases upsertRow_supersedes arrow with old | ⟨_, ends⟩
      next => exact Or.inl old
      next => exact Or.inr ends
    next =>
      refine acyclic.mono fun source target arrow => ?_
      rcases upsertRow_supersedes arrow with old | ⟨fresh, _⟩
      next => exact old
      next => exact absurd fresh kind
  next => cases upserted

theorem keep_supersedes {keeps : Edge W → Bool} {source target : MemoryId}
    (arrow : Supersedes ⟨memories, table.keep keeps⟩ source target) :
    Supersedes ⟨memories, table⟩ source target := by
  obtain ⟨edge, listed, rest⟩ := arrow
  exact ⟨edge, List.mem_of_mem_filter listed, rest⟩

theorem alive_softDelete {id other : MemoryId} {now : Nat}
    (living : alive (softDelete memories id now) other = true) :
    alive memories other = true ∧ other ≠ id := by
  simp only [alive, softDelete, List.any_map, List.any_eq_true, Function.comp_apply,
    decide_eq_true_eq] at living ⊢
  obtain ⟨memory, present, same, live⟩ := living
  split at same
  next => simp_all
  next kept =>
    simp only [kept, if_false] at live
    exact ⟨⟨memory, present, same, live⟩, by rw [← same]; exact kept⟩

def Moved (fromNode toNode : MemoryId) (rows : List (Edge W)) (edge : Edge W) : Prop :=
  ∃ old ∈ rows, old.id = edge.id ∧ old.edgeType = edge.edgeType ∧
    ((edge.srcId = old.srcId ∧ edge.dstId = old.dstId) ∨
      (edge.srcId = moveNode fromNode toNode old.srcId ∧
        edge.dstId = moveNode fromNode toNode old.dstId ∧ edge.srcId ≠ edge.dstId))

theorem repoint_moved {fromNode toNode : MemoryId} {rows : List (Edge W)} {edge : Edge W} {now : Nat}
    (unique : ∀ first ∈ rows, ∀ second ∈ rows, first.id = second.id → first = second)
    (stored : edge ∈ rows)
    (different : moveNode fromNode toNode edge.srcId ≠ moveNode fromNode toNode edge.dstId)
    (moved : ∀ row ∈ table.rows, Moved fromNode toNode rows row)
    (repointed : table.repoint edge.id (moveNode fromNode toNode edge.srcId)
      (moveNode fromNode toNode edge.dstId) now = some written) :
    ∀ row ∈ written.rows, Moved fromNode toNode rows row := by
  unfold Table.repoint at repointed
  split at repointed
  next =>
    cases repointed
    intro row listed
    obtain ⟨before, present, rfl⟩ := List.mem_map.mp listed
    obtain ⟨old, kept, sameId, sameType, ends⟩ := moved before present
    unfold repointRow
    split
    next here =>
      have same := unique old kept edge stored (sameId.trans here)
      subst same
      exact ⟨old, kept, sameId, sameType, Or.inr ⟨rfl, rfl, different⟩⟩
    next => exact ⟨old, kept, sameId, sameType, ends⟩
  next => cases repointed

theorem transferEdge_moved [LT W] [DecidableLT W] {userId : UserId} {scope : Scope}
    {fromNode toNode : MemoryId} {now : Nat} {rows : List (Edge W)} {edge : Edge W}
    (unique : ∀ first ∈ rows, ∀ second ∈ rows, first.id = second.id → first = second)
    (stored : edge ∈ rows) (moved : ∀ row ∈ table.rows, Moved fromNode toNode rows row)
    (transferred : transferEdge userId scope fromNode toNode now table edge = some written) :
    ∀ row ∈ written.rows, Moved fromNode toNode rows row := by
  have keeps : ∀ (keep : Edge W → Bool), ∀ row ∈ (table.keep keep).rows,
      Moved fromNode toNode rows row :=
    fun keep row listed => moved row (List.mem_of_mem_filter listed)
  unfold transferEdge at transferred
  dsimp only at transferred
  split at transferred
  next =>
    cases transferred
    exact keeps _
  next different =>
    split at transferred
    next =>
      split at transferred
      next => exact repoint_moved unique stored different (keeps _) transferred
      next =>
        cases transferred
        exact keeps _
    next => exact repoint_moved unique stored different moved transferred

theorem foldlM_moved [LT W] [DecidableLT W] {userId : UserId} {scope : Scope}
    {fromNode toNode : MemoryId} {now : Nat} {rows : List (Edge W)}
    (unique : ∀ first ∈ rows, ∀ second ∈ rows, first.id = second.id → first = second)
    (edges : List (Edge W)) (stored : ∀ edge ∈ edges, edge ∈ rows)
    (moved : ∀ row ∈ table.rows, Moved fromNode toNode rows row)
    (transferred : edges.foldlM (transferEdge userId scope fromNode toNode now) table =
      some written) : ∀ row ∈ written.rows, Moved fromNode toNode rows row := by
  induction edges generalizing table with
  | nil =>
    cases transferred
    exact moved
  | cons edge rest ih =>
    rw [List.foldlM_cons] at transferred
    obtain ⟨next, one, others⟩ := Option.bind_eq_some_iff.mp transferred
    exact ih (fun other listed => stored other (List.mem_cons_of_mem _ listed))
      (transferEdge_moved unique (stored edge (by simp)) moved one) others

theorem executeMerge_acyclic [LT W] [DecidableLT W] {merge : Merge} {left : List Memory}
    (acyclic : Acyclic (Supersedes ⟨memories, table⟩))
    (unbridged : Unbridged (Supersedes ⟨memories, table⟩) merge.winner merge.loser)
    (merged : executeMerge memories table merge = some (left, written)) :
    Acyclic (Supersedes ⟨left, written⟩) := by
  unfold executeMerge at merged
  split at merged
  next => cases merged
  next held =>
    obtain ⟨moved, transferred, same⟩ := Option.map_eq_some_iff.mp merged
    cases same
    have living : alive memories merge.loser = true := by
      simp only [pinnedOrGone, Bool.or_eq_true, Bool.not_eq_true', not_or, Bool.not_eq_false] at held
      exact held.2
    have unique : ∀ first ∈ table.rows, ∀ second ∈ table.rows, first.id = second.id →
        first = second :=
      fun first one second two same => List.inj_on_of_nodup_map table.numbered one two same
    have rows := foldlM_moved unique _ (fun edge listed => List.mem_of_mem_filter listed)
      (fun row listed => ⟨row, listed, rfl, rfl, Or.inl ⟨rfl, rfl⟩⟩) transferred
    -- The loser is deleted: no arrow starts from it any more.
    refine Acyclic.of_deadEnd merge.loser ?_ ?_
    next =>
      rintro target ⟨edge, _, _, _, _, alive⟩
      exact (alive_softDelete alive).2 rfl
    next =>
      refine acyclic.merge ?_ unbridged
      rintro source target ⟨⟨edge, listed, kind, rfl, rfl, lives⟩, targetLives⟩
      obtain ⟨sourceLives, sourceOther⟩ := alive_softDelete lives
      obtain ⟨old, stored, _, sameType, ends⟩ := rows edge listed
      rw [← sameType] at kind
      rcases ends with ⟨src, dst⟩ | ⟨src, dst, different⟩
      next =>
        rw [src] at sourceLives sourceOther
        rw [dst] at targetLives
        have arrow : Supersedes ⟨memories, table⟩ old.srcId old.dstId :=
          ⟨old, stored, kind, rfl, rfl, sourceLives⟩
        rw [src, dst]
        refine ⟨?_, old.srcId, old.dstId, arrow, if_neg sourceOther, if_neg targetLives⟩
        intro loop
        rw [loop] at arrow
        exact acyclic.irrefl _ arrow
      next =>
        have lifted : alive memories old.srcId = true := by
          by_cases gone : old.srcId = merge.loser
          next =>
            rw [gone]
            exact living
          next =>
            rw [src, moveNode, if_neg gone] at sourceLives
            exact sourceLives
        exact ⟨different, old.srcId, old.dstId, ⟨old, stored, kind, rfl, rfl, lifted⟩, src.symm,
          dst.symm⟩

theorem step_acyclic [One W] [LT W] [DecidableLT W] [DecidableEq W]
    {own : UserId → ContextId → Memory → Bool} {store after : Store W} {action : Action W}
    (acyclic : Acyclic (Supersedes store)) (unclosing : Unclosing store action)
    (taken : step own store action = some after) : Acyclic (Supersedes after) := by
  cases action with
  | declare input =>
    obtain ⟨⟨operation, existing, table⟩, result, rfl⟩ := Option.map_eq_some_iff.mp taken
    unfold createDeclaredEdge at result
    split at result
    next => cases result
    next =>
      dsimp only at result
      split at result
      next =>
        split at result
        next =>
          split at result
          next =>
            cases result
            exact acyclic
          next =>
            cases result
            exact acyclic
        next =>
          obtain ⟨written, upserted, same⟩ := Option.map_eq_some_iff.mp result
          cases same
          refine createOrUpdateEdge_acyclic acyclic ?_ upserted
          exact unclosing
      next =>
        obtain ⟨written, upserted, same⟩ := Option.map_eq_some_iff.mp result
        cases same
        refine createOrUpdateEdge_acyclic acyclic ?_ upserted
        exact unclosing
  | shadowMerge merge =>
    obtain ⟨table, result, rfl⟩ := Option.map_eq_some_iff.mp taken
    unfold executeShadowMerge at result
    split at result
    next => cases result
    next =>
      refine createOrUpdateEdge_acyclic acyclic ?_ result
      exact fun _ => unclosing
  | removeMerge merge =>
    obtain ⟨⟨memories, table⟩, result, rfl⟩ := Option.map_eq_some_iff.mp taken
    exact executeMerge_acyclic acyclic unclosing result
  | deleteEdge userId srcId dstId =>
    cases taken
    exact acyclic.mono fun _ _ => keep_supersedes
  | deleteNodeEdges userId nodeId scope =>
    cases taken
    exact acyclic.mono fun _ _ => keep_supersedes
  | deleteMemory id now =>
    cases taken
    refine acyclic.mono ?_
    rintro source target ⟨edge, listed, kind, src, dst, living⟩
    exact ⟨edge, listed, kind, src, dst, (alive_softDelete living).1⟩

end Steps

theorem shadowing_leaves_a_head {W : Type} [One W] [LT W] [DecidableLT W] [DecidableEq W]
    (own : UserId → ContextId → Memory → Bool) (memories : List Memory) (store : Store W)
    (reached : Runs.Reaches (step own) Unclosing ⟨memories, Table.empty⟩ store)
    (searchResults : List String) (hydrated : String → Option MemoryId) (includeSuperseded : Bool)
    (result : String) (id : MemoryId) (listed : result ∈ searchResults)
    (known : hydrated result = some id)
    (removed : result ∉
      (applySupersedeShadowing store searchResults hydrated includeSuperseded).1) :
    ∃ head, TransGen (Supersedes store) head id ∧ alive store.memories head = true ∧
      ∀ pool names row, row ∈ pool → names row = some head →
        row ∈ (applySupersedeShadowing store pool names includeSuperseded).1 := by
  have acyclic : Acyclic (Supersedes store) := by
    refine reached.invariant (fun store => Acyclic (Supersedes store)) ?_ ?_
    next =>
      intro node cycle
      obtain ⟨next, ⟨edge, stored, _⟩, _⟩ := TransGen.head'_iff.mp cycle
      cases stored
    next => exact fun _ _ _ acyclic unclosing taken => step_acyclic acyclic unclosing taken
  cases includeSuperseded with
  | true => exact absurd listed (by simpa [applySupersedeShadowing] using removed)
  | false =>
    have shadowed := (removed_iff listed known).mp removed
    obtain ⟨head, chain, free⟩ := acyclic.exists_root (store.table.rows.map Edge.srcId)
      (fun source target arrow => by
        obtain ⟨edge, stored, _, rfl, _⟩ := arrow
        exact List.mem_map_of_mem stored) shadowed
    refine ⟨head, chain, ?_, ?_⟩
    next =>
      obtain ⟨next, ⟨edge, _, _, _, _, living⟩, _⟩ := TransGen.head'_iff.mp chain
      exact living
    next =>
      intro pool names row present named
      by_contra gone
      obtain ⟨source, arrow⟩ := (removed_iff present named).mp gone
      exact free source arrow

def ownRow (userId : UserId) (_ : ContextId) (memory : Memory) : Bool := memory.userId = userId

def fact (id : MemoryId) : Memory :=
  { id, userId := 5, workspaceId := 1, contextId := 1, createdAt := id, deletedAt := none }

def replaces (sourceId targetId : MemoryId) : DeclaredEdge Nat :=
  { userId := 5
    sourceId
    targetId
    edgeType := .supersedes
    weight := 1
    confidence := 1
    scope := ⟨1, 1⟩
    overwrite := false
    now := 3 }

def found (result : String) : Option MemoryId :=
  if result = "old" then some 2 else if result = "new" then some 1 else none

theorem shadowing_leaves_a_head_pair :
    ∃ store : Store Nat,
      (applySupersedeShadowing store ["new", "old"] found false).1 = ["new"] ∧
      ∃ head, TransGen (Supersedes store) head 2 ∧ alive store.memories head = true ∧
        ∀ pool names row, row ∈ pool → names row = some head →
          row ∈ (applySupersedeShadowing store pool names false).1 := by
  have unclosing : Unclosing (⟨[fact 1, fact 2], Table.empty⟩ : Store Nat)
      (.declare (replaces 1 2)) := by
    intro _ path
    obtain ⟨same, _⟩ | ⟨next, ⟨edge, stored, _⟩, _⟩ := path.cases_head
    next => cases stored
  refine ⟨_, ?_, shadowing_leaves_a_head ownRow [fact 1, fact 2] _
    (.step .start unclosing rfl) ["new", "old"] found false "old" 2 ?_ rfl ?_⟩
  next => decide
  next => decide
  next => decide

-- Two memories each declared to replace the other: both leave the pool.
theorem shadowing_hides_both :
    ∃ store : Store Nat,
      Runs.Reaches (step ownRow) (fun _ _ => True) ⟨[fact 1, fact 2], Table.empty⟩ store ∧
      (applySupersedeShadowing store ["new", "old"] found false).1 = [] ∧
      ¬ ∃ head, TransGen (Supersedes store) head 2 ∧ alive store.memories head = true ∧
        ∀ pool names row, row ∈ pool → names row = some head →
          row ∈ (applySupersedeShadowing store pool names false).1 := by
  obtain ⟨store, taken⟩ : ∃ store, Runs.run (step ownRow) ⟨[fact 1, fact 2], Table.empty⟩
      [.declare (replaces 1 2), .declare (replaces 2 1)] = some store := ⟨_, rfl⟩
  have reached := Runs.Reaches.start.append (Runs.allowed_of_always (fun _ _ => trivial) _ _) taken
  have hidden : (applySupersedeShadowing store ["new", "old"] found false).1 = [] ∧
      ∀ edge ∈ store.table.rows, "fact" ∉
        (applySupersedeShadowing store ["fact"] (fun _ => some edge.srcId) false).1 := by
    cases taken
    decide
  refine ⟨store, reached, hidden.1, ?_⟩
  rintro ⟨head, chain, _, shown⟩
  obtain ⟨next, ⟨edge, stored, _, rfl, _⟩, _⟩ := TransGen.head'_iff.mp chain
  exact hidden.2 edge stored (shown ["fact"] _ "fact" (by simp) rfl)

end MemoryCloud.Edges
