import MemoryCloud.Edges.Hebbian

set_option autoImplicit false

/-!
# Undo of a shadow merge

`_execute_shadow_merge` with the snapshot it leaves in the merge action, and
`revert_shadow_merge_edge` of `services/sleep/undo.py`. The statement that undoes the merge
knows the merge's edge by its type alone.
-/

namespace MemoryCloud.Edges

variable {W : Type}

section Model

-- `prior_edge` in the details of the merge action.
structure PriorEdge (W : Type) where
  edgeType : EdgeType
  origin : Origin
  weight : W
  confidence : W
  edgeMetadata : Option (List (String × String))
  deriving DecidableEq, Repr

def Edge.values (edge : Edge W) : PriorEdge W :=
  ⟨edge.edgeType, edge.origin, edge.weight, edge.confidence, edge.edgeMetadata⟩

def Merge.pair (merge : Merge) : UserId × MemoryId × MemoryId :=
  (merge.userId, merge.winner, merge.loser)

def priorEdge (table : Table W) (merge : Merge) : Option (PriorEdge W) :=
  match scopedEdge table merge.userId merge.winner merge.loser merge.scope with
  | some prior => if prior.edgeType ≠ .supersedes then some prior.values else none
  | none => none

-- `_execute_shadow_merge` with the snapshot it returns.
def recordShadowMerge [One W] (memories : List Memory) (table : Table W) (merge : Merge) :
    Option (Table W × Option (PriorEdge W)) :=
  (executeShadowMerge memories table merge).map fun merged => (merged, priorEdge table merge)

inductive ShadowEdgeRevert
  | restored
  | alreadyUndone
  | blockedByNewerState
  deriving DecidableEq, Repr

def pairEdge (table : Table W) (pair : UserId × MemoryId × MemoryId) : Option (Edge W) :=
  table.rows.find? fun edge => edge.pair = pair

def shadows (pair : UserId × MemoryId × MemoryId) (edge : Edge W) : Bool :=
  edge.pair = pair ∧ edge.edgeType = .supersedes

def restoreRow (pair : UserId × MemoryId × MemoryId) (prior : PriorEdge W) (now : Nat)
    (edge : Edge W) : Edge W :=
  if shadows pair edge then
    { edge with
      edgeType := prior.edgeType
      origin := prior.origin
      weight := prior.weight
      confidence := prior.confidence
      edgeMetadata := prior.edgeMetadata
      lastUpdated := now }
  else edge

theorem restoreRow_id (pair : UserId × MemoryId × MemoryId) (prior : PriorEdge W) (now : Nat)
    (edge : Edge W) : (restoreRow pair prior now edge).id = edge.id := by
  unfold restoreRow
  split <;> rfl

theorem restoreRow_pair (pair : UserId × MemoryId × MemoryId) (prior : PriorEdge W) (now : Nat)
    (edge : Edge W) : (restoreRow pair prior now edge).pair = edge.pair := by
  unfold restoreRow
  split <;> rfl

-- The guarded statement: an UPDATE to the snapshot, or the DELETE of an edge the merge created.
def guardedUndo (table : Table W) (pair : UserId × MemoryId × MemoryId) (now : Nat) :
    Option (PriorEdge W) → Table W
  | some prior => table.update (restoreRow pair prior now) (restoreRow_id pair prior now)
      (restoreRow_pair pair prior now)
  | none => table.keep fun edge => !shadows pair edge

def revertShadowMergeEdge (table : Table W) (pair : UserId × MemoryId × MemoryId)
    (prior : Option (PriorEdge W)) (now : Nat) : ShadowEdgeRevert × Table W :=
  if table.rows.any (shadows pair) then (.restored, guardedUndo table pair now prior)
  else if (pairEdge table pair).map Edge.edgeType = prior.map PriorEdge.edgeType then
    (.alreadyUndone, table)
  else (.blockedByNewerState, table)

-- A later statement on the edge of the pair. Each sees the memories of its own time.
inductive Write (W : Type)
  | declared (own : UserId → ContextId → Memory → Bool) (memories : List Memory)
      (edgeType : EdgeType) (weight confidence : W) (scope : Scope) (overwrite : Bool) (now : Nat)
  | hebbian (memories : List Memory) (scope : Scope) (weight : W)
      (edgeMetadata : Option (List (String × String))) (now : Nat)
  | delete
  | undo (now : Nat)

def Write.apply [DecidableEq W] [One W] (merge : Merge) (prior : Option (PriorEdge W))
    (table : Table W) : Write W → Table W × Bool
  | declared own memories edgeType weight confidence scope overwrite now =>
    match createDeclaredEdge own memories table
        { userId := merge.userId, sourceId := merge.winner, targetId := merge.loser, edgeType,
          weight, confidence, scope, overwrite, now } with
    | some (.created, _, written) | some (.updated, _, written) => (written, true)
    | _ => (table, false)
  | hebbian memories scope weight edgeMetadata now =>
    match createOrUpdateEdge memories table
        (hebbianUpsert ⟨merge.userId, [merge.userId], scope⟩ (merge.winner, merge.loser) weight
          edgeMetadata now) with
    | some written => (written, true)
    | none => (table, false)
  | delete =>
    (deleteEdge table merge.userId merge.winner merge.loser, (pairEdge table merge.pair).isSome)
  | undo now =>
    match revertShadowMergeEdge table merge.pair prior now with
    | (.restored, reverted) => (reverted, true)
    | _ => (table, false)

def applyWrites [DecidableEq W] [One W] (merge : Merge) (prior : Option (PriorEdge W)) :
    Table W → List (Write W) → Table W × Bool
  | table, [] => (table, false)
  | table, write :: rest =>
    let (written, touched) := write.apply merge prior table
    let (final, later) := applyWrites merge prior written rest
    (final, touched || later)

end Model

section PairEdge

variable {table : Table W} {pair : UserId × MemoryId × MemoryId} {edge : Edge W}

theorem pairEdge_some_iff : pairEdge table pair = some edge ↔ edge ∈ table.rows ∧ edge.pair = pair := by
  constructor
  next =>
    intro found
    exact ⟨List.mem_of_find?_eq_some found, by simpa using List.find?_some found⟩
  next =>
    rintro ⟨listed, same⟩
    cases found : pairEdge table pair with
    | none =>
      have absent := List.find?_eq_none.mp found edge listed
      simp [same] at absent
    | some other =>
      have matched : other.pair = pair := by simpa using List.find?_some found
      have equal := List.inj_on_of_nodup_map table.uniqueEdge (List.mem_of_find?_eq_some found)
        listed (matched.trans same.symm)
      rw [equal]

theorem any_shadows_iff : table.rows.any (shadows pair) = true ↔
    ∃ edge, pairEdge table pair = some edge ∧ edge.edgeType = .supersedes := by
  simp only [List.any_eq_true, shadows, decide_eq_true_eq, pairEdge_some_iff, and_assoc]

theorem pairEdge_update {write : Edge W → Edge W} (sameId : ∀ edge, (write edge).id = edge.id)
    (samePair : ∀ edge, (write edge).pair = edge.pair) :
    pairEdge (table.update write sameId samePair) pair = (pairEdge table pair).map write := by
  simp only [pairEdge, Table.update, List.find?_map, Function.comp_def, samePair]

theorem pairEdge_keep_none {keeps : Edge W → Bool}
    (dropped : ∀ edge, pairEdge table pair = some edge → keeps edge = false) :
    pairEdge (table.keep keeps) pair = none := by
  refine List.find?_eq_none.mpr fun edge kept => ?_
  obtain ⟨listed, passes⟩ := List.mem_filter.mp kept
  intro same
  rw [dropped edge (pairEdge_some_iff.mpr ⟨listed, by simpa using same⟩)] at passes
  cases passes

theorem pairEdge_upsertRow (upsert : Upsert W) :
    pairEdge (upsertRow table upsert) upsert.pair =
      some ((pairEdge table upsert.pair).elim (upsert.row table.nextId) (onConflict upsert)) := by
  unfold upsertRow
  split
  next absent =>
    have missing : pairEdge table upsert.pair = none := by
      refine List.find?_eq_none.mpr fun edge listed same => ?_
      exact absent (List.mem_map.mpr ⟨edge, listed, by simpa using same⟩)
    rw [missing, pairEdge_some_iff]
    exact ⟨List.mem_append_right _ (List.mem_singleton_self _), rfl⟩
  next present =>
    obtain ⟨edge, listed, same⟩ := List.mem_map.mp (Decidable.not_not.mp present)
    have found := pairEdge_some_iff.mpr ⟨listed, same⟩
    rw [pairEdge_update, found]
    simp [writeConflict, same]

theorem scopedEdge_some_iff {userId : UserId} {srcId dstId : MemoryId} {scope : Scope} :
    scopedEdge table userId srcId dstId scope = some edge ↔
      pairEdge table (userId, srcId, dstId) = some edge ∧ edge.inScope scope := by
  constructor
  next =>
    intro found
    have passes := List.find?_some found
    simp only [decide_eq_true_eq] at passes
    exact ⟨pairEdge_some_iff.mpr ⟨List.mem_of_find?_eq_some found, passes.1⟩, passes.2⟩
  next =>
    rintro ⟨found, inScope⟩
    obtain ⟨listed, same⟩ := pairEdge_some_iff.mp found
    cases within : scopedEdge table userId srcId dstId scope with
    | none =>
      have absent := List.find?_eq_none.mp within edge listed
      simp [same, inScope] at absent
    | some other =>
      have passes := List.find?_some within
      simp only [decide_eq_true_eq] at passes
      have equal : pairEdge table (userId, srcId, dstId) = some other :=
        pairEdge_some_iff.mpr ⟨List.mem_of_find?_eq_some within, passes.1⟩
      exact equal.symm.trans found

end PairEdge

section Undo

variable {table : Table W} {merge : Merge} {prior : Option (PriorEdge W)} {now : Nat}

theorem revert_restored (found : ∃ edge, pairEdge table merge.pair = some edge ∧
      edge.edgeType = .supersedes) :
    revertShadowMergeEdge table merge.pair prior now =
      (.restored, guardedUndo table merge.pair now prior) := by
  simp only [revertShadowMergeEdge, any_shadows_iff.mpr found, if_true]

theorem revert_refused (absent : ∀ edge, pairEdge table merge.pair = some edge →
      edge.edgeType ≠ .supersedes) :
    (revertShadowMergeEdge table merge.pair prior now).1 ≠ .restored ∧
      (revertShadowMergeEdge table merge.pair prior now).2 = table := by
  have unmatched : table.rows.any (shadows merge.pair) = false := by
    rw [← Bool.not_eq_true, any_shadows_iff]
    rintro ⟨edge, found, same⟩
    exact absent edge found same
  simp only [revertShadowMergeEdge, unmatched, Bool.false_eq_true, if_false]
  split <;> exact ⟨nofun, rfl⟩

theorem guardedUndo_values {edge : Edge W} (found : pairEdge table merge.pair = some edge)
    (same : edge.edgeType = .supersedes) :
    (pairEdge (guardedUndo table merge.pair now prior) merge.pair).map Edge.values = prior := by
  have shadowing : shadows merge.pair edge = true := by
    simp [shadows, same, (pairEdge_some_iff.mp found).2]
  cases prior with
  | some prior =>
    rw [guardedUndo, pairEdge_update, found]
    simp [restoreRow, shadowing, Edge.values]
  | none =>
    rw [guardedUndo, pairEdge_keep_none]
    next => rfl
    next =>
      intro other listed
      rw [found] at listed
      cases listed
      simp [shadowing]

theorem recordShadowMerge_edge [One W] {memories : List Memory} {merged : Table W}
    (recorded : recordShadowMerge memories table merge = some (merged, prior)) :
    (∃ edge, pairEdge merged merge.pair = some edge ∧ edge.edgeType = .supersedes) ∧
      prior = priorEdge table merge := by
  obtain ⟨written, executed, same⟩ := Option.map_eq_some_iff.mp recorded
  cases same
  simp only [executeShadowMerge, createOrUpdateEdge] at executed
  split at executed
  next => cases executed
  next =>
    split at executed
    next =>
      cases executed
      refine ⟨⟨_, pairEdge_upsertRow _, ?_⟩, rfl⟩
      cases pairEdge table _ <;> simp [Upsert.row, onConflict, typeSet]
    next => cases executed

theorem priorEdge_values (within : ∀ edge, pairEdge table merge.pair = some edge →
      edge.inScope merge.scope)
    (plain : ∀ edge, pairEdge table merge.pair = some edge → edge.edgeType ≠ .supersedes) :
    priorEdge table merge = (pairEdge table merge.pair).map Edge.values := by
  cases found : pairEdge table merge.pair with
  | some edge =>
    have seen := scopedEdge_some_iff.mpr ⟨found, within edge found⟩
    simp [priorEdge, seen, plain edge found]
  | none =>
    have unseen : scopedEdge table merge.userId merge.winner merge.loser merge.scope = none := by
      refine Option.eq_none_iff_forall_ne_some.mpr fun edge seen => ?_
      cases found.symm.trans (scopedEdge_some_iff.mp seen).1
    simp [priorEdge, unseen]

theorem priorEdge_unscoped {edge : Edge W} (found : pairEdge table merge.pair = some edge)
    (outside : ¬ edge.inScope merge.scope) : priorEdge table merge = none := by
  have unseen : scopedEdge table merge.userId merge.winner merge.loser merge.scope = none := by
    refine Option.eq_none_iff_forall_ne_some.mpr fun other seen => ?_
    obtain ⟨listed, inside⟩ := scopedEdge_some_iff.mp seen
    cases found.symm.trans listed
    exact outside inside
  simp [priorEdge, unseen]

end Undo

section Later

variable [DecidableEq W] [One W]

structure Undone (W : Type) where
  current : Table W
  touched : Bool
  outcome : ShadowEdgeRevert
  after : Table W

def undoAfter (merge : Merge) (merged : Table W) (prior : Option (PriorEdge W))
    (writes : List (Write W)) (now : Nat) : Undone W :=
  let (current, touched) := applyWrites merge prior merged writes
  let (outcome, after) := revertShadowMergeEdge current merge.pair prior now
  { current, touched, outcome, after }

-- The edge as it was before the merge, which no one has written since, or the edge as found.
def UndoSound (before : Table W) (merge : Merge) (undone : Undone W) : Prop :=
  undone.outcome = .restored ∧ undone.touched = false ∧
      (pairEdge undone.after merge.pair).map Edge.values =
        (pairEdge before merge.pair).map Edge.values ∨
    undone.outcome ≠ .restored ∧ undone.after = undone.current

variable {memories : List Memory} {before merged : Table W} {merge : Merge}
  {prior : Option (PriorEdge W)} {writes : List (Write W)} {now : Nat}

theorem undo_sound_iff
    (plain : ∀ edge, pairEdge before merge.pair = some edge → edge.edgeType ≠ .supersedes)
    (recorded : recordShadowMerge memories before merge = some (merged, prior)) :
    UndoSound before merge (undoAfter merge merged prior writes now) ↔
      (∀ edge, pairEdge (undoAfter merge merged prior writes now).current merge.pair = some edge →
        edge.edgeType ≠ .supersedes) ∨
      (undoAfter merge merged prior writes now).touched = false ∧
        ∀ edge, pairEdge before merge.pair = some edge → edge.inScope merge.scope := by
  obtain ⟨_, snapshot⟩ := recordShadowMerge_edge recorded
  simp only [UndoSound, undoAfter]
  generalize applyWrites merge prior merged writes = later
  obtain ⟨current, touched⟩ := later
  by_cases absent : ∀ edge, pairEdge current merge.pair = some edge → edge.edgeType ≠ .supersedes
  next => exact ⟨fun _ => .inl absent, fun _ => .inr (revert_refused absent)⟩
  next =>
    push Not at absent
    obtain ⟨edge, found, same⟩ := absent
    have values : (pairEdge (guardedUndo current merge.pair now prior) merge.pair).map Edge.values =
        prior := guardedUndo_values found same
    rw [revert_restored ⟨edge, found, same⟩]
    constructor
    next =>
      rintro (⟨_, untouched, equal⟩ | ⟨refused, _⟩)
      next =>
        refine .inr ⟨untouched, fun old present => ?_⟩
        by_contra outside
        rw [values, snapshot, priorEdge_unscoped present outside, present] at equal
        cases equal
      next => exact absurd rfl refused
    next =>
      rintro (gone | ⟨untouched, within⟩)
      next => exact absurd same (gone edge found)
      next =>
        refine .inl ⟨rfl, untouched, ?_⟩
        rw [values, snapshot, priorEdge_values within plain]

end Later

section Samples

def sampleMerge : Merge :=
  { winner := 1, loser := 2, userId := 5, scope := ⟨1, 1⟩, held := false, now := 3 }

-- Two near-duplicates that were recalled together.
def coRecalled : Table Rat := sampleTable (sampleEdge .neuralAssociation .hebbian (1 / 2)) rfl

def mergedSample : Table Rat :=
  ((recordShadowMerge sampleMemories coRecalled sampleMerge).map Prod.fst).getD .empty

def priorSample : Option (PriorEdge Rat) := some ⟨.neuralAssociation, .hebbian, 1 / 2, 1, none⟩

theorem recorded_sample :
    recordShadowMerge sampleMemories coRecalled sampleMerge = some (mergedSample, priorSample) := by
  rfl

def confirmed : Write Rat :=
  .declared (fun userId _ memory => memory.userId = userId) sampleMemories .supersedes 1 1 ⟨1, 1⟩
    false 4

def coRecall : Write Rat := .hebbian sampleMemories ⟨1, 1⟩ (3 / 5) none 4

theorem plain_sample (edge : Edge Rat) (found : pairEdge coRecalled sampleMerge.pair = some edge) :
    edge.edgeType ≠ .supersedes := by
  cases found
  decide

-- Untouched, the edge is put back; retyped by a co-recall, it is left alone.
theorem undo_sound_iff_sample :
    UndoSound coRecalled sampleMerge (undoAfter sampleMerge mergedSample priorSample [] 5) ∧
      UndoSound coRecalled sampleMerge (undoAfter sampleMerge mergedSample priorSample [coRecall] 5) := by
  constructor
  next =>
    refine (undo_sound_iff plain_sample recorded_sample).mpr (.inr ⟨rfl, ?_⟩)
    rintro edge ⟨⟩
    decide
  next =>
    refine (undo_sound_iff plain_sample recorded_sample).mpr (.inl ?_)
    rintro edge ⟨⟩
    decide

-- The user confirms the succession by hand, and the undo discards the declared edge.
theorem undo_discards_declared :
    (undoAfter sampleMerge mergedSample priorSample [confirmed] 5).touched = true ∧
      (undoAfter sampleMerge mergedSample priorSample [confirmed] 5).outcome = .restored ∧
      (pairEdge (undoAfter sampleMerge mergedSample priorSample [confirmed] 5).current
        sampleMerge.pair).map Edge.values = some ⟨.supersedes, .declared, 1, 1, none⟩ ∧
      ¬ UndoSound coRecalled sampleMerge
        (undoAfter sampleMerge mergedSample priorSample [confirmed] 5) := by
  have touched : (undoAfter sampleMerge mergedSample priorSample [confirmed] 5).touched = true := by
    decide +kernel
  have restored : (undoAfter sampleMerge mergedSample priorSample [confirmed] 5).outcome =
      .restored := by decide +kernel
  refine ⟨touched, restored, by decide +kernel, ?_⟩
  rintro (⟨_, untouched, _⟩ | ⟨refused, _⟩)
  next =>
    rw [touched] at untouched
    cases untouched
  next => exact refused restored

end Samples

end MemoryCloud.Edges
