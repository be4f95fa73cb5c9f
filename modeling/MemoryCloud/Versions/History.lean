import MemoryCloud.Versions.Model

set_option autoImplicit false

/-!
# The log is the history

`past` holds the fields the memory had at each version of its run.
-/

namespace MemoryCloud.Versions

open UndoLog

variable {D : Type}

def edits (rows : List (Revision D)) : List (Revision D) :=
  rows.filter fun row => decide (row.kind = .updated)

structure Ledger (past : Nat → Snapshot D) (memory : Memory D) (rows : List (Revision D)) :
    Prop where
  own : ∀ row ∈ rows, row.memoryId = memory.id
  positive : 1 ≤ memory.version
  live : Same comparable memory.fields (past memory.version)
  versions : (edits rows).map (·.version) = List.range' 2 (memory.version - 1)
  restores : ∀ row ∈ edits rows,
    Restores comparable row.prior.values (past (row.version - 1)) (past row.version)
  unmarked : ∀ row ∈ edits rows, row.prior.erased = [] ∧ row.prior.scrubbed = []

theorem mem_edits {rows : List (Revision D)} {row : Revision D} :
    row ∈ edits rows ↔ row ∈ rows ∧ row.kind = .updated := by
  simp [edits]

section Recording

variable [DecidableEq D]

theorem changedPrior_restores (before after : Snapshot D) :
    Restores comparable (changedPrior before after) before after := by
  intro field
  by_cases same : comparable field (before field) = comparable field (after field)
  next => simp [overlay, changedPrior, same]
  next => simp [overlay, changedPrior, same]

theorem changedPrior_empty {before after : Snapshot D}
    (empty : Prior.isEmpty (changedPrior before after) = true) :
    Same comparable after before := by
  intro field
  have unnamed : (changedPrior before after field).isNone = true := by
    simp only [Prior.isEmpty, List.all_eq_true] at empty
    exact empty field (mem_versionedFields field)
  by_cases same : comparable field (before field) = comparable field (after field)
  next => exact same.symm
  next => simp [changedPrior, same] at unnamed

end Recording

section Steps

variable {past : Nat → Snapshot D} {memory : Memory D} {rows : List (Revision D)}

theorem Ledger.edit_bounds (ledger : Ledger past memory rows) {row : Revision D}
    (present : row ∈ edits rows) : 2 ≤ row.version ∧ row.version ≤ memory.version := by
  have listed : row.version ∈ (edits rows).map (·.version) := List.mem_map_of_mem present
  rw [ledger.versions, List.mem_range'_1] at listed
  have positive := ledger.positive
  omega

theorem Ledger.other (ledger : Ledger past memory rows) (changed : Memory D)
    (added : List (Revision D)) (sameId : changed.id = memory.id)
    (sameVersion : changed.version = memory.version)
    (sameFields : Same comparable changed.fields memory.fields)
    (others : ∀ row ∈ added, row.kind ≠ .updated ∧ row.memoryId = memory.id) :
    Ledger past changed (rows ++ added) := by
  have none : edits added = [] := by
    simp only [edits, List.filter_eq_nil_iff, decide_eq_true_eq]
    exact fun row present => (others row present).1
  have unchanged : edits (rows ++ added) = edits rows := by
    rw [edits, List.filter_append]
    exact (congrArg (edits rows ++ ·) none).trans (List.append_nil _)
  refine ⟨?_, ?_, ?_, ?_, ?_, ?_⟩
  · intro row present
    rw [sameId]
    cases List.mem_append.mp present with
    | inl old => exact ledger.own row old
    | inr new => exact (others row new).2
  · rw [sameVersion]
    exact ledger.positive
  · rw [sameVersion]
    exact sameFields.trans ledger.live
  · rw [unchanged, sameVersion]
    exact ledger.versions
  · rw [unchanged]
    exact ledger.restores
  · rw [unchanged]
    exact ledger.unmarked

theorem Ledger.edited (ledger : Ledger past memory rows) {changed : Memory D}
    {row : Revision D} {after : Snapshot D} (edited : changed.fields = after)
    (sameId : changed.id = memory.id)
    (bumped : changed.version = memory.version + 1)
    (kind : row.kind = .updated) (ownRow : row.memoryId = memory.id)
    (version : row.version = memory.version + 1)
    (restores : Restores comparable row.prior.values memory.fields after)
    (unmarked : row.prior.erased = [] ∧ row.prior.scrubbed = []) :
    Ledger (Function.update past (memory.version + 1) after) changed (rows ++ [row]) := by
  have split : edits (rows ++ [row]) = edits rows ++ [row] := by
    simp [edits, List.filter_append, kind]
  have kept (other : Nat) (below : other ≤ memory.version) :
      Function.update past (memory.version + 1) after other = past other :=
    Function.update_of_ne (by omega) _ _
  refine ⟨?_, ?_, ?_, ?_, ?_, ?_⟩
  · intro other present
    rw [sameId]
    cases List.mem_append.mp present with
    | inl old => exact ledger.own other old
    | inr new => rw [List.mem_singleton.mp new, ownRow]
  · omega
  · rw [bumped, Function.update_self, edited]
    exact Same.refl _
  · have positive := ledger.positive
    have count : changed.version - 1 = (memory.version - 1) + 1 := by omega
    have last : 2 + (memory.version - 1) = memory.version + 1 := by omega
    rw [split, List.map_append, ledger.versions, count, List.range'_concat, Nat.one_mul, last]
    simp [version]
  · intro other present
    rw [split] at present
    cases List.mem_append.mp present with
    | inl old =>
      have bounds := ledger.edit_bounds old
      rw [kept _ (by omega), kept _ (by omega)]
      exact ledger.restores other old
    | inr new =>
      rw [List.mem_singleton.mp new, version, Function.update_self, kept _ (by omega)]
      exact restores.trans ledger.live
  · intro other present
    rw [split] at present
    cases List.mem_append.mp present with
    | inl old => exact ledger.unmarked other old
    | inr new => rw [List.mem_singleton.mp new]; exact unmarked

theorem Ledger.edit_at (ledger : Ledger past memory rows) (version : Nat) (above : 2 ≤ version)
    (below : version ≤ memory.version) : ∃ row ∈ edits rows, row.version = version := by
  have listed : version ∈ (edits rows).map (·.version) := by
    rw [ledger.versions, List.mem_range'_1]
    omega
  obtain ⟨row, present, same⟩ := List.mem_map.mp listed
  exact ⟨row, present, same⟩

-- A field that no edit between two versions names reads the same at both.
theorem Ledger.unnamed (ledger : Ledger past memory rows) {field : Field} {low high : Nat}
    (positive : 1 ≤ low) (ordered : low ≤ high) (known : high ≤ memory.version)
    (unnamed : ∀ row ∈ edits rows, low < row.version → row.version ≤ high →
      row.prior.values field = none) :
    comparable field (past high field) = comparable field (past low field) := by
  induction high, ordered using Nat.le_induction with
  | base => rfl
  | succ high ordered ih =>
    have below := ih (by omega) fun row present above under =>
      unnamed row present above (by omega)
    obtain ⟨row, present, version⟩ := ledger.edit_at (high + 1) (by omega) known
    have silent := unnamed row present (by omega) (by omega)
    have restored := ledger.restores row present field
    simp only [overlay, silent, version, Nat.add_sub_cancel, Option.getD_none] at restored
    exact restored.trans below

end Steps

section Reading

variable {past : Nat → Snapshot D} {memory : Memory D} {rows stored : List (Revision D)}

theorem edits_perm (anyOrder : rows.Perm stored) : (edits rows).Perm (edits stored) :=
  anyOrder.filter _

def above (rows : List (Revision D)) (target current : Nat) : List (Revision D) :=
  (edits rows).filter fun row => decide (target < row.version ∧ row.version ≤ current)

theorem Ledger.above_versions (ledger : Ledger past memory stored) (anyOrder : rows.Perm stored)
    {target : Nat} (positive : 1 ≤ target) :
    ((above rows target memory.version).map (·.version)).Perm
      (List.range' (target + 1) (memory.version - target)) := by
  have versions : ((edits rows).map (·.version)).Perm (List.range' 2 (memory.version - 1)) := by
    rw [← ledger.versions]
    exact (edits_perm anyOrder).map _
  have nodup : ((edits rows).map (·.version)).Nodup :=
    versions.symm.nodup (List.nodup_range' ..)
  have filtered : (above rows target memory.version).map (·.version) =
      ((edits rows).map (·.version)).filter
        fun version => decide (target < version ∧ version ≤ memory.version) := by
    rw [above, List.filter_map]
    rfl
  rw [filtered, List.perm_ext_iff_of_nodup (nodup.filter _) (List.nodup_range' ..)]
  intro version
  simp only [List.mem_filter, versions.mem_iff, List.mem_range'_1, decide_eq_true_eq]
  have live := ledger.positive
  omega

theorem newestFirst_sort_versions (rows : List (Revision D)) :
    ((rows.insertionSort newestFirst).map (·.version)).Pairwise (fun a b => b ≤ a) := by
  have total : Std.Total (newestFirst (D := D)) := ⟨fun a b => Nat.le_total b.version a.version⟩
  have trans : IsTrans (Revision D) newestFirst := ⟨fun _ _ _ ab bc => Nat.le_trans bc ab⟩
  rw [List.pairwise_map]
  exact List.pairwise_insertionSort newestFirst rows

theorem Ledger.undone_versions (ledger : Ledger past memory stored) (anyOrder : rows.Perm stored)
    {target : Nat} (positive : 1 ≤ target) :
    ((above rows target memory.version).insertionSort newestFirst).map (·.version) =
      (List.range' (target + 1) (memory.version - target)).reverse := by
  have sameVersions := ((List.perm_insertionSort newestFirst _).map (·.version)).trans
    ((ledger.above_versions anyOrder positive).trans (List.reverse_perm _).symm)
  have ascending : (List.range' (target + 1) (memory.version - target)).reverse.Pairwise
      (fun a b => b ≤ a) := by
    rw [List.pairwise_reverse]
    exact (List.pairwise_lt_range' ..).imp Nat.le_of_lt
  exact sameVersions.eq_of_pairwise (fun a b _ _ ab ba => Nat.le_antisymm ba ab)
    (newestFirst_sort_versions _) ascending

theorem Ledger.undoes (ledger : Ledger past memory stored) (target count : Nat)
    (undone : List (Revision D)) (present : ∀ row ∈ undone, row ∈ edits stored)
    (versions : undone.map (·.version) = (List.range' (target + 1) count).reverse) :
    Undoes comparable (past (target + count)) (undone.map fun row => row.prior.values)
      (past target) := by
  induction count generalizing undone with
  | zero =>
    have none : undone = [] := by simpa using versions
    rw [none]
    exact .here (Same.refl _)
  | succ count ih =>
    rw [List.range'_concat, List.reverse_append, Nat.one_mul] at versions
    cases undone with
    | nil => simp at versions
    | cons row rest =>
      simp only [List.map_cons, List.reverse_singleton, List.singleton_append,
        List.cons.injEq] at versions
      have restored := ledger.restores row (present row (by simp))
      have below : row.version - 1 = target + count := by omega
      have here : row.version = target + (count + 1) := by omega
      rw [below, here] at restored
      exact .step restored (ih rest (fun other listed => present other (by simp [listed])) versions.2)

theorem undoPatch_unmarked {prior : Prior D} (unmarked : prior.erased = [] ∧ prior.scrubbed = []) :
    undoPatch prior = fun field => (prior.values field).map some := by
  funext field
  cases named : prior.values field <;>
    simp [undoPatch, priorValues, priorErased, priorScrubbed, unmarked, named]

theorem Ledger.reconstructs (ledger : Ledger past memory stored) (anyOrder : rows.Perm stored)
    {target : Nat} (positive : 1 ≤ target) (known : target ≤ memory.version) :
    ∃ version : HistoricalVersion D,
      reconstructVersion memory.fields memory.version rows target = .ok version ∧
      version.version = target ∧ version.unavailable = [] ∧
      ∃ values : Snapshot D, version.values = (fun field => some (values field)) ∧
        Same comparable values (past target) := by
  let undone := (above rows target memory.version).insertionSort newestFirst
  have versions : undone.map (·.version) =
      (List.range' (target + 1) (memory.version - target)).reverse :=
    ledger.undone_versions anyOrder positive
  have present : ∀ row ∈ undone, row ∈ edits stored := by
    intro row listed
    rw [List.mem_insertionSort, above, List.mem_filter] at listed
    exact (edits_perm anyOrder).mem_iff.mp listed.1
  have patches : (undone.map fun row => undoPatch row.prior) =
      (undone.map fun row => row.prior.values).map fun patch field => (patch field).map some := by
    rw [List.map_map]
    apply List.map_congr_left
    intro row listed
    exact undoPatch_unmarked (ledger.unmarked row (present row listed))
  have restored : Same comparable (undo memory.fields (undone.map fun row => row.prior.values))
      (past target) := by
    have log := ledger.undoes target (memory.version - target) undone present versions
    rw [Nat.add_sub_cancel' known] at log
    exact (log.live ledger.live).undo
  have inside : ¬((target : Int) < 1 ∨ (target : Int) > memory.version) := by omega
  refine ⟨{ version := target
            values := fun field => some (undo memory.fields (undone.map (·.prior.values)) field)
            unavailable := []
            writtenAt := ((edits rows).find? fun row => decide (row.version = target)).map
              (·.writtenAt) }, ?_, rfl, rfl, _, rfl, restored⟩
  rw [reconstructVersion, if_neg inside]
  refine (if_neg (not_not_intro versions)).trans ?_
  have rebuilt := (congrArg (undo fun field => some (memory.fields field)) patches).trans
    (undo_some memory.fields _)
  have available : (versionedFields.filter fun field =>
      (undo (fun field => some (memory.fields field))
        (undone.map fun row => undoPatch row.prior) field).isNone) = [] := by
    rw [rebuilt]
    simp
  exact congrArg Except.ok ((HistoricalVersion.mk.injEq ..).mpr ⟨rfl, rebuilt, available, rfl⟩)

theorem reconstructVersion_outside (live : Snapshot D) (current : Nat) (rows : List (Revision D))
    {target : Int} (outside : ¬(1 ≤ target ∧ target ≤ current)) :
    reconstructVersion live current rows target = .error ⟨target, current⟩ := by
  rw [reconstructVersion, if_pos (by omega)]

theorem mem_typeChangesAbove {lowest : Nat} {id : MemoryId} {change : Nat × Option String} :
    change ∈ typeChangesAbove rows id lowest ↔
      ∃ row ∈ edits rows, row.memoryId = id ∧ lowest ≤ row.version ∧
        revisionNames row.prior .type = true ∧ (row.version, row.prior.values .type) = change := by
  simp only [typeChangesAbove, List.mem_map, List.mem_filter, mem_edits, Bool.and_eq_true,
    decide_eq_true_eq]
  constructor
  next =>
    intro ⟨row, ⟨present, ⟨⟨own, updated⟩, high⟩, names⟩, same⟩
    exact ⟨row, ⟨present, updated⟩, own, high, names, same⟩
  next =>
    intro ⟨row, ⟨present, updated⟩, own, high, names, same⟩
    exact ⟨row, ⟨present, ⟨⟨own, updated⟩, high⟩, names⟩, same⟩

theorem lowestFirst_sorted (changes : List (Nat × Option String)) :
    (changes.insertionSort lowestFirst).Pairwise lowestFirst := by
  have total : Std.Total lowestFirst := ⟨fun a b => Nat.le_total a.1 b.1⟩
  have trans : IsTrans (Nat × Option String) lowestFirst := ⟨fun _ _ _ ab bc => Nat.le_trans ab bc⟩
  exact List.pairwise_insertionSort lowestFirst changes

theorem typesAtVersions_versions (liveType : Option String) (changes : List (Nat × Option String))
    (versions : List Nat) :
    (typesAtVersions liveType changes versions).map Prod.fst = versions := by
  unfold typesAtVersions
  rw [List.map_map]
  exact List.map_id versions

theorem find?_lowest {changes : List (Nat × Option String)} {version : Nat}
    {change : Nat × Option String} (sorted : changes.Pairwise lowestFirst)
    (found : changes.find? (fun change => decide (change.1 > version)) = some change) :
    ∀ other ∈ changes, version < other.1 → change.1 ≤ other.1 := by
  intro other listed higher
  obtain ⟨_, before, after, rfl, skipped⟩ := List.find?_eq_some_iff_append.mp found
  rw [List.pairwise_append] at sorted
  cases List.mem_append.mp listed with
  | inl early => simpa [higher] using skipped other early
  | inr late =>
    cases List.mem_cons.mp late with
    | inl same => rw [same]
    | inr later => exact (List.pairwise_cons.mp sorted.2.1).1 other later

theorem Ledger.type_at (ledger : Ledger past memory stored) (anyOrder : rows.Perm stored)
    {lowest version : Nat} (positive : 1 ≤ version) (known : version ≤ memory.version)
    (enough : lowest ≤ version + 1) :
    (match ((typeChangesAbove rows memory.id lowest).insertionSort lowestFirst).find?
        (fun change => decide (change.1 > version)) with
      | some change => change.2
      | none => some (memory.fields .type)) = some (past version .type) := by
  have named : ∀ row ∈ edits stored, version < row.version → row.prior.values .type ≠ none →
      (row.version, row.prior.values .type) ∈
        (typeChangesAbove rows memory.id lowest).insertionSort lowestFirst := by
    intro row present higher names
    rw [List.mem_insertionSort, mem_typeChangesAbove]
    exact ⟨row, (edits_perm anyOrder).mem_iff.mpr present,
      ledger.own row (mem_edits.mp present).1, by omega,
      by simp [revisionNames, Option.isSome_iff_ne_none.mpr names], rfl⟩
  cases found : ((typeChangesAbove rows memory.id lowest).insertionSort lowestFirst).find?
      (fun change => decide (change.1 > version)) with
  | none =>
    -- no edit above the version names the type: the live one is still that of the version
    have silent : ∀ row ∈ edits stored, version < row.version → row.version ≤ memory.version →
        row.prior.values .type = none := by
      intro row present higher _
      by_contra names
      have missed := List.find?_eq_none.mp found _ (named row present higher names)
      simp [higher] at missed
    have same := ledger.unnamed positive known (Nat.le_refl _) silent
    exact congrArg some ((ledger.live .type).trans same)
  | some change =>
    have lowestChange := find?_lowest (lowestFirst_sorted _) found
    have higher : version < change.1 := by
      simpa using List.find?_some found
    have listed := List.mem_of_find?_eq_some found
    rw [List.mem_insertionSort, mem_typeChangesAbove] at listed
    obtain ⟨row, presentAny, _, _, names, same⟩ := listed
    have present : row ∈ edits stored := (edits_perm anyOrder).mem_iff.mp presentAny
    have bounds := ledger.edit_bounds present
    have rowVersion : row.version = change.1 := congrArg Prod.fst same
    have silent : ∀ other ∈ edits stored, version < other.version →
        other.version ≤ row.version - 1 → other.prior.values .type = none := by
      intro other otherPresent otherHigher under
      by_contra otherNames
      have least := lowestChange _ (named other otherPresent otherHigher otherNames) otherHigher
      simp only at least
      omega
    have ordered : version ≤ row.version - 1 := by omega
    have constant := ledger.unnamed positive ordered (by omega) silent
    have unmarked := ledger.unmarked row present
    have value : ∃ value, row.prior.values .type = some value := by
      rw [← Option.isSome_iff_exists]
      simpa [revisionNames, unmarked.1, unmarked.2] using names
    obtain ⟨value, held⟩ := value
    have restored := ledger.restores row present .type
    simp only [overlay, held, Option.getD_some] at restored
    have below : value = past version .type := restored.trans constant
    rw [← same]
    exact held.trans (congrArg some below)

end Reading

section Runs

variable [DecidableEq D]

inductive Step (D : Type) where
  | edit (after : Snapshot D) (actor : UserId) (at_ : Time) (writer : RevisionWriter)
      (provenance : WriteProvenance) (restoredFrom : Option Nat)
  | event (kind : RevisionKind) (other : kind ≠ .updated) (actor : UserId) (at_ : Time)
      (writer : RevisionWriter) (provenance : WriteProvenance)

def step (log : Log D) : Step D → Log D
  | .edit after actor at_ writer provenance restoredFrom =>
      recordEdit
        { log with memory := { log.memory with fields := after, updatedAt := some at_ } }
        log.memory.fields actor at_ writer provenance restoredFrom
  | .event kind _ actor at_ writer provenance =>
      recordRevision log kind actor at_ {} writer provenance

def run (log : Log D) (steps : List (Step D)) : Log D := steps.foldl step log

-- A memory as it is inserted, before its first revision.
def inserted (memory : Memory D) : Log D :=
  { memory := { memory with version := 1 }, rows := [], nextId := 1 }

theorem run_append (log : Log D) (earlier later : List (Step D)) :
    run log (earlier ++ later) = run (run log earlier) later :=
  List.foldl_append

omit [DecidableEq D] in
theorem inserted_ledger (memory : Memory D) :
    Ledger (fun _ => memory.fields) (inserted memory).memory (inserted memory).rows := by
  refine ⟨?_, Nat.le_refl 1, Same.refl _, rfl, ?_, ?_⟩
  all_goals simp [inserted, edits]

structure Advances (past past' : Nat → Snapshot D) (log log' : Log D) : Prop where
  ledger : Ledger past' log'.memory log'.rows
  context : log'.memory.contextId = log.memory.contextId
  sameId : log'.memory.id = log.memory.id
  version : log.memory.version ≤ log'.memory.version
  bump : log'.memory.version ≤ log.memory.version + 1
  kept : ∀ version ≤ log.memory.version, past' version = past version

omit [DecidableEq D] in
theorem recordRevision_advances {past : Nat → Snapshot D} {log : Log D}
    (ledger : Ledger past log.memory log.rows) {kind : RevisionKind} (other : kind ≠ .updated)
    (actor : UserId) (at_ : Time) (writer : RevisionWriter) (provenance : WriteProvenance) :
    Advances past past log (recordRevision log kind actor at_ {} writer provenance) := by
  cases logged : log.memory.contextId with
  | none =>
    have same : recordRevision log kind actor at_ {} writer provenance =
        { log with memory := stampWriter log.memory provenance } := by
      simp [recordRevision, stampWriter, logged]
    rw [same]
    refine ⟨?_, rfl, rfl, Nat.le_refl _, Nat.le_succ _, fun _ _ => rfl⟩
    have unchanged := ledger.other (stampWriter log.memory provenance) []
      rfl rfl (Same.refl _) (by simp)
    simpa using unchanged
  | some context =>
    have added : (recordRevision log kind actor at_ {} writer provenance).rows = log.rows ++
        [{ id := log.nextId, memoryId := log.memory.id, contextId := context
           version := log.memory.version, kind := kind, prior := {}, writer := writer
           actorUserId := actor, agentId := provenance.agentId
           sessionId := provenance.sessionId, writtenAt := at_ }] := by
      simp [recordRevision, stampWriter, logged]
    have memory : (recordRevision log kind actor at_ {} writer provenance).memory =
        stampWriter log.memory provenance := by
      simp [recordRevision, stampWriter, logged]
    refine ⟨?_, ?_, ?_, ?_, ?_, fun _ _ => rfl⟩
    · rw [added, memory]
      exact ledger.other _ _ rfl rfl (Same.refl _) (by simp [other])
    all_goals rw [memory]
    · rfl
    · rfl
    · exact Nat.le_refl _
    · exact Nat.le_succ _

theorem edit_advances {past : Nat → Snapshot D} {log : Log D}
    (ledger : Ledger past log.memory log.rows) {context : ContextId}
    (logged : log.memory.contextId = some context) (after : Snapshot D) (actor : UserId)
    (at_ : Time) (writer : RevisionWriter) (provenance : WriteProvenance)
    (restoredFrom : Option Nat) :
    ∃ past', Advances past past' log
      (step log (.edit after actor at_ writer provenance restoredFrom)) := by
  cases unchanged : Prior.isEmpty (changedPrior log.memory.fields after) with
  | true =>
    refine ⟨past, ?_⟩
    simp only [step, recordEdit, unchanged, if_true]
    refine ⟨?_, rfl, rfl, Nat.le_refl _, Nat.le_succ _, fun _ _ => rfl⟩
    have same := ledger.other
      { log.memory with fields := after, updatedAt := some at_ } []
      rfl rfl (changedPrior_empty unchanged) (by simp)
    simpa using same
  | false =>
    refine ⟨Function.update past (log.memory.version + 1) after, ?_⟩
    simp only [step, recordEdit, unchanged, recordRevision, stampWriter, logged, Bool.false_eq_true,
      if_false, reduceCtorEq]
    refine ⟨?_, logged.symm, rfl, Nat.le_succ _, Nat.le_refl _, ?_⟩
    · apply ledger.edited
      case restores => exact changedPrior_restores _ _
      case unmarked => exact ⟨rfl, rfl⟩
      all_goals rfl
    · intro version below
      exact Function.update_of_ne (by omega) _ _

theorem step_advances {past : Nat → Snapshot D} {log : Log D}
    (ledger : Ledger past log.memory log.rows) {context : ContextId}
    (logged : log.memory.contextId = some context) (action : Step D) :
    ∃ past', Advances past past' log (step log action) := by
  cases action with
  | edit after actor at_ writer provenance restoredFrom =>
    exact edit_advances ledger logged after actor at_ writer provenance restoredFrom
  | event kind other actor at_ writer provenance =>
    exact ⟨past, recordRevision_advances ledger other actor at_ writer provenance⟩

theorem run_advances {past : Nat → Snapshot D} {log : Log D}
    (ledger : Ledger past log.memory log.rows) {context : ContextId}
    (logged : log.memory.contextId = some context) (steps : List (Step D)) :
    ∃ past', Ledger past' (run log steps).memory (run log steps).rows ∧
      (run log steps).memory.contextId = some context ∧
      (run log steps).memory.id = log.memory.id ∧
      log.memory.version ≤ (run log steps).memory.version ∧
      ∀ version ≤ log.memory.version, past' version = past version := by
  induction steps generalizing past log with
  | nil => exact ⟨past, ledger, logged, rfl, Nat.le_refl _, fun _ _ => rfl⟩
  | cons action rest ih =>
    obtain ⟨middle, first⟩ := step_advances ledger logged action
    obtain ⟨past', later, context', sameId, version, kept⟩ :=
      ih first.ledger (first.context.trans logged)
    refine ⟨past', later, context', sameId.trans first.sameId,
      Nat.le_trans first.version version, ?_⟩
    intro old below
    rw [kept old (Nat.le_trans below first.version), first.kept old below]

-- Versions move by one, so a run is at each of them at some point.
theorem run_visits {past : Nat → Snapshot D} {log : Log D}
    (ledger : Ledger past log.memory log.rows) {context : ContextId}
    (logged : log.memory.contextId = some context) (steps : List (Step D)) {target : Nat}
    (above : log.memory.version ≤ target) (below : target ≤ (run log steps).memory.version) :
    ∃ earlier later, steps = earlier ++ later ∧ (run log earlier).memory.version = target := by
  induction steps generalizing past log with
  | nil => exact ⟨[], [], rfl, Nat.le_antisymm above below⟩
  | cons action rest ih =>
    obtain ⟨middle, first⟩ := step_advances ledger logged action
    by_cases here : log.memory.version = target
    next => exact ⟨[], action :: rest, rfl, here⟩
    next =>
      have bump := first.bump
      obtain ⟨earlier, later, split, reached⟩ :=
        ih first.ledger (first.context.trans logged) (by omega) below
      exact ⟨action :: earlier, later, by rw [split]; rfl, reached⟩

def ReadsAs (version : HistoricalVersion D) (fields : Snapshot D) : Prop :=
  version.unavailable = [] ∧
    ∀ field, (version.values field).map (comparable field) = some (comparable field (fields field))

theorem version_log_faithful (memory : Memory D) {context : ContextId}
    (logged : memory.contextId = some context) (steps : List (Step D))
    (rows : List (Revision D)) (anyOrder : rows.Perm (run (inserted memory) steps).rows) :
    let log := run (inserted memory) steps
    let rebuild := reconstructVersion log.memory.fields log.memory.version rows
    (∀ earlier later, steps = earlier ++ later →
      ∃ version, rebuild (run (inserted memory) earlier).memory.version = .ok version ∧
        version.version = (run (inserted memory) earlier).memory.version ∧
        ReadsAs version (run (inserted memory) earlier).memory.fields) ∧
    (∀ target : Nat, 1 ≤ target → target ≤ log.memory.version →
      ∃ earlier later, steps = earlier ++ later ∧
        (run (inserted memory) earlier).memory.version = target) ∧
    (∀ target : Int, ¬(1 ≤ target ∧ target ≤ log.memory.version) →
      rebuild target = .error ⟨target, log.memory.version⟩) ∧
    (∀ lowest versions,
      (∀ version ∈ versions, 1 ≤ version ∧ version ≤ log.memory.version ∧ lowest ≤ version + 1) →
      let types := typesAtVersions (some (log.memory.fields .type))
        (typeChangesAbove rows memory.id lowest) versions
      types.map Prod.fst = versions ∧
        ∀ typed ∈ types,
          ∃ version, rebuild typed.1 = .ok version ∧ version.values .type = typed.2) := by
  intro log rebuild
  have initial := inserted_ledger memory
  refine ⟨?_, ?_, fun target => reconstructVersion_outside _ _ _, ?_⟩
  · intro earlier later split
    obtain ⟨past, ledger, context', _, version, _⟩ := run_advances initial logged earlier
    obtain ⟨past', ledger', _, _, version', kept⟩ := run_advances ledger context' later
    rw [← run_append, ← split] at ledger' version'
    obtain ⟨rebuilt, answer, number, available, values, held, same⟩ :=
      ledger'.reconstructs anyOrder ledger.positive version'
    refine ⟨rebuilt, answer, number, available, ?_⟩
    intro field
    rw [held, Option.map_some, same field, kept _ (Nat.le_refl _), ← ledger.live field]
  · intro target positive known
    exact run_visits initial logged steps positive known
  · intro lowest versions enough types
    refine ⟨typesAtVersions_versions _ _ _, ?_⟩
    intro typed listed
    obtain ⟨past, ledger, _, sameId, _, _⟩ := run_advances initial logged steps
    obtain ⟨version, asked, rfl⟩ := List.mem_map.mp listed
    obtain ⟨positive, known, low⟩ := enough version asked
    obtain ⟨rebuilt, answer, _, _, values, held, same⟩ :=
      ledger.reconstructs anyOrder positive known
    refine ⟨rebuilt, answer, ?_⟩
    have typeAt := ledger.type_at anyOrder positive known low
    rw [sameId] at typeAt
    rw [held]
    exact (congrArg some (same .type)).trans typeAt.symm

end Runs

def sampleFields : Snapshot Nat
  | .summary => "summary"
  | .contextSummary => none
  | .content => "first"
  | .details => none
  | .type => "note"
  | .importance => 1
  | .tags => none

def sampleMemory : Memory Nat :=
  { id := 7, userId := 1, contextId := some 3, fields := sampleFields, version := 1
    updatedAt := none, deletedAt := none, deletedBy := none, resourceId := none
    agentId := none, sessionId := none }

theorem sampleMemory_logged : sampleMemory.contextId = some 3 := rfl

def sampleSteps : List (Step Nat) :=
  [ .event .created (by decide) 1 10 .api {},
    .edit (Function.update sampleFields .type "decision") 2 20 .api {} none,
    .event .forgotten (by decide) 2 30 .api {},
    .edit (Function.update sampleFields .tags (some [])) 1 40 .api {} none ]

theorem version_log_faithful_sample :
    (run (inserted sampleMemory) sampleSteps).memory.version = 3 ∧
      ∃ version, reconstructVersion (run (inserted sampleMemory) sampleSteps).memory.fields
          (run (inserted sampleMemory) sampleSteps).memory.version
          (run (inserted sampleMemory) sampleSteps).rows.reverse
          (run (inserted sampleMemory) (sampleSteps.take 1)).memory.version = .ok version ∧
        version.version = 1 ∧ ReadsAs version sampleFields :=
  ⟨by decide,
    (version_log_faithful sampleMemory sampleMemory_logged sampleSteps _
      (List.reverse_perm _)).1 (sampleSteps.take 1) (sampleSteps.drop 1) rfl⟩

end MemoryCloud.Versions
