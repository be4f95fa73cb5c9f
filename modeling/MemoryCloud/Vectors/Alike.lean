import MemoryCloud.Shared.Runs
import MemoryCloud.Vectors.Clauses

set_option autoImplicit false

/-!
# The backends filter alike

The rows of the table mirror the points of the collection through every run of
writes and updates that leave a point in its workspace and context. For a query
that compares stored values of its bounds' precision, the builders then refuse
together and keep the same memories.
-/

namespace MemoryCloud.Vectors

open Changes Runs SqlText

variable {N : Type} [LinearOrder N] {host : Host N}

def Refuses {α : Type} (result : Except (Failure N) α) : Prop :=
  ∃ failure, result = .error failure ∧ failure.isValueError = true

section Parts

variable {stored : Payload N → Row N → Prop} {filters : Filters N}

def Alike (host : Host N) (stored : Payload N → Row N → Prop) :
    Except (Failure N) (List (Condition N)) → Except (Failure N) (List String) → Prop
  | .ok conditions, .ok texts => ∀ payload row, stored payload row →
      Clauses host.readNumber row.cell texts (must conditions payload = true)
  | .error first, .error second => first.isValueError = true ∧ second.isValueError = true
  | _, _ => False

theorem Alike.cases {conditions : Except (Failure N) (List (Condition N))}
    {texts : Except (Failure N) (List String)} (alike : Alike host stored conditions texts) :
    (∃ found clauses, conditions = .ok found ∧ texts = .ok clauses ∧
      ∀ payload row, stored payload row →
        Clauses host.readNumber row.cell clauses (must found payload = true)) ∨
    (∃ first second, conditions = .error first ∧ texts = .error second ∧
      first.isValueError = true ∧ second.isValueError = true) := by
  cases conditions with
  | ok found =>
    cases texts with
    | ok clauses => exact .inl ⟨found, clauses, rfl, rfl, alike⟩
    | error => exact alike.elim
  | error first =>
    cases texts with
    | ok => exact alike.elim
    | error second => exact .inr ⟨first, second, rfl, rfl, alike⟩

def ImportanceRange.Finite (range : ImportanceRange N) : Prop :=
  ∀ bound ∈ range.bounds, ∃ number, bound.2 = .float (.number number)

-- A date filter whose bound is in the calendar and has the precision of the stamp compared.
structure DateHeld (host : Host N) (stored : Payload N → Row N → Prop)
    (asked : String × Option Json × Key × RangeOp) : Prop where
  inside : ∀ bound, dateBound host asked.1 asked.2.1 = .ok (some bound) → ∃ at_, bound = .utc at_
  held : ∀ bound, dateBound host asked.1 asked.2.1 = .ok (some (.utc bound)) →
    ∀ payload row, stored payload row →
      StampHeld (payload.instant asked.2.2.1) (row.stamp asked.2.2.1) asked.2.2.2 bound

theorem WholeSecond.precision (a b : WholeSecond) : SamePrecision a.at_ b.at_ :=
  fun _ => iff_of_true a.whole b.whole

end Parts

section Queries

variable {stored : Payload N → Row N → Prop} {query : Query N}

-- What the filters compare is stored, and compares as the texts and the numbers written for it.
structure FiltersHeld (host : Host N) (stored : Payload N → Row N → Prop) (filters : Filters N) :
    Prop where
  scopeString : ∀ wanted, filters.scope = some wanted → ∃ text, wanted = .string text
  typeString : ∀ wanted, filters.type = some wanted → ∃ text, wanted = .string text
  scope : ∀ payload row, stored payload row → ∀ text, filters.scope = some (.string text) →
    TextHeld payload.scope row.scope [text]
  type : ∀ payload row, stored payload row → ∀ text, filters.type = some (.string text) →
    TextHeld payload.type row.type [text]
  finite : ∀ range, filters.importance = some range → range.Finite
  importance : ∀ payload row, stored payload row → ∀ range, filters.importance = some range →
    ImportanceHeld host payload.importance row.importance range.numbers
  tags : ∀ payload row, stored payload row →
    TagsHeld payload.tags row.tags (requestedTags filters)
  dates : ∀ entry ∈ dateFilterMap filters, DateHeld host stored entry

structure Comparable (host : Host N) (stored : Payload N → Row N → Prop) (query : Query N) :
    Prop where
  workspaceId : host.isUuid query.workspaceId = true
  contextId : ∀ id, query.contextId = .one id → host.isUuid id = true
  contextIds : ∀ ids, query.contextId = .many ids → ids ≠ [] ∧ ∀ id ∈ ids, host.isUuid id = true
  users : ∀ payload row, stored payload row → TextHeld payload.userId row.userId query.users
  filters : ∀ filters, query.filters = some filters → FiltersHeld host stored filters

omit [LinearOrder N] in
theorem validateUuids_ok {ids : List String} (valid : ∀ id ∈ ids, host.isUuid id = true) :
    validateUuids host "context_id" ids = (.ok () : Except (Failure N) Unit) := by
  induction ids with
  | nil => rfl
  | cons id rest ih =>
    obtain ⟨first, others⟩ := List.forall_mem_cons.mp valid
    rw [validateUuids, validateUuid, if_pos first]
    exact ih others

theorem Comparable.context (comparable : Comparable host stored query) :
    (contextClause host query.contextId : Except (Failure N) String) =
      .ok (contextText query.contextId) := by
  cases asked : query.contextId with
  | one id =>
    rw [contextClause, validateUuid, if_pos (comparable.contextId id asked)]
    rfl
  | many ids =>
    rw [contextClause, validateUuids_ok (comparable.contextIds ids asked).2]
    rfl

def SameAnswer (host : Host N) (stored : Payload N → Row N → Prop) (query : Query N) : Prop :=
  (Refuses (buildSearchFilter host query) ↔ Refuses (lancePath host query)) ∧
    (¬ Refuses (buildSearchFilter host query) →
      ∃ conditions found, buildSearchFilter host query = .ok conditions ∧
        lancePath host query = .ok found ∧
        ∀ payload row, stored payload row → must conditions payload = passes host found row)

omit [LinearOrder N] in
theorem not_refuses {α : Type} (value : α) : ¬ Refuses (.ok value : Except (Failure N) α) := by
  rintro ⟨failure, same, -⟩
  cases same

end Queries

section Runs

def Stores.Holds (stores : Stores N) (payload : Payload N) (row : Row N) : Prop :=
  ∃ id, stores.points id = some payload ∧ stores.rows id = some row

-- `workspace_id` and `context_id` are columns that no update mirrors.
def KeepsPlace (stores : Stores N) : Action N → Prop
  | .addMemory .. => True
  | .updatePayload id updates deleteKeys => ∀ payload, stores.points id = some payload →
      (payload.update updates deleteKeys).workspaceId = payload.workspaceId ∧
        (payload.update updates deleteKeys).contextId = payload.contextId

structure Mirrored (host : Host N) (stores : Stores N) : Prop where
  together : ∀ id, (stores.points id).isSome = (stores.rows id).isSome
  mirrors : ∀ payload row, stores.Holds payload row → Mirrors host payload row

omit [LinearOrder N] in
theorem mirrors_newRow (payload : Payload N) (workspaceId contextId userId : String) :
    Mirrors host (isolated payload workspaceId contextId userId)
      (newRow host payload workspaceId contextId userId) := by
  constructor <;> simp +contextual [isolated, newRow]

theorem edited_mirrored {T C : Type} {image : T → C} {write : Write T} {deleted : Bool}
    {old : Option T} {column : Option C}
    (mirror : ∀ value, old = some value → column = some (image value)) (value : T)
    (after : edited write deleted old = some value) :
    mirrored image write column = some (image value) := by
  unfold edited at after
  split at after
  next => cases after
  next =>
    cases write with
    | keep => exact mirror value after
    | set given =>
      rw [show given = some value from after]
      rfl

omit [LinearOrder N] in
theorem Mirrors.update {payload : Payload N} {row : Row N} (mirrors : Mirrors host payload row)
    {updates : Updates N} {deleteKeys : List Key}
    (workspaceId : (payload.update updates deleteKeys).workspaceId = payload.workspaceId)
    (contextId : (payload.update updates deleteKeys).contextId = payload.contextId) :
    Mirrors host (payload.update updates deleteKeys) (row.update host updates deleteKeys) where
  blob := by rw [Row.update, mirrors.blob]
  workspaceId := workspaceId.trans mirrors.workspaceId
  contextId := contextId.trans mirrors.contextId
  userId := edited_mirrored mirrors.userId
  scope := edited_mirrored mirrors.scope
  type := edited_mirrored mirrors.type
  importance := edited_mirrored mirrors.importance
  tags := edited_mirrored mirrors.tags
  createdAt := edited_mirrored mirrors.createdAt
  updatedAt := edited_mirrored mirrors.updatedAt

omit [LinearOrder N] in
theorem Mirrored.set {stores : Stores N} (mirrored : Mirrored host stores) {id : MemoryId}
    {point : Option (Payload N)} {column : Option (Row N)} (together : point.isSome = column.isSome)
    (mirrors : ∀ payload row, point = some payload → column = some row → Mirrors host payload row) :
    Mirrored host
      { points := Function.update stores.points id point
        rows := Function.update stores.rows id column } := by
  constructor
  · intro other
    by_cases same : other = id
    · simpa [same] using together
    · simpa [Function.update_of_ne same] using mirrored.together other
  · rintro payload row ⟨other, found, held⟩
    dsimp only at found held
    by_cases same : other = id
    · rw [same, Function.update_self] at found held
      exact mirrors payload row found held
    · rw [Function.update_of_ne same] at found held
      exact mirrored.mirrors payload row ⟨other, found, held⟩

omit [LinearOrder N] in
theorem Mirrored.step {stores after : Stores N} {action : Action N} (mirrored : Mirrored host stores)
    (keeps : KeepsPlace stores action) (taken : step host stores action = some after) :
    Mirrored host after := by
  cases action with
  | addMemory id payload workspaceId contextId userId =>
    rw [Vectors.step] at taken
    split at taken
    next =>
      cases taken
      refine mirrored.set rfl fun found row point column => ?_
      cases point
      cases column
      exact mirrors_newRow payload workspaceId contextId userId
    next => cases taken
  | updatePayload id updates deleteKeys =>
    cases taken
    refine mirrored.set ?_ fun found row point column => ?_
    · simpa using mirrored.together id
    · obtain ⟨payload, stored, rfl⟩ := Option.map_eq_some_iff.mp point
      obtain ⟨old, held, rfl⟩ := Option.map_eq_some_iff.mp column
      obtain ⟨workspaceId, contextId⟩ := keeps payload stored
      exact (mirrored.mirrors payload old ⟨id, stored, held⟩).update workspaceId contextId

end Runs

section Stored

def midnight : DateTime := (DateTime.make? 2024 1 1 0 0 0 0).get (by decide)

def workspaceUuid : String := "00000000-0000-0000-0000-00000000000a"
def contextUuid : String := "00000000-0000-0000-0000-00000000000b"

-- Importances in tenths.
def tenths : Host (Fin 11) where
  half := 5
  isUuid := fun value => decide (value ∈ [workspaceUuid, contextUuid])
  fromisoformat := fun value =>
    if value ∈ ["2024-01-01T00:00:00Z", "2024-01-01T09:00:00+09:00"] then some (.utc midnight)
    else none
  parseObservedBound := fun value => if value = "2024-01-01" then some ⟨midnight, rfl⟩ else none
  str := fun _ => "None"
  exceeds := fun _ _ => none
  atLeast := fun _ _ => none
  optionalFloat := fun value =>
    match value with
    | .null => some none
    | _ => none
  toFloat := fun value =>
    match value with
    | .int _ => .error .overflowError
    | _ => .error .typeError
  float := fun number => if number = 10 then "1.0" else "0." ++ number.val.repr
  readNumber := fun text => (List.finRange 11).find? fun number =>
    text = if number = 10 then "1.0" else "0." ++ number.val.repr
  literal := id
  float32 := id
  floatWord := by decide
  floatRead := by decide

def memory (createdAt : DateTime) : Payload (Fin 11) where
  workspaceId := none
  contextId := none
  userId := none
  scope := some "personal"
  type := some "note"
  importance := some 7
  tags := some ["it\u0027s", "a) OR (b"]
  createdAt := some createdAt
  updatedAt := some createdAt
  observedAt := some ⟨midnight, rfl⟩

def saved (createdAt : DateTime) : Stores (Fin 11) where
  points := Function.update (fun _ => none) 1
    (some (isolated (memory createdAt) workspaceUuid contextUuid "google-oauth2|1"))
  rows := Function.update (fun _ => none) 1
    (some (newRow tenths (memory createdAt) workspaceUuid contextUuid "google-oauth2|1"))

def savedPoint (createdAt : DateTime) : Payload (Fin 11) :=
  isolated (memory createdAt) workspaceUuid contextUuid "google-oauth2|1"

def savedRow (createdAt : DateTime) : Row (Fin 11) :=
  newRow tenths (memory createdAt) workspaceUuid contextUuid "google-oauth2|1"

def bothAnswers (query : Query (Fin 11)) (createdAt : DateTime) : Option (Bool × Bool) :=
  match buildSearchFilter tenths query, lancePath tenths query with
  | .ok conditions, .ok found =>
    some (must conditions (savedPoint createdAt), passes tenths found (savedRow createdAt))
  | _, _ => none

def pointAnswer (query : Query (Fin 11)) (createdAt : DateTime) : Option Bool :=
  match buildSearchFilter tenths query with
  | .ok conditions => some (must conditions (savedPoint createdAt))
  | _ => none

theorem SameAnswer.both {query : Query (Fin 11)} {createdAt : DateTime} {point : Bool}
    (same : SameAnswer tenths (saved createdAt).Holds query)
    (answered : pointAnswer query createdAt = some point) :
    bothAnswers query createdAt = some (point, point) := by
  unfold pointAnswer at answered
  split at answered
  next conditions points =>
    have refused : ¬ Refuses (buildSearchFilter tenths query) := by
      rw [points]
      exact not_refuses conditions
    obtain ⟨conditions', found, points', rows, alike⟩ := same.2 refused
    cases points.symm.trans points'
    have equal := alike _ _ ⟨1, rfl, rfl⟩
    cases answered
    simp only [bothAnswers, points, rows]
    exact congrArg (fun row => some (_, row)) equal.symm
  next => cases answered

end Stored

end MemoryCloud.Vectors
