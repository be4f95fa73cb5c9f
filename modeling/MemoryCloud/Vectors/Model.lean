import Mathlib.Data.List.Sort
import Mathlib.Data.String.Basic
import MemoryCloud.Shared.Json
import MemoryCloud.Shared.SqlText
import MemoryCloud.Vectors.Stamps

set_option autoImplicit false

/-!
# The two vector backends

What `db/qdrant.py` and `db/lance_store.py` store of a memory and how each
filters: the conditions of `_build_search_filter` with Qdrant's documented
meaning, and the SQL text of `build_lance_filter` with the comparison of the
event time that follows it. Floats are the numbers of a linear order.
-/

namespace MemoryCloud.Vectors

open Changes SqlText

abbrev MemoryId := Nat

-- The 20-character form of `observed_at`.
structure WholeSecond where
  at_ : DateTime
  whole : at_.microsecond = 0
  deriving DecidableEq

-- An aware `datetime` in UTC. An offset may move year 1 or 9999 out of the calendar.
inductive Aware where
  | early
  | utc (at_ : DateTime)
  | late
  deriving DecidableEq

-- A float; the numbers are the finite ones.
inductive Limit (N : Type) where
  | number (value : N)
  | infinity (negative : Bool)
  | nan

-- A bound as a request gives it: a number that some float equals, or anything else, such as `null`,
-- a text or an integer past the floats.
inductive Bound (N : Type) where
  | float (value : Limit N)
  | json (value : Json)

inductive FloatError where
  | valueError
  | typeError
  | overflowError
  deriving DecidableEq

-- What the code takes from Python and from the SQL engine: `UUID(value)`, `fromisoformat` with a
-- naive value read as UTC, `parse_observed_bound` (one function for both backends), `str` of a
-- value that is no string, the comparisons `>` and `>=` of other values than floats (`none` is a
-- `TypeError`), what Pydantic makes of such a value in an `Optional[float]` (`none` is a
-- `ValidationError`) and what `float` does, the text of a float with the number its literal
-- compares as, and the number a `float32` column keeps.
structure Host (N : Type) where
  half : N
  isUuid : String → Bool
  fromisoformat : String → Option Aware
  parseObservedBound : String → Option WholeSecond
  str : Json → String
  exceeds : Bound N → Bound N → Option Bool
  atLeast : Bound N → Bound N → Option Bool
  optionalFloat : Json → Option (Option (Limit N))
  toFloat : Json → Except FloatError (Limit N)
  float : N → String
  readNumber : String → Option N
  literal : N → N
  float32 : N → N
  floatWord : ∀ number, IsWord (float number)
  floatRead : ∀ number, readNumber (float number) = some (literal number)

inductive Key where
  | workspaceId
  | contextId
  | userId
  | scope
  | type
  | importance
  | tags
  | createdAt
  | updatedAt
  | observedAt
  deriving DecidableEq, Repr

-- A key that is missing or null is `none`. `created_at` and `updated_at` are written by
-- `to_utc_iso`.
structure Payload (N : Type) where
  workspaceId : Option String
  contextId : Option String
  userId : Option String
  scope : Option String
  type : Option String
  importance : Option N
  tags : Option (List String)
  createdAt : Option DateTime
  updatedAt : Option DateTime
  observedAt : Option WholeSecond

section Stores

variable {N : Type}

inductive Write (T : Type) where
  | keep
  | set (value : Option T)

structure Updates (N : Type) where
  workspaceId : Write String
  contextId : Write String
  userId : Write String
  scope : Write String
  type : Write String
  importance : Write N
  tags : Write (List String)
  createdAt : Write DateTime
  updatedAt : Write DateTime
  observedAt : Write WholeSecond

-- The keys are set first, then deleted.
def edited {T : Type} (write : Write T) (deleted : Bool) (old : Option T) : Option T :=
  if deleted then none
  else
    match write with
    | .keep => old
    | .set value => value

def Payload.update (payload : Payload N) (updates : Updates N) (deleteKeys : List Key) :
    Payload N :=
  let gone := fun key => decide (key ∈ deleteKeys)
  { workspaceId := edited updates.workspaceId (gone .workspaceId) payload.workspaceId
    contextId := edited updates.contextId (gone .contextId) payload.contextId
    userId := edited updates.userId (gone .userId) payload.userId
    scope := edited updates.scope (gone .scope) payload.scope
    type := edited updates.type (gone .type) payload.type
    importance := edited updates.importance (gone .importance) payload.importance
    tags := edited updates.tags (gone .tags) payload.tags
    createdAt := edited updates.createdAt (gone .createdAt) payload.createdAt
    updatedAt := edited updates.updatedAt (gone .updatedAt) payload.updatedAt
    observedAt := edited updates.observedAt (gone .observedAt) payload.observedAt }

-- A row of the table; its columns are nullable. `payload` is `payload_json`.
structure Row (N : Type) where
  workspaceId : String
  contextId : String
  userId : Option String
  scope : Option String
  type : Option String
  importance : Option N
  tags : Option (List String)
  createdAt : Option String
  updatedAt : Option String
  payload : Payload N

def isolated (payload : Payload N) (workspaceId contextId userId : String) : Payload N :=
  { payload with
    workspaceId := some workspaceId, contextId := some contextId, userId := some userId }

def newRow (host : Host N) (payload : Payload N) (workspaceId contextId userId : String) : Row N where
  workspaceId := workspaceId
  contextId := contextId
  userId := some userId
  scope := some (payload.scope.getD "")
  type := some (payload.type.getD "")
  importance := some (host.float32 (payload.importance.getD host.half))
  tags := some (payload.tags.getD [])
  createdAt := some ((payload.createdAt.map toUtcIso).getD "")
  updatedAt := some ((payload.updatedAt.map toUtcIso).getD "")
  payload := isolated payload workspaceId contextId userId

-- A column of `mirror_cols` follows the key it is named after when the key is set.
def mirrored {T C : Type} (image : T → C) (write : Write T) (column : Option C) : Option C :=
  match write with
  | .keep => column
  | .set value => value.map image

def Row.update (host : Host N) (row : Row N) (updates : Updates N) (deleteKeys : List Key) :
    Row N :=
  { row with
    payload := row.payload.update updates deleteKeys
    userId := mirrored id updates.userId row.userId
    scope := mirrored id updates.scope row.scope
    type := mirrored id updates.type row.type
    importance := mirrored host.float32 updates.importance row.importance
    tags := mirrored id updates.tags row.tags
    createdAt := mirrored toUtcIso updates.createdAt row.createdAt
    updatedAt := mirrored toUtcIso updates.updatedAt row.updatedAt }

structure Stores (N : Type) where
  points : MemoryId → Option (Payload N)
  rows : MemoryId → Option (Row N)

def Stores.empty : Stores N where
  points := fun _ => none
  rows := fun _ => none

inductive Action (N : Type) where
  | addMemory (id : MemoryId) (payload : Payload N) (workspaceId contextId userId : String)
  | updatePayload (id : MemoryId) (updates : Updates N) (deleteKeys : List Key)

-- Both backends refuse the same points.
def step (host : Host N) (stores : Stores N) : Action N → Option (Stores N)
  | .addMemory id payload workspaceId contextId userId =>
    if host.isUuid workspaceId ∧ host.isUuid contextId ∧ userId ≠ "" then
      some
        { points := Function.update stores.points id
            (some (isolated payload workspaceId contextId userId))
          rows := Function.update stores.rows id
            (some (newRow host payload workspaceId contextId userId)) }
    else none
  | .updatePayload id updates deleteKeys =>
    some
      { points := Function.update stores.points id
          ((stores.points id).map fun payload => payload.update updates deleteKeys)
        rows := Function.update stores.rows id
          ((stores.rows id).map fun row => row.update host updates deleteKeys) }

end Stores

section Queries

inductive ContextIds where
  | one (id : String)
  | many (ids : List String)

structure ImportanceRange (N : Type) where
  gte : Option (Bound N)
  lte : Option (Bound N)
  gt : Option (Bound N)
  lt : Option (Bound N)

def ImportanceRange.bounds {N : Type} (range : ImportanceRange N) : List (Comparison × Bound N) :=
  range.gte.toList.map (Comparison.ge, ·) ++ range.lte.toList.map (Comparison.le, ·) ++
    range.gt.toList.map (Comparison.gt, ·) ++ range.lt.toList.map (Comparison.lt, ·)

-- The `filters` object; `importance` is `none` for a value that is no mapping, too.
structure Filters (N : Type) where
  scope : Option Json
  type : Option Json
  importance : Option (ImportanceRange N)
  tags : Option Json
  tagsMatch : Option Json
  tagGroups : Option Json
  createdAfter : Option Json
  createdBefore : Option Json
  updatedAfter : Option Json
  updatedBefore : Option Json
  observedAfter : Option Json
  observedBefore : Option Json

structure Query (N : Type) where
  workspaceId : String
  contextId : ContextIds
  userId : String
  isSharedContext : Bool
  ownerIds : List String
  filters : Option (Filters N)

inductive Failure (N : Type) where
  | invalidUuid (field value : String)
  -- Pydantic's `ValidationError` for a `MatchValue`.
  | invalidMatchValue (value : Json)
  | importanceRange (lower upper : Bound N)
  -- Bounds that do not compare.
  | incomparable
  -- Pydantic's `ValidationError` for a `Range`.
  | invalidBound (value : Json)
  | float (error : FloatError)
  | invalidTagsMatch (mode : Json)
  | notAString (field : String)
  | invalidDatetime (field value : String)
  | invalidObserved (field : String)
  | overflow

-- Pydantic's `ValidationError` is one, too.
def Failure.isValueError {N : Type} : Failure N → Bool
  | .overflow => false
  | .incomparable => false
  | .float error => decide (error = .valueError)
  | _ => true

def maxFilterTags : Nat := 50
def maxGroupSpellings : Nat := 50
def maxAnySpellings : Nat := maxFilterTags * 21

-- `[t for t in value if isinstance(t, str) and t]` of a list.
def tagStrings : Json → List String
  | .array items => items.filterMap fun item =>
      match item with
      | .string tag => if tag = "" then none else some tag
      | _ => none
  | _ => []

def requestedTags {N : Type} (filters : Filters N) : List String :=
  match filters.tags with
  | none => []
  | some value => tagStrings value

def tagsMode {N : Type} (filters : Filters N) : Except (Failure N) Bool :=
  match filters.tagsMatch with
  | none => .ok false
  | some (.string mode) =>
    if mode = "all" then .ok true
    else if mode = "any" then .ok false
    else .error (.invalidTagsMatch (.string mode))
  | some other => .error (.invalidTagsMatch other)

def widenedTagGroups {N : Type} (filters : Filters N) : Option (List (List String)) :=
  match filters.tagGroups, filters.tags with
  | some (.array raw), some (.array _) =>
    let groups := raw.filterMap fun group =>
      let spellings := (tagStrings group).filter fun tag => decide (tag ∈ requestedTags filters)
      if spellings = [] then none else some (spellings.take maxGroupSpellings)
    if groups = [] then none else some (groups.take maxFilterTags)
  | _, _ => none

-- `sorted({user_id, *owner_ids})` of more than the caller.
def otherOwners {N : Type} (query : Query N) : Option (List String) :=
  if query.ownerIds ≠ [] ∧ ¬ ∀ owner ∈ query.ownerIds, owner = query.userId then
    some ((query.userId :: query.ownerIds).dedup.insertionSort (· ≤ ·))
  else none

inductive RangeOp where
  | gte
  | lte
  | lt
  deriving DecidableEq, Repr

def RangeOp.comparison : RangeOp → Comparison
  | .gte => .ge
  | .lte => .le
  | .lt => .lt

def dateFilterMap {N : Type} (filters : Filters N) : List (String × Option Json × Key × RangeOp) :=
  [("created_after", filters.createdAfter, .createdAt, .gte),
    ("created_before", filters.createdBefore, .createdAt, .lte),
    ("updated_after", filters.updatedAfter, .updatedAt, .gte),
    ("updated_before", filters.updatedBefore, .updatedAt, .lte)]

def observedFilterOperators {N : Type} (filters : Filters N) :
    List (String × Option Json × RangeOp) :=
  [("observed_after", filters.observedAfter, .gte), ("observed_before", filters.observedBefore, .lt)]

variable {N : Type} (host : Host N)

def dateBound (name : String) : Option Json → Except (Failure N) (Option Aware)
  | none => .ok none
  | some .null => .ok none
  | some (.string value) =>
    match host.fromisoformat value with
    | none => .error (.invalidDatetime name value)
    | some bound => .ok (some bound)
  | some _ => .error (.notAString name)

def observedBound (name : String) : Option Json → Except (Failure N) (Option WholeSecond)
  | none => .ok none
  | some .null => .ok none
  | some (.string value) =>
    match host.parseObservedBound value with
    | none => .error (.invalidObserved name)
    | some bound => .ok (some bound)
  | some _ => .error (.invalidObserved name)

end Queries

section Qdrant

variable {N : Type} [LinearOrder N] (host : Host N)

inductive Condition (N : Type) where
  | matchValue (key : Key) (value : Json)
  | matchAny (key : Key) (values : List String)
  | range (bounds : List (Comparison × Limit N))
  | datetimeRange (key : Key) (op : RangeOp) (bound : Aware)

-- `MatchValue` takes a string, an integer or a boolean.
def matchValue (key : Key) : Json → Except (Failure N) (Condition N)
  | .string value => .ok (.matchValue key (.string value))
  | .int value => .ok (.matchValue key (.int value))
  | .bool value => .ok (.matchValue key (.bool value))
  | other => .error (.invalidMatchValue other)

def matchFilter (key : Key) : Option Json → Except (Failure N) (List (Condition N))
  | none => .ok []
  | some value => (matchValue key value).map fun condition => [condition]

-- `a > b`
def Limit.exceeds : Limit N → Limit N → Bool
  | .number a, .number b => decide (b < a)
  | .infinity false, .number _ => true
  | .infinity false, .infinity true => true
  | .number _, .infinity true => true
  | _, _ => false

-- `a >= b`
def Limit.atLeast : Limit N → Limit N → Bool
  | .number a, .number b => decide (b ≤ a)
  | .infinity a, .infinity b => !a || b
  | .infinity negative, .number _ => !negative
  | .number _, .infinity negative => negative
  | _, _ => false

def exceeds : Bound N → Bound N → Option Bool
  | .float a, .float b => some (a.exceeds b)
  | a, b => host.exceeds a b

def atLeast : Bound N → Bound N → Option Bool
  | .float a, .float b => some (a.atLeast b)
  | a, b => host.atLeast a b

def checkPair (above : Bound N → Bound N → Option Bool) :
    Option (Bound N) → Option (Bound N) → Except (Failure N) Unit
  | some lower, some upper =>
    match above lower upper with
    | none => .error .incomparable
    | some true => .error (.importanceRange lower upper)
    | some false => .ok ()
  | _, _ => .ok ()

def checkRange (range : ImportanceRange N) : Except (Failure N) Unit := do
  checkPair (exceeds host) range.gte range.lte
  checkPair (atLeast host) range.gt range.lt

-- A bound of `Range`, which takes `None` for no bound.
def rangeBound : Bound N → Except (Failure N) (Option (Limit N))
  | .float value => .ok (some value)
  | .json value =>
    match host.optionalFloat value with
    | none => .error (.invalidBound value)
    | some found => .ok found

def rangeBounds : List (Comparison × Bound N) → Except (Failure N) (List (Comparison × Limit N))
  | [] => .ok []
  | (op, bound) :: rest => do
    let limit ← rangeBound host bound
    let others ← rangeBounds rest
    .ok (limit.toList.map (op, ·) ++ others)

def buildImportanceRangeCondition (filters : Filters N) : Except (Failure N) (List (Condition N)) :=
  match filters.importance with
  | none => .ok []
  | some range =>
    if range.bounds.isEmpty then .ok []
    else do
      checkRange host range
      let bounds ← rangeBounds host range.bounds
      .ok [.range bounds]

-- `dict.fromkeys`: the keys in the order they first came in.
def fromKeys (seen : List String) : List String → List String
  | [] => seen
  | tag :: rest => if tag ∈ seen then fromKeys seen rest else fromKeys (seen ++ [tag]) rest

def anyTagSpellings (groups : List (List String)) : List String :=
  (fromKeys [] groups.flatten).take maxAnySpellings

def groupCondition : List String → Condition N
  | [tag] => .matchValue .tags (.string tag)
  | group => .matchAny .tags group

def buildTagFilterConditions (filters : Filters N) : Except (Failure N) (List (Condition N)) :=
  let validTags := (requestedTags filters).take maxFilterTags
  if validTags = [] then .ok []
  else
    (tagsMode filters).map fun all =>
      match all, widenedTagGroups filters with
      | true, none => validTags.map fun tag => .matchValue .tags (.string tag)
      | true, some groups => groups.map groupCondition
      | false, none => [.matchAny .tags validTags]
      | false, some groups => [.matchAny .tags (anyTagSpellings groups)]

def dateConditions :
    List (String × Option Json × Key × RangeOp) → Except (Failure N) (List (Condition N))
  | [] => .ok []
  | (name, value, key, op) :: rest => do
    let bound ← dateBound host name value
    let others ← dateConditions rest
    match bound with
    | none => .ok others
    | some bound => .ok (.datetimeRange key op bound :: others)

def observedConditions :
    List (String × Option Json × RangeOp) → Except (Failure N) (List (Condition N))
  | [] => .ok []
  | (name, value, op) :: rest => do
    let bound ← observedBound host name value
    let others ← observedConditions rest
    match bound with
    | none => .ok others
    | some bound => .ok (.datetimeRange .observedAt op (.utc bound.at_) :: others)

def buildDateFilterConditions (filters : Filters N) : Except (Failure N) (List (Condition N)) := do
  let dates ← dateConditions host (dateFilterMap filters)
  let observed ← observedConditions host (observedFilterOperators filters)
  .ok (dates ++ observed)

def isolationConditions (query : Query N) : List (Condition N) :=
  [.matchValue .workspaceId (.string query.workspaceId),
    match query.contextId with
    | .one id => .matchValue .contextId (.string id)
    | .many ids => .matchAny .contextId ids] ++
  if query.isSharedContext then []
  else
    [match otherOwners query with
    | some owners => .matchAny .userId owners
    | none => .matchValue .userId (.string query.userId)]

def buildSearchFilter (query : Query N) : Except (Failure N) (List (Condition N)) :=
  match query.filters with
  | none => .ok (isolationConditions query)
  | some filters => do
    let scope ← matchFilter .scope filters.scope
    let type ← matchFilter .type filters.type
    let importance ← buildImportanceRangeCondition host filters
    let tags ← buildTagFilterConditions filters
    let dates ← buildDateFilterConditions host filters
    .ok (isolationConditions query ++ scope ++ type ++ importance ++ tags ++ dates)

-- The strings a match compares: the value, or the members of a list.
def Payload.texts (payload : Payload N) : Key → Option (List String)
  | .workspaceId => payload.workspaceId.map ([·])
  | .contextId => payload.contextId.map ([·])
  | .userId => payload.userId.map ([·])
  | .scope => payload.scope.map ([·])
  | .type => payload.type.map ([·])
  | .tags => payload.tags
  | _ => none

def Payload.instant (payload : Payload N) : Key → Option DateTime
  | .createdAt => payload.createdAt
  | .updatedAt => payload.updatedAt
  | .observedAt => payload.observedAt.map (·.at_)
  | _ => none

def RangeOp.admits (op : RangeOp) (at_ : DateTime) : Aware → Bool
  | .utc bound => op.comparison.holds (fields at_) (fields bound)
  | .early => decide (op = .gte)
  | .late => decide (op ≠ .gte)

def Limit.admits (op : Comparison) (number : N) : Limit N → Bool
  | .number bound => op.holds number bound
  | .infinity negative =>
    match op with
    | .ge | .gt => negative
    | .le | .lt => !negative
    | .eq => false
  | .nan => false

-- A point without the field does not match.
def Condition.matches (payload : Payload N) : Condition N → Bool
  | .matchValue key (.string value) => (payload.texts key).any (decide <| value ∈ ·)
  | .matchValue _ _ => false
  | .matchAny key values => (payload.texts key).any fun found => found.any (· ∈ values)
  | .range bounds => payload.importance.any fun number =>
      bounds.all fun bound => bound.2.admits bound.1 number
  | .datetimeRange key op bound => (payload.instant key).any (op.admits · bound)

-- `Filter(must=conditions)`.
def must (conditions : List (Condition N)) (payload : Payload N) : Bool :=
  conditions.all (·.matches payload)

end Qdrant

section Lance

variable {N : Type} [LinearOrder N] (host : Host N)

def validateUuid (field value : String) : Except (Failure N) Unit :=
  if host.isUuid value then .ok () else .error (.invalidUuid field value)

def strOf : Json → String
  | .string value => value
  | other => host.str other

def textClause (column : String) : Option Json → List String
  | none => []
  | some value => [column ++ " = " ++ sqlStr (strOf host value)]

def inClause (column : String) (values : List String) : String :=
  column ++ " IN (" ++ ", ".intercalate (values.map sqlStr) ++ ")"

def validateUuids (field : String) : List String → Except (Failure N) Unit
  | [] => .ok ()
  | value :: rest => do
    validateUuid host field value
    validateUuids field rest

def contextClause : ContextIds → Except (Failure N) String
  | .one id => do
    validateUuid host "context_id" id
    .ok ("context_id = " ++ sqlStr id)
  | .many ids => do
    validateUuids host "context_id" ids
    .ok (inClause "context_id" ids)

def userClauses (query : Query N) : List String :=
  if query.isSharedContext then []
  else
    [match otherOwners query with
    | some owners => inClause "user_id" owners
    | none => "user_id = " ++ sqlStr query.userId]

-- `str(float(value))`
def floatText : Bound N → Except (Failure N) String
  | .float value => .ok (limitText value)
  | .json value =>
    match host.toFloat value with
    | .error error => .error (.float error)
    | .ok limit => .ok (limitText limit)
where
  limitText : Limit N → String
  | .number value => host.float value
  | .infinity true => "-inf"
  | .infinity false => "inf"
  | .nan => "nan"

def importanceClauses : List (Comparison × Bound N) → Except (Failure N) (List String)
  | [] => .ok []
  | (op, bound) :: rest => do
    let text ← floatText host bound
    let others ← importanceClauses rest
    .ok (("importance " ++ op.text ++ " " ++ text) :: others)

def importanceFilter (filters : Filters N) : Except (Failure N) (List String) :=
  match filters.importance with
  | none => .ok []
  | some range => do
    checkRange host range
    importanceClauses host range.bounds

-- One group of `_distinct_any_groups`, with the spellings seen after it.
def keepNew (seen : List String) : List String → List String × List String
  | [] => ([], seen)
  | tag :: rest =>
    if tag ∉ seen ∧ seen.length < maxAnySpellings then
      let (kept, after) := keepNew (seen ++ [tag]) rest
      (tag :: kept, after)
    else keepNew seen rest

def distinctAnyGroups (seen : List String) : List (List String) → List (List String)
  | [] => []
  | group :: rest =>
    let (kept, after) := keepNew seen group
    if kept = [] then distinctAnyGroups after rest else kept :: distinctAnyGroups after rest

def tagClause (tag : String) : String := "array_has(tags, " ++ sqlStr tag ++ ")"

def groupClause (group : List String) : String :=
  let anyOf := " OR ".intercalate (group.map tagClause)
  if group.length = 1 then anyOf else "(" ++ anyOf ++ ")"

def joiner (all : Bool) : String := if all then " AND " else " OR "

def buildTagClause (filters : Filters N) : Except (Failure N) (List String) :=
  let valid := (requestedTags filters).take maxFilterTags
  if valid = [] then .ok []
  else
    (tagsMode filters).map fun all =>
      match widenedTagGroups filters with
      | some groups =>
        let groups := if all then groups else distinctAnyGroups [] groups
        ["(" ++ (joiner all).intercalate (groups.map groupClause) ++ ")"]
      | none => ["(" ++ (joiner all).intercalate (valid.map tagClause) ++ ")"]

def dateColumn : Key → String
  | .createdAt => "created_at"
  | _ => "updated_at"

-- `astimezone(UTC)` of a bound outside the calendar is an `OverflowError`.
def normalized : Aware → Except (Failure N) String
  | .utc bound => .ok (toUtcIso bound)
  | _ => .error .overflow

def buildDateClauses :
    List (String × Option Json × Key × RangeOp) → Except (Failure N) (List String)
  | [] => .ok []
  | (name, value, key, op) :: rest => do
    let bound ← dateBound host name value
    match bound with
    | none => buildDateClauses rest
    | some bound => do
      let text ← normalized bound
      let others ← buildDateClauses rest
      .ok ((dateColumn key ++ " " ++ op.comparison.text ++ " " ++ sqlStr text) :: others)

def buildLanceFilter (query : Query N) : Except (Failure N) String := do
  validateUuid host "workspace_id" query.workspaceId
  let context ← contextClause host query.contextId
  let isolation := ["workspace_id = " ++ sqlStr query.workspaceId, context] ++ userClauses query
  match query.filters with
  | none => .ok (" AND ".intercalate isolation)
  | some filters => do
    let importance ← importanceFilter host filters
    let tags ← buildTagClause filters
    let dates ← buildDateClauses host (dateFilterMap filters)
    .ok (" AND ".intercalate (isolation ++ textClause host "scope" filters.scope ++
      textClause host "type" filters.type ++ importance ++ tags ++ dates))

structure ObservedBounds where
  after : Option WholeSecond
  before : Option WholeSecond

def extractObservedBounds (query : Query N) : Except (Failure N) ObservedBounds :=
  match query.filters with
  | none => .ok { after := none, before := none }
  | some filters => do
    let after ← observedBound host "observed_after" filters.observedAfter
    let before ← observedBound host "observed_before" filters.observedBefore
    .ok { after, before }

-- `filter_results_by_observed`, when there is a bound.
def passesObserved (bounds : ObservedBounds) (payload : Payload N) : Bool :=
  if bounds.after.isNone && bounds.before.isNone then true
  else
    match payload.observedAt with
    | none => false
    | some value =>
      !bounds.after.any (fun after => decide (toUtcIso value.at_ < toUtcIso after.at_)) &&
        !bounds.before.any (fun before => !decide (toUtcIso value.at_ < toUtcIso before.at_))

def lancePath (query : Query N) : Except (Failure N) (String × ObservedBounds) := do
  let whereText ← buildLanceFilter host query
  let bounds ← extractObservedBounds host query
  .ok (whereText, bounds)

def Row.cell (row : Row N) (column : String) : Cell N :=
  if column = "workspace_id" then .text (some row.workspaceId)
  else if column = "context_id" then .text (some row.contextId)
  else if column = "user_id" then .text row.userId
  else if column = "scope" then .text row.scope
  else if column = "type" then .text row.type
  else if column = "importance" then .number row.importance
  else if column = "tags" then .list row.tags
  else if column = "created_at" then .text row.createdAt
  else if column = "updated_at" then .text row.updatedAt
  else .text none

def passes (found : String × ObservedBounds) (row : Row N) : Bool :=
  satisfies host.readNumber row.cell found.1 && passesObserved found.2 row.payload

end Lance

end MemoryCloud.Vectors
