import Mathlib.Data.List.Dedup
import MemoryCloud.Vectors.Model

set_option autoImplicit false

/-!
# Clauses and conditions

Each part of the LanceDB filter keeps the rows whose memories meet the
conditions of the same part of the Qdrant filter, on a row whose columns mirror
the payload where the filter asks.
-/

namespace MemoryCloud.Vectors

open Changes SqlText SqlLogic

section Spellings

end Spellings

structure Mirrors {N : Type} (host : Host N) (payload : Payload N) (row : Row N) : Prop where
  blob : row.payload = payload
  workspaceId : payload.workspaceId = some row.workspaceId
  contextId : payload.contextId = some row.contextId
  userId : ∀ value, payload.userId = some value → row.userId = some value
  scope : ∀ value, payload.scope = some value → row.scope = some value
  type : ∀ value, payload.type = some value → row.type = some value
  importance : ∀ value, payload.importance = some value →
    row.importance = some (host.float32 value)
  tags : ∀ value, payload.tags = some value → row.tags = some value
  createdAt : ∀ value, payload.createdAt = some value → row.createdAt = some (toUtcIso value)
  updatedAt : ∀ value, payload.updatedAt = some value → row.updatedAt = some (toUtcIso value)

section Sections

variable {N : Type} [LinearOrder N] {host : Host N} {payload : Payload N} {row : Row N}

-- A value compared is in the column only when the payload holds the key.
def TextHeld (stored column : Option String) (values : List String) : Prop :=
  stored = none → ∀ value ∈ values, column ≠ some value

theorem TextHeld.same {stored column : Option String} {values : List String}
    (held : TextHeld stored column values)
    (mirror : ∀ value, stored = some value → column = some value) :
    (∃ value ∈ values, column = some value) ↔ ∃ value ∈ values, stored = some value := by
  cases given : stored with
  | none => simpa using held given
  | some found => rw [mirror found given]

def contextText : ContextIds → String
  | .one id => "context_id = " ++ sqlStr id
  | .many ids => inClause "context_id" ids

def Query.users (query : Query N) : List String :=
  if query.isSharedContext then [] else (otherOwners query).getD [query.userId]

section Importance

def Bound.number? : Bound N → Option N
  | .float (.number value) => some value
  | _ => none

def ImportanceRange.numbers (range : ImportanceRange N) : List (Comparison × N) :=
  range.bounds.filterMap fun bound => bound.2.number?.map (bound.1, ·)

-- Neither the `float32` column nor the literals move the number across a bound; when the payload
-- has no number the column fails one of the bounds.
def ImportanceHeld (host : Host N) (stored column : Option N) (bounds : List (Comparison × N)) :
    Prop :=
  match stored with
  | some number => ∀ bound ∈ bounds,
      bound.1.holds (host.float32 number) (host.literal bound.2) = bound.1.holds number bound.2
  | none => bounds = [] ∨
      ∃ bound ∈ bounds, ¬ (column.any (bound.1.holds · (host.literal bound.2)) = true)

section Finite

variable {bounds : List (Comparison × Bound N)}
  (finite : ∀ bound ∈ bounds, ∃ number, bound.2 = .float (.number number))

end Finite

end Importance

section Tags

def TagsHeld (stored column : Option (List String)) (asked : List String) : Prop :=
  stored = none → ∀ tag ∈ asked, tag ∉ column.getD []

end Tags

section Dates

def Row.stamp (row : Row N) : Key → Option String
  | .createdAt => row.createdAt
  | _ => row.updatedAt

def StampHeld (stored : Option DateTime) (column : Option String) (op : RangeOp)
    (bound : DateTime) : Prop :=
  match stored with
  | some stamp => SamePrecision stamp bound
  | none => ¬ (column.any (op.comparison.holds · (toUtcIso bound)) = true)

theorem SamePrecision.symm {a b : DateTime} (precision : SamePrecision a b) : SamePrecision b a := by
  unfold SamePrecision SameSecond at *
  grind

end Dates

end Sections

end MemoryCloud.Vectors
