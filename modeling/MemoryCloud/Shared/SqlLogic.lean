import Mathlib.Data.List.Basic

set_option autoImplicit false

/-!
# SQL three-valued logic

A predicate over a nullable column is true, false or unknown; a `WHERE` clause
keeps a row only when the predicate is true.
-/

namespace MemoryCloud.SqlLogic

abbrev Tri := Option Bool

def Tri.not : Tri → Tri
  | some value => some (!value)
  | none => none

def Tri.and : Tri → Tri → Tri
  | some false, _ => some false
  | _, some false => some false
  | some true, some true => some true
  | _, _ => none

def Tri.or : Tri → Tri → Tri
  | some true, _ => some true
  | _, some true => some true
  | some false, some false => some false
  | _, _ => none

def Tri.all : List Tri → Tri
  | [] => some true
  | first :: rest => first.and (Tri.all rest)

def Tri.any : List Tri → Tri
  | [] => some false
  | first :: rest => first.or (Tri.any rest)

variable {α : Type} [DecidableEq α]

-- `column = literal`: unknown when the column is NULL.
def Tri.eq (column : Option α) (value : α) : Tri :=
  column.map fun found => decide (found = value)

def Tri.isIn (column : Option α) (values : List α) : Tri :=
  column.map fun found => decide (found ∈ values)

-- What `WHERE` does with the value of its predicate.
def Tri.Keeps (value : Tri) : Prop := value = some true

instance (value : Tri) : Decidable value.Keeps := inferInstanceAs (Decidable (value = some true))

@[simp] theorem keeps_some (value : Bool) : Tri.Keeps (some value) ↔ value = true := by
  simp [Tri.Keeps]

@[simp] theorem not_keeps (value : Tri) : value.not.Keeps ↔ value = some false := by
  cases value <;> simp [Tri.not, Tri.Keeps]

@[simp] theorem and_keeps (left right : Tri) :
    (left.and right).Keeps ↔ left.Keeps ∧ right.Keeps := by
  rcases left with _ | (_ | _) <;> rcases right with _ | (_ | _) <;> simp [Tri.and, Tri.Keeps]

@[simp] theorem and_refuted (left right : Tri) :
    left.and right = some false ↔ left = some false ∨ right = some false := by
  rcases left with _ | (_ | _) <;> rcases right with _ | (_ | _) <;> simp [Tri.and]

@[simp] theorem or_keeps (left right : Tri) :
    (left.or right).Keeps ↔ left.Keeps ∨ right.Keeps := by
  rcases left with _ | (_ | _) <;> rcases right with _ | (_ | _) <;> simp [Tri.or, Tri.Keeps]

@[simp] theorem or_refuted (left right : Tri) :
    left.or right = some false ↔ left = some false ∧ right = some false := by
  rcases left with _ | (_ | _) <;> rcases right with _ | (_ | _) <;> simp [Tri.or]

@[simp] theorem not_refuted (value : Tri) : value.not = some false ↔ value.Keeps := by
  cases value <;> simp [Tri.not, Tri.Keeps]

theorem all_keeps (values : List Tri) :
    (Tri.all values).Keeps ↔ ∀ value ∈ values, value.Keeps := by
  induction values with
  | nil => simp [Tri.all]
  | cons first rest ih => simp [Tri.all, ih]

theorem any_refuted (values : List Tri) :
    Tri.any values = some false ↔ ∀ value ∈ values, value = some false := by
  induction values with
  | nil => simp [Tri.any]
  | cons first rest ih => simp [Tri.any, ih]

theorem eq_keeps (column : Option α) (value : α) :
    (Tri.eq column value).Keeps ↔ column = some value := by
  cases column <;> simp [Tri.eq, Tri.Keeps]

theorem eq_refuted (column : Option α) (value : α) :
    Tri.eq column value = some false ↔ ∃ found, column = some found ∧ found ≠ value := by
  cases column <;> simp [Tri.eq]

theorem isIn_keeps (column : Option α) (values : List α) :
    (Tri.isIn column values).Keeps ↔ ∃ found, column = some found ∧ found ∈ values := by
  cases column <;> simp [Tri.isIn, Tri.Keeps]

end MemoryCloud.SqlLogic
