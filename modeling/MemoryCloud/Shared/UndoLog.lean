import Mathlib.Data.List.Basic

set_option autoImplicit false

/-!
# Undo logs

A record is a value for every field, a patch holds the overwritten values of
some fields. Laying the patches of a log over the live record, newest first,
gives back the record below the oldest patch, up to a reading of each field.
-/

namespace MemoryCloud.UndoLog

variable {F : Type} {V : F → Type}

abbrev Patch (V : F → Type) := (field : F) → Option (V field)

def overlay (record : (field : F) → V field) (patch : Patch V) : (field : F) → V field :=
  fun field => (patch field).getD (record field)

-- `patches` newest first.
def undo (live : (field : F) → V field) (patches : List (Patch V)) : (field : F) → V field :=
  patches.foldl overlay live

def firstNamed (patches : List (Patch V)) : Patch V :=
  fun field => patches.findSome? fun patch => patch field

theorem firstNamed_append (older newer : List (Patch V)) (field : F) :
    firstNamed (older ++ newer) field = (firstNamed older field).or (firstNamed newer field) := by
  simp [firstNamed, List.findSome?_append]

theorem undo_eq_overlay (live : (field : F) → V field) (patches : List (Patch V)) :
    undo live patches = overlay live (firstNamed patches.reverse) := by
  induction patches generalizing live with
  | nil => rfl
  | cons patch rest ih =>
    funext field
    have next := congrFun (ih (overlay live patch)) field
    simp only [undo, List.foldl_cons] at next ⊢
    rw [next]
    simp only [overlay, List.reverse_cons, firstNamed_append]
    cases firstNamed rest.reverse field <;> simp [firstNamed]

theorem undo_some (live : (field : F) → V field) (patches : List (Patch V)) :
    undo (fun field => some (live field))
        (patches.map fun patch => fun field => (patch field).map some) =
      fun field => some (undo live patches field) := by
  induction patches generalizing live with
  | nil => rfl
  | cons patch rest ih =>
    have next : overlay (fun field => some (live field)) (fun field => (patch field).map some) =
        fun field => some (overlay live patch field) := by
      funext field
      cases named : patch field <;> simp [overlay, named]
    have older := ih (overlay live patch)
    simp only [undo, List.map_cons, List.foldl_cons] at older ⊢
    rw [next, older]

section Reading

variable (read : (field : F) → V field → V field)

def Same (left right : (field : F) → V field) : Prop :=
  ∀ field, read field (left field) = read field (right field)

def Restores (patch : Patch V) (before after : (field : F) → V field) : Prop :=
  Same read (overlay after patch) before

-- A log that leads down from the live record to an old one, newest patch first.
inductive Undoes : ((field : F) → V field) → List (Patch V) → ((field : F) → V field) → Prop
  | here {live old : (field : F) → V field} : Same read live old → Undoes live [] old
  | step {live middle old : (field : F) → V field} {patch : Patch V} {rest : List (Patch V)} :
      Restores read patch middle live → Undoes middle rest old → Undoes live (patch :: rest) old

variable {read}

theorem Same.refl (record : (field : F) → V field) : Same read record record :=
  fun _ => rfl

theorem Same.symm {left right : (field : F) → V field} (same : Same read left right) :
    Same read right left :=
  fun field => (same field).symm

theorem Same.trans {left middle right : (field : F) → V field} (first : Same read left middle)
    (second : Same read middle right) : Same read left right :=
  fun field => (first field).trans (second field)

theorem Same.overlay {left right : (field : F) → V field} (same : Same read left right)
    (patch : Patch V) : Same read (overlay left patch) (overlay right patch) := by
  intro field
  cases named : patch field with
  | none => simpa [UndoLog.overlay, named] using same field
  | some value => simp [UndoLog.overlay, named]

theorem Same.undo {left right : (field : F) → V field} (same : Same read left right)
    (patches : List (Patch V)) : Same read (undo left patches) (undo right patches) := by
  rw [undo_eq_overlay, undo_eq_overlay]
  exact same.overlay _

theorem Undoes.live {live other old : (field : F) → V field} {patches : List (Patch V)}
    (log : Undoes read live patches old) (same : Same read other live) :
    Undoes read other patches old := by
  cases log with
  | here same' => exact .here (same.trans same')
  | step restores rest => exact .step ((same.overlay _).trans restores) rest

theorem Undoes.undo {live old : (field : F) → V field} {patches : List (Patch V)}
    (log : Undoes read live patches old) : Same read (undo live patches) old := by
  induction log with
  | here same => exact same
  | step restores _ ih => exact (Same.undo restores _).trans ih

end Reading

end MemoryCloud.UndoLog
