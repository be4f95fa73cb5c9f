import Mathlib.Data.List.Enum

set_option autoImplicit false

/-!
# Collapsing groups of a list

One pass keeps the elements without a group, and of each group its first element, which
something else may be put in the place of.
-/

namespace MemoryCloud.Collapse

variable {A G : Type} [DecidableEq G]

def collapse (group : A → Option G) (place : G → A → Option A) : List G → List A → Option (List A)
  | _, [] => some []
  | emitted, row :: rest =>
      match group row with
      | none => (collapse group place emitted rest).map (row :: ·)
      | some name =>
          if name ∈ emitted then collapse group place emitted rest
          else
            (place name row).bind fun placed =>
              (collapse group place (name :: emitted) rest).map (placed :: ·)

def stays (group : A → Option G) (rows : List A) (entry : A × Nat) : Bool :=
  decide (group entry.1 = none ∨ ∀ earlier ∈ rows.take entry.2, group earlier ≠ group entry.1)

def staying (group : A → Option G) (rows : List A) : List (A × Nat) :=
  rows.zipIdx.filter (stays group rows)

variable {group : A → Option G} {place : G → A → Option A} {lead : A → A}

theorem collapse_from {rest : List A} (before : List A) (emitted : List G)
    (known : ∀ name, name ∈ emitted ↔ ∃ earlier ∈ before, group earlier = some name)
    (alone : ∀ row ∈ rest, group row = none → lead row = row)
    (placed : ∀ row ∈ rest, ∀ name, group row = some name → place name row = some (lead row)) :
    collapse group place emitted rest =
      some (((rest.zipIdx before.length).filter (stays group (before ++ rest))).map
        fun entry => lead entry.1) := by
  induction rest generalizing before emitted with
  | nil => rfl
  | cons row rest ih =>
    have later := fun emitted known => ih (before ++ [row]) emitted known
      (fun other listed => alone other (List.mem_cons_of_mem _ listed))
      (fun other listed => placed other (List.mem_cons_of_mem _ listed))
    rw [List.length_append, List.length_singleton, List.append_assoc, List.singleton_append] at later
    have front : (before ++ row :: rest).take before.length = before := by simp
    rw [List.zipIdx_cons, collapse]
    cases named : group row with
    | none =>
      have kept : stays group (before ++ row :: rest) (row, before.length) = true := by
        simp [stays, named]
      rw [later emitted fun name => by simp [known name, named, or_and_right, exists_or],
        List.filter_cons_of_pos kept, List.map_cons, alone row List.mem_cons_self named]
      rfl
    | some name =>
      by_cases old : name ∈ emitted
      next =>
        have dropped : ¬ stays group (before ++ row :: rest) (row, before.length) = true := by
          obtain ⟨earlier, inside, same⟩ := (known name).mp old
          simp only [stays, named, front, decide_eq_true_eq, reduceCtorEq, false_or, not_forall,
            ne_eq, not_not]
          exact ⟨earlier, inside, same⟩
        simp only [if_pos old]
        rw [later emitted fun other => ?_, List.filter_cons_of_neg dropped]
        rw [known other]
        constructor
        next => exact fun ⟨earlier, inside, same⟩ => ⟨earlier, List.mem_append_left _ inside, same⟩
        next =>
          intro ⟨earlier, inside, same⟩
          rcases List.mem_append.mp inside with front | last
          next => exact ⟨earlier, front, same⟩
          next =>
            rw [List.mem_singleton.mp last, named, Option.some.injEq] at same
            exact (known other).mp (same ▸ old)
      next =>
        have kept : stays group (before ++ row :: rest) (row, before.length) = true := by
          simp only [stays, named, front, decide_eq_true_eq]
          exact .inr fun earlier inside same => old ((known name).mpr ⟨earlier, inside, same⟩)
        simp only [if_neg old, placed row List.mem_cons_self name named, Option.bind_some]
        rw [later (name :: emitted) fun other => ?_, List.filter_cons_of_pos kept, List.map_cons,
          Option.map_some]
        rw [List.mem_cons, known other]
        constructor
        next =>
          rintro (rfl | ⟨earlier, inside, same⟩)
          next => exact ⟨row, by simp, named⟩
          next => exact ⟨earlier, List.mem_append_left _ inside, same⟩
        next =>
          intro ⟨earlier, inside, same⟩
          rcases List.mem_append.mp inside with front | last
          next => exact .inr ⟨earlier, front, same⟩
          next =>
            rw [List.mem_singleton.mp last, named, Option.some.injEq] at same
            exact .inl same.symm

section Staying

variable {rows : List A}

theorem collapse_eq (lead : A → A) (alone : ∀ row ∈ rows, group row = none → lead row = row)
    (placed : ∀ row ∈ rows, ∀ name, group row = some name → place name row = some (lead row)) :
    collapse group place [] rows = some ((staying group rows).map fun entry => lead entry.1) :=
  collapse_from [] [] (by simp) alone placed

variable (group)

theorem staying_sublist : (staying group rows).Sublist rows.zipIdx :=
  List.filter_sublist

theorem mem_staying {row : A} {position : Nat} :
    (row, position) ∈ staying group rows ↔ rows[position]? = some row ∧
      (group row = none ∨ ∀ earlier ∈ rows.take position, group earlier ≠ group row) := by
  rw [staying, List.mem_filter, List.mk_mem_zipIdx_iff_getElem?, stays, decide_eq_true_eq]

theorem staying_alone (alone : A → Bool) (grouped : ∀ row ∈ rows, alone row → group row = none) :
    ((staying group rows).map Prod.fst).filter alone = rows.filter alone := by
  conv_rhs => rw [← List.zipIdx_map_fst 0 rows]
  rw [List.filter_map, List.filter_map, staying, List.filter_filter]
  congr 1
  refine List.filter_congr fun entry listed => ?_
  by_cases single : alone entry.1
  next =>
    have inside : entry.1 ∈ rows := by
      rw [← List.zipIdx_map_fst 0 rows]
      exact List.mem_map_of_mem listed
    simp [single, stays, grouped entry.1 inside single]
  next => simp [single]

theorem exists_staying {row : A} (listed : row ∈ rows) :
    ∃ position first, (first, position) ∈ staying group rows ∧ group first = group row := by
  obtain ⟨position, inside, named⟩ : ∃ position, ∃ inside : position < rows.length,
      group rows[position] = group row := by
    obtain ⟨position, inside, same⟩ := List.mem_iff_getElem.mp listed
    exact ⟨position, inside, by rw [same]⟩
  induction position using Nat.strongRecOn with
  | ind position earlier =>
    by_cases first : ∀ other ∈ rows.take position, group other ≠ group rows[position]
    next =>
      exact ⟨position, rows[position],
        (mem_staying group).mpr ⟨List.getElem?_eq_getElem inside, .inr first⟩, named⟩
    next =>
      simp only [not_forall, not_not] at first
      obtain ⟨other, taken, same⟩ := first
      obtain ⟨index, before, rfl⟩ := List.mem_take_iff_getElem.mp taken
      exact earlier index (by omega) (by omega) (same.trans named)

end Staying

end MemoryCloud.Collapse
