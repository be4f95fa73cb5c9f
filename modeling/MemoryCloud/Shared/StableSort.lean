import Mathlib.Data.List.Sort

set_option autoImplicit false

/-!
# The order a stable sort leaves

One of two values of a list comes before the other in the sorted list when it goes first, and
when they tie, where it came before the other in the list.
-/

namespace MemoryCloud.StableSort

variable {α : Type} {values : List α} {first second : α}

def Before (values : List α) (first second : α) : Prop :=
  [first, second].Sublist values

theorem Before.mem (before : Before values first second) : first ∈ values ∧ second ∈ values :=
  ⟨before.subset List.mem_cons_self, before.subset (List.mem_cons_of_mem _ List.mem_cons_self)⟩

theorem before_cons {head : α} :
    Before (head :: values) first second ↔
      first = head ∧ second ∈ values ∨ Before values first second := by
  rw [Before, List.sublist_cons_iff]
  constructor
  next =>
    rintro (later | ⟨rest, same, within⟩)
    next => exact .inr later
    next =>
      obtain ⟨rfl, rfl⟩ := List.cons.inj same
      exact .inl ⟨rfl, List.singleton_sublist.mp within⟩
  next =>
    rintro (⟨rfl, within⟩ | later)
    next => exact .inr ⟨[second], rfl, List.singleton_sublist.mpr within⟩
    next => exact .inl later

theorem before_total (one : first ∈ values) (two : second ∈ values) (apart : first ≠ second) :
    Before values first second ∨ Before values second first := by
  induction values with
  | nil => cases one
  | cons head rest ih =>
    simp only [before_cons]
    rcases List.mem_cons.mp one with rfl | within
    next =>
      exact .inl (.inl ⟨rfl, (List.mem_cons.mp two).resolve_left (Ne.symm apart)⟩)
    next =>
      rcases List.mem_cons.mp two with rfl | within'
      next => exact .inr (.inl ⟨rfl, within⟩)
      next => exact (ih within within').imp .inr .inr

theorem Before.asymm (nodup : values.Nodup) (before : Before values first second) :
    ¬ Before values second first := by
  induction values with
  | nil => cases before
  | cons head rest ih =>
    obtain ⟨fresh, nodupRest⟩ := List.nodup_cons.mp nodup
    intro after
    rcases before_cons.mp before with ⟨rfl, within⟩ | later
    next =>
      rcases before_cons.mp after with ⟨rfl, _⟩ | later'
      next => exact fresh within
      next => exact fresh later'.mem.2
    next =>
      rcases before_cons.mp after with ⟨rfl, within⟩ | later'
      next => exact fresh later.mem.2
      next => exact ih nodupRest later later'

variable {order : α → α → Prop} [DecidableRel order] [Std.Total order] [IsTrans α order]

theorem before_insertionSort (nodup : values.Nodup) (one : first ∈ values) (two : second ∈ values)
    (apart : first ≠ second) :
    Before (values.insertionSort order) first second ↔
      order first second ∧ (order second first → Before values first second) := by
  have nodupSorted : (values.insertionSort order).Nodup :=
    (List.perm_insertionSort order values).nodup_iff.mpr nodup
  constructor
  next =>
    intro before
    refine ⟨List.pairwise_iff_forall_sublist.mp (List.pairwise_insertionSort order values) before,
      fun back => ?_⟩
    refine (before_total one two apart).resolve_right fun after => ?_
    exact before.asymm nodupSorted (List.pair_sublist_insertionSort back after)
  next =>
    rintro ⟨forth, tie⟩
    rcases before_total one two apart with before | after
    next => exact List.pair_sublist_insertionSort forth before
    next =>
      have strict : ¬ order second first := fun back => after.asymm nodup (tie back)
      have one' := (List.mem_insertionSort order).mpr one
      have two' := (List.mem_insertionSort order).mpr two
      refine (before_total one' two' apart).resolve_right fun after' => strict ?_
      exact List.pairwise_iff_forall_sublist.mp (List.pairwise_insertionSort order values) after'

end MemoryCloud.StableSort
