import Mathlib.Data.List.Nodup
import Mathlib.Data.List.Dedup
import Mathlib.Tactic.Tauto

set_option autoImplicit false

/-!
# Sets by label

A label puts an element in one set or in none; two elements are together when
they are equal or share a label. Two sets become one when their elements take
one label, and an element leaves its set when it loses its label.
-/

namespace MemoryCloud.Labels

variable {α L : Type}

def Together (label : α → Option L) (a b : α) : Prop :=
  a = b ∨ ∃ set, label a = some set ∧ label b = some set

variable {label label' : α → Option L}

theorem together_equivalence (label : α → Option L) : Equivalence (Together label) where
  refl _ := .inl rfl
  symm := by
    rintro a b (same | ⟨set, first, second⟩)
    · exact .inl same.symm
    · exact .inr ⟨set, second, first⟩
  trans := by
    rintro a b c (rfl | ⟨set, first, second⟩) other
    · exact other
    · rcases other with rfl | ⟨set', second', third⟩
      · exact .inr ⟨set, first, second⟩
      · cases second.symm.trans second'
        exact .inr ⟨set, first, third⟩

theorem Together.symm {a b : α} (together : Together label a b) : Together label b a :=
  (together_equivalence label).symm together

theorem Together.trans {a b c : α} (first : Together label a b) (second : Together label b c) :
    Together label a c :=
  (together_equivalence label).trans first second

-- The sets of `mine` and `theirs` as one, under a label that no other element has.
structure Merged (label label' : α → Option L) (mine theirs : α) (set : L) : Prop where
  inside : ∀ a, Together label mine a ∨ Together label theirs a → label' a = some set
  outside : ∀ a, ¬ (Together label mine a ∨ Together label theirs a) → label' a = label a
  own : ∀ a, ¬ (Together label mine a ∨ Together label theirs a) → label a ≠ some set

theorem Merged.together {mine theirs : α} {set : L} (merged : Merged label label' mine theirs set)
    (a b : α) :
    Together label' a b ↔ Together label a b ∨
      (Together label mine a ∧ Together label theirs b) ∨
      (Together label theirs a ∧ Together label mine b) := by
  by_cases first : Together label mine a ∨ Together label theirs a
  · by_cases second : Together label mine b ∨ Together label theirs b
    · have joined : Together label' a b := .inr ⟨set, merged.inside a first, merged.inside b second⟩
      refine ⟨fun _ => ?_, fun _ => joined⟩
      rcases first with first | first <;> rcases second with second | second
      · exact .inl (first.symm.trans second)
      · exact .inr (.inl ⟨first, second⟩)
      · exact .inr (.inr ⟨first, second⟩)
      · exact .inl (first.symm.trans second)
    · constructor
      · rintro (rfl | ⟨set', left, right⟩)
        · exact absurd first second
        · rw [merged.inside a first] at left
          rw [merged.outside b second, ← left] at right
          exact absurd right (merged.own b second)
      · rintro (same | ⟨-, right⟩ | ⟨-, right⟩)
        · exact absurd (first.imp (·.trans same) (·.trans same)) second
        · exact absurd (.inr right) second
        · exact absurd (.inl right) second
  · have out := merged.outside a first
    constructor
    · rintro (rfl | ⟨set', left, right⟩)
      · exact .inl (.inl rfl)
      · rw [out] at left
        by_cases second : Together label mine b ∨ Together label theirs b
        · rw [merged.inside b second] at right
          exact absurd (left.trans right.symm) (merged.own a first)
        · exact .inl (.inr ⟨set', left, (merged.outside b second) ▸ right⟩)
    · rintro (same | ⟨left, -⟩ | ⟨left, -⟩)
      · have second : ¬ (Together label mine b ∨ Together label theirs b) := fun inside =>
          first (inside.imp (·.trans same.symm) (·.trans same.symm))
        rcases same with same | ⟨set', left, right⟩
        · exact .inl same
        · exact .inr ⟨set', out ▸ left, (merged.outside b second) ▸ right⟩
      · exact absurd (.inl left) first
      · exact absurd (.inr left) first

theorem Merged.changed_iff {mine theirs : α} {set : L}
    (merged : Merged label label' mine theirs set) (apart : ¬ Together label mine theirs) (a b : α) :
    ¬ (Together label' a b ↔ Together label a b) ↔
      (Together label mine a ∧ Together label theirs b) ∨
        (Together label theirs a ∧ Together label mine b) := by
  rw [merged.together a b]
  have crossed : (Together label mine a ∧ Together label theirs b) ∨
      (Together label theirs a ∧ Together label mine b) → ¬ Together label a b := by
    rintro (⟨first, second⟩ | ⟨first, second⟩) together
    · exact apart ((first.trans together).trans second.symm)
    · exact apart ((second.trans together.symm).trans first.symm)
  constructor
  · intro changed
    by_contra neither
    exact changed (or_iff_left neither)
  · intro cross same
    exact crossed cross (same.mp (.inr cross))

theorem Merged.set_iff {mine theirs : α} {set : L} (merged : Merged label label' mine theirs set)
    {a : α} : label' a = some set ↔ Together label mine a ∨ Together label theirs a := by
  constructor
  · intro labelled
    by_contra outside
    exact merged.own a outside (merged.outside a outside ▸ labelled)
  · exact merged.inside a

theorem Merged.other_iff {mine theirs : α} {set other : L}
    (merged : Merged label label' mine theirs set) {a b : α} (labelled : label' a = some other)
    (different : other ≠ set) : label' b = some other ↔ label b = some other := by
  have outside : ¬ (Together label mine a ∨ Together label theirs a) := fun inside =>
    different (Option.some.inj (labelled.symm.trans (merged.inside a inside)))
  rw [merged.outside a outside] at labelled
  constructor
  · intro second
    rw [← second, merged.outside b fun inside => ?_]
    exact different (Option.some.inj (second.symm.trans (merged.inside b inside)))
  · intro second
    have together : Together label b a := .inr ⟨other, second, labelled⟩
    rw [merged.outside b fun inside => ?_]
    · exact second
    · exact outside (inside.imp (·.trans together) (·.trans together))

-- `gone` out of its set. An element left alone may lose its label too.
structure Left (label label' : α → Option L) (gone : α) : Prop where
  dropped : label' gone = none
  kept : ∀ a, label' a = none ∨ label' a = label a
  linked : ∀ a b, a ≠ b → a ≠ gone → b ≠ gone → Together label a b → label' a = label a

theorem Left.together {gone : α} (left : Left label label' gone) (a b : α) :
    Together label' a b ↔ a = b ∨ (a ≠ gone ∧ b ≠ gone ∧ Together label a b) := by
  constructor
  · rintro (same | ⟨set, first, second⟩)
    · exact .inl same
    · have present : ∀ c, label' c = some set → c ≠ gone ∧ label c = some set := by
        intro c labelled
        refine ⟨fun same => ?_, ?_⟩
        · rw [same, left.dropped] at labelled
          cases labelled
        · rcases left.kept c with none | same
          · rw [none] at labelled
            cases labelled
          · exact same ▸ labelled
      exact .inr ⟨(present a first).1, (present b second).1,
        .inr ⟨set, (present a first).2, (present b second).2⟩⟩
  · rintro (same | ⟨first, second, together⟩)
    · exact .inl same
    · by_cases same : a = b
      · exact .inl same
      · rcases together with equal | ⟨set, one, two⟩
        · exact .inl equal
        · have shared : Together label a b := .inr ⟨set, one, two⟩
          exact .inr ⟨set, left.linked a b same first second shared ▸ one,
            left.linked b a (Ne.symm same) second first shared.symm ▸ two⟩

theorem Left.changed_iff {gone : α} (left : Left label label' gone) (a b : α) :
    ¬ (Together label' a b ↔ Together label a b) ↔
      a ≠ b ∧ Together label a b ∧ (a = gone ∨ b = gone) := by
  rw [left.together a b]
  have equal : a = b → Together label a b := .inl
  tauto

section Pairs

def bothWays (first second : List α) : List (α × α) :=
  first.flatMap fun a => second.flatMap fun b => [(a, b), (b, a)]

theorem mem_bothWays {first second : List α} {a b : α} :
    (a, b) ∈ bothWays first second ↔ (a ∈ first ∧ b ∈ second) ∨ (a ∈ second ∧ b ∈ first) := by
  simp only [bothWays, List.mem_flatMap, List.mem_cons, Prod.mk.injEq, List.not_mem_nil, or_false]
  constructor
  · rintro ⟨x, inFirst, y, inSecond, ⟨rfl, rfl⟩ | ⟨rfl, rfl⟩⟩
    · exact .inl ⟨inFirst, inSecond⟩
    · exact .inr ⟨inSecond, inFirst⟩
  · rintro (⟨inFirst, inSecond⟩ | ⟨inSecond, inFirst⟩)
    · exact ⟨a, inFirst, b, inSecond, .inl ⟨rfl, rfl⟩⟩
    · exact ⟨b, inFirst, a, inSecond, .inr ⟨rfl, rfl⟩⟩

theorem nodup_pairsOf {a : α} {second : List α} (distinct : second.Nodup) (apart : a ∉ second) :
    (second.flatMap fun b => [(a, b), (b, a)]).Nodup := by
  rw [List.nodup_flatMap]
  constructor
  · intro b inSecond
    have different : a ≠ b := fun same => apart (same ▸ inSecond)
    simp [different]
  · refine distinct.imp_of_mem ?_
    intro b c inB inC different pair inLeft inRight
    simp only [List.mem_cons, List.not_mem_nil, or_false] at inLeft inRight
    rcases inLeft with rfl | rfl
    · rcases inRight with same | same <;> simp only [Prod.mk.injEq] at same
      · exact different same.2
      · exact apart (same.1 ▸ inC)
    · rcases inRight with same | same <;> simp only [Prod.mk.injEq] at same
      · exact apart (same.1 ▸ inB)
      · exact different same.1

theorem nodup_bothWays {first second : List α} (distinct : first.Nodup) (distinct' : second.Nodup)
    (apart : ∀ a ∈ first, a ∉ second) : (bothWays first second).Nodup := by
  unfold bothWays
  rw [List.nodup_flatMap]
  constructor
  · intro a inFirst
    exact nodup_pairsOf distinct' (apart a inFirst)
  · refine distinct.imp_of_mem ?_
    intro a c inA inC different pair inLeft inRight
    simp only [List.mem_flatMap, List.mem_cons, List.not_mem_nil, or_false] at inLeft inRight
    obtain ⟨b, inB, rfl | rfl⟩ := inLeft <;> obtain ⟨d, inD, same | same⟩ := inRight <;>
      simp only [Prod.mk.injEq] at same
    · exact different same.1
    · exact apart a inA (same.1 ▸ inD)
    · exact apart c inC (same.1 ▸ inB)
    · exact different same.2

end Pairs

end MemoryCloud.Labels
