import Mathlib.Data.List.Basic
import Mathlib.Order.MinMax
import Mathlib.Order.Nat

set_option autoImplicit false

/-!
# The edit distance of two lists

The least number of single edits that lead from one list to the other, and the recursion that
computes it, over the first elements and over the last ones.
-/

namespace MemoryCloud.EditDistance

variable {α : Type}

inductive Edit : List α → List α → Prop
  | insert (before after : List α) (new : α) : Edit (before ++ after) (before ++ new :: after)
  | delete (before after : List α) (old : α) : Edit (before ++ old :: after) (before ++ after)
  | replace (before after : List α) (old new : α) :
      Edit (before ++ old :: after) (before ++ new :: after)

inductive Edits : Nat → List α → List α → Prop
  | done (values : List α) : Edits 0 values values
  | step {count : Nat} {first second third : List α} (edit : Edit first second)
      (rest : Edits count second third) : Edits (count + 1) first third

-- The two lists written one under the other, with so many columns that differ.
inductive Aligned : Nat → List α → List α → Prop
  | nil : Aligned 0 [] []
  | keep {count : Nat} {source target : List α} (value : α) (rest : Aligned count source target) :
      Aligned count (value :: source) (value :: target)
  | replace {count : Nat} {source target : List α} (old new : α)
      (rest : Aligned count source target) : Aligned (count + 1) (old :: source) (new :: target)
  | delete {count : Nat} {source target : List α} (old : α) (rest : Aligned count source target) :
      Aligned (count + 1) (old :: source) target
  | insert {count : Nat} {source target : List α} (new : α) (rest : Aligned count source target) :
      Aligned (count + 1) source (new :: target)

section Alignments

variable {count : Nat} {source target : List α}

theorem Edit.cons (value : α) (edit : Edit source target) :
    Edit (value :: source) (value :: target) := by
  cases edit with
  | insert before after new => exact .insert (value :: before) after new
  | delete before after old => exact .delete (value :: before) after old
  | replace before after old new => exact .replace (value :: before) after old new

theorem Edits.cons (value : α) (edits : Edits count source target) :
    Edits count (value :: source) (value :: target) := by
  induction edits with
  | done values => exact .done _
  | step edit _ ih => exact .step (edit.cons value) ih

theorem Aligned.edits (aligned : Aligned count source target) : Edits count source target := by
  induction aligned with
  | nil => exact .done []
  | keep value _ ih => exact ih.cons value
  | replace old new _ ih => exact .step (.replace [] _ old new) (ih.cons new)
  | delete old _ ih => exact .step (.delete [] _ old) ih
  | @insert _ source _ new _ ih => exact .step (.insert [] source new) (ih.cons new)

theorem Aligned.append {count' : Nat} {source' target' : List α}
    (first : Aligned count source target) (second : Aligned count' source' target') :
    Aligned (count + count') (source ++ source') (target ++ target') := by
  induction first with
  | nil => simpa using second
  | keep value _ ih => exact .keep value ih
  | replace old new _ ih =>
    rw [Nat.add_right_comm]
    exact .replace old new ih
  | delete old _ ih =>
    rw [Nat.add_right_comm]
    exact .delete old ih
  | insert new _ ih =>
    rw [Nat.add_right_comm]
    exact .insert new ih

theorem Aligned.split {source' : List α} (aligned : Aligned count (source ++ source') target) :
    ∃ count₁ count₂ target₁ target₂, count = count₁ + count₂ ∧ target = target₁ ++ target₂ ∧
      Aligned count₁ source target₁ ∧ Aligned count₂ source' target₂ := by
  generalize whole : source ++ source' = joined at aligned
  induction aligned generalizing source with
  | nil =>
    obtain ⟨rfl, rfl⟩ := List.append_eq_nil_iff.mp whole
    exact ⟨0, 0, [], [], rfl, rfl, .nil, .nil⟩
  | @keep count _ target value rest ih =>
    cases source with
    | nil =>
      obtain rfl : source' = _ := whole
      exact ⟨0, count, [], _, (Nat.zero_add _).symm, rfl, .nil, .keep value rest⟩
    | cons first source =>
      obtain ⟨rfl, tail⟩ := List.cons.inj whole
      obtain ⟨count₁, count₂, target₁, target₂, sum, same, left, right⟩ := ih tail
      exact ⟨count₁, count₂, first :: target₁, target₂, sum, by rw [same]; rfl, .keep first left,
        right⟩
  | @replace count _ target old new rest ih =>
    cases source with
    | nil =>
      obtain rfl : source' = _ := whole
      exact ⟨0, count + 1, [], _, (Nat.zero_add _).symm, rfl, .nil, .replace old new rest⟩
    | cons first source =>
      obtain ⟨rfl, tail⟩ := List.cons.inj whole
      obtain ⟨count₁, count₂, target₁, target₂, sum, same, left, right⟩ := ih tail
      exact ⟨count₁ + 1, count₂, new :: target₁, target₂, by omega, by rw [same]; rfl,
        .replace first new left, right⟩
  | @delete count _ target old rest ih =>
    cases source with
    | nil =>
      obtain rfl : source' = _ := whole
      exact ⟨0, count + 1, [], _, (Nat.zero_add _).symm, rfl, .nil, .delete old rest⟩
    | cons first source =>
      obtain ⟨rfl, tail⟩ := List.cons.inj whole
      obtain ⟨count₁, count₂, target₁, target₂, sum, same, left, right⟩ := ih tail
      exact ⟨count₁ + 1, count₂, target₁, target₂, by omega, same, .delete first left, right⟩
  | @insert count _ target new rest ih =>
    obtain ⟨count₁, count₂, target₁, target₂, sum, same, left, right⟩ := ih whole
    exact ⟨count₁ + 1, count₂, new :: target₁, target₂, by omega, by rw [same]; rfl,
      .insert new left, right⟩

theorem Aligned.tail {old : α} (aligned : Aligned count (old :: source) target) :
    ∃ fewer ≤ count + 1, Aligned fewer source target := by
  generalize whole : old :: source = joined at aligned
  induction aligned with
  | nil => cases whole
  | keep _ rest =>
    cases whole
    exact ⟨_, le_rfl, .insert old rest⟩
  | replace old new rest =>
    cases whole
    exact ⟨_, Nat.le_succ _, .insert new rest⟩
  | delete old rest =>
    cases whole
    exact ⟨_, by omega, rest⟩
  | insert new _ ih =>
    obtain ⟨fewer, within, aligned⟩ := ih whole
    exact ⟨fewer + 1, Nat.succ_le_succ within, .insert new aligned⟩

theorem Aligned.swap (old new : α) (aligned : Aligned count (new :: source) target) :
    ∃ fewer ≤ count + 1, Aligned fewer (old :: source) target := by
  generalize whole : new :: source = joined at aligned
  induction aligned with
  | nil => cases whole
  | keep _ rest =>
    cases whole
    exact ⟨_, le_rfl, .replace old new rest⟩
  | replace _ value rest =>
    cases whole
    exact ⟨_, Nat.le_succ _, .replace old value rest⟩
  | delete _ rest =>
    cases whole
    exact ⟨_, Nat.le_succ _, .delete old rest⟩
  | insert value _ ih =>
    obtain ⟨fewer, within, aligned⟩ := ih whole
    exact ⟨fewer + 1, Nat.succ_le_succ within, .insert value aligned⟩

theorem Aligned.edited {middle : List α} (edit : Edit source middle)
    (aligned : Aligned count middle target) : ∃ fewer ≤ count + 1, Aligned fewer source target := by
  cases edit with
  | insert before after new =>
    obtain ⟨count₁, count₂, target₁, target₂, rfl, rfl, left, right⟩ := aligned.split
    obtain ⟨fewer, within, rest⟩ := right.tail
    exact ⟨count₁ + fewer, by omega, left.append rest⟩
  | delete before after old =>
    obtain ⟨count₁, count₂, target₁, target₂, rfl, rfl, left, right⟩ := aligned.split
    exact ⟨count₁ + (count₂ + 1), by omega, left.append (.delete old right)⟩
  | replace before after old new =>
    obtain ⟨count₁, count₂, target₁, target₂, rfl, rfl, left, right⟩ := aligned.split
    obtain ⟨fewer, within, rest⟩ := right.swap old new
    exact ⟨count₁ + fewer, by omega, left.append rest⟩

theorem aligned_self (values : List α) : Aligned 0 values values := by
  induction values with
  | nil => exact .nil
  | cons value rest ih => exact .keep value ih

theorem Edits.aligned (edits : Edits count source target) :
    ∃ fewer ≤ count, Aligned fewer source target := by
  induction edits with
  | done values => exact ⟨0, le_rfl, aligned_self values⟩
  | step edit _ ih =>
    obtain ⟨middle, within, aligned⟩ := ih
    obtain ⟨fewer, within', aligned'⟩ := aligned.edited edit
    exact ⟨fewer, by omega, aligned'⟩

theorem Aligned.length_le (aligned : Aligned count source target) :
    source.length ≤ target.length + count ∧ target.length ≤ source.length + count := by
  induction aligned with
  | nil => simp
  | keep _ _ ih | replace _ _ _ ih | delete _ _ ih | insert _ _ ih =>
    simp only [List.length_cons]
    omega

theorem Aligned.reverse (aligned : Aligned count source target) :
    Aligned count source.reverse target.reverse := by
  induction aligned with
  | nil => exact .nil
  | keep value _ ih =>
    rw [List.reverse_cons, List.reverse_cons]
    exact ih.append (aligned_self [value])
  | replace old new _ ih =>
    rw [List.reverse_cons, List.reverse_cons]
    exact ih.append (.replace old new .nil)
  | delete old _ ih =>
    rw [List.reverse_cons, ← List.append_nil (List.reverse _)]
    rw [List.append_assoc]
    simpa using ih.append (.delete old .nil)
  | insert new _ ih =>
    rw [List.reverse_cons]
    simpa using ih.append (.insert new .nil)

end Alignments

section Distance

theorem edits_exist (source target : List α) : ∃ count, Edits count source target := by
  induction source with
  | nil =>
    induction target with
    | nil => exact ⟨0, .done []⟩
    | cons new _ ih =>
      obtain ⟨count, edits⟩ := ih
      exact ⟨count + 1, .step (.insert [] [] new) (edits.cons new)⟩
  | cons old _ ih =>
    obtain ⟨count, edits⟩ := ih
    exact ⟨count + 1, .step (.delete [] _ old) edits⟩

open Classical in
noncomputable def levenshtein (source target : List α) : Nat := Nat.find (edits_exist source target)

variable {source target : List α} {limit : Nat}

theorem levenshtein_le_iff :
    levenshtein source target ≤ limit ↔ ∃ count ≤ limit, Aligned count source target := by
  classical
  rw [levenshtein, Nat.find_le_iff]
  constructor
  next =>
    rintro ⟨count, within, edits⟩
    obtain ⟨fewer, less, aligned⟩ := edits.aligned
    exact ⟨fewer, less.trans within, aligned⟩
  next =>
    rintro ⟨count, within, aligned⟩
    exact ⟨count, within, aligned.edits⟩

theorem aligned_levenshtein (source target : List α) :
    ∃ count ≤ levenshtein source target, Aligned count source target :=
  levenshtein_le_iff.mp le_rfl

theorem Aligned.levenshtein_le {count : Nat} (aligned : Aligned count source target) :
    levenshtein source target ≤ count :=
  levenshtein_le_iff.mpr ⟨count, le_rfl, aligned⟩

theorem levenshtein_nil (target : List α) : levenshtein [] target = target.length := by
  refine le_antisymm (Aligned.levenshtein_le ?_) ?_
  next =>
    induction target with
    | nil => exact .nil
    | cons new _ ih => exact .insert new ih
  next =>
    obtain ⟨count, within, aligned⟩ := aligned_levenshtein ([] : List α) target
    simpa using aligned.length_le.2.trans (Nat.add_le_add_left within _)

theorem levenshtein_comm_nil (source : List α) : levenshtein source [] = source.length := by
  refine le_antisymm (Aligned.levenshtein_le ?_) ?_
  next =>
    induction source with
    | nil => exact .nil
    | cons old _ ih => exact .delete old ih
  next =>
    obtain ⟨count, within, aligned⟩ := aligned_levenshtein source ([] : List α)
    simpa using aligned.length_le.1.trans (Nat.add_le_add_left within _)

theorem levenshtein_reverse (source target : List α) :
    levenshtein source.reverse target.reverse = levenshtein source target := by
  have half : ∀ source target : List α,
      levenshtein source.reverse target.reverse ≤ levenshtein source target := by
    intro source target
    obtain ⟨count, within, aligned⟩ := aligned_levenshtein source target
    exact aligned.reverse.levenshtein_le.trans within
  refine le_antisymm (half source target) ?_
  simpa using half source.reverse target.reverse

theorem levenshtein_cons [DecidableEq α] (old new : α) (source target : List α) :
    levenshtein (old :: source) (new :: target) =
      min (levenshtein source (new :: target) + 1)
        (min (levenshtein (old :: source) target + 1)
          (levenshtein source target + if old = new then 0 else 1)) := by
  refine le_antisymm (le_min ?_ (le_min ?_ ?_)) ?_
  next =>
    obtain ⟨count, within, aligned⟩ := aligned_levenshtein source (new :: target)
    exact (Aligned.delete old aligned).levenshtein_le.trans (Nat.succ_le_succ within)
  next =>
    obtain ⟨count, within, aligned⟩ := aligned_levenshtein (old :: source) target
    exact (Aligned.insert new aligned).levenshtein_le.trans (Nat.succ_le_succ within)
  next =>
    obtain ⟨count, within, aligned⟩ := aligned_levenshtein source target
    split
    next same =>
      subst same
      exact (Aligned.keep old aligned).levenshtein_le.trans within
    next => exact (Aligned.replace old new aligned).levenshtein_le.trans (Nat.succ_le_succ within)
  next =>
    obtain ⟨count, within, aligned⟩ := aligned_levenshtein (old :: source) (new :: target)
    refine le_trans ?_ within
    simp only [min_le_iff]
    cases aligned with
    | keep _ rest => exact .inr (.inr (by simpa using rest.levenshtein_le))
    | replace _ _ rest =>
      have less := rest.levenshtein_le
      refine .inr (.inr ?_)
      split <;> omega
    | delete _ rest => exact .inl (Nat.succ_le_succ rest.levenshtein_le)
    | insert _ rest => exact .inr (.inl (Nat.succ_le_succ rest.levenshtein_le))

theorem levenshtein_concat [DecidableEq α] (old new : α) (source target : List α) :
    levenshtein (source ++ [old]) (target ++ [new]) =
      min (levenshtein source (target ++ [new]) + 1)
        (min (levenshtein (source ++ [old]) target + 1)
          (levenshtein source target + if old = new then 0 else 1)) := by
  rw [← levenshtein_reverse (source ++ [old]), ← levenshtein_reverse source (target ++ [new]),
    ← levenshtein_reverse (source ++ [old]) target, ← levenshtein_reverse source target]
  simp only [List.reverse_append, List.reverse_singleton, List.singleton_append]
  exact levenshtein_cons old new source.reverse target.reverse

theorem length_le_levenshtein (source target : List α) :
    source.length ≤ target.length + levenshtein source target ∧
      target.length ≤ source.length + levenshtein source target := by
  obtain ⟨count, within, aligned⟩ := aligned_levenshtein source target
  have bound := aligned.length_le
  omega

theorem prefix_levenshtein_le (done rest target : List α) :
    ∃ index ≤ target.length,
      levenshtein done (target.take index) ≤ levenshtein (done ++ rest) target := by
  obtain ⟨count, within, aligned⟩ := aligned_levenshtein (done ++ rest) target
  obtain ⟨count₁, count₂, target₁, target₂, rfl, rfl, left, _⟩ := aligned.split
  refine ⟨target₁.length, by simp, ?_⟩
  rw [List.take_left]
  exact left.levenshtein_le.trans ((Nat.le_add_right _ _).trans within)

end Distance

end MemoryCloud.EditDistance
