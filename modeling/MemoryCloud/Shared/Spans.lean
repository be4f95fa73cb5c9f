import Mathlib.Data.List.Basic
import Mathlib.Order.Nat

set_option autoImplicit false

/-!
# Spans of a list

A span is a pair of offsets, the end exclusive. Spans that tile a range follow each other without
a gap, and any of them in ascending order are disjoint.
-/

namespace MemoryCloud.Spans

abbrev Span := Nat × Nat

def slice {A : Type} (text : List A) (span : Span) : List A := (text.take span.2).drop span.1

structure Ascending (spans : List Span) (bound : Nat) : Prop where
  apart : spans.Pairwise fun first second => first.2 ≤ second.1
  within : ∀ span ∈ spans, span.1 ≤ span.2 ∧ span.2 ≤ bound

def Tiles : Nat → List Span → Nat → Prop
  | start, [], stop => start = stop
  | start, span :: rest, stop => span.1 = start ∧ span.1 ≤ span.2 ∧ Tiles span.2 rest stop

variable {start middle stop bound : Nat} {spans first second : List Span}

theorem tiles_append :
    Tiles start (first ++ second) stop ↔ ∃ middle, Tiles start first middle ∧ Tiles middle second stop := by
  induction first generalizing start with
  | nil => simp [Tiles]
  | cons span rest ih =>
    simp only [List.cons_append, Tiles, ih]
    constructor
    next =>
      rintro ⟨starts, forward, middle, before, after⟩
      exact ⟨middle, ⟨starts, forward, before⟩, after⟩
    next =>
      rintro ⟨middle, ⟨starts, forward, before⟩, after⟩
      exact ⟨starts, forward, middle, before, after⟩

theorem Tiles.concat {span : Span} (tiles : Tiles start spans span.1) (forward : span.1 ≤ span.2) :
    Tiles start (spans ++ [span]) span.2 :=
  tiles_append.mpr ⟨span.1, tiles, rfl, forward, rfl⟩

theorem Tiles.extend {last : Span} (tiles : Tiles start (spans ++ [last]) middle)
    (forward : middle ≤ stop) : Tiles start (spans ++ [(last.1, stop)]) stop := by
  obtain ⟨before, tiled, starts, ordered, ends⟩ := tiles_append.mp tiles
  have reaches : last.1 ≤ stop := ordered.trans ((le_of_eq ends).trans forward)
  exact tiles_append.mpr ⟨before, tiled, starts, reaches, rfl⟩

theorem Tiles.le (tiles : Tiles start spans stop) : start ≤ stop := by
  induction spans generalizing start with
  | nil => exact le_of_eq tiles
  | cons span rest ih =>
    obtain ⟨starts, forward, tiled⟩ := tiles
    exact (le_of_eq starts.symm).trans (forward.trans (ih tiled))

theorem Tiles.within {span : Span} (tiles : Tiles start spans stop) (listed : span ∈ spans) :
    start ≤ span.1 ∧ span.1 ≤ span.2 ∧ span.2 ≤ stop := by
  induction spans generalizing start with
  | nil => cases listed
  | cons head rest ih =>
    obtain ⟨starts, forward, tiled⟩ := tiles
    rcases List.mem_cons.mp listed with rfl | later
    next => exact ⟨le_of_eq starts.symm, forward, tiled.le⟩
    next =>
      obtain ⟨after, rest⟩ := ih tiled later
      exact ⟨(le_of_eq starts.symm).trans (forward.trans after), rest⟩

theorem Tiles.apart (tiles : Tiles start spans stop) :
    spans.Pairwise fun first second => first.2 ≤ second.1 := by
  induction spans generalizing start with
  | nil => exact .nil
  | cons span rest ih =>
    obtain ⟨_, _, tiled⟩ := tiles
    exact .cons (fun later listed => (tiled.within listed).1) (ih tiled)

theorem Tiles.ascending (tiles : Tiles start spans stop) : Ascending spans stop :=
  ⟨tiles.apart, fun _ listed => (tiles.within listed).2⟩

-- The last of the spans ends where they stop.
theorem Tiles.last {last : Span} (tiles : Tiles start (spans ++ [last]) stop) :
    start ≤ last.1 ∧ last.1 ≤ last.2 ∧ last.2 = stop := by
  obtain ⟨middle, before, starts, forward, ends⟩ := tiles_append.mp tiles
  rw [starts]
  exact ⟨before.le, by rw [← starts]; exact forward, ends⟩

theorem Tiles.follow (tiles : Tiles start spans stop) {i : Nat} {span next : Span}
    (found : spans[i]? = some span) (after : spans[i + 1]? = some next) : span.2 = next.1 := by
  induction spans generalizing start i with
  | nil => cases found
  | cons head rest ih =>
    obtain ⟨_, _, tiled⟩ := tiles
    cases i with
    | succ i => exact ih tiled found after
    | zero =>
      cases found
      cases rest with
      | nil => cases after
      | cons second others =>
        cases after
        exact tiled.1.symm

theorem Ascending.concat {span : Span} (ascending : Ascending spans bound)
    (after : ∀ earlier ∈ spans, earlier.2 ≤ span.1) (within : span.1 ≤ span.2 ∧ span.2 ≤ bound) :
    Ascending (spans ++ [span]) bound where
  apart := by
    refine List.pairwise_append.mpr ⟨ascending.apart, List.pairwise_singleton _ _, ?_⟩
    intro earlier listed other same
    rw [List.mem_singleton.mp same]
    exact after earlier listed
  within := by
    intro other listed
    rcases List.mem_append.mp listed with old | new
    next => exact ascending.within other old
    next =>
      rw [List.mem_singleton.mp new]
      exact within

theorem Ascending.extend {last : Span} (ascending : Ascending (spans ++ [last]) bound)
    (forward : last.2 ≤ stop) (within : stop ≤ bound) :
    Ascending (spans ++ [(last.1, stop)]) bound := by
  obtain ⟨apart, _, after⟩ := List.pairwise_append.mp ascending.apart
  have before : Ascending spans bound :=
    ⟨apart, fun span listed => ascending.within span (List.mem_append_left _ listed)⟩
  have reaches := (ascending.within last (by simp)).1
  exact before.concat (fun earlier listed => after earlier listed last (by simp))
    ⟨reaches.trans forward, within⟩

theorem Ascending.filterMap {shrink : Span → Option Span} (ascending : Ascending spans bound)
    (inside : ∀ span ∈ spans, ∀ smaller, shrink span = some smaller →
      span.1 ≤ smaller.1 ∧ smaller.1 ≤ smaller.2 ∧ smaller.2 ≤ span.2) :
    Ascending (spans.filterMap shrink) bound where
  apart := by
    refine List.pairwise_filterMap.mpr (ascending.apart.imp_of_mem ?_)
    intro earlier later listed alsoListed before smaller shrunk other alsoShrunk
    have first := inside earlier listed smaller shrunk
    have second := inside later alsoListed other alsoShrunk
    exact first.2.2.trans (before.trans second.1)
  within := by
    intro smaller listed
    obtain ⟨span, stored, shrunk⟩ := List.mem_filterMap.mp listed
    obtain ⟨_, ordered, ends⟩ := inside span stored smaller shrunk
    exact ⟨ordered, ends.trans (ascending.within span stored).2⟩

section Slices

variable {A : Type} (text : List A)

theorem slice_append (before : start ≤ middle) (after : middle ≤ stop) :
    slice text (start, stop) = slice text (start, middle) ++ slice text (middle, stop) := by
  have split : text.take stop = text.take middle ++ (text.take stop).drop middle := by
    conv_lhs => rw [← List.take_append_drop middle (text.take stop)]
    rw [List.take_take, Nat.min_eq_left after]
  simp only [slice]
  conv_lhs => rw [split, List.drop_append]
  congr 1
  rw [List.drop_drop, List.length_take]
  rcases Nat.le_total start text.length with inside | beyond
  next => congr 1; omega
  next =>
    have past : text.length ≤ middle := beyond.trans before
    rw [List.drop_eq_nil_of_le (by rw [List.length_take]; omega),
      List.drop_eq_nil_of_le (by rw [List.length_take]; omega)]

theorem Tiles.concat_slices (tiles : Tiles start spans stop) :
    spans.flatMap (slice text) = slice text (start, stop) := by
  induction spans generalizing start with
  | nil =>
    cases tiles
    rw [List.flatMap_nil, slice, List.drop_eq_nil_of_le (List.length_take_le _ _)]
  | cons span rest ih =>
    obtain ⟨starts, forward, tiled⟩ := tiles
    rw [List.flatMap_cons, ih tiled, ← starts]
    exact (slice_append text forward tiled.le).symm

theorem slice_whole : slice text (0, text.length) = text := by
  rw [slice, List.take_length, List.drop_zero]

end Slices

def Covers (spans : List Span) (position : Nat) : Prop :=
  ∃ span ∈ spans, span.1 ≤ position ∧ position < span.2

theorem covers_append {position : Nat} :
    Covers (first ++ second) position ↔ Covers first position ∨ Covers second position := by
  simp only [Covers, List.mem_append, or_and_right, exists_or]

theorem covers_single {span : Span} {position : Nat} :
    Covers [span] position ↔ span.1 ≤ position ∧ position < span.2 := by
  simp [Covers]

end MemoryCloud.Spans
