import Mathlib.Data.List.Basic

set_option autoImplicit false

/-!
# Runs and what separates them

A path is a list of elements. Some are runs (they repeat without a bound) and
some close the run before them. A stretch between `enter` and `leave` is one of
several ways on, and another way may close nothing, so its closers count only
inside it. The edges of a piece sum up what its neighbours have to know; they
compose, and a composition that leaves two runs unseparated is refused.
-/

namespace MemoryCloud.Separators

inductive Token (E : Type)
  | element (element : E)
  | enter
  | leave
  deriving DecidableEq, Repr

structure Reading (E C : Type) where
  unbounded : E → Bool
  closes : E → Bool
  chars : E → List C

variable {E C : Type}

def overlap [DecidableEq C] (first second : List C) : Bool := first.any (· ∈ second)

theorem overlap_mono [DecidableEq C] {first second first' second' : List C}
    (shared : overlap first second = true) (left : first ⊆ first') (right : second ⊆ second') :
    overlap first' second' = true := by
  obtain ⟨char, listed, same⟩ := List.any_eq_true.mp shared
  exact List.any_eq_true.mpr ⟨char, left listed, by simpa using right (by simpa using same)⟩

section Paths

variable (reading : Reading E C)

def depth : Nat → List (Token E) → Nat
  | level, [] => level
  | level, .enter :: rest => depth (level + 1) rest
  | level, .leave :: rest => depth (level - 1) rest
  | level, .element _ :: rest => depth level rest

def closer? : Nat → List (Token E) → Option E
  | _, [] => none
  | level, .enter :: rest => closer? (level + 1) rest
  | level, .leave :: rest => closer? (level - 1) rest
  | level, .element element :: rest =>
    if level = 0 ∧ reading.closes element then some element else closer? level rest

def Closed (path : List (Token E)) : Prop :=
  ∃ element, .element element ∈ path ∧ reading.closes element = true

def Bounded (path : List (Token E)) : Prop :=
  ∀ element, .element element ∈ path → reading.unbounded element = false

end Paths

section Scan

variable {reading : Reading E C}

theorem depth_append (level : Nat) (front back : List (Token E)) :
    depth level (front ++ back) = depth (depth level front) back := by
  induction front generalizing level with
  | nil => rfl
  | cons token rest ih => cases token <;> exact ih _

theorem depth_mono {low high : Nat} (path : List (Token E)) (le : low ≤ high) :
    depth low path ≤ depth high path := by
  induction path generalizing low high with
  | nil => exact le
  | cons token rest ih =>
    cases token with
    | element => exact ih le
    | enter => exact ih (Nat.add_le_add_right le 1)
    | leave => exact ih (Nat.sub_le_sub_right le 1)

theorem depth_tail {before tail : List (Token E)} {run : E}
    (level : depth 0 (before ++ .element run :: tail) = 0) : depth 0 tail = 0 := by
  rw [depth_append, depth] at level
  have le : depth 0 tail ≤ depth (depth 0 before) tail := depth_mono tail (Nat.zero_le _)
  rw [level] at le
  exact Nat.le_zero.mp le

theorem closer?_append (level : Nat) (front back : List (Token E)) :
    closer? reading level (front ++ back) =
      (closer? reading level front).or (closer? reading (depth level front) back) := by
  induction front generalizing level with
  | nil => rfl
  | cons token rest ih =>
    cases token with
    | enter => exact ih _
    | leave => exact ih _
    | element element =>
      simp only [List.cons_append, closer?, depth]
      split
      next => rfl
      next => exact ih _

theorem closer?_front {front back : List (Token E)} {found : E}
    (closer : closer? reading 0 front = some found) :
    closer? reading 0 (front ++ back) = some found := by
  rw [closer?_append, closer]
  rfl

theorem closer?_leave (level : Nat) (tail : List (Token E)) :
    closer? reading level (tail ++ [.leave]) = closer? reading level tail := by
  rw [closer?_append]
  exact Option.or_none

theorem closed_of_closer? {level : Nat} {path : List (Token E)} {found : E}
    (closer : closer? reading level path = some found) : Closed reading path := by
  induction path generalizing level with
  | nil => cases closer
  | cons token rest ih =>
    have later : Closed reading rest → Closed reading (token :: rest) :=
      fun ⟨element, listed, closes⟩ => ⟨element, List.mem_cons_of_mem _ listed, closes⟩
    cases token with
    | enter => exact later (ih closer)
    | leave => exact later (ih closer)
    | element element =>
      simp only [closer?] at closer
      split at closer
      next here => exact ⟨element, List.mem_cons_self, here.2⟩
      next => exact later (ih closer)

theorem Closed.append_left {front : List (Token E)} (closed : Closed reading front)
    (back : List (Token E)) : Closed reading (front ++ back) := by
  obtain ⟨element, listed, closes⟩ := closed
  exact ⟨element, List.mem_append_left _ listed, closes⟩

theorem Closed.append_right {back : List (Token E)} (closed : Closed reading back)
    (front : List (Token E)) : Closed reading (front ++ back) := by
  obtain ⟨element, listed, closes⟩ := closed
  exact ⟨element, List.mem_append_right _ listed, closes⟩

theorem bounded_append {front back : List (Token E)} :
    Bounded reading (front ++ back) ↔ Bounded reading front ∧ Bounded reading back := by
  constructor
  next =>
    intro bounded
    exact ⟨fun element listed => bounded element (List.mem_append_left _ listed),
      fun element listed => bounded element (List.mem_append_right _ listed)⟩
  next =>
    intro bounded element listed
    rcases List.mem_append.mp listed with early | late
    next => exact bounded.1 element early
    next => exact bounded.2 element late

theorem not_bounded {before after : List (Token E)} {run : E}
    (unbounded : reading.unbounded run = true) :
    ¬ Bounded reading (before ++ .element run :: after) := by
  intro bounded
  have := bounded run (by simp)
  rw [unbounded] at this
  cases this

theorem split_append {front back before after : List (Token E)} {token : Token E}
    (same : front ++ back = before ++ token :: after) :
    (∃ rest, front = before ++ token :: rest ∧ after = rest ++ back) ∨
      ∃ lead, before = front ++ lead ∧ back = lead ++ token :: after := by
  rcases List.append_eq_append_iff.mp same with ⟨lead, early, late⟩ | ⟨rest, early, late⟩
  next => exact Or.inr ⟨lead, early, late⟩
  next =>
    cases rest with
    | nil =>
      refine Or.inr ⟨[], ?_, ?_⟩
      next => simpa using early.symm
      next => simpa using late.symm
    | cons head rest =>
      rw [List.cons_append, List.cons.injEq] at late
      obtain ⟨rfl, rfl⟩ := late
      exact Or.inl ⟨rest, early, rfl⟩

end Scan

structure Edges (C : Type) where
  starts : Bool
  ends : Bool
  mandatory : Bool
  ambiguous : Bool
  hasUnbounded : Bool
  firstSet : List C
  endSet : List C
  deriving DecidableEq, Repr

def Edges.none : Edges C := ⟨false, false, false, false, false, [], []⟩

section Compose

variable [DecidableEq C]

def Edges.absorb (first second : Edges C) : Option (Edges C) :=
  let ambiguous := first.ambiguous ||
    (second.mandatory && first.ends && overlap second.firstSet first.endSet)
  if first.ends && (second.starts || !second.mandatory && second.hasUnbounded) then Option.none
  else if second.hasUnbounded && ambiguous then Option.none
  else some
    { starts := first.starts || second.starts && !first.mandatory
      ends := second.ends || first.ends && !second.mandatory
      mandatory := first.mandatory || second.mandatory
      ambiguous := ambiguous || second.ambiguous
      hasUnbounded := first.hasUnbounded || second.hasUnbounded
      firstSet := if first.mandatory then first.firstSet else first.firstSet ++ second.firstSet
      endSet := if second.ends then second.endSet else first.endSet }

variable (reading : Reading E C)

-- The run is closed before the next one, and what closes it whatever way was taken shares nothing
-- with it.
def Separates (run : E) (between : List (Token E)) : Prop :=
  Closed reading between ∧ ∀ closer, closer? reading 0 between = some closer →
    overlap (reading.chars closer) (reading.chars run) = false

structure Covers (edges : Edges C) (path : List (Token E)) : Prop where
  pairs : ∀ before run between next after,
    path = before ++ .element run :: (between ++ .element next :: after) →
    reading.unbounded run = true → reading.unbounded next = true → Bounded reading between →
    Separates reading run between
  ends : ∀ before run tail, path = before ++ .element run :: tail →
    reading.unbounded run = true → Bounded reading tail → closer? reading 0 tail = none →
    edges.ends = true ∧ reading.chars run ⊆ edges.endSet
  ambiguous : ∀ before run tail closer, path = before ++ .element run :: tail →
    reading.unbounded run = true → Bounded reading tail → closer? reading 0 tail = some closer →
    overlap (reading.chars closer) (reading.chars run) = true → edges.ambiguous = true
  starts : ∀ lead run rest, path = lead ++ .element run :: rest →
    reading.unbounded run = true → Bounded reading lead → ¬ Closed reading lead →
    edges.starts = true
  first : ∀ closer, closer? reading 0 path = some closer → reading.chars closer ⊆ edges.firstSet
  mandatory : edges.mandatory = true → (closer? reading 0 path).isSome
  unbounded : ¬ Bounded reading path → edges.hasUnbounded = true
  opened : edges.ends = true → edges.hasUnbounded = true
  level : ∀ level, depth level path = level
  inside : ∀ level, closer? reading (level + 1) path = none

structure Exact (edges : Edges C) (path : List (Token E)) : Prop
    extends Covers reading edges path where
  exact : (closer? reading 0 path).isSome → edges.mandatory = true

variable {reading} {edges first second both : Edges C} {path front back : List (Token E)}

theorem Edges.absorb_some (taken : first.absorb second = some both) :
    (first.ends = true → second.starts = false ∧
      (second.hasUnbounded = true → second.mandatory = true)) ∧
    (second.hasUnbounded = true → first.ambiguous = false ∧
      (second.mandatory = true → first.ends = true →
        overlap second.firstSet first.endSet = false)) ∧
    both =
      { starts := first.starts || second.starts && !first.mandatory
        ends := second.ends || first.ends && !second.mandatory
        mandatory := first.mandatory || second.mandatory
        ambiguous := (first.ambiguous ||
          (second.mandatory && first.ends && overlap second.firstSet first.endSet)) ||
            second.ambiguous
        hasUnbounded := first.hasUnbounded || second.hasUnbounded
        firstSet := if first.mandatory then first.firstSet else first.firstSet ++ second.firstSet
        endSet := if second.ends then second.endSet else first.endSet } := by
  simp only [Edges.absorb] at taken
  split at taken
  next => cases taken
  next apart =>
    split at taken
    next => cases taken
    next clear =>
      cases taken
      refine ⟨fun ends => ?_, fun unbounded => ?_, rfl⟩
      next =>
        simp only [ends, Bool.true_and, Bool.or_eq_true, Bool.and_eq_true, Bool.not_eq_true',
          not_or, not_and, Bool.not_eq_true] at apart
        refine ⟨apart.1, fun unbounded => ?_⟩
        by_contra optional
        exact absurd unbounded (by simp [apart.2 (by simpa using optional)])
      next =>
        simp only [unbounded, Bool.true_and, Bool.or_eq_true, Bool.and_eq_true, not_or, not_and,
          Bool.not_eq_true] at clear
        exact ⟨clear.1, fun mandatory ends => clear.2 ⟨mandatory, ends⟩⟩

theorem Covers.closer?_tail (covers : Covers reading edges path) {before tail : List (Token E)}
    {run : E} (same : path = before ++ .element run :: tail) (more : List (Token E)) :
    closer? reading 0 (tail ++ more) =
      (closer? reading 0 tail).or (closer? reading 0 more) := by
  have level := covers.level 0
  rw [same] at level
  rw [closer?_append, depth_tail level]

theorem Covers.closed (covers : Covers reading edges path) (mandatory : edges.mandatory = true) :
    Closed reading path := by
  obtain ⟨found, closer⟩ := Option.isSome_iff_exists.mp (covers.mandatory mandatory)
  exact closed_of_closer? closer

-- A run of the first piece and the next one, in the second.
theorem Covers.across (one : Covers reading first front) (two : Covers reading second back)
    (taken : first.absorb second = some both) {before tail lead after : List (Token E)}
    {run next : E} (left : front = before ++ .element run :: tail)
    (right : back = lead ++ .element next :: after) (starts : reading.unbounded run = true)
    (follows : reading.unbounded next = true) (bounded : Bounded reading (tail ++ lead)) :
    Separates reading run (tail ++ lead) := by
  obtain ⟨apart, clear, _⟩ := Edges.absorb_some taken
  have unbounded : second.hasUnbounded = true :=
    two.unbounded (by rw [right]; exact not_bounded follows)
  obtain ⟨boundedTail, boundedLead⟩ := bounded_append.mp bounded
  cases closer : closer? reading 0 tail with
  | none =>
    obtain ⟨ends, within⟩ := one.ends before run tail left starts boundedTail closer
    refine ⟨?_, fun found closes => ?_⟩
    next =>
      by_contra never
      have started := two.starts lead next after right follows boundedLead
        fun closed => never (closed.append_right tail)
      rw [(apart ends).1] at started
      cases started
    next =>
      rw [one.closer?_tail left, closer, Option.none_or] at closes
      have inside : reading.chars found ⊆ second.firstSet :=
        two.first found (by rw [right]; exact closer?_front closes)
      by_contra shared
      rw [Bool.not_eq_false] at shared
      have wide := overlap_mono shared inside within
      rw [(clear unbounded).2 ((apart ends).2 unbounded) ends] at wide
      cases wide
  | some found =>
    refine ⟨(closed_of_closer? closer).append_left lead, fun other closes => ?_⟩
    rw [closer?_front closer] at closes
    cases closes
    by_contra shared
    rw [Bool.not_eq_false] at shared
    have ambiguous := one.ambiguous before run tail found left starts boundedTail closer shared
    rw [(clear unbounded).1] at ambiguous
    cases ambiguous

theorem Covers.optional (covers : Covers reading edges path)
    (unclosed : closer? reading 0 path = none) : edges.mandatory = false := by
  by_contra mandatory
  rw [Bool.not_eq_false] at mandatory
  exact absurd (covers.mandatory mandatory) (by simp [unclosed])

section Append

variable (one : Exact reading first front) (two : Exact reading second back)
  (taken : first.absorb second = some both)

include one two taken

theorem Exact.append_ends {before tail : List (Token E)} {run : E}
    (same : front ++ back = before ++ .element run :: tail) (starts : reading.unbounded run = true)
    (bounded : Bounded reading tail) (unclosed : closer? reading 0 tail = none) :
    both.ends = true ∧ reading.chars run ⊆ both.endSet := by
  obtain ⟨apart, _, rfl⟩ := Edges.absorb_some taken
  rcases split_append same with ⟨rest, left, rfl⟩ | ⟨lead, _, right⟩
  next =>
    rw [one.closer?_tail left, Option.or_eq_none_iff] at unclosed
    obtain ⟨ends, within⟩ := one.ends before run rest left starts (bounded_append.mp bounded).1
      unclosed.1
    have optional := two.optional unclosed.2
    -- The second piece would have been refused with a run of its own.
    have quiet : second.ends = false := by
      by_contra more
      rw [Bool.not_eq_false] at more
      exact absurd ((apart ends).2 (two.opened more)) (by simp [optional])
    simpa [ends, optional, quiet] using within
  next =>
    obtain ⟨ends, within⟩ := two.ends lead run tail right starts bounded unclosed
    simpa [ends] using within

theorem Exact.append_ambiguous {before tail : List (Token E)} {run closer : E}
    (same : front ++ back = before ++ .element run :: tail) (starts : reading.unbounded run = true)
    (bounded : Bounded reading tail) (closes : closer? reading 0 tail = some closer)
    (shared : overlap (reading.chars closer) (reading.chars run) = true) :
    both.ambiguous = true := by
  obtain ⟨_, _, rfl⟩ := Edges.absorb_some taken
  rcases split_append same with ⟨rest, left, rfl⟩ | ⟨lead, _, right⟩
  next =>
    have boundedRest := (bounded_append.mp bounded).1
    rw [one.closer?_tail left] at closes
    cases early : closer? reading 0 rest with
    | some found =>
      rw [early, Option.some_or] at closes
      cases closes
      simp [one.ambiguous before run rest closer left starts boundedRest early shared]
    | none =>
      rw [early, Option.none_or] at closes
      obtain ⟨ends, within⟩ := one.ends before run rest left starts boundedRest early
      have mandatory := two.exact (by simp [closes])
      simp [ends, mandatory, overlap_mono shared (two.first closer closes) within]
  next => simp [two.ambiguous lead run tail closer right starts bounded closes shared]

theorem Exact.append_starts {lead rest : List (Token E)} {run : E}
    (same : front ++ back = lead ++ .element run :: rest) (starts : reading.unbounded run = true)
    (bounded : Bounded reading lead) (never : ¬ Closed reading lead) : both.starts = true := by
  obtain ⟨_, _, rfl⟩ := Edges.absorb_some taken
  rcases split_append same with ⟨tail, left, _⟩ | ⟨more, rfl, right⟩
  next => simp [one.starts lead run tail left starts bounded never]
  next =>
    have optional : first.mandatory = false := by
      by_contra mandatory
      rw [Bool.not_eq_false] at mandatory
      exact never ((one.closed mandatory).append_left more)
    simp [optional, two.starts more run rest right starts (bounded_append.mp bounded).2
      fun closed => never (closed.append_right front)]

theorem Exact.append_first {closer : E}
    (closes : (closer? reading 0 front).or (closer? reading 0 back) = some closer) :
    reading.chars closer ⊆ both.firstSet := by
  obtain ⟨_, _, rfl⟩ := Edges.absorb_some taken
  cases early : closer? reading 0 front with
  | some found =>
    rw [early, Option.some_or] at closes
    cases closes
    simp [one.exact (by simp [early]), one.first closer early]
  | none =>
    rw [early, Option.none_or] at closes
    have optional := one.optional early
    intro char listed
    simp [optional, two.first closer closes listed]

theorem Exact.append_pairs {before between after : List (Token E)} {run next : E}
    (same : front ++ back = before ++ .element run :: (between ++ .element next :: after))
    (starts : reading.unbounded run = true) (follows : reading.unbounded next = true)
    (bounded : Bounded reading between) : Separates reading run between := by
  rcases split_append same with ⟨rest, left, more⟩ | ⟨lead, _, right⟩
  next =>
    rcases split_append more.symm with ⟨rest', inside, _⟩ | ⟨lead, rfl, right⟩
    next => exact one.pairs before run between next rest' (inside ▸ left) starts follows bounded
    next => exact one.across two.toCovers taken left right starts follows bounded
  next => exact two.pairs lead run between next after right starts follows bounded

theorem Exact.append : Exact reading both (front ++ back) := by
  have closers : closer? reading 0 (front ++ back) =
      (closer? reading 0 front).or (closer? reading 0 back) := by
    rw [closer?_append, one.level]
  have sum : both.mandatory = (first.mandatory || second.mandatory) ∧
      both.ends = (second.ends || first.ends && !second.mandatory) ∧
      both.hasUnbounded = (first.hasUnbounded || second.hasUnbounded) := by
    obtain ⟨_, _, rfl⟩ := Edges.absorb_some taken
    exact ⟨rfl, rfl, rfl⟩
  obtain ⟨mandatory, ends, unbounded⟩ := sum
  exact
    { pairs := fun _ _ _ _ _ => one.append_pairs two taken
      ends := fun _ _ _ => one.append_ends two taken
      ambiguous := fun _ _ _ _ => one.append_ambiguous two taken
      starts := fun _ _ _ => one.append_starts two taken
      first := fun _ closes => one.append_first two taken (closers ▸ closes)
      mandatory := by
        rw [mandatory, closers, Option.isSome_or]
        intro either
        rcases Bool.or_eq_true_iff.mp either with early | late
        next => simp [one.mandatory early]
        next => simp [two.mandatory late]
      unbounded := by
        intro free
        by_cases bounded : Bounded reading front
        next =>
          rw [unbounded, two.unbounded fun more => free (bounded_append.mpr ⟨bounded, more⟩),
            Bool.or_true]
        next => rw [unbounded, one.unbounded bounded, Bool.true_or]
      opened := by
        rw [ends, unbounded]
        intro either
        rcases Bool.or_eq_true_iff.mp either with late | early
        next => rw [two.opened late, Bool.or_true]
        next => rw [one.opened (Bool.and_eq_true_iff.mp early).1, Bool.true_or]
      level := by
        intro level
        rw [depth_append, one.level, two.level]
      inside := by
        intro level
        rw [closer?_append, one.level, one.inside, two.inside]
        rfl
      exact := by
        rw [mandatory, closers, Option.isSome_or]
        intro found
        rcases Bool.or_eq_true_iff.mp found with early | late
        next => rw [one.exact early, Bool.true_or]
        next => rw [two.exact late, Bool.or_true] }

end Append

section Pieces

theorem Exact.nil : Exact reading (Edges.none : Edges C) [] where
  pairs := by
    intro before run between next after same
    simp at same
  ends := by
    intro before run tail same
    simp at same
  ambiguous := by
    intro before run tail closer same
    simp at same
  starts := by
    intro lead run rest same
    simp at same
  first := by
    intro closer closes
    cases closes
  mandatory := by
    intro mandatory
    cases mandatory
  unbounded := by
    intro free
    exact absurd (fun _ listed => by cases listed) free
  opened := by
    intro ends
    cases ends
  level := fun _ => rfl
  inside := fun _ => rfl
  exact := by
    intro found
    cases found

theorem Exact.single {element : E} (closes : edges.mandatory = reading.closes element)
    (run : reading.unbounded element = true → edges.starts = true ∧ edges.ends = true ∧
      reading.chars element ⊆ edges.endSet)
    (counted : edges.hasUnbounded = reading.unbounded element)
    (opened : edges.ends = true → edges.hasUnbounded = true)
    (first : reading.chars element ⊆ edges.firstSet) :
    Exact reading edges [.element element] where
  pairs := by
    intro before run between next after same
    have length := congrArg List.length same
    simp at length
    omega
  ends := by
    intro before other tail same unbounded _ _
    cases before with
    | nil =>
      cases same
      exact (run unbounded).2
    | cons head rest => simp at same
  ambiguous := by
    intro before other tail closer same unbounded _ closed
    cases before with
    | nil =>
      cases same
      cases closed
    | cons head rest => simp at same
  starts := by
    intro lead other rest same unbounded _ _
    cases lead with
    | nil =>
      cases same
      exact (run unbounded).1
    | cons head rest => simp at same
  first := by
    intro closer found
    simp only [closer?, true_and] at found
    split at found
    next =>
      cases found
      exact first
    next => cases found
  mandatory := by
    rw [closes]
    intro closing
    simp [closer?, closing]
  unbounded := by
    intro free
    rw [counted]
    by_contra bounded
    rw [Bool.not_eq_true] at bounded
    refine free fun other listed => ?_
    cases List.mem_singleton.mp listed
    exact bounded
  opened := opened
  level := fun _ => rfl
  inside := fun level => by simp [closer?]
  exact := by
    intro found
    rw [closes]
    simp only [closer?, true_and] at found
    split at found
    next closing => exact closing
    next => cases found

-- The path as one of several ways on, not all of which close a run.
theorem bracket_split {before tail : List (Token E)} {run : E}
    (same : .enter :: (path ++ [.leave]) = before ++ .element run :: tail) :
    ∃ lead rest, before = .enter :: lead ∧ path = lead ++ .element run :: rest ∧
      tail = rest ++ [.leave] := by
  cases before with
  | nil => simp at same
  | cons head lead =>
    rw [List.cons_append, List.cons.injEq] at same
    obtain ⟨rfl, same⟩ := same
    rcases split_append same with ⟨rest, left, right⟩ | ⟨more, _, right⟩
    next => exact ⟨lead, rest, rfl, left, right⟩
    next =>
      have inside : (.element run : Token E) ∈ [Token.leave] := by
        rw [right]
        simp
      cases List.mem_singleton.mp inside

theorem Covers.bracket (covers : Covers reading edges path) (optional : edges.mandatory = false) :
    Exact reading edges (.enter :: (path ++ [.leave])) := by
  have hidden : closer? reading 0 (.enter :: (path ++ [.leave])) = none := by
    rw [closer?, closer?_leave, covers.inside]
  exact
    { pairs := by
        intro before run between next after same starts follows bounded
        obtain ⟨lead, rest, _, left, more⟩ := bracket_split same
        rcases split_append more.symm with ⟨rest', inside, _⟩ | ⟨other, _, right⟩
        next =>
          exact covers.pairs lead run between next rest' (inside ▸ left) starts follows bounded
        next =>
          have inside : (.element next : Token E) ∈ [Token.leave] := by
            rw [right]
            simp
          cases List.mem_singleton.mp inside
      ends := by
        intro before run tail same starts bounded unclosed
        obtain ⟨lead, rest, _, left, rfl⟩ := bracket_split same
        rw [closer?_leave] at unclosed
        exact covers.ends lead run rest left starts (bounded_append.mp bounded).1 unclosed
      ambiguous := by
        intro before run tail closer same starts bounded closes shared
        obtain ⟨lead, rest, _, left, rfl⟩ := bracket_split same
        rw [closer?_leave] at closes
        exact covers.ambiguous lead run rest closer left starts (bounded_append.mp bounded).1 closes
          shared
      starts := by
        intro before run rest same starts bounded never
        obtain ⟨lead, tail, rfl, left, _⟩ := bracket_split same
        rw [← List.singleton_append] at bounded never
        exact covers.starts lead run tail left starts (bounded_append.mp bounded).2
          fun closed => never (closed.append_right _)
      first := by
        intro closer closes
        rw [hidden] at closes
        cases closes
      mandatory := by
        rw [optional]
        intro impossible
        cases impossible
      unbounded := by
        intro free
        refine covers.unbounded fun bounded => free fun element listed => ?_
        have inside : .element element ∈ path := by simpa using listed
        exact bounded element inside
      opened := covers.opened
      level := by
        intro level
        rw [depth, depth_append, covers.level]
        rfl
      inside := by
        intro level
        rw [closer?, closer?_leave, covers.inside]
      exact := by
        rw [hidden]
        intro impossible
        cases impossible }

theorem Covers.exact (covers : Covers reading edges path) (mandatory : edges.mandatory = true) :
    Exact reading edges path :=
  { covers with exact := fun _ => mandatory }

theorem Covers.weaken {wide : Edges C} (covers : Covers reading edges path)
    (starts : edges.starts = true → wide.starts = true)
    (ends : edges.ends = true → wide.ends = true)
    (endSet : edges.ends = true → edges.endSet ⊆ wide.endSet)
    (mandatory : wide.mandatory = true → edges.mandatory = true)
    (firstSet : edges.firstSet ⊆ wide.firstSet)
    (ambiguous : edges.ambiguous = true → wide.ambiguous = true)
    (unbounded : edges.hasUnbounded = true → wide.hasUnbounded = true)
    (opened : wide.ends = true → wide.hasUnbounded = true) : Covers reading wide path where
  pairs := covers.pairs
  ends := by
    intro before run tail same unbounded bounded unclosed
    obtain ⟨closing, within⟩ := covers.ends before run tail same unbounded bounded unclosed
    exact ⟨ends closing, fun char listed => endSet closing (within listed)⟩
  ambiguous := fun before run tail closer same unbounded bounded closes shared =>
    ambiguous (covers.ambiguous before run tail closer same unbounded bounded closes shared)
  starts := fun lead run rest same unbounded bounded never =>
    starts (covers.starts lead run rest same unbounded bounded never)
  first := fun closer closes char listed => firstSet (covers.first closer closes listed)
  mandatory := fun needed => covers.mandatory (mandatory needed)
  unbounded := fun free => unbounded (covers.unbounded free)
  opened := opened
  level := covers.level
  inside := covers.inside

end Pieces

end Compose

end MemoryCloud.Separators
