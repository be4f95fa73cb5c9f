import MemoryCloud.Selector.Verbatim

set_option autoImplicit false

/-!
# Segments partition the content

The segments of a content are long enough once trimmed, and the spans of chosen segments show
every character of them that is not whitespace, and no such character of the others.
-/

namespace MemoryCloud.Selector

open Spans

section Strip

variable {first second : List Char}

theorem dropWhile_append_length (p : Char → Bool) (first second : List Char) :
    (first.dropWhile p).length ≤ ((first ++ second).dropWhile p).length := by
  rw [List.dropWhile_append]
  split
  next empty => simp [List.isEmpty_iff.mp empty]
  next => simp

theorem strip_length (text : List Char) :
    (strip text).length = ((text.dropWhile isspace).reverse.dropWhile isspace).length :=
  List.length_reverse

-- A text that goes on is not shorter once trimmed.
theorem strip_append_left (first second : List Char) :
    (strip first).length ≤ (strip (first ++ second)).length := by
  rw [strip_length, strip_length, List.dropWhile_append]
  split
  next blank => simp [List.isEmpty_iff.mp blank]
  next =>
    rw [List.reverse_append, List.dropWhile_append]
    split
    next => exact le_rfl
    next =>
      have kept := (List.dropWhile_sublist isspace (l := (first.dropWhile isspace).reverse)).length_le
      rw [List.length_append]
      omega

theorem strip_append_right (first second : List Char) :
    (strip second).length ≤ (strip (first ++ second)).length := by
  rw [strip_length, strip_length, List.dropWhile_append]
  split
  next => exact le_rfl
  next =>
    -- What is trimmed at the start of the second text stands inside the joined one.
    have tail : ((second.dropWhile isspace).reverse.dropWhile isspace).length ≤
        (second.reverse.dropWhile isspace).length := by
      conv_rhs => rw [← List.takeWhile_append_dropWhile (p := isspace) (l := second),
        List.reverse_append]
      exact dropWhile_append_length isspace _ _
    rw [List.reverse_append]
    exact tail.trans (dropWhile_append_length isspace _ _)

end Strip

section Lengths

variable {text : List Char}

theorem blankLen_extend {start middle stop : Nat} (before : start ≤ middle) (after : middle ≤ stop) :
    blankLen text (start, middle) ≤ blankLen text (start, stop) ∧
      blankLen text (middle, stop) ≤ blankLen text (start, stop) := by
  simp only [blankLen, slice_append text before after]
  exact ⟨strip_append_left _ _, strip_append_right _ _⟩

def LongEnough (text : List Char) (segments : List Span) : Prop :=
  segments.length ≠ 1 → ∀ segment ∈ segments, minSegmentChars ≤ blankLen text segment

theorem LongEnough.extend {init : List Span} {last : Span} {stop : Nat}
    (long : LongEnough text (init ++ [last])) (ordered : last.1 ≤ last.2) (further : last.2 ≤ stop) :
    LongEnough text (init ++ [(last.1, stop)]) := by
  intro several segment listed
  have all := long (by simpa using several)
  rcases List.mem_append.mp listed with old | new
  next => exact all segment (List.mem_append_left _ old)
  next =>
    rw [List.mem_singleton.mp new]
    exact (all last (by simp)).trans (blankLen_extend ordered further).1

theorem mergePiece_long {merged : List Span} {piece : Span} (tiles : Tiles 0 merged piece.1)
    (forward : piece.1 ≤ piece.2) (long : LongEnough text merged) :
    LongEnough text (mergePiece text merged piece) := by
  unfold mergePiece
  split
  next last found =>
    obtain ⟨init, split⟩ := List.getLast?_eq_some_iff.mp found
    subst split
    obtain ⟨_, ordered, ends⟩ := tiles.last
    split
    next =>
      rw [extendLast_eq rfl]
      exact long.extend ordered (ends.le.trans forward)
    next enough =>
      obtain ⟨pieceLong, lastLong⟩ := not_or.mp enough
      intro _ segment listed
      rcases List.mem_append.mp listed with old | new
      next =>
        by_cases several : (init ++ [last]).length = 1
        next =>
          -- The only segment so far is the last one.
          have alone : init = [] := List.eq_nil_of_length_eq_zero (by simpa using several)
          rw [alone, List.nil_append, List.mem_singleton] at old
          rw [old]
          exact Nat.le_of_not_lt lastLong
        next => exact long several segment old
      next =>
        rw [List.mem_singleton.mp new]
        exact Nat.le_of_not_lt pieceLong
  next none =>
    rw [List.getLast?_eq_none_iff.mp none]
    exact fun several => absurd rfl several

theorem mergePieces_long (pieces : List Span) {merged : List Span} {middle stop : Nat}
    (tiles : Tiles 0 merged middle) (rest : Tiles middle pieces stop)
    (long : LongEnough text merged) :
    LongEnough text (pieces.foldl (mergePiece text) merged) := by
  induction pieces generalizing merged middle with
  | nil => exact long
  | cons piece later ih =>
    obtain ⟨starts, forward, tiled⟩ := rest
    rw [← starts] at tiles
    exact ih (mergePiece_tiles tiles forward) tiled (mergePiece_long tiles forward long)

theorem capSegments_long {merged : List Span} {stop : Nat} (tiles : Tiles 0 merged stop)
    (long : LongEnough text merged) : LongEnough text (capSegments stop merged) := by
  unfold capSegments
  split
  next last found =>
    split
    next many =>
      have all := long (by unfold maxSegments at many; omega)
      have listed : last ∈ merged := List.mem_of_getElem? found
      have within := tiles.within listed
      intro _ segment kept
      rcases List.mem_append.mp kept with old | new
      next => exact all segment (List.mem_of_mem_take old)
      next =>
        rw [List.mem_singleton.mp new]
        exact (all last listed).trans (blankLen_extend within.2.1 within.2.2).1
    next => exact long
  next => exact long

theorem capSegments_length (stop : Nat) (merged : List Span) :
    (capSegments stop merged).length ≤ maxSegments := by
  unfold capSegments
  split
  next last found =>
    split
    next many =>
      rw [List.length_append, List.length_take, List.length_singleton]
      unfold maxSegments
      omega
    next fits => exact Nat.le_of_not_lt fits
  next none =>
    rw [List.getElem?_eq_none_iff] at none
    exact none.trans (Nat.sub_le _ _)

theorem segmentContent_long (text : List Char) : LongEnough text (segmentContent text) := by
  unfold segmentContent
  split
  next => exact fun _ _ listed => absurd listed (by simp)
  next =>
    have nothing : Tiles 0 [] 0 := rfl
    have tiled : Tiles 0 (pieces text.length 0 (cuts text)) text.length := pieces_tile (cuts text)
      (.cons (fun cut listed => (mem_cuts listed).1) (cuts_sorted text))
      (by
        intro cut listed
        rcases List.mem_cons.mp listed with rfl | later
        next => exact Nat.zero_le _
        next => exact (mem_cuts later).2.le)
    have none : LongEnough text [] := fun _ _ listed => absurd listed (by simp)
    exact capSegments_long (mergePieces_tile _ nothing tiled) (mergePieces_long _ nothing tiled none)

theorem segmentContent_length (text : List Char) : (segmentContent text).length ≤ maxSegments := by
  unfold segmentContent
  split
  next => exact Nat.zero_le _
  next => exact capSegments_length _ _

end Lengths

section Shown

def Visible (text : List Char) (position : Nat) : Prop :=
  ∃ character, text[position]? = some character ∧ isspace character = false

variable {text : List Char} {position : Nat}

theorem Visible.not_space (visible : Visible text position) : text[position]?.any isspace = false := by
  obtain ⟨character, found, shown⟩ := visible
  rw [found, Option.any_some, shown]

theorem trimStart_shows (visible : Visible text position) (start left : Nat)
    (after : start ≤ position) : trimStart text start left ≤ position := by
  induction left generalizing start with
  | zero => exact after
  | succ left ih =>
    unfold trimStart
    split
    next blank =>
      refine ih (start + 1) (Nat.lt_of_le_of_ne after ?_)
      rintro rfl
      rw [visible.not_space] at blank
      cases blank
    next => exact after

theorem trimEnd_shows (visible : Visible text position) (start stop : Nat)
    (before : position < stop) : position < trimEnd text start stop := by
  induction stop with
  | zero => exact before
  | succ stop ih =>
    unfold trimEnd
    split
    next blank =>
      refine ih (Nat.lt_of_le_of_ne (Nat.le_of_lt_succ before) ?_)
      rintro rfl
      rw [visible.not_space] at blank
      cases blank.2
    next => exact before

theorem trimSpan_shows (visible : Visible text position) {span : Span} (after : span.1 ≤ position)
    (before : position < span.2) :
    ∃ smaller, trimSpan text span = some smaller ∧ smaller.1 ≤ position ∧ position < smaller.2 := by
  have starts := trimStart_shows visible span.1 (span.2 - span.1) after
  have ends := trimEnd_shows visible (trimStart text span.1 (span.2 - span.1)) span.2 before
  unfold trimSpan
  dsimp only
  rw [if_pos (Nat.lt_of_le_of_lt starts ends)]
  exact ⟨_, rfl, starts, ends⟩

theorem covers_trimmed (visible : Visible text position) (spans : List Span) :
    Covers (spans.filterMap (trimSpan text)) position ↔ Covers spans position := by
  constructor
  next =>
    rintro ⟨smaller, listed, after, before⟩
    obtain ⟨span, stored, trimmed⟩ := List.mem_filterMap.mp listed
    obtain ⟨starts, _, ends⟩ := trimSpan_inside trimmed
    exact ⟨span, stored, starts.trans after, Nat.lt_of_lt_of_le before ends⟩
  next =>
    rintro ⟨span, listed, after, before⟩
    obtain ⟨smaller, trimmed, inside⟩ := trimSpan_shows visible after before
    exact ⟨smaller, List.mem_filterMap.mpr ⟨span, listed, trimmed⟩, inside⟩

def Chosen (segments : List Span) (chosen : List Nat) (position : Nat) : Prop :=
  ∃ i ∈ chosen, ∃ segment, segments[i]? = some segment ∧ segment.1 ≤ position ∧ position < segment.2

theorem chosen_concat {segments : List Span} {done : List Nat} {i : Nat} {segment : Span}
    (found : segments[i]? = some segment) :
    Chosen segments (done ++ [i]) position ↔
      Chosen segments done position ∨ segment.1 ≤ position ∧ position < segment.2 := by
  simp only [Chosen, List.mem_append, List.mem_singleton, or_and_right, exists_or, exists_eq_left,
    found, Option.some.injEq]
  simp

structure Joined (segments : List Span) (done : List Nat) (state : List Span × Option Nat) : Prop where
  covers : ∀ position, Covers state.1 position ↔ Chosen segments done position
  ends : ∀ previous last, state.2 = some previous → state.1.getLast? = some last →
    last.1 ≤ last.2 ∧ ∃ segment, segments[previous]? = some segment ∧ last.2 = segment.2

theorem addSpan_joined {segments : List Span} {stop i : Nat} {done : List Nat}
    {state next : List Span × Option Nat} (tiles : Tiles 0 segments stop)
    (joined : Joined segments done state) (added : addSpan segments state i = some next) :
    Joined segments (done ++ [i]) next := by
  obtain ⟨segment, found, result⟩ := Option.map_eq_some_iff.mp added
  have forward := (tiles.within (List.mem_of_getElem? found)).2.1
  have appended : Joined segments (done ++ [i]) (state.1 ++ [segment], some i) := by
    constructor
    · intro position
      rw [covers_append, covers_single, joined.covers, chosen_concat found]
    · intro previous last now ending
      cases now
      rw [List.getLast?_concat] at ending
      cases ending
      exact ⟨forward, segment, found, rfl⟩
  split at result
  next last previous lastFound now =>
    split at result
    next follows =>
      -- The segment starts where the last span ends.
      obtain ⟨ordered, before, stored, ends⟩ := joined.ends previous last now lastFound
      rw [follows] at found
      have meets : last.2 = segment.1 := ends.trans (tiles.follow stored found)
      obtain ⟨init, split⟩ := List.getLast?_eq_some_iff.mp lastFound
      rw [← follows] at found
      rw [extendLast_eq split] at result
      subst result
      constructor
      · intro position
        have old := joined.covers position
        rw [split, covers_append, covers_single] at old
        rw [covers_append, covers_single, chosen_concat found, ← old]
        simp only
        constructor
        next =>
          rintro (earlier | inside)
          next => exact .inl (.inl earlier)
          next =>
            by_cases part : position < last.2
            next => exact .inl (.inr ⟨inside.1, part⟩)
            next => exact .inr ⟨by omega, inside.2⟩
        next =>
          rintro ((earlier | inside) | inside)
          next => exact .inl earlier
          next => exact .inr ⟨inside.1, by omega⟩
          next => exact .inr ⟨by omega, inside.2⟩
      · intro previous final now ending
        cases now
        rw [List.getLast?_concat] at ending
        cases ending
        exact ⟨by simp only; omega, segment, found, rfl⟩
    next =>
      subst result
      exact appended
  next =>
    subst result
    exact appended

theorem addSpans_joined {segments : List Span} {stop : Nat} (tiles : Tiles 0 segments stop)
    (chosen : List Nat) {done : List Nat} {state final : List Span × Option Nat}
    (joined : Joined segments done state)
    (added : chosen.foldlM (addSpan segments) state = some final) :
    Joined segments (done ++ chosen) final := by
  induction chosen generalizing done state with
  | nil =>
    cases added
    rwa [List.append_nil]
  | cons i rest ih =>
    rw [List.foldlM_cons] at added
    obtain ⟨next, taken, others⟩ := Option.bind_eq_some_iff.mp added
    have later := ih (addSpan_joined tiles joined taken) others
    rwa [List.append_assoc] at later

-- Of the characters that are not whitespace, the spans show those of the chosen segments.
theorem spansFor_shows {segments spans : List Span} {stop : Nat} {chosen : List Nat}
    (tiles : Tiles 0 segments stop) (found : spansFor text segments chosen = some spans)
    (visible : Visible text position) :
    Covers spans position ↔ Chosen segments chosen position := by
  obtain ⟨final, added, rfl⟩ := Option.map_eq_some_iff.mp found
  have nothing : Joined segments [] ([], none) :=
    ⟨fun position => by simp [Covers, Chosen], fun _ _ now => by cases now⟩
  have joined := addSpans_joined tiles (sortedSet chosen) nothing added
  rw [covers_trimmed visible, joined.covers, List.nil_append]
  simp only [Chosen, mem_sortedSet]

end Shown

-- The segments of a content partition it, and the spans of any of them show its characters without
-- those of the rest.
theorem segments_partition_content (text : List Char) :
    Tiles 0 (segmentContent text) text.length ∧
      (segmentContent text).flatMap (slice text) = text ∧
      (segmentContent text).length ≤ maxSegments ∧
      ((segmentContent text).length ≠ 1 →
        ∀ segment ∈ segmentContent text, minSegmentChars ≤ (strip (slice text segment)).length) ∧
      ∀ chosen : List Nat, (∀ i ∈ chosen, i < (segmentContent text).length) →
        ∃ spans, spansFor text (segmentContent text) chosen = some spans ∧
          (∀ span ∈ spans, span.1 < span.2 ∧ span.2 ≤ text.length) ∧
          (spans.Pairwise fun first second => first.2 ≤ second.1) ∧
          ∀ position, Visible text position →
            (Covers spans position ↔ Chosen (segmentContent text) chosen position) := by
  have tiles := segmentContent_tiles text
  refine ⟨tiles, ?_, segmentContent_length text, segmentContent_long text, ?_⟩
  · rw [tiles.concat_slices, slice_whole]
  · intro chosen known
    obtain ⟨spans, found, ascending, filled⟩ := spansFor_spec tiles.ascending known
    refine ⟨spans, found, ?_, ascending.apart, fun _ visible => spansFor_shows tiles found visible⟩
    exact fun span listed => ⟨filled span listed, (ascending.within span listed).2⟩

end MemoryCloud.Selector
