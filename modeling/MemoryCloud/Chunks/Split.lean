import Mathlib.Data.List.Range
import MemoryCloud.Shared.Spans

set_option autoImplicit false

/-!
# Cutting content into chunks

`utils/content_chunks.py`: the loop that cuts a content into overlapping chunks of one size,
and the count of them that the migration's verify reads off a length. Only lengths matter, so the
characters are of any type.
-/

namespace MemoryCloud.Chunks

open Spans

def contentChunkChars : Nat := 1200
def contentChunkOverlapChars : Nat := 200
def contentChunkMinContentChars : Nat := 1500
def contentChunkMaxPerMemory : Nat := 16

def chunkStep : Nat := contentChunkChars - contentChunkOverlapChars

variable {A : Type}

-- The loop from `start`, with the number of chunks that it may still add.
def cutChunks (content : List A) : Nat → Nat → List (List A)
  | 0, _ => []
  | left + 1, start =>
    if start < content.length then
      slice content (start, start + contentChunkChars) ::
        if start + contentChunkChars ≥ content.length then []
        else cutChunks content left (start + chunkStep)
    else []

def splitContent : Option (List A) → List (List A)
  | none => []
  | some content =>
    if content.isEmpty ∨ content.length < contentChunkMinContentChars then []
    else cutChunks content contentChunkMaxPerMemory 0

-- `-(-beyond_first // step)` rounds up.
def expectedChunkCount (contentLength : Int) : Int :=
  if contentLength < contentChunkMinContentChars then 0
  else
    let beyondFirst := contentLength - contentChunkChars
    min contentChunkMaxPerMemory (1 + -(-beyondFirst / chunkStep))

def chunkSpan (length k : Nat) : Span :=
  (k * chunkStep, min (k * chunkStep + contentChunkChars) length)

def chunksNeeded (length : Nat) : Nat := 1 + (length - contentChunkChars + (chunkStep - 1)) / chunkStep

def chunkCount (length : Nat) : Nat :=
  if length < contentChunkMinContentChars then 0
  else min contentChunkMaxPerMemory (chunksNeeded length)

def chunkSpans (length : Nat) : List Span := (List.range (chunkCount length)).map (chunkSpan length)

section Loop

theorem slice_clip (content : List A) (start stop : Nat) :
    slice content (start, stop) = slice content (start, min stop content.length) := by
  simp only [slice]
  congr 1
  rcases Nat.le_total stop content.length with inside | beyond
  next => rw [Nat.min_eq_left inside]
  next => rw [Nat.min_eq_right beyond, List.take_of_length_le beyond, List.take_length]

theorem cutChunks_eq (content : List A) (left k : Nat) (reached : k < chunksNeeded content.length)
    (filled : 0 < content.length) :
    cutChunks content left (k * chunkStep) =
      (List.range' k (min left (chunksNeeded content.length - k))).map
        fun k => slice content (chunkSpan content.length k) := by
  induction left generalizing k with
  | zero => simp [cutChunks]
  | succ left ih =>
    have inside : k * chunkStep < content.length := by
      simp only [chunksNeeded, chunkStep, contentChunkChars, contentChunkOverlapChars] at reached ⊢
      omega
    have last : k * chunkStep + contentChunkChars ≥ content.length ↔
        chunksNeeded content.length - k = 1 := by
      simp only [chunksNeeded, chunkStep, contentChunkChars, contentChunkOverlapChars] at reached ⊢
      omega
    have here : min (left + 1) (chunksNeeded content.length - k) =
        min left (chunksNeeded content.length - (k + 1)) + 1 := by
      omega
    rw [cutChunks, if_pos inside, here, List.range'_succ, List.map_cons, slice_clip, chunkSpan]
    congr 1
    split
    next ends =>
      rw [last] at ends
      have none : chunksNeeded content.length - (k + 1) = 0 := by omega
      simp [none]
    next more =>
      rw [last] at more
      rw [show k * chunkStep + chunkStep = (k + 1) * chunkStep from (Nat.succ_mul k _).symm]
      exact ih (k + 1) (by omega)

theorem chunkCount_short {length : Nat} (short : length < contentChunkMinContentChars) :
    chunkCount length = 0 := if_pos short

theorem chunkCount_long {length : Nat} (long : contentChunkMinContentChars ≤ length) :
    chunkCount length = min contentChunkMaxPerMemory (chunksNeeded length) :=
  if_neg (Nat.not_lt.mpr long)

theorem splitContent_eq (content : List A) :
    splitContent (some content) = (chunkSpans content.length).map (slice content) := by
  rw [splitContent, chunkSpans]
  rcases Nat.lt_or_ge content.length contentChunkMinContentChars with short | long
  next => rw [if_pos (.inr short), chunkCount_short short, List.range_zero, List.map_nil, List.map_nil]
  next =>
    have filled : 0 < content.length := Nat.lt_of_lt_of_le (by decide) long
    have cut : ¬ (content.isEmpty = true ∨ content.length < contentChunkMinContentChars) := by
      rw [List.isEmpty_iff_length_eq_zero]
      omega
    have start := cutChunks_eq content contentChunkMaxPerMemory 0
      (Nat.lt_of_lt_of_le Nat.zero_lt_one (Nat.le_add_right 1 _)) filled
    rw [Nat.zero_mul, Nat.sub_zero] at start
    rw [if_neg cut, start, chunkCount_long long, List.map_map, List.range_eq_range']
    rfl

theorem expectedChunkCount_eq (length : Nat) :
    expectedChunkCount length = chunkCount length := by
  unfold expectedChunkCount
  rcases Nat.lt_or_ge length contentChunkMinContentChars with short | long
  next => rw [if_pos (Int.ofNat_lt.mpr short), chunkCount_short short, Int.natCast_zero]
  next =>
    rw [if_neg (Int.not_lt.mpr (Int.ofNat_le.mpr long)), chunkCount_long long]
    simp only [chunksNeeded, chunkStep, contentChunkChars, contentChunkOverlapChars,
      contentChunkMinContentChars, contentChunkMaxPerMemory] at long ⊢
    omega

end Loop

section Cover

variable {length k : Nat}

theorem lt_chunkCount_iff : k < chunkCount length ↔
    contentChunkMinContentChars ≤ length ∧ k < contentChunkMaxPerMemory ∧
      k * chunkStep + contentChunkOverlapChars < length := by
  rcases Nat.lt_or_ge length contentChunkMinContentChars with short | long
  next =>
    rw [chunkCount_short short]
    omega
  next =>
    rw [chunkCount_long long]
    simp only [chunksNeeded, chunkStep, contentChunkChars, contentChunkOverlapChars,
      contentChunkMinContentChars, contentChunkMaxPerMemory] at long ⊢
    omega

theorem chunkSpans_at {i : Nat} {span : Span} (found : (chunkSpans length)[i]? = some span) :
    i < chunkCount length ∧ span = chunkSpan length i := by
  rw [chunkSpans, List.getElem?_map, Option.map_eq_some_iff] at found
  obtain ⟨j, counted, rfl⟩ := found
  obtain ⟨inside, rfl⟩ := List.getElem?_eq_some_iff.mp counted
  rw [List.length_range] at inside
  exact ⟨inside, by rw [List.getElem_range]⟩

theorem mem_chunkSpans {span : Span} :
    span ∈ chunkSpans length ↔ ∃ k < chunkCount length, chunkSpan length k = span := by
  simp [chunkSpans]

theorem chunkSpan_bounds (counted : k < chunkCount length) :
    (chunkSpan length k).1 < (chunkSpan length k).2 ∧ (chunkSpan length k).2 ≤ length := by
  obtain ⟨_, _, starts⟩ := lt_chunkCount_iff.mp counted
  simp only [chunkSpan, chunkStep, contentChunkChars, contentChunkOverlapChars] at starts ⊢
  omega

theorem chunkSpan_next (counted : k + 1 < chunkCount length) :
    (chunkSpan length (k + 1)).1 + contentChunkOverlapChars = (chunkSpan length k).2 ∧
      (chunkSpan length k).2 < (chunkSpan length (k + 1)).2 := by
  obtain ⟨_, _, starts⟩ := lt_chunkCount_iff.mp counted
  simp only [chunkSpan, chunkStep, contentChunkChars, contentChunkOverlapChars] at starts ⊢
  omega

def cappedSpan : Nat := (contentChunkMaxPerMemory - 1) * chunkStep + contentChunkChars

theorem chunkSpans_cover (long : contentChunkMinContentChars ≤ length) {position : Nat}
    (inside : position < min length cappedSpan) :
    ∃ span ∈ chunkSpans length, span.1 ≤ position ∧ position < span.2 := by
  -- The chunk whose step the position falls in, unless that one is past the last.
  let k := min (position / chunkStep) (chunkCount length - 1)
  have counted := chunkCount_long long
  have last : k < chunkCount length ∧ (chunkSpan length k).1 ≤ position ∧
      position < (chunkSpan length k).2 := by
    simp only [k, counted, cappedSpan, chunkSpan, chunksNeeded, chunkStep, contentChunkChars,
      contentChunkOverlapChars, contentChunkMinContentChars, contentChunkMaxPerMemory]
      at long inside ⊢
    omega
  exact ⟨_, mem_chunkSpans.mpr ⟨k, last.1, rfl⟩, last.2⟩

end Cover

-- The count read off the length is the number of chunks cut, and the chunks overlap as they should
-- and reach as far as they may.
theorem chunk_count_and_cut_agree (content : List A) :
    ((splitContent (some content)).length : Int) = expectedChunkCount content.length ∧
      ∃ spans : List Span, splitContent (some content) = spans.map (slice content) ∧
        (∀ span ∈ spans, span.1 < span.2 ∧ span.2 ≤ content.length) ∧
        (∀ first, spans[0]? = some first → first.1 = 0) ∧
        (∀ i span next, spans[i]? = some span → spans[i + 1]? = some next →
          next.1 + contentChunkOverlapChars = span.2 ∧ span.2 < next.2) ∧
        (spans ≠ [] → ∀ position < min content.length cappedSpan,
          ∃ span ∈ spans, span.1 ≤ position ∧ position < span.2) := by
  constructor
  · rw [splitContent_eq, List.length_map, expectedChunkCount_eq, chunkSpans, List.length_map,
      List.length_range]
  · refine ⟨chunkSpans content.length, splitContent_eq content, ?_, ?_, ?_, ?_⟩
    · intro span listed
      obtain ⟨k, counted, rfl⟩ := mem_chunkSpans.mp listed
      exact chunkSpan_bounds counted
    · intro first found
      rw [(chunkSpans_at found).2, chunkSpan, Nat.zero_mul]
    · intro i span next found after
      obtain ⟨counted, rfl⟩ := chunkSpans_at after
      rw [(chunkSpans_at found).2]
      exact chunkSpan_next counted
    · intro filled position inside
      refine chunkSpans_cover (Nat.le_of_not_lt fun short => filled ?_) inside
      rw [chunkSpans, chunkCount_short short, List.range_zero, List.map_nil]

end MemoryCloud.Chunks
