import MemoryCloud.Shared.EditDistance
import MemoryCloud.Tags.Model

set_option autoImplicit false

/-!
# The bounded edit distance is the edit distance

Each row of the table holds the distances of the text read so far to the prefixes of the other
one. The whole text is no nearer to the other than the least entry of any row.
-/

namespace MemoryCloud.Tags

open EditDistance

variable {a b done : Text} {ca : CodePoint} {limit : Nat}

noncomputable def distances (done b : Text) (count : Nat) : List Nat :=
  (List.range count).map fun j => levenshtein done (b.take j)

theorem getD_distances {count index : Nat} (within : index < count) :
    (distances done b count).getD index 0 = levenshtein done (b.take index) := by
  simp [distances, List.getD_eq_getElem?_getD, within]

theorem distances_succ (count : Nat) :
    distances done b (count + 1) = distances done b count ++ [levenshtein done (b.take count)] := by
  rw [distances, distances, List.range_succ, List.map_append, List.map_singleton]

-- The induction is on the part of `b` that the row has not reached.
theorem fill_distances (front back : Text) (whole : front ++ back = b) :
    (back.zipIdx (front.length + 1)).foldl (fun current (cb, j) =>
      current ++ [min ((distances done b (b.length + 1)).getD j 0 + 1)
        (min (current.getD (j - 1) 0 + 1)
          ((distances done b (b.length + 1)).getD (j - 1) 0 + if ca = cb then 0 else 1))])
      (distances (done ++ [ca]) b (front.length + 1)) =
    distances (done ++ [ca]) b (b.length + 1) := by
  induction back generalizing front with
  | nil =>
    obtain rfl : front = b := by simpa using whole
    rfl
  | cons cb rest ih =>
    have long : front.length + 1 ≤ b.length := by simp [← whole]
    have here : b.take front.length = front := by rw [← whole, List.take_left]
    have next : b.take (front.length + 1) = front ++ [cb] := by
      rw [← whole, List.append_cons, List.take_left' (by simp)]
    rw [List.zipIdx_cons, List.foldl_cons]
    dsimp only
    have entry : min ((distances done b (b.length + 1)).getD (front.length + 1) 0 + 1)
        (min ((distances (done ++ [ca]) b (front.length + 1)).getD (front.length + 1 - 1) 0 + 1)
          ((distances done b (b.length + 1)).getD (front.length + 1 - 1) 0 +
            if ca = cb then 0 else 1)) =
        levenshtein (done ++ [ca]) (b.take (front.length + 1)) := by
      rw [Nat.add_sub_cancel, getD_distances (by omega), getD_distances (by omega),
        getD_distances (by omega), here, next, levenshtein_concat]
    rw [entry, ← distances_succ]
    simpa using ih (front ++ [cb]) (by simpa using whole)

theorem currentRow_distances (done : Text) (ca : CodePoint) (b : Text) :
    currentRow ca (distances done b (b.length + 1)) b (done.length + 1) =
      distances (done ++ [ca]) b (b.length + 1) := by
  have first : [done.length + 1] = distances (done ++ [ca]) b 1 := by
    simp [distances, levenshtein_comm_nil]
  rw [currentRow, first]
  exact fill_distances [] b rfl

theorem min?_distances (done b : Text) :
    ∃ least, (distances done b (b.length + 1)).min? = some least ∧
      ∃ index ≤ b.length, least = levenshtein done (b.take index) ∧
        ∀ other ≤ b.length, least ≤ levenshtein done (b.take other) := by
  cases found : (distances done b (b.length + 1)).min? with
  | none =>
    rw [List.min?_eq_none_iff] at found
    simp [distances] at found
  | some least =>
    obtain ⟨listed, below⟩ := List.min?_eq_some_iff.mp found
    obtain ⟨index, within, rfl⟩ := List.mem_map.mp listed
    rw [List.mem_range] at within
    refine ⟨_, rfl, index, by omega, rfl, fun other inside => below _ ?_⟩
    exact List.mem_map.mpr ⟨other, List.mem_range.mpr (by omega), rfl⟩

theorem editRows_iff (rest done : Text) :
    editRows b limit rest (done.length + 1) (distances done b (b.length + 1)) = true ↔
      levenshtein (done ++ rest) b ≤ limit := by
  induction rest generalizing done with
  | nil =>
    rw [editRows, distances_succ, List.getLastD_concat, List.take_length, List.append_nil]
    exact decide_eq_true_iff
  | cons ca rest ih =>
    have next := ih (done ++ [ca])
    rw [List.append_assoc, List.singleton_append, List.length_append, List.length_singleton] at next
    rw [editRows, currentRow_distances]
    obtain ⟨least, found, index, _, _, below⟩ := min?_distances (done ++ [ca]) b
    simp only [found, Option.any_some, decide_eq_true_eq]
    split
    next beyond =>
      -- The exit: no prefix of `b` is within the limit of the text read so far.
      obtain ⟨other, inside, near⟩ := prefix_levenshtein_le (done ++ [ca]) rest b
      rw [List.append_assoc, List.singleton_append] at near
      have far := below other inside
      simp only [Bool.false_eq_true, false_iff, Nat.not_le]
      omega
    next => exact next

-- The bounded check accepts exactly the pairs whose edit distance is within the limit.
theorem edit_distance_within_iff (a b : Text) (limit : Nat) :
    editDistanceWithin a b limit = true ↔ levenshtein a b ≤ limit := by
  have first : List.range (b.length + 1) = distances [] b (b.length + 1) := by
    refine List.ext_getElem (by simp [distances]) fun index within _ => ?_
    have inside : index ≤ b.length := by simpa using Nat.le_of_lt_succ (by simpa using within)
    simp [distances, levenshtein_nil, inside]
  rw [editDistanceWithin]
  split
  next apart =>
    have near := length_le_levenshtein a b
    simp only [Bool.false_eq_true, false_iff, Nat.not_le]
    omega
  next =>
    rw [first]
    exact editRows_iff a []

end MemoryCloud.Tags
