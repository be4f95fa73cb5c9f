import Mathlib.Data.List.Sort
import Mathlib.Data.List.Perm.Subperm

set_option autoImplicit false

/-!
# Ranks of rows with pairwise distinct keys

The rank of a row can be counted (the rows with a smaller key) or read off its
place in the sorted list. With distinct keys both give the same number.
-/

namespace MemoryCloud.Ranking

section Keys

variable {α κ : Type} [BEq κ] [LawfulBEq κ]

theorem find?_eq_some_iff {key : α → κ} {rows : List α} (distinct : (rows.map key).Nodup)
    {id : κ} {row : α} :
    rows.find? (fun other => key other == id) = some row ↔ row ∈ rows ∧ key row = id := by
  induction rows with
  | nil => simp
  | cons head rest ih =>
    obtain ⟨apart, distinctRest⟩ := List.nodup_cons.mp distinct
    rw [List.find?_cons]
    cases same : key head == id with
    | true =>
      have sameKey : key head = id := eq_of_beq same
      constructor
      next =>
        rintro ⟨rfl⟩
        exact ⟨List.mem_cons_self, sameKey⟩
      next =>
        rintro ⟨present, keyed⟩
        rcases List.mem_cons.mp present with rfl | later
        next => rfl
        next => exact absurd (List.mem_map.mpr ⟨row, later, keyed.trans sameKey.symm⟩) apart
    | false =>
      have other : key head ≠ id := by simpa using same
      rw [ih distinctRest]
      constructor
      next => exact fun found => ⟨List.mem_cons_of_mem _ found.1, found.2⟩
      next =>
        rintro ⟨present, keyed⟩
        rcases List.mem_cons.mp present with rfl | later
        next => exact absurd keyed other
        next => exact ⟨later, keyed⟩

end Keys

section Ranks

variable {α κ : Type} [LinearOrder κ]

def ranked (key : α → κ) (rows : List α) : List α :=
  rows.insertionSort (fun first second => key first ≤ key second)

def earlier (key : α → κ) (rows : List α) (row : α) : Nat :=
  rows.countP (fun other => decide (key other < key row))

variable {key : α → κ}

theorem ranked_perm (rows : List α) : (ranked key rows).Perm rows :=
  List.perm_insertionSort _ rows

@[simp] theorem mem_ranked {rows : List α} {row : α} : row ∈ ranked key rows ↔ row ∈ rows :=
  (ranked_perm rows).mem_iff

@[simp] theorem length_ranked (rows : List α) : (ranked key rows).length = rows.length :=
  (ranked_perm rows).length_eq

theorem earlier_ranked (rows : List α) (row : α) :
    earlier key (ranked key rows) row = earlier key rows row :=
  (ranked_perm rows).countP_eq _

theorem ranked_pairwise {rows : List α} (distinct : (rows.map key).Nodup) :
    (ranked key rows).Pairwise (fun first second => key first < key second) := by
  have sorted : (ranked key rows).Pairwise (fun first second => key first ≤ key second) :=
    List.pairwise_insertionSort (fun first second => key first ≤ key second) rows
  have apart : (ranked key rows).Pairwise (fun first second => key first ≠ key second) := by
    have nodup : ((ranked key rows).map key).Nodup :=
      ((ranked_perm rows).map key).nodup_iff.mpr distinct
    exact List.pairwise_map.mp nodup
  exact (sorted.and apart).imp (fun both => lt_of_le_of_ne both.1 both.2)

theorem mem_zipIdx_of_pairwise {rows : List α}
    (sorted : rows.Pairwise (fun first second => key first < key second)) (start : Nat) {row : α}
    {rank : Nat} :
    (row, rank) ∈ rows.zipIdx start ↔ row ∈ rows ∧ rank = start + earlier key rows row := by
  induction rows generalizing start with
  | nil => simp
  | cons head rest ih =>
    obtain ⟨above, sortedRest⟩ := List.pairwise_cons.mp sorted
    have headFirst : earlier key (head :: rest) head = 0 := by
      simp only [earlier, List.countP_eq_zero, List.mem_cons, decide_eq_true_eq, not_lt]
      rintro other (rfl | later)
      next => exact le_refl _
      next => exact (above other later).le
    have laterRank : ∀ other ∈ rest,
        earlier key (head :: rest) other = earlier key rest other + 1 := by
      intro other later
      simp [earlier, above other later]
    rw [List.zipIdx_cons, List.mem_cons, ih sortedRest]
    constructor
    next =>
      rintro (same | ⟨later, place⟩)
      next =>
        obtain ⟨rfl, rfl⟩ := Prod.mk.inj same
        exact ⟨List.mem_cons_self, by omega⟩
      next => exact ⟨List.mem_cons_of_mem _ later, by rw [laterRank row later]; omega⟩
    next =>
      rintro ⟨present, place⟩
      rcases List.mem_cons.mp present with rfl | later
      next => exact .inl (by rw [place, headFirst]; rfl)
      next => exact .inr ⟨later, by rw [laterRank row later] at place; omega⟩

theorem mem_zipIdx_ranked {rows : List α} (distinct : (rows.map key).Nodup) (row : α)
    (start rank : Nat) :
    (row, rank) ∈ (ranked key rows).zipIdx start ↔
      row ∈ rows ∧ rank = start + earlier key rows row := by
  rw [mem_zipIdx_of_pairwise (ranked_pairwise distinct) start, mem_ranked, earlier_ranked]

theorem mem_slice_ranked {rows : List α} (distinct : (rows.map key).Nodup) (row : α)
    (offset limit : Nat) :
    row ∈ ((ranked key rows).drop offset).take limit ↔
      row ∈ rows ∧ offset ≤ earlier key rows row ∧ earlier key rows row < offset + limit := by
  have placed : ∀ place, (ranked key rows)[place]? = some row ↔
      row ∈ rows ∧ place = earlier key rows row := by
    intro place
    have atPlace := mem_zipIdx_ranked distinct row 0 place
    rw [List.mem_zipIdx_iff_getElem?, Nat.zero_add] at atPlace
    exact atPlace
  rw [List.mem_iff_getElem?]
  constructor
  next =>
    rintro ⟨place, found⟩
    rw [List.getElem?_take] at found
    split at found
    next within =>
      rw [List.getElem?_drop] at found
      have spot := (placed _).mp found
      exact ⟨spot.1, by omega, by omega⟩
    next => cases found
  next =>
    rintro ⟨present, above, below⟩
    refine ⟨earlier key rows row - offset, ?_⟩
    rw [List.getElem?_take, if_pos (by omega), List.getElem?_drop]
    exact (placed _).mpr ⟨present, by omega⟩

theorem earlier_lt_length (key : α → κ) {rows : List α} {row : α} (present : row ∈ rows) :
    earlier key rows row < rows.length := by
  have notAll : earlier key rows row ≠ rows.length := by
    intro all
    have smaller := List.countP_eq_length.mp all row present
    simp at smaller
  have atMost : earlier key rows row ≤ rows.length := List.countP_le_length
  omega

theorem exists_earlier_eq {rows : List α} (distinct : (rows.map key).Nodup) {rank : Nat}
    (within : rank < rows.length) : ∃ row ∈ rows, earlier key rows row = rank := by
  have bound : rank < (ranked key rows).length := by rwa [length_ranked]
  have listed : ((ranked key rows)[rank], rank) ∈ (ranked key rows).zipIdx 0 := by
    rw [List.mem_zipIdx_iff_getElem?]
    exact List.getElem?_eq_getElem bound
  obtain ⟨present, place⟩ := (mem_zipIdx_ranked distinct _ 0 rank).mp listed
  exact ⟨_, present, by omega⟩

theorem first_ranked_length {rows : List α} (distinct : (rows.map key).Nodup) (limit : Nat) :
    (rows.filter (fun row => decide (earlier key rows row < limit))).length ≤ limit := by
  have nodup : rows.Nodup := List.Nodup.of_map _ distinct
  have inside : rows.filter (fun row => decide (earlier key rows row < limit)) ⊆
      (ranked key rows).take limit := by
    intro row kept
    rw [List.mem_filter, decide_eq_true_eq] at kept
    have sliced := mem_slice_ranked distinct row 0 limit
    rw [List.drop_zero] at sliced
    exact sliced.mpr ⟨kept.1, Nat.zero_le _, by omega⟩
  calc (rows.filter (fun row => decide (earlier key rows row < limit))).length
      ≤ ((ranked key rows).take limit).length :=
        ((List.Nodup.filter _ nodup).subperm inside).length_le
    _ ≤ limit := List.length_take_le _ _

end Ranks

end MemoryCloud.Ranking
