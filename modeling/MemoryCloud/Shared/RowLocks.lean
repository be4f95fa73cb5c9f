import Mathlib.Data.List.Basic

set_option autoImplicit false

/-!
# Locks of open transactions

Two transactions clash when they hold locks that exclude each other. A transaction that
moves on waits while another one holds a lock in its way, so no two open transactions
clash.
-/

namespace MemoryCloud.RowLocks

variable {T R : Type} [DecidableEq R]

def sharing (rows : T → List R) (left right : T) : Bool :=
  (rows left).any fun row => decide (row ∈ rows right)

theorem sharing_false {rows : T → List R} {left right : T} :
    sharing rows left right = false ↔ ∀ row ∈ rows left, row ∉ rows right := by
  simp [sharing]

theorem sharing_symm (rows : T → List R) (left right : T) :
    sharing rows left right = sharing rows right left := by
  rw [Bool.eq_iff_iff]
  simp only [sharing, List.any_eq_true, decide_eq_true_eq]
  exact ⟨fun ⟨row, first, second⟩ => ⟨row, second, first⟩,
    fun ⟨row, first, second⟩ => ⟨row, second, first⟩⟩

def blocked (clash : T → T → Bool) (transactions : List T) (index : Nat) (tx : T) : Bool :=
  (List.range transactions.length).any fun other => decide (other ≠ index) &&
    (transactions[other]?).any fun held => clash held tx

def Exclusive (clash : T → T → Bool) (transactions : List T) : Prop :=
  ∀ (left right : Nat) (first second : T), left ≠ right → transactions[left]? = some first →
    transactions[right]? = some second → clash first second = false

variable {clash : T → T → Bool} {transactions : List T} {index : Nat} {tx : T}

theorem mem_set {replaced : T} (listed : tx ∈ transactions.set index replaced) :
    tx = replaced ∨ ∃ other, other ≠ index ∧ transactions[other]? = some tx := by
  obtain ⟨other, bound, rfl⟩ := List.mem_iff_getElem.mp listed
  rw [List.getElem_set]
  by_cases same : index = other
  next => exact .inl (by simp [same])
  next =>
    refine .inr ⟨other, Ne.symm same, ?_⟩
    rw [if_neg same]
    exact List.getElem?_eq_getElem _

theorem not_blocked (free : blocked clash transactions index tx = false) {other : Nat} {held : T}
    (differ : other ≠ index) (found : transactions[other]? = some held) :
    clash held tx = false := by
  obtain ⟨bound, _⟩ := List.getElem?_eq_some_iff.mp found
  have passed := List.any_eq_false.mp free other (List.mem_range.mpr bound)
  simpa [found, differ] using passed

theorem Exclusive.nil : Exclusive clash [] := by
  intro left right first second _ found
  simp at found

theorem Exclusive.set (symm : ∀ left right, clash left right = clash right left)
    (exclusive : Exclusive clash transactions)
    (free : ∀ (other : Nat) (held : T), other ≠ index → transactions[other]? = some held →
      clash held tx = false) :
    Exclusive clash (transactions.set index tx) := by
  have same : ∀ (other : Nat) (held : T), (transactions.set index tx)[other]? = some held →
      other = index ∧ held = tx ∨ other ≠ index ∧ transactions[other]? = some held := by
    intro other held found
    rw [List.getElem?_set] at found
    split at found
    next here =>
      split at found
      next =>
        cases found
        exact .inl ⟨here.symm, rfl⟩
      next => cases found
    next away => exact .inr ⟨Ne.symm away, found⟩
  intro left right first second differ foundLeft foundRight
  rcases same left first foundLeft with ⟨rfl, rfl⟩ | ⟨away, before⟩
  next =>
    rcases same right second foundRight with ⟨rfl, _⟩ | ⟨other, found⟩
    next => exact absurd rfl differ
    next =>
      rw [symm]
      exact free right second other found
  next =>
    rcases same right second foundRight with ⟨rfl, rfl⟩ | ⟨other, found⟩
    next => exact free left first away before
    next => exact exclusive left right first second differ before found

theorem Exclusive.append (symm : ∀ left right, clash left right = clash right left)
    (exclusive : Exclusive clash transactions) (free : ∀ held, clash held tx = false) :
    Exclusive clash (transactions ++ [tx]) := by
  have same : ∀ (other : Nat) (held : T), (transactions ++ [tx])[other]? = some held →
      held = tx ∨ transactions[other]? = some held := by
    intro other held found
    rw [List.getElem?_append] at found
    split at found
    next => exact .inr found
    next => exact .inl (List.mem_singleton.mp (List.mem_of_getElem? found))
  intro left right first second differ foundLeft foundRight
  rcases same right second foundRight with rfl | found
  next => exact free first
  next =>
    rcases same left first foundLeft with rfl | before
    next =>
      rw [symm]
      exact free second
    next => exact exclusive left right first second differ before found

end MemoryCloud.RowLocks
