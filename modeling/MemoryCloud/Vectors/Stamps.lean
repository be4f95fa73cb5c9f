import Mathlib.Data.List.Basic
import Mathlib.Tactic.Ring
import MemoryCloud.Changes.Cursor

set_option autoImplicit false

/-!
# Timestamps as texts

`to_utc_iso` of a UTC `datetime`. The texts of two timestamps are in the order
of the timestamps unless they lie in one second and one of the two has no
microseconds: `isoformat` then leaves the fraction out, and `Z` comes after `.`.
-/

namespace MemoryCloud.Vectors

open Changes

def toUtcIso (at_ : DateTime) : String := String.ofList (at_.isoformat ++ ['Z'])

def fields (at_ : DateTime) : List Nat :=
  [at_.year, at_.month, at_.day, at_.hour, at_.minute, at_.second, at_.microsecond]

def SameSecond (a b : DateTime) : Prop :=
  a.year = b.year ∧ a.month = b.month ∧ a.day = b.day ∧ a.hour = b.hour ∧ a.minute = b.minute ∧
    a.second = b.second

def SamePrecision (a b : DateTime) : Prop :=
  SameSecond a b → (a.microsecond = 0 ↔ b.microsecond = 0)

theorem digitChar_lt : ∀ a < 10, ∀ b < 10, digitChar a < digitChar b ↔ a < b := by decide

theorem digits_lt {width a b : Nat} {s t : List Char} (left : a < 10 ^ width)
    (right : b < 10 ^ width) :
    digits 10 width a ++ s < digits 10 width b ++ t ↔ a < b ∨ (a = b ∧ s < t) := by
  induction width generalizing a b s t with
  | zero =>
    have zeroA : a = 0 := by simpa using left
    have zeroB : b = 0 := by simpa using right
    simp [digits, zeroA, zeroB]
  | succ width ih =>
    rw [Nat.pow_succ] at left right
    have lowA : a % 10 < 10 := Nat.mod_lt _ (by omega)
    have lowB : b % 10 < 10 := Nat.mod_lt _ (by omega)
    have high := @ih (a / 10) (b / 10) (digitChar (a % 10) :: s) (digitChar (b % 10) :: t)
      (by omega) (by omega)
    have order := digitChar_lt (a % 10) lowA (b % 10) lowB
    have same : digitChar (a % 10) = digitChar (b % 10) → a % 10 = b % 10 := by
      intro digit
      have read := digitValue?_digitChar (by decide) lowA
      rw [digit, digitValue?_digitChar (by decide) lowB] at read
      exact (Option.some.inj read).symm
    simp only [digits, List.append_assoc, List.singleton_append]
    rw [high, List.cons_lt_cons_iff, order]
    constructor
    · rintro (less | ⟨equal, less | ⟨digit, rest⟩⟩)
      · exact .inl (by omega)
      · exact .inl (by omega)
      · exact .inr ⟨by have := same digit; omega, rest⟩
    · rintro (less | ⟨rfl, rest⟩)
      · by_cases equal : a / 10 = b / 10
        · exact .inr ⟨equal, .inl (by omega)⟩
        · exact .inl (by omega)
      · exact .inr ⟨rfl, .inr ⟨rfl, rest⟩⟩

theorem cons_lt_same {c : Char} {s t : List Char} : c :: s < c :: t ↔ s < t := by
  rw [List.cons_lt_cons_iff]
  simp

def fraction (microsecond : Nat) : List Char :=
  (if microsecond = 0 then [] else '.' :: digits 10 6 microsecond) ++ ['Z']

theorem date_bounds (at_ : DateTime) :
    at_.year < 10 ^ 4 ∧ at_.month < 10 ^ 2 ∧ at_.day < 10 ^ 2 := by
  have days : daysInMonth at_.year at_.month ≤ 31 := by
    unfold daysInMonth
    split
    next => split <;> omega
    next => split <;> omega
  have year := at_.validYear
  have month := at_.validMonth
  have day := at_.validDay
  omega

end MemoryCloud.Vectors
