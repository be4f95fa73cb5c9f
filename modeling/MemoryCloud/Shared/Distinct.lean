import Mathlib.Data.List.Nodup

set_option autoImplicit false

/-!
# The first occurrences of a list
-/

namespace MemoryCloud.Distinct

variable {α : Type} [BEq α]

theorem eraseDups_sublist (values : List α) : values.eraseDups.Sublist values := by
  generalize h : values.length = size
  induction size using Nat.strongRecOn generalizing values with
  | _ size shorter =>
    cases values with
    | nil => exact List.Sublist.refl []
    | cons value rest =>
      subst h
      rw [List.eraseDups_cons]
      have kept := List.length_filter_le (fun other => !other == value) rest
      have deduped := shorter _ (Nat.lt_succ_of_le kept) _ rfl
      exact (deduped.trans List.filter_sublist).cons_cons value

theorem nodup_eraseDups [LawfulBEq α] (values : List α) : values.eraseDups.Nodup := by
  generalize h : values.length = size
  induction size using Nat.strongRecOn generalizing values with
  | _ size shorter =>
    cases values with
    | nil => exact List.nodup_nil
    | cons value rest =>
      subst h
      rw [List.eraseDups_cons, List.nodup_cons]
      have kept := List.length_filter_le (fun other => !other == value) rest
      refine ⟨fun again => ?_, shorter _ (Nat.lt_succ_of_le kept) _ rfl⟩
      simp [List.mem_eraseDups] at again

end MemoryCloud.Distinct
