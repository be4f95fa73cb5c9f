import Mathlib.Algebra.BigOperators.Group.List.Basic
import Mathlib.Data.List.MinMax
import MemoryCloud.Shared.Dict

set_option autoImplicit false

/-!
# Sums and maxima by key

A list of entries folded into a dictionary: under each key the sum of its values, or the first of its
largest values.
-/

namespace MemoryCloud

variable {K V A : Type} [DecidableEq K]

def valuesAt (key : K) (entries : List (K × V)) : List V :=
  (entries.filter fun entry => entry.1 = key).map Prod.snd

theorem valuesAt_cons (key : K) (entry : K × V) (rest : List (K × V)) :
    valuesAt key (entry :: rest) =
      if entry.1 = key then entry.2 :: valuesAt key rest else valuesAt key rest := by
  rw [valuesAt, List.filter_cons]
  by_cases same : entry.1 = key
  next => simp [same, valuesAt]
  next => simp [same, valuesAt]

theorem valuesAt_append (key : K) (first second : List (K × V)) :
    valuesAt key (first ++ second) = valuesAt key first ++ valuesAt key second := by
  rw [valuesAt, List.filter_append, List.map_append]
  rfl

section Sum

variable [AddMonoid V]

-- `defaultdict[key] += value`
def accumulate (dict : Dict K V) (entry : K × V) : Dict K V :=
  dict.set entry.1 ((dict.get? entry.1).getD 0 + entry.2)

theorem get?_foldl_accumulate (entries : List (K × V)) (dict : Dict K V) (key : K) :
    (entries.foldl accumulate dict).get? key =
      if valuesAt key entries = [] then dict.get? key
      else some ((dict.get? key).getD 0 + (valuesAt key entries).sum) := by
  induction entries generalizing dict with
  | nil => rfl
  | cons entry rest ih =>
    rw [List.foldl_cons, ih, accumulate, Dict.get?_set, valuesAt_cons]
    by_cases same : key = entry.1
    next =>
      rw [if_pos same, if_pos same.symm, same]
      by_cases none : valuesAt entry.1 rest = []
      next => simp [none]
      next => simp [none, add_assoc]
    next => rw [if_neg same, if_neg (Ne.symm same)]

end Sum

section Largest

variable [LinearOrder A] (rank : V → A)

-- A later value replaces a smaller one only.
def keepLargest (dict : Dict K V) (entry : K × V) : Dict K V :=
  match dict.get? entry.1 with
  | some found => if rank found < rank entry.2 then dict.set entry.1 entry.2 else dict
  | none => dict.set entry.1 entry.2

theorem get?_keepLargest (dict : Dict K V) (entry : K × V) (key : K) :
    (keepLargest rank dict entry).get? key =
      if key = entry.1 then List.argAux (fun later found => rank found < rank later)
        (dict.get? key) entry.2
      else dict.get? key := by
  unfold keepLargest
  by_cases same : key = entry.1
  next =>
    subst same
    rw [if_pos rfl]
    cases found : dict.get? entry.1 with
    | none => rw [Dict.get?_set, if_pos rfl]; rfl
    | some value =>
      change (if rank value < rank entry.2 then dict.set entry.1 entry.2 else dict).get? entry.1 =
        if rank value < rank entry.2 then some entry.2 else some value
      split
      next => rw [Dict.get?_set, if_pos rfl]
      next => exact found
  next =>
    rw [if_neg same]
    split
    next =>
      split
      next => rw [Dict.get?_set, if_neg same]
      next => rfl
    next => rw [Dict.get?_set, if_neg same]

theorem get?_foldl_keepLargest (entries : List (K × V)) (dict : Dict K V) (key : K) :
    (entries.foldl (keepLargest rank) dict).get? key =
      (valuesAt key entries).foldl (List.argAux fun later found => rank found < rank later)
        (dict.get? key) := by
  induction entries generalizing dict with
  | nil => rfl
  | cons entry rest ih =>
    rw [List.foldl_cons, ih, get?_keepLargest, valuesAt_cons]
    by_cases same : key = entry.1
    next => rw [if_pos same, if_pos same.symm, List.foldl_cons]
    next => rw [if_neg same, if_neg (Ne.symm same)]

end Largest

end MemoryCloud
