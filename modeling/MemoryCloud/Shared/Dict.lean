import Mathlib.Algebra.GroupWithZero.Nat
import Mathlib.Data.List.Nodup

set_option autoImplicit false

/-!
# Dictionaries in insertion order

A key keeps the place where it was first set, and the value that was set last.
-/

namespace MemoryCloud

variable {K V : Type} [DecidableEq K]

def setEntry (key : K) (value : V) : List (K × V) → List (K × V)
  | [] => [(key, value)]
  | entry :: rest =>
      if entry.1 = key then (entry.1, value) :: rest else entry :: setEntry key value rest

theorem setEntry_keys (key : K) (value : V) (entries : List (K × V)) :
    (setEntry key value entries).map Prod.fst =
      if key ∈ entries.map Prod.fst then entries.map Prod.fst
      else entries.map Prod.fst ++ [key] := by
  induction entries with
  | nil => rfl
  | cons entry rest ih =>
    rw [setEntry]
    by_cases here : entry.1 = key
    next => simp [here]
    next =>
      have there : key ∈ (entry :: rest).map Prod.fst ↔ key ∈ rest.map Prod.fst := by
        simp [Ne.symm here]
      rw [if_neg here, List.map_cons, ih]
      by_cases listed : key ∈ rest.map Prod.fst
      next => rw [if_pos listed, if_pos (there.mpr listed), List.map_cons]
      next => rw [if_neg listed, if_neg (mt there.mp listed), List.map_cons, List.cons_append]

theorem lookup_entry (entry : K × V) (rest : List (K × V)) (key : K) :
    (entry :: rest).lookup key = if key = entry.1 then some entry.2 else rest.lookup key := by
  rw [List.lookup_cons]
  by_cases same : key = entry.1
  next => rw [beq_iff_eq.mpr same, if_pos same]
  next => rw [beq_false_of_ne same, if_neg same]

theorem setEntry_lookup (key : K) (value : V) (entries : List (K × V)) (other : K) :
    (setEntry key value entries).lookup other =
      if other = key then some value else entries.lookup other := by
  induction entries with
  | nil => rw [setEntry, lookup_entry]
  | cons entry rest ih =>
    rw [setEntry]
    by_cases here : entry.1 = key
    next =>
      subst here
      rw [if_pos rfl, lookup_entry, lookup_entry]
      split <;> rfl
    next =>
      rw [if_neg here, lookup_entry, lookup_entry, ih]
      split
      next first => rw [if_neg (first ▸ here)]
      next => rfl

theorem setEntry_self {key : K} {value : V} {entries : List (K × V)}
    (found : entries.lookup key = some value) : setEntry key value entries = entries := by
  induction entries with
  | nil => cases found
  | cons entry rest ih =>
    rw [lookup_entry] at found
    rw [setEntry]
    by_cases here : entry.1 = key
    next =>
      rw [if_pos here.symm, Option.some.injEq] at found
      rw [if_pos here, ← found]
    next =>
      rw [if_neg (Ne.symm here)] at found
      rw [if_neg here, ih found]

structure Dict (K V : Type) where
  entries : List (K × V)
  nodup : (entries.map Prod.fst).Nodup

namespace Dict

def empty : Dict K V := ⟨[], List.nodup_nil⟩

def keys (dict : Dict K V) : List K := dict.entries.map Prod.fst

def values (dict : Dict K V) : List V := dict.entries.map Prod.snd

def get? (dict : Dict K V) (key : K) : Option V := dict.entries.lookup key

def set (dict : Dict K V) (key : K) (value : V) : Dict K V where
  entries := setEntry key value dict.entries
  nodup := by
    rw [setEntry_keys]
    split
    next => exact dict.nodup
    next new => exact List.concat_eq_append ▸ List.Nodup.concat new dict.nodup

-- `{k: v for k, v in entries if k != key}`.
def erase (dict : Dict K V) (key : K) : Dict K V where
  entries := dict.entries.filter fun entry => entry.1 ≠ key
  nodup := dict.nodup.sublist (List.filter_sublist.map Prod.fst)

-- `{key: value for key, value in entries}`.
def ofEntries (entries : List (K × V)) : Dict K V :=
  entries.foldl (fun dict entry => dict.set entry.1 entry.2) empty

@[simp] theorem get?_empty (key : K) : (empty : Dict K V).get? key = none := rfl

omit [DecidableEq K] in
@[simp] theorem keys_empty : (empty : Dict K V).keys = [] := rfl

theorem get?_set (dict : Dict K V) (key : K) (value : V) (other : K) :
    (dict.set key value).get? other = if other = key then some value else dict.get? other :=
  setEntry_lookup key value dict.entries other

theorem keys_set (dict : Dict K V) (key : K) (value : V) :
    (dict.set key value).keys = if key ∈ dict.keys then dict.keys else dict.keys ++ [key] :=
  setEntry_keys key value dict.entries

omit [DecidableEq K] in
theorem keys_nodup (dict : Dict K V) : dict.keys.Nodup := dict.nodup

omit [DecidableEq K] in
theorem length_keys (dict : Dict K V) : dict.keys.length = dict.values.length := by
  simp [keys, values]

theorem get?_eq_some {dict : Dict K V} {key : K} {value : V} :
    dict.get? key = some value ↔ (key, value) ∈ dict.entries := by
  obtain ⟨entries, nodup⟩ := dict
  change entries.lookup key = some value ↔ (key, value) ∈ entries
  induction entries with
  | nil => simp
  | cons entry rest ih =>
    rw [List.map_cons, List.nodup_cons] at nodup
    rw [lookup_entry, List.mem_cons]
    by_cases first : key = entry.1
    next =>
      have unlisted : (key, value) ∉ rest :=
        fun listed => nodup.1 (first ▸ List.mem_map_of_mem listed)
      rw [if_pos first, Option.some.injEq, or_iff_left unlisted, Prod.ext_iff]
      exact ⟨fun same => ⟨first, same.symm⟩, fun same => same.2.symm⟩
    next =>
      rw [if_neg first, or_iff_right fun same => first (congrArg Prod.fst same)]
      exact ih nodup.2

theorem get?_of_erase {dict : Dict K V} {key other : K} {value : V}
    (found : (dict.erase key).get? other = some value) : dict.get? other = some value :=
  get?_eq_some.mpr (List.mem_of_mem_filter (get?_eq_some.mp found))

omit [DecidableEq K] in
theorem ext {left right : Dict K V} (same : left.entries = right.entries) : left = right := by
  obtain ⟨entries, _⟩ := left
  obtain ⟨_, _⟩ := right
  cases same
  rfl

theorem set_self {dict : Dict K V} {key : K} {value : V} (found : dict.get? key = some value) :
    dict.set key value = dict :=
  ext (setEntry_self found)

theorem get?_erase {dict : Dict K V} {key other : K} (differs : other ≠ key) :
    (dict.erase key).get? other = dict.get? other := by
  refine Option.ext fun value => ?_
  rw [get?_eq_some, get?_eq_some, erase, List.mem_filter]
  simp [differs]

section Sums

variable (size : K × V → Nat)

def held (dict : Dict K V) (key : K) : Nat :=
  (dict.get? key).elim 0 fun value => size (key, value)

theorem sum_setEntry (key : K) (value : V) (entries : List (K × V)) :
    ((setEntry key value entries).map size).sum +
        ((entries.lookup key).elim 0 fun old => size (key, old)) =
      (entries.map size).sum + size (key, value) := by
  induction entries with
  | nil => simp [setEntry]
  | cons entry rest ih =>
    obtain ⟨first, old⟩ := entry
    rw [setEntry, lookup_entry]
    by_cases here : first = key
    next =>
      subst here
      simp only [if_pos, List.map_cons, List.sum_cons, Option.elim_some]
      omega
    next =>
      simp only [if_neg here, if_neg (Ne.symm here), List.map_cons, List.sum_cons]
      omega

theorem sum_set (dict : Dict K V) (key : K) (value : V) :
    ((dict.set key value).entries.map size).sum + dict.held size key =
      (dict.entries.map size).sum + size (key, value) :=
  sum_setEntry size key value dict.entries

theorem sum_erase (dict : Dict K V) (key : K) :
    ((dict.erase key).entries.map size).sum + dict.held size key =
      (dict.entries.map size).sum := by
  obtain ⟨entries, nodup⟩ := dict
  change ((entries.filter fun entry => entry.1 ≠ key).map size).sum +
    ((entries.lookup key).elim 0 fun old => size (key, old)) = (entries.map size).sum
  induction entries with
  | nil => rfl
  | cons entry rest ih =>
    obtain ⟨first, old⟩ := entry
    rw [List.map_cons, List.nodup_cons] at nodup
    rw [lookup_entry]
    by_cases here : first = key
    next =>
      subst here
      have others : rest.filter (fun other => other.1 ≠ first) = rest := by
        refine List.filter_eq_self.mpr fun other listed => decide_eq_true fun same => ?_
        exact nodup.1 (List.mem_map.mpr ⟨other, listed, same⟩)
      simp only [List.filter_cons, others, ne_eq, not_true_eq_false, decide_false,
        Bool.false_eq_true, if_false, if_pos, Option.elim_some, List.map_cons, List.sum_cons]
      omega
    next =>
      have later := ih nodup.2
      simp only [List.filter_cons, here, ne_eq, not_false_eq_true, decide_true, if_true,
        if_neg (Ne.symm here), List.map_cons, List.sum_cons] at later ⊢
      omega

end Sums

theorem mem_keys {dict : Dict K V} {key : K} : key ∈ dict.keys ↔ (dict.get? key).isSome := by
  rw [Option.isSome_iff_exists, keys, List.mem_map]
  constructor
  next =>
    rintro ⟨entry, listed, rfl⟩
    exact ⟨entry.2, get?_eq_some.mpr listed⟩
  next =>
    rintro ⟨value, found⟩
    exact ⟨_, get?_eq_some.mp found, rfl⟩

end Dict

end MemoryCloud
