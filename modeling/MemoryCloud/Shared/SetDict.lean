import Mathlib.Data.List.Nodup

set_option autoImplicit false

/-!
# Dictionaries of sets

A dictionary from a key to a set, which grows by `setdefault(key, set()).add(value)`. Grouping
values by a label gives one entry for each label that occurs.
-/

namespace MemoryCloud.SetDict

variable {K V : Type} [DecidableEq K] [DecidableEq V]

def members (dict : List (K × List V)) (key : K) : List V :=
  (dict.lookup key).getD []

def add (key : K) (value : V) : List (K × List V) → List (K × List V)
  | [] => [(key, [value])]
  | entry :: rest =>
      if entry.1 = key then (entry.1, entry.2.insert value) :: rest else entry :: add key value rest

section Members

omit [DecidableEq V] in
@[simp] theorem members_nil (key : K) : members ([] : List (K × List V)) key = [] := rfl

omit [DecidableEq V] in
@[simp] theorem members_cons (entry : K × List V) (rest : List (K × List V)) (key : K) :
    members (entry :: rest) key = if key = entry.1 then entry.2 else members rest key := by
  rw [members, List.lookup_cons]
  by_cases same : key = entry.1
  next => rw [beq_iff_eq.mpr same, if_pos same, Option.getD_some]
  next => rw [beq_false_of_ne same, if_neg same, members]

omit [DecidableEq V] in
theorem members_unlisted {dict : List (K × List V)} {key : K} (unlisted : key ∉ dict.map Prod.fst) :
    members dict key = [] := by
  induction dict with
  | nil => rfl
  | cons entry rest ih =>
    rw [List.map_cons, List.mem_cons, not_or] at unlisted
    rw [members_cons, if_neg unlisted.1, ih unlisted.2]

omit [DecidableEq V] in
theorem members_listed {dict : List (K × List V)} (distinct : (dict.map Prod.fst).Nodup)
    {entry : K × List V} (listed : entry ∈ dict) : members dict entry.1 = entry.2 := by
  induction dict with
  | nil => cases listed
  | cons first rest ih =>
    rw [List.map_cons, List.nodup_cons] at distinct
    cases listed with
    | head => rw [members_cons, if_pos rfl]
    | tail _ later =>
      have other : entry.1 ≠ first.1 := fun same => distinct.1 (same ▸ List.mem_map_of_mem later)
      rw [members_cons, if_neg other, ih distinct.2 later]

theorem members_add (key : K) (value : V) (dict : List (K × List V)) (other : K) :
    members (add key value dict) other =
      if other = key then (members dict key).insert value else members dict other := by
  induction dict with
  | nil => by_cases same : other = key <;> simp [add, same]
  | cons entry rest ih =>
    rw [add]
    split
    next here => by_cases same : other = key <;> simp [here, same]
    next there =>
      by_cases first : other = entry.1
      next =>
        have apart : other ≠ key := fun same => there (first.symm.trans same)
        simp [first, there]
      next =>
        have apart : key ≠ entry.1 := Ne.symm there
        simp [first, apart, ih]

theorem mem_add {key other : K} {value member : V} {dict : List (K × List V)} :
    member ∈ members (add key value dict) other ↔
      member ∈ members dict other ∨ other = key ∧ member = value := by
  rw [members_add]
  by_cases same : other = key
  next => simp [same, List.mem_insert_iff, or_comm]
  next => simp [same]

theorem add_keys (key : K) (value : V) (dict : List (K × List V)) :
    (add key value dict).map Prod.fst =
      if key ∈ dict.map Prod.fst then dict.map Prod.fst else dict.map Prod.fst ++ [key] := by
  induction dict with
  | nil => rfl
  | cons entry rest ih =>
    rw [add]
    split
    next here => simp [here]
    next there =>
      rw [List.map_cons, ih, List.map_cons]
      have other : key ≠ entry.1 := Ne.symm there
      by_cases listed : key ∈ rest.map Prod.fst
      next => rw [if_pos listed, if_pos (List.mem_cons_of_mem _ listed)]
      next => rw [if_neg listed, if_neg (List.not_mem_cons_of_ne_of_not_mem other listed),
        List.cons_append]

end Members

section Groups

variable {label : V → K}

structure Grouped (label : V → K) (values : List V) (dict : List (K × List V)) : Prop where
  keys : (dict.map Prod.fst).Nodup
  listed : ∀ key, key ∈ dict.map Prod.fst ↔ ∃ value ∈ values, label value = key
  nodup : ∀ key, (members dict key).Nodup
  mem : ∀ key value, value ∈ members dict key ↔ value ∈ values ∧ label value = key

omit [DecidableEq V] in
theorem Grouped.nil (label : V → K) : Grouped label [] [] :=
  ⟨List.nodup_nil, by simp, by simp, by simp⟩

theorem Grouped.add {values : List V} {dict : List (K × List V)} (grouped : Grouped label values dict)
    (value : V) : Grouped label (values ++ [value]) (add (label value) value dict) := by
  refine ⟨?_, fun key => ?_, fun key => ?_, fun key other => ?_⟩
  next =>
    rw [add_keys]
    split
    next => exact grouped.keys
    next fresh =>
      rw [List.nodup_append]
      refine ⟨grouped.keys, List.nodup_singleton _, fun key listed other same => ?_⟩
      rw [List.mem_singleton] at same
      exact fun equal => fresh (same ▸ equal ▸ listed)
  next =>
    rw [add_keys]
    simp only [List.mem_append, List.mem_singleton, or_and_right, exists_or, exists_eq_left]
    rw [← grouped.listed]
    split
    next listed =>
      constructor
      next => exact .inl
      next => exact fun either => either.elim (·) fun same => same ▸ listed
    next => rw [List.mem_append, List.mem_singleton, eq_comm]
  next =>
    rw [members_add]
    split
    next => exact (grouped.nodup _).insert
    next => exact grouped.nodup key
  next =>
    rw [mem_add, grouped.mem, List.mem_append, List.mem_singleton]
    constructor
    next =>
      rintro (⟨inside, same⟩ | ⟨rfl, rfl⟩)
      next => exact ⟨.inl inside, same⟩
      next => exact ⟨.inr rfl, rfl⟩
    next =>
      rintro ⟨inside | rfl, same⟩
      next => exact .inl ⟨inside, same⟩
      next => exact .inr ⟨same.symm, rfl⟩

variable {values : List V} {dict : List (K × List V)} (grouped : Grouped label values dict)

include grouped

omit [DecidableEq V] in
theorem Grouped.mem_entry {entry : K × List V} (listed : entry ∈ dict) (value : V) :
    value ∈ entry.2 ↔ value ∈ values ∧ label value = entry.1 := by
  rw [← members_listed grouped.keys listed, grouped.mem]

omit [DecidableEq V] in
theorem Grouped.nodup_entry {entry : K × List V} (listed : entry ∈ dict) : entry.2.Nodup := by
  rw [← members_listed grouped.keys listed]
  exact grouped.nodup entry.1

omit [DecidableEq V] in
theorem Grouped.entry_ne_nil {entry : K × List V} (listed : entry ∈ dict) : entry.2 ≠ [] := by
  obtain ⟨value, inside, same⟩ := (grouped.listed entry.1).mp (List.mem_map_of_mem listed)
  exact List.ne_nil_of_mem ((grouped.mem_entry listed value).mpr ⟨inside, same⟩)

omit [DecidableEq V] in
theorem Grouped.exists_entry {value : V} (inside : value ∈ values) :
    ∃ entry ∈ dict, value ∈ entry.2 := by
  obtain ⟨entry, listed, same⟩ := List.mem_map.mp ((grouped.listed (label value)).mpr
    ⟨value, inside, rfl⟩)
  exact ⟨entry, listed, (grouped.mem_entry listed value).mpr ⟨inside, same.symm⟩⟩

omit [DecidableEq V] in
theorem Grouped.disjoint : (dict.map Prod.snd).Pairwise List.Disjoint := by
  rw [List.pairwise_map]
  refine (List.pairwise_map.mp grouped.keys).imp_of_mem fun first second different => ?_
  intro value inFirst inSecond
  exact different (((grouped.mem_entry first value).mp inFirst).2.symm.trans
    ((grouped.mem_entry second value).mp inSecond).2)

end Groups

end MemoryCloud.SetDict
