import Mathlib.Data.List.Sort
import Mathlib.Order.Basic

set_option autoImplicit false

/-!
# Objects with ordered keys

The entries stand in key order, so two objects with the same value at every key are
equal. Proofs read an object through `get?` alone.
-/

namespace MemoryCloud

variable {K V W : Type} [LinearOrder K]

structure Doc (K V : Type) [LinearOrder K] where
  entries : List (K × V)
  sorted : (entries.map Prod.fst).Pairwise (· < ·)
  deriving DecidableEq

namespace Doc

def empty : Doc K V := ⟨[], List.Pairwise.nil⟩

def get? (doc : Doc K V) (key : K) : Option V :=
  (doc.entries.find? fun entry => decide (entry.1 = key)).map Prod.snd

def keys (doc : Doc K V) : List K := doc.entries.map Prod.fst

def filterEntries (change : K → V → Option W) (entries : List (K × V)) : List (K × W) :=
  entries.filterMap fun entry => (change entry.1 entry.2).map fun value => (entry.1, value)

omit [LinearOrder K] in
theorem filterEntries_keys (change : K → V → Option W) (entries : List (K × V)) :
    ((filterEntries change entries).map Prod.fst).Sublist (entries.map Prod.fst) := by
  induction entries with
  | nil => exact List.Sublist.refl _
  | cons entry rest ih =>
    cases changed : change entry.1 entry.2 with
    | none =>
      simp only [filterEntries, List.filterMap_cons, changed, Option.map_none, List.map_cons]
      exact ih.cons _
    | some value =>
      simp only [filterEntries, List.filterMap_cons, changed, Option.map_some, List.map_cons]
      exact ih.cons_cons _

def filterMap (change : K → V → Option W) (doc : Doc K V) : Doc K W :=
  ⟨filterEntries change doc.entries, doc.sorted.sublist (filterEntries_keys change doc.entries)⟩

def map (change : K → V → W) (doc : Doc K V) : Doc K W :=
  doc.filterMap fun key value => some (change key value)

def filter (keep : K → V → Bool) (doc : Doc K V) : Doc K V :=
  doc.filterMap fun key value => if keep key value then some value else none

theorem keys_nodup (doc : Doc K V) : doc.keys.Nodup :=
  doc.sorted.imp ne_of_lt

theorem mem_entries {doc : Doc K V} {key : K} {value : V} :
    (key, value) ∈ doc.entries ↔ doc.get? key = some value := by
  constructor
  next =>
    intro listed
    have first : (doc.entries.find? fun entry => decide (entry.1 = key)).isSome := by
      rw [List.find?_isSome]
      exact ⟨(key, value), listed, by simp⟩
    obtain ⟨entry, found⟩ := Option.isSome_iff_exists.mp first
    have sameKey : entry.1 = key := by simpa using List.find?_some found
    have same : entry = (key, value) :=
      List.inj_on_of_nodup_map doc.keys_nodup (List.mem_of_find?_eq_some found) listed sameKey
    rw [get?, found, same]
    rfl
  next =>
    intro held
    obtain ⟨entry, found, is⟩ := Option.map_eq_some_iff.mp held
    have sameKey : entry.1 = key := by simpa using List.find?_some found
    rw [← is, ← sameKey]
    exact List.mem_of_find?_eq_some found

theorem mem_keys {doc : Doc K V} {key : K} : key ∈ doc.keys ↔ (doc.get? key).isSome := by
  constructor
  next =>
    intro listed
    obtain ⟨entry, present, rfl⟩ := List.mem_map.mp listed
    rw [mem_entries.mp present]
    rfl
  next =>
    intro held
    obtain ⟨value, is⟩ := Option.isSome_iff_exists.mp held
    exact List.mem_map_of_mem (f := Prod.fst) (mem_entries.mpr is)

theorem ext_get {left right : Doc K V} (same : ∀ key, left.get? key = right.get? key) :
    left = right := by
  have perm : left.entries.Perm right.entries := by
    rw [List.perm_ext_iff_of_nodup (List.Nodup.of_map _ left.keys_nodup)
      (List.Nodup.of_map _ right.keys_nodup)]
    intro entry
    rw [mem_entries, mem_entries, same]
  have entries : left.entries = right.entries := by
    apply perm.eq_of_pairwise _ (List.pairwise_map.mp left.sorted) (List.pairwise_map.mp right.sorted)
    intro a b _ _ less more
    exact absurd less (lt_asymm more)
  cases left
  cases right
  simp only at entries
  subst entries
  rfl

@[simp] theorem get?_empty (key : K) : (empty : Doc K V).get? key = none := rfl

@[simp] theorem get?_filterMap (change : K → V → Option W) (doc : Doc K V) (key : K) :
    (doc.filterMap change).get? key = (doc.get? key).bind (change key) := by
  apply Option.ext
  intro value
  rw [← mem_entries, Option.bind_eq_some_iff]
  simp only [filterMap, filterEntries, List.mem_filterMap, Option.map_eq_some_iff, Prod.mk.injEq]
  constructor
  next =>
    intro ⟨entry, listed, changed, becomes, sameKey, is⟩
    subst sameKey is
    exact ⟨entry.2, mem_entries.mp listed, becomes⟩
  next =>
    intro ⟨old, held, becomes⟩
    exact ⟨(key, old), mem_entries.mpr held, value, becomes, rfl, rfl⟩

@[simp] theorem get?_map (change : K → V → W) (doc : Doc K V) (key : K) :
    (doc.map change).get? key = (doc.get? key).map (change key) := by
  rw [map, get?_filterMap]
  cases doc.get? key <;> rfl

@[simp] theorem get?_filter (keep : K → V → Bool) (doc : Doc K V) (key : K) :
    (doc.filter keep).get? key = (doc.get? key).filter (keep key) := by
  rw [filter, get?_filterMap]
  cases doc.get? key with
  | none => rfl
  | some value => simp [Option.filter]

end Doc

end MemoryCloud
