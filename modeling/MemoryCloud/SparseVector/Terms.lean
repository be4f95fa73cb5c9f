import Mathlib.Algebra.BigOperators.Group.List.Basic
import Mathlib.Algebra.Order.BigOperators.Group.List
import Mathlib.Algebra.Order.Ring.Rat
import Mathlib.Data.List.Induction
import Mathlib.Tactic.Linarith
import MemoryCloud.Shared.Distinct
import MemoryCloud.SparseVector.Model

set_option autoImplicit false

/-!
# What a sparse vector keeps of the terms

Within a field the last of the tokens with one index takes its value; across the fields the
values add up. A query lists the index of each token.
-/

namespace MemoryCloud.SparseVector

open Distinct

variable {host : Host}

section Entries

variable {I : Type} [DecidableEq I] {entries : List (I × Rat)}

def left (entries : List (I × Rat)) (index : I) : Rat := ((Dict.ofEntries entries).get? index).getD 0

def together (entries : List (I × Rat)) (index : I) : Rat :=
  ((entries.filter fun entry => entry.1 = index).map Prod.snd).sum

theorem left_concat (entry : I × Rat) (index : I) :
    left (entries ++ [entry]) index = if index = entry.1 then entry.2 else left entries index := by
  rw [left, left, Dict.ofEntries, List.foldl_append, List.foldl_cons, List.foldl_nil, Dict.get?_set]
  split <;> rfl

theorem together_concat (entry : I × Rat) (index : I) :
    together (entries ++ [entry]) index =
      together entries index + if index = entry.1 then entry.2 else 0 := by
  rw [together, together, List.filter_append, List.map_append, List.sum_append]
  by_cases here : entry.1 = index
  next => simp [here]
  next => simp [here, Ne.symm here]

theorem together_nonneg (positive : ∀ entry ∈ entries, 0 < entry.2) (index : I) :
    0 ≤ together entries index := by
  refine List.sum_nonneg fun value listed => ?_
  obtain ⟨entry, kept, rfl⟩ := List.mem_map.mp listed
  exact (positive entry (List.mem_of_mem_filter kept)).le

theorem left_le_together (positive : ∀ entry ∈ entries, 0 < entry.2) (index : I) :
    left entries index ≤ together entries index := by
  induction entries using List.reverseRecOn with
  | nil => exact le_rfl
  | append_singleton before entry ih =>
    have earlier : ∀ other ∈ before, 0 < other.2 :=
      fun other listed => positive other (List.mem_append_left _ listed)
    rw [left_concat, together_concat]
    split
    next => linarith [together_nonneg earlier index]
    next => simpa using ih earlier

theorem together_unlisted {index : I} (unlisted : index ∉ entries.map Prod.fst) :
    together entries index = 0 := by
  have none : entries.filter (fun entry => entry.1 = index) = [] := by
    refine List.filter_eq_nil_iff.mpr fun entry listed same => unlisted ?_
    exact of_decide_eq_true same ▸ List.mem_map_of_mem listed
  rw [together, none]
  rfl

theorem left_unlisted {index : I} (unlisted : index ∉ entries.map Prod.fst) :
    left entries index = 0 := by
  induction entries using List.reverseRecOn with
  | nil => rfl
  | append_singleton before entry ih =>
    rw [List.map_append, List.mem_append, not_or, List.map_singleton, List.mem_singleton] at unlisted
    rw [left_concat, if_neg unlisted.2, ih unlisted.1]

theorem together_pos (positive : ∀ entry ∈ entries, 0 < entry.2) {index : I}
    (listed : index ∈ entries.map Prod.fst) : 0 < together entries index := by
  obtain ⟨entry, present, rfl⟩ := List.mem_map.mp listed
  have kept : entry.2 ∈ (entries.filter fun other => other.1 = entry.1).map Prod.snd :=
    List.mem_map_of_mem (List.mem_filter.mpr ⟨present, decide_eq_true rfl⟩)
  refine (positive entry present).trans_le (List.single_le_sum (fun value within => ?_) _ kept)
  obtain ⟨other, kept, rfl⟩ := List.mem_map.mp within
  exact (positive other (List.mem_of_mem_filter kept)).le

-- Nothing is lost exactly when no index is set twice.
theorem left_eq_together_iff (positive : ∀ entry ∈ entries, 0 < entry.2) :
    (∀ index, left entries index = together entries index) ↔ (entries.map Prod.fst).Nodup := by
  induction entries using List.reverseRecOn with
  | nil => exact ⟨fun _ => List.nodup_nil, fun _ _ => rfl⟩
  | append_singleton before entry ih =>
    have earlier : ∀ other ∈ before, 0 < other.2 :=
      fun other listed => positive other (List.mem_append_left _ listed)
    simp only [left_concat, together_concat, List.map_append, List.map_singleton]
    rw [List.nodup_append_comm, List.singleton_append, List.nodup_cons, ← ih earlier]
    constructor
    next =>
      intro same
      have fresh : entry.1 ∉ before.map Prod.fst := by
        intro listed
        have lost := same entry.1
        simp only [if_true] at lost
        linarith [together_pos earlier listed]
      refine ⟨fresh, fun index => ?_⟩
      by_cases here : index = entry.1
      next =>
        have unlisted : index ∉ before.map Prod.fst := here ▸ fresh
        rw [left_unlisted unlisted, together_unlisted unlisted]
      next => simpa [here] using same index
    next =>
      rintro ⟨fresh, same⟩ index
      split
      next here => rw [here, together_unlisted fresh, zero_add]
      next => rw [same index, add_zero]

end Entries

section Fields

theorem counter_get? (tokens : List Token) (token : Token) :
    (counter tokens).get? token = if token ∈ tokens then some (tokens.count token) else none := by
  induction tokens using List.reverseRecOn with
  | nil => rfl
  | append_singleton before last ih =>
    rw [counter, List.foldl_append, List.foldl_cons, List.foldl_nil, ← counter, Dict.get?_set]
    by_cases here : token = last
    next =>
      subst here
      rw [if_pos rfl, if_pos (by simp), ih, List.count_append, List.count_singleton_self]
      split
      next => rfl
      next fresh => rw [List.count_eq_zero_of_not_mem fresh, Option.getD_none]
    next =>
      have none : [last].count token = 0 := List.count_eq_zero_of_not_mem (by simpa using here)
      rw [if_neg here, ih, List.count_append, none]
      simp [here]

theorem counter_perm (tokens : List Token) :
    (counter tokens).entries.Perm (tokens.eraseDups.map fun token => (token, tokens.count token)) := by
  have distinct : (tokens.eraseDups.map fun token => (token, tokens.count token)).Nodup :=
    (nodup_eraseDups tokens).map fun one other same => congrArg Prod.fst same
  refine (List.perm_ext_iff_of_nodup (List.Nodup.of_map _ (counter tokens).nodup) distinct).mpr ?_
  rintro ⟨token, count⟩
  rw [← Dict.get?_eq_some, counter_get?, List.mem_map]
  constructor
  next =>
    intro found
    split at found
    next listed =>
      obtain rfl := Option.some.inj found
      exact ⟨token, List.mem_eraseDups.mpr listed, rfl⟩
    next => cases found
  next =>
    rintro ⟨_, listed, same⟩
    obtain ⟨rfl, rfl⟩ := Prod.mk.inj same
    rw [if_pos (List.mem_eraseDups.mp listed)]

def Injective (host : Host) (tokens : List Token) : Prop :=
  ∀ one ∈ tokens, ∀ other ∈ tokens, host.hashToken one = host.hashToken other → one = other

theorem nodup_hashes_iff (tokens : List Token) :
    (tokens.eraseDups.map host.hashToken).Nodup ↔ Injective host tokens := by
  rw [List.nodup_map_iff_inj_on (nodup_eraseDups tokens), Injective]
  simp only [List.mem_eraseDups]

def termWeight (host : Host) (tokens : List Token) (weight : Rat) (index : UInt32) : Rat :=
  ((tokens.eraseDups.filter fun token => host.hashToken token = index).map fun token =>
    weight * tokens.count token).sum

def valueOf (vector : Dict UInt32 Rat) (index : UInt32) : Rat := (vector.get? index).getD 0

def weighted (host : Host) (tokens : List Token) (weight : Rat) : List (UInt32 × Rat) :=
  (counter tokens).entries.map fun entry => (host.hashToken entry.1, (entry.2 : Rat) * weight)

theorem weighted_pos {tokens : List Token} {weight : Rat} (positive : 0 < weight) :
    ∀ entry ∈ weighted host tokens weight, 0 < entry.2 := by
  intro entry listed
  obtain ⟨counted, present, rfl⟩ := List.mem_map.mp listed
  obtain ⟨token, within, rfl⟩ := List.mem_map.mp ((counter_perm tokens).mem_iff.mp present)
  have some : 0 < tokens.count token := List.count_pos_iff.mpr (List.mem_eraseDups.mp within)
  exact mul_pos (Nat.cast_pos.mpr some) positive

theorem together_weighted (tokens : List Token) (weight : Rat) (index : UInt32) :
    together (weighted host tokens weight) index = termWeight host tokens weight index := by
  have same := ((counter_perm tokens).map fun entry =>
    (host.hashToken entry.1, (entry.2 : Rat) * weight)).filter fun entry => entry.1 = index
  rw [together, weighted, (same.map Prod.snd).sum_eq, List.map_map, List.filter_map, List.map_map,
    termWeight]
  refine congrArg List.sum (List.map_congr_left fun token _ => ?_)
  exact mul_comm _ _

theorem nodup_weighted_iff (tokens : List Token) (weight : Rat) :
    ((weighted host tokens weight).map Prod.fst).Nodup ↔ Injective host tokens := by
  rw [← nodup_hashes_iff]
  have same := (counter_perm tokens).map fun entry => host.hashToken entry.1
  rw [List.map_map] at same
  rw [weighted, List.map_map]
  exact same.nodup_iff

theorem valueOf_tokens (tokensStr : Text) (weight : Rat) (index : UInt32) :
    valueOf (tokensToSparseVector host tokensStr weight) index =
      left (weighted host (split host tokensStr) weight) index := by
  rw [tokensToSparseVector]
  split
  next empty =>
    subst empty
    rfl
  next => rfl

end Fields

section Vectors

theorem valueOf_mergeInto (merged vector : Dict UInt32 Rat) (index : UInt32) :
    valueOf (mergeInto merged vector) index = valueOf merged index + valueOf vector index := by
  obtain ⟨entries, nodup⟩ := vector
  rw [mergeInto]
  change _ = _ + (entries.lookup index).getD 0
  dsimp only
  induction entries generalizing merged with
  | nil => simp
  | cons entry rest ih =>
    rw [List.map_cons, List.nodup_cons] at nodup
    rw [List.foldl_cons, ih _ nodup.2, lookup_entry, valueOf, Dict.get?_set]
    by_cases here : index = entry.1
    next =>
      have unlisted : rest.lookup index = none := by
        cases found : rest.lookup index with
        | none => rfl
        | some value =>
          have listed := (@Dict.get?_eq_some _ _ _ ⟨rest, nodup.2⟩ _ _).mp found
          exact absurd (here ▸ List.mem_map_of_mem (f := Prod.fst) listed) nodup.1
      rw [if_pos here, if_pos here, unlisted, here]
      simp [valueOf]
    next => rw [if_neg here, if_neg here, valueOf]

def Document.fields (document : Document) : List (Rat × Text) :=
  [(2, document.summaryTokens), (2, document.contextSummaryTokens), (1, document.contentTokens),
    (1 / 2, document.summaryReading)]

def documentWeight (host : Host) (document : Document) (index : UInt32) : Rat :=
  (document.fields.map fun field => termWeight host (split host field.2) field.1 index).sum

def WellFormed (vector : List UInt32 × List Rat) : Prop :=
  vector.1.Nodup ∧ vector.1.length = vector.2.length

def valueAt (vector : List UInt32 × List Rat) (index : UInt32) : Rat :=
  ((vector.1.zip vector.2).lookup index).getD 0

def stored (dict : Dict UInt32 Rat) : List UInt32 × List Rat :=
  if dict.entries = [] then ([], []) else (dict.keys, dict.values)

theorem stored_eq (dict : Dict UInt32 Rat) : stored dict = (dict.keys, dict.values) := by
  rw [stored]
  split
  next empty =>
    rw [Dict.keys, Dict.values, empty]
    rfl
  next => rfl

theorem wellFormed_stored (dict : Dict UInt32 Rat) : WellFormed (stored dict) := by
  rw [stored_eq]
  exact ⟨dict.keys_nodup, dict.length_keys⟩

theorem valueAt_stored (dict : Dict UInt32 Rat) (index : UInt32) :
    valueAt (stored dict) index = valueOf dict index := by
  rw [stored_eq, valueAt, Dict.keys, Dict.values, ← List.unzip_fst, ← List.unzip_snd, List.zip_unzip]
  rfl

def summed (host : Host) (document : Document) : Dict UInt32 Rat :=
  let merged := Dict.empty
  let merged := mergeInto merged (tokensToSparseVector host document.summaryTokens 2)
  let merged := mergeInto merged (tokensToSparseVector host document.contextSummaryTokens 2)
  let merged := mergeInto merged (tokensToSparseVector host document.contentTokens 1)
  if document.summaryReading = [] then merged
  else mergeInto merged (tokensToSparseVector host document.summaryReading (1 / 2))

theorem valueOf_summed (document : Document) (index : UInt32) :
    valueOf (summed host document) index = (document.fields.map fun field =>
      left (weighted host (split host field.2) field.1) index).sum := by
  have read : valueOf (summed host document) index =
      valueOf (mergeInto (mergeInto (mergeInto (mergeInto Dict.empty
        (tokensToSparseVector host document.summaryTokens 2))
        (tokensToSparseVector host document.contextSummaryTokens 2))
        (tokensToSparseVector host document.contentTokens 1))
        (tokensToSparseVector host document.summaryReading (1 / 2))) index := by
    rw [summed]
    split
    next empty =>
      have none : valueOf (tokensToSparseVector host document.summaryReading (1 / 2)) index = 0 := by
        rw [empty]
        rfl
      rw [valueOf_mergeInto _ (tokensToSparseVector host document.summaryReading _), none, add_zero]
    next => rfl
  rw [read]
  simp only [valueOf_mergeInto, valueOf_tokens, Document.fields, List.map_cons, List.map_nil,
    List.sum_cons, List.sum_nil, add_zero]
  have none : valueOf Dict.empty index = 0 := rfl
  rw [none, zero_add, add_assoc, add_assoc]

theorem wellFormed_resource (host : Host) (fulltextContent : Text) :
    WellFormed (buildResourceSparseVector host fulltextContent) := by
  rw [buildResourceSparseVector]
  dsimp only
  split
  next => exact ⟨List.nodup_nil, rfl⟩
  next => exact wellFormed_stored _

theorem wellFormed_query_iff (queryTokens : Text) :
    WellFormed (buildQuerySparseVector host queryTokens) ↔
      Injective host (split host queryTokens) := by
  rw [buildQuerySparseVector]
  split
  next empty =>
    subst empty
    exact iff_of_true ⟨List.nodup_nil, rfl⟩ (by simp [Injective, split])
  next =>
    rw [← nodup_hashes_iff, WellFormed]
    simp only [List.length_replicate, and_true]
    exact ((List.perm_insertionSort _ _).map host.hashToken).nodup_iff

theorem fields_pos (document : Document) : ∀ field ∈ document.fields, 0 < field.1 := by
  simp [Document.fields]

theorem document_weight_iff (host : Host) (document : Document) :
    (∀ index, valueAt (buildDocumentSparseVector host document) index =
      documentWeight host document index) ↔
    ∀ field ∈ document.fields, Injective host (split host field.2) := by
  have read : ∀ index, valueAt (buildDocumentSparseVector host document) index =
      (document.fields.map fun field =>
        left (weighted host (split host field.2) field.1) index).sum := fun index =>
    (valueAt_stored (summed host document) index).trans (valueOf_summed document index)
  have all : ∀ index, documentWeight host document index = (document.fields.map fun field =>
      together (weighted host (split host field.2) field.1) index).sum := fun index =>
    congrArg List.sum (List.map_congr_left fun field _ => (together_weighted _ _ index).symm)
  have kept : ∀ field ∈ document.fields,
      (∀ index, left (weighted host (split host field.2) field.1) index =
        together (weighted host (split host field.2) field.1) index) ↔
      Injective host (split host field.2) := fun field listed =>
    (left_eq_together_iff (weighted_pos (fields_pos document field listed))).trans
      (nodup_weighted_iff _ _)
  simp only [read, all]
  constructor
  next =>
    -- The fields' losses add up, and none is negative.
    intro same field listed
    refine (kept field listed).mp fun index => le_antisymm
      (left_le_together (weighted_pos (fields_pos document field listed)) index) ?_
    by_contra less
    refine absurd (same index) (ne_of_lt (List.sum_lt_sum _ _ (fun other within => ?_) ?_))
    next => exact left_le_together (weighted_pos (fields_pos document other within)) index
    next => exact ⟨field, listed, not_le.mp less⟩
  next =>
    intro injective index
    exact congrArg List.sum (List.map_congr_left fun field listed =>
      (kept field listed).mpr (injective field listed) index)

-- The vectors are well formed and the document's one loses no term exactly when no two tokens of a
-- field share an index, and no two of the query do.
theorem sparse_vectors_sound_iff (host : Host) (document : Document)
    (fulltextContent queryTokens : Text) :
    (WellFormed (buildDocumentSparseVector host document) ∧
      WellFormed (buildResourceSparseVector host fulltextContent) ∧
      WellFormed (buildQuerySparseVector host queryTokens) ∧
      ∀ index, valueAt (buildDocumentSparseVector host document) index =
        documentWeight host document index) ↔
    (∀ field ∈ document.fields, Injective host (split host field.2)) ∧
      Injective host (split host queryTokens) := by
  have form : WellFormed (buildDocumentSparseVector host document) :=
    wellFormed_stored (summed host document)
  rw [document_weight_iff, wellFormed_query_iff]
  constructor
  next =>
    rintro ⟨_, _, query, fields⟩
    exact ⟨fields, query⟩
  next =>
    rintro ⟨fields, query⟩
    exact ⟨form, wellFormed_resource host fulltextContent, query, fields⟩

def oneIndex : Host where
  hashToken := fun _ => 7
  isSpace := fun code => code == 32
  tokenizeForSearch := id

-- Two tokens with one index: the document keeps one of them, the query lists the index twice.
theorem shared_index_loses_term :
    let document : Document := ⟨[97, 32, 98, 32, 98, 32, 98], [], [], []⟩
    buildDocumentSparseVector oneIndex document = ([7], [6]) ∧ documentWeight oneIndex document 7 = 8 ∧
      buildQuerySparseVector oneIndex [97, 32, 98] = ([7, 7], [1, 1]) := by
  decide +kernel

end Vectors

end MemoryCloud.SparseVector
