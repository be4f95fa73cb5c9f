import Mathlib.Data.List.Pairwise
import MemoryCloud.Shared.Distinct
import MemoryCloud.Tags.Model

set_option autoImplicit false

/-!
# The groups of a widened filter

A group is an identifier of the request with its spellings. Two requested tags with one fold and
different numbers keep apart the spellings that the fold gives to both.
-/

namespace MemoryCloud.Tags

open Distinct

variable {unicode : Unicode} {listed expanded requested : List Tag} {tag other spelling : Tag}

section Group

-- A requested tag of the same fold is another identifier.
def Contested (unicode : Unicode) (listed : List Tag) (tag : Tag) : Prop :=
  ∃ other ∈ listed, normalizeTag unicode other = normalizeTag unicode tag ∧
    rawDigitRuns unicode other ≠ rawDigitRuns unicode tag

theorem isMechanicalVariant_iff :
    isMechanicalVariant unicode tag other = true ↔
      normalizeTag unicode tag ≠ [] ∧ normalizeTag unicode other = normalizeTag unicode tag ∧
        rawDigitRuns unicode other = rawDigitRuns unicode tag := by
  rw [isMechanicalVariant]
  split
  next apart =>
    simp only [Bool.false_eq_true, false_iff]
    rintro ⟨folds, fold, _⟩
    exact apart.elim folds fun differs => differs fold.symm
  next same =>
    rw [not_or, not_not] at same
    rw [beq_iff_eq]
    exact ⟨fun runs => ⟨same.1, same.2.symm, runs.symm⟩, fun both => both.2.2.symm⟩

theorem length_same_lt_iff (nodup : listed.Nodup) (present : tag ∈ listed)
    (folds : normalizeTag unicode tag ≠ []) :
    ((listed.filter fun peer => normalizeTag unicode peer = normalizeTag unicode tag).filter
        fun peer => peer ≠ tag ∧ isMechanicalVariant unicode tag peer).length + 1 <
      (listed.filter fun peer => normalizeTag unicode peer = normalizeTag unicode tag).length ↔
    Contested unicode listed tag := by
  generalize peersOf : (listed.filter fun peer =>
    normalizeTag unicode peer = normalizeTag unicode tag) = peers
  have mem_peers : ∀ peer, peer ∈ peers ↔
      peer ∈ listed ∧ normalizeTag unicode peer = normalizeTag unicode tag := by
    intro peer
    rw [← peersOf, List.mem_filter, decide_eq_true_eq]
  have nodupPeers : peers.Nodup := peersOf ▸ nodup.filter _
  have self : tag ∈ peers.filter (isMechanicalVariant unicode tag) :=
    List.mem_filter.mpr ⟨(mem_peers tag).mpr ⟨present, rfl⟩,
      isMechanicalVariant_iff.mpr ⟨folds, rfl, rfl⟩⟩
  -- The variants beside the tag are the variants less the tag.
  have same : (peers.filter fun peer => peer ≠ tag ∧ isMechanicalVariant unicode tag peer).length + 1 =
      (peers.filter (isMechanicalVariant unicode tag)).length := by
    have erased : (peers.filter fun peer => peer ≠ tag ∧ isMechanicalVariant unicode tag peer) =
        (peers.filter (isMechanicalVariant unicode tag)).erase tag := by
      rw [(nodupPeers.filter _).erase_eq_filter, List.filter_filter]
      refine List.filter_congr fun peer _ => ?_
      rw [Bool.eq_iff_iff]
      simp
    rw [erased, List.length_erase_of_mem self]
    exact Nat.sub_add_cancel (List.length_pos_of_mem self)
  rw [same, List.length_filter_lt_length_iff_exists]
  constructor
  next =>
    rintro ⟨peer, listedPeer, differs⟩
    obtain ⟨inside, fold⟩ := (mem_peers peer).mp listedPeer
    exact ⟨peer, inside, fold, fun runs => differs (isMechanicalVariant_iff.mpr ⟨folds, fold, runs⟩)⟩
  next =>
    rintro ⟨peer, inside, fold, runs⟩
    exact ⟨peer, (mem_peers peer).mpr ⟨inside, fold⟩,
      fun variant => runs (isMechanicalVariant_iff.mp variant).2.2⟩

theorem tagGroup_unfolded (folds : normalizeTag unicode tag = []) :
    tagGroup unicode listed expanded tag = [tag] := by
  rw [tagGroup]
  exact if_pos folds

theorem mem_tagGroup (nodup : listed.Nodup) (present : tag ∈ listed)
    (folds : normalizeTag unicode tag ≠ []) :
    spelling ∈ tagGroup unicode listed expanded tag ↔
      normalizeTag unicode spelling = normalizeTag unicode tag ∧
        (spelling ∈ listed ∧ rawDigitRuns unicode spelling = rawDigitRuns unicode tag ∨
          spelling ∉ listed ∧ spelling ∈ expanded ∧ (Contested unicode listed tag →
            rawDigitRuns unicode spelling = rawDigitRuns unicode tag)) := by
  have contested := length_same_lt_iff nodup present folds
  rw [tagGroup]
  simp only [if_neg folds]
  split
  next fewer =>
    have other := contested.mp fewer
    simp only [List.cons_append, List.mem_cons, List.mem_append, List.mem_filter,
      List.mem_eraseDups, decide_eq_true_eq, isMechanicalVariant_iff]
    grind
  next all =>
    have alone := mt contested.mpr all
    have sole : ∀ peer ∈ listed, normalizeTag unicode peer = normalizeTag unicode tag →
        rawDigitRuns unicode peer = rawDigitRuns unicode tag := by
      intro peer inside fold
      by_contra runs
      exact alone ⟨peer, inside, fold, runs⟩
    simp only [List.cons_append, List.mem_cons, List.mem_append, List.mem_filter,
      List.mem_eraseDups, decide_eq_true_eq, isMechanicalVariant_iff]
    grind

theorem fold_of_mem_tagGroup (nodup : listed.Nodup) (present : tag ∈ listed)
    (within : spelling ∈ tagGroup unicode listed expanded tag) :
    normalizeTag unicode spelling = normalizeTag unicode tag := by
  by_cases folds : normalizeTag unicode tag = []
  next =>
    rw [tagGroup_unfolded folds, List.mem_singleton] at within
    rw [within]
  next => exact ((mem_tagGroup nodup present folds).mp within).1

theorem self_mem_tagGroup : tag ∈ tagGroup unicode listed expanded tag := by
  rw [tagGroup]
  split
  next => exact List.mem_singleton.mpr rfl
  next => exact List.mem_cons_self

end Group

section Apart

theorem sameSet_iff {first second : List Tag} :
    sameSet first second = true ↔ ∀ tag, tag ∈ first ↔ tag ∈ second := by
  rw [sameSet, decide_eq_true_eq]
  exact ⟨fun both tag => ⟨fun within => both.1 within, fun within => both.2 within⟩,
    fun same => ⟨fun tag => (same tag).mp, fun tag => (same tag).mpr⟩⟩

def Apart (groups : List (List Tag)) : Prop :=
  ∀ first ∈ groups, ∀ second ∈ groups, sameSet first second = true ∨ first.Disjoint second

theorem tagGroups_apart (nodup : listed.Nodup) :
    Apart (listed.map (tagGroup unicode listed expanded)) := by
  intro first listedFirst second listedSecond
  obtain ⟨tag, present, rfl⟩ := List.mem_map.mp listedFirst
  obtain ⟨other, present', rfl⟩ := List.mem_map.mp listedSecond
  by_cases fold : normalizeTag unicode other = normalizeTag unicode tag
  next =>
    by_cases folds : normalizeTag unicode tag = []
    next =>
      rw [tagGroup_unfolded folds, tagGroup_unfolded (fold.trans folds)]
      by_cases same : tag = other
      next => exact .inl (sameSet_iff.mpr fun spelling => by rw [same])
      next => exact .inr (by simpa using Ne.symm same)
    next =>
      have folds' : normalizeTag unicode other ≠ [] := fold ▸ folds
      by_cases runs : rawDigitRuns unicode other = rawDigitRuns unicode tag
      next =>
        refine .inl (sameSet_iff.mpr fun spelling => ?_)
        rw [mem_tagGroup nodup present folds, mem_tagGroup nodup present' folds', Contested,
          Contested, fold, runs]
      next =>
        have contested : Contested unicode listed tag := ⟨other, present', fold, runs⟩
        have contested' : Contested unicode listed other := ⟨tag, present, fold.symm, Ne.symm runs⟩
        refine .inr fun spelling within within' => runs ?_
        rw [mem_tagGroup nodup present folds] at within
        rw [mem_tagGroup nodup present' folds'] at within'
        have first : rawDigitRuns unicode spelling = rawDigitRuns unicode tag :=
          within.2.elim And.right fun added => added.2.2 contested
        have second : rawDigitRuns unicode spelling = rawDigitRuns unicode other :=
          within'.2.elim And.right fun added => added.2.2 contested'
        exact second.symm.trans first
  next =>
    refine .inr fun spelling within within' => fold ?_
    exact (fold_of_mem_tagGroup nodup present' within').symm.trans
      (fold_of_mem_tagGroup nodup present within)

structure Emitted (gone groups : List (List Tag)) : Prop where
  subset : groups ⊆ gone
  disjoint : groups.Pairwise List.Disjoint
  kept : ∀ group ∈ gone, ∃ emitted ∈ groups, sameSet group emitted = true

theorem Emitted.emit {gone groups : List (List Tag)} {group : List Tag}
    (apart : Apart (gone ++ [group])) (emitted : Emitted gone groups) :
    Emitted (gone ++ [group]) (emit groups group) := by
  have self : sameSet group group = true := sameSet_iff.mpr fun _ => Iff.rfl
  rw [Tags.emit]
  split
  next found =>
    obtain ⟨earlier, listed, same⟩ := List.any_eq_true.mp found
    refine ⟨fun other within => List.mem_append_left _ (emitted.subset within), emitted.disjoint,
      fun other within => ?_⟩
    rcases List.mem_append.mp within with old | new
    next => exact emitted.kept other old
    next => exact ⟨earlier, listed, (List.mem_singleton.mp new) ▸ same⟩
  next fresh =>
    refine ⟨fun other within => ?_, List.pairwise_append.mpr
      ⟨emitted.disjoint, List.pairwise_singleton _ _, fun other within last new => ?_⟩,
      fun other within => ?_⟩
    next =>
      exact (List.mem_append.mp within).elim
        (fun old => List.mem_append_left _ (emitted.subset old)) (List.mem_append_right _)
    next =>
      obtain rfl := List.mem_singleton.mp new
      have old := List.mem_append_left [last] (emitted.subset within)
      have clash := (apart last (by simp) other old).resolve_left fun same =>
        fresh (List.any_eq_true.mpr ⟨other, within, same⟩)
      exact fun tag inside inside' => clash inside' inside
    next =>
      rcases List.mem_append.mp within with old | new
      next =>
        obtain ⟨earlier, listed, same⟩ := emitted.kept other old
        exact ⟨earlier, List.mem_append_left _ listed, same⟩
      next => exact ⟨group, by simp, (List.mem_singleton.mp new) ▸ self⟩

theorem emitted_all {groups : List (List Tag)} (apart : Apart groups) :
    Emitted groups (groups.foldl emit []) := by
  induction groups using List.reverseRecOn with
  | nil => exact ⟨List.Subset.refl _, .nil, by simp⟩
  | append_singleton gone group ih =>
    rw [List.foldl_append, List.foldl_cons, List.foldl_nil]
    refine Emitted.emit apart (ih fun first listed second listed' => ?_)
    exact apart first (List.mem_append_left _ listed) second (List.mem_append_left _ listed')

end Apart

section Widening

theorem listedTags_nodup (requested : List Tag) : (listedTags requested).Nodup :=
  (nodup_eraseDups requested).sublist (List.take_sublist _ _)

theorem addSpellings_mem (expanded variants : List Tag) :
    ∀ tag ∈ (addSpellings expanded variants).1, tag ∈ expanded ∨ tag ∈ variants := by
  rw [addSpellings]
  refine List.foldlRecOn (motive := fun state : List Tag × List Tag =>
    ∀ tag ∈ state.1, tag ∈ expanded ∨ tag ∈ variants) variants _ (fun _ within => .inl within) ?_
  intro state kept variant listed tag within
  dsimp only at within
  split at within
  next => exact kept tag within
  next =>
    rcases List.mem_append.mp within with old | new
    next => exact kept tag old
    next => exact .inr (List.mem_singleton.mp new ▸ listed)

theorem expandTag_mem (vocabulary tags : List Tag) (state : Expansion) (asked : Tag) :
    ∀ tag ∈ (expandTag unicode vocabulary tags state asked).expanded,
      tag ∈ state.expanded ∨ tag = asked ∨ tag ∈ vocabulary := by
  have listed : ∀ tag ∈ (if asked ∈ state.expanded then state.expanded
      else state.expanded ++ [asked]), tag ∈ state.expanded ∨ tag = asked := by
    intro tag within
    split at within
    next => exact .inl within
    next => simpa using within
  intro tag within
  rw [expandTag] at within
  dsimp only at within
  split at within
  next => exact (listed tag within).imp_right .inl
  next =>
    rcases addSpellings_mem _ _ tag within with old | added
    next => exact (listed tag old).imp_right .inl
    next =>
      have stored := List.mem_of_mem_take added
      rw [List.mem_insertionSort] at stored
      exact .inr (.inr (List.mem_of_mem_filter stored))

theorem expandTagFilter_mem (vocabulary : Option (List Tag)) (tags : List Tag) :
    ∀ tag ∈ (expandTagFilter unicode vocabulary tags).expanded,
      tag ∈ tags ∨ ∃ stored, vocabulary = some stored ∧ tag ∈ stored := by
  cases vocabulary with
  | none => exact fun tag within => .inl within
  | some stored =>
    rw [expandTagFilter]
    suffices kept : ∀ (rest : List Tag) (state : Expansion), (∀ asked ∈ rest, asked ∈ tags) →
        (∀ tag ∈ state.expanded, tag ∈ tags ∨ tag ∈ stored) →
        ∀ tag ∈ (rest.foldl (expandTag unicode stored tags) state).expanded,
          tag ∈ tags ∨ tag ∈ stored by
      intro tag within
      exact (kept tags ⟨[], []⟩ (fun _ asked => asked) (by simp) tag within).imp_right
        fun inside => ⟨stored, rfl, inside⟩
    intro rest
    induction rest with
    | nil => exact fun state _ held => held
    | cons asked rest ih =>
      intro state within held
      refine ih _ (fun other later => within other (List.mem_cons_of_mem _ later)) fun tag inside => ?_
      rcases expandTag_mem stored tags state asked tag inside with old | rfl | added
      next => exact held tag old
      next => exact .inl (within tag List.mem_cons_self)
      next => exact .inr added

-- A memory's tags answer a filter that asks for one spelling of each group.
def Matches (groups : List (List Tag)) (stored : List Tag) : Prop :=
  ∀ group ∈ groups, ∃ spelling ∈ group, spelling ∈ stored

-- Widening a filter on all of its tags is conservative.
theorem widened_filter_conservative (unicode : Unicode) (requested : List Tag)
    (vocabulary : Option (List Tag)) :
    let listed := listedTags requested
    let groups := tagFilterGroups unicode requested
      (expandTagFilter unicode vocabulary requested).expanded
    groups.Pairwise List.Disjoint ∧
    (∀ tag ∈ listed, ∃ group ∈ groups, tag ∈ group) ∧
    (∀ stored, (∀ tag ∈ listed, tag ∈ stored) → Matches groups stored) ∧
    (∀ group ∈ groups, ∃ tag ∈ listed, tag ∈ group ∧ ∀ spelling ∈ group,
      (spelling ∈ requested ∨ ∃ stored, vocabulary = some stored ∧ spelling ∈ stored) ∧
      normalizeTag unicode spelling = normalizeTag unicode tag ∧
      (spelling ∈ listed ∨ Contested unicode listed tag → spelling = tag ∨
        isMechanicalVariant unicode tag spelling = true)) ∧
    ∀ stored, (groups.filter fun group => stored ∈ group).length ≤ 1 := by
  intro listed groups
  have nodup : listed.Nodup := listedTags_nodup requested
  have emitted : Emitted (listed.map (tagGroup unicode listed
      (expandTagFilter unicode vocabulary requested).expanded)) groups :=
    emitted_all (tagGroups_apart nodup)
  have asked : ∀ tag ∈ listed, tag ∈ requested := fun tag present =>
    List.mem_eraseDups.mp (List.mem_of_mem_take present)
  refine ⟨emitted.disjoint, fun tag present => ?_, fun stored all group within => ?_,
    fun group within => ?_, fun stored => ?_⟩
  next =>
    obtain ⟨group, within, same⟩ := emitted.kept _ (List.mem_map_of_mem present)
    exact ⟨group, within, (sameSet_iff.mp same tag).mp self_mem_tagGroup⟩
  next =>
    obtain ⟨tag, present, rfl⟩ := List.mem_map.mp (emitted.subset within)
    exact ⟨tag, self_mem_tagGroup, all tag present⟩
  next =>
    obtain ⟨tag, present, rfl⟩ := List.mem_map.mp (emitted.subset within)
    refine ⟨tag, present, self_mem_tagGroup, fun spelling inside => ?_⟩
    by_cases folds : normalizeTag unicode tag = []
    next =>
      rw [tagGroup_unfolded folds, List.mem_singleton] at inside
      subst inside
      exact ⟨.inl (asked _ present), rfl, fun _ => .inl rfl⟩
    next =>
      obtain ⟨fold, runs⟩ := (mem_tagGroup nodup present folds).mp inside
      refine ⟨?_, fold, fun close => .inr (isMechanicalVariant_iff.mpr ⟨folds, fold, ?_⟩)⟩
      next =>
        rcases runs with ⟨named, _⟩ | ⟨_, added, _⟩
        next => exact .inl (asked spelling named)
        next => exact expandTagFilter_mem vocabulary requested spelling added
      next =>
        rcases runs with ⟨_, runs⟩ | ⟨unlisted, _, runs⟩
        next => exact runs
        next => exact runs (close.resolve_left unlisted)
  next =>
    have apart := emitted.disjoint.filter fun group => decide (stored ∈ group)
    have inside : ∀ group ∈ groups.filter fun group => decide (stored ∈ group), stored ∈ group :=
      fun group within => of_decide_eq_true (List.mem_filter.mp within).2
    generalize groups.filter (fun group => decide (stored ∈ group)) = holders at apart inside
    match holders with
    | [] => exact Nat.zero_le _
    | [_] => exact le_rfl
    | first :: second :: _ =>
      have clash := (List.pairwise_cons.mp apart).1 second List.mem_cons_self
      exact absurd (inside second (by simp)) (clash (inside first List.mem_cons_self))

def ascii : Unicode where
  nfkc := id
  casefold := List.map fun code => if 65 ≤ code ∧ code ≤ 90 then code + 32 else code
  isSpace := fun code => decide (code ∈ text " \t\n\r")
  isDecimal := fun code => decide (48 ≤ code ∧ code ≤ 57)

-- One fold and other numbers: the stored tag counts for the requested one.
theorem fold_adds_other_number :
    let requested := [text "v0.11.0"]
    let groups := tagFilterGroups ascii requested
      (expandTagFilter ascii (some [text "v0.1.10"]) requested).expanded
    groups = [[text "v0.11.0", text "v0.1.10"]] ∧
      isMechanicalVariant ascii (text "v0.11.0") (text "v0.1.10") = false := by
  decide +kernel

end Widening

end MemoryCloud.Tags
