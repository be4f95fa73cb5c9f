import Mathlib.Data.List.Sort
import Mathlib.Data.List.Induction
import MemoryCloud.Shared.Dict

set_option autoImplicit false

/-!
# One hit for each memory

`collapse_chunk_hits` groups the dense hits by memory in one pass. A group
keeps its first hit of the highest score and its last summary point.
-/

namespace MemoryCloud.Chunks

variable {S V : Type}

structure Payload (V : Type) where
  chunkOf : Option String
  chunkIndex : Option Nat
  chunkText : Option String
  contentHash : Option String
  rest : List (String × V)

namespace Payload

-- `{}`, which also stands in for a missing payload.
def empty : Payload V :=
  { chunkOf := none, chunkIndex := none, chunkText := none, contentHash := none, rest := [] }

def withoutChunkFields (payload : Payload V) : Payload V :=
  { payload with chunkOf := none, chunkIndex := none, chunkText := none, contentHash := none }

def noChunkFields (payload : Payload V) : Prop :=
  payload.chunkOf = none ∧ payload.chunkIndex = none ∧ payload.chunkText = none ∧
    payload.contentHash = none

theorem withoutChunkFields_none (payload : Payload V) : payload.withoutChunkFields.noChunkFields :=
  ⟨rfl, rfl, rfl, rfl⟩

end Payload

-- A dense hit. An absent key reads as `none`.
structure Hit (S V : Type) where
  id : String
  score : S
  payload : Option (Payload V)
  embedding : Option (List S)
  matchedChunkText : Option String
  matchedChunkIndex : Option Nat
  rest : List (String × V)

namespace Hit

def payloadOrEmpty (hit : Hit S V) : Payload V := hit.payload.getD .empty

-- `chunk_of`, where it is truthy.
def chunkOf (hit : Hit S V) : Option String := hit.payloadOrEmpty.chunkOf.filter (· ≠ "")

def marked (hit : Hit S V) : Bool := hit.payloadOrEmpty.chunkOf.isSome

def key (hit : Hit S V) : String := hit.chunkOf.getD hit.id

-- A summary point has none of the chunk fields, a chunk point names its memory.
def Point (hit : Hit S V) : Prop :=
  hit.payloadOrEmpty.noChunkFields ∨ ∃ memoryId, memoryId ≠ "" ∧
    hit.payloadOrEmpty.chunkOf = some memoryId

end Hit

structure Group (S V : Type) where
  summary : Option (Hit S V)
  best : Hit S V

section Collapse

variable [LinearOrder S]

def Group.add (group : Option (Group S V)) (hit : Hit S V) : Group S V where
  summary := if hit.chunkOf.isSome then group.bind Group.summary else some hit
  best :=
    match group with
    | none => hit
    | some group => if group.best.score < hit.score then hit else group.best

abbrev Groups (S V : Type) := Dict String (Group S V)

def addHit (groups : Groups S V) (hit : Hit S V) : Groups S V :=
  groups.set hit.key (Group.add (groups.get? hit.key) hit)

def groupHits (hits : List (Hit S V)) : Groups S V := hits.foldl addHit Dict.empty

omit [LinearOrder S] in
def collapsed (key : String) (group : Group S V) : Hit S V :=
  let best := group.best
  let bestPayload := best.payloadOrEmpty
  let chunkWon := best.marked
  let text := if chunkWon then bestPayload.chunkText else none
  let index := if chunkWon then bestPayload.chunkIndex else none
  match group.summary with
  | some summaryHit =>
    { summaryHit with
      id := summaryHit.id
      score := best.score
      payload := summaryHit.payload
      embedding := some (summaryHit.embedding.getD [])
      matchedChunkText := text
      matchedChunkIndex := index }
  | none =>
    { best with
      id := key
      score := best.score
      payload := some bestPayload.withoutChunkFields
      embedding := some []
      matchedChunkText := text
      matchedChunkIndex := index }

-- `collapse_chunk_hits`. The sort is stable.
def collapseChunkHits (hits : List (Hit S V)) : List (Hit S V) :=
  if hits.any Hit.marked then
    ((groupHits hits).entries.map fun entry => collapsed entry.1 entry.2).insertionSort
      fun first second => second.score ≤ first.score
  else hits

end Collapse

section Pass

variable [LinearOrder S] {hits seen : List (Hit S V)}

structure Group.Holds (group : Group S V) (key : String) (seen : List (Hit S V)) : Prop where
  best : group.best ∈ seen ∧ group.best.key = key
  most : ∀ hit ∈ seen, hit.key = key → hit.score ≤ group.best.score
  summary : ∀ hit ∈ group.summary, hit ∈ seen ∧ hit.key = key ∧ hit.chunkOf = none
  chunksOnly : group.summary = none → ∀ hit ∈ seen, hit.key = key → hit.chunkOf.isSome

structure Grouped (groups : Groups S V) (seen : List (Hit S V)) : Prop where
  missing : ∀ key, groups.get? key = none → ∀ hit ∈ seen, hit.key ≠ key
  holds : ∀ key group, groups.get? key = some group → group.Holds key seen

theorem Group.Holds.other {group : Group S V} {key : String} {hit : Hit S V}
    (holds : group.Holds key seen) (differs : hit.key ≠ key) : group.Holds key (seen ++ [hit]) := by
  refine ⟨⟨List.mem_append_left _ holds.best.1, holds.best.2⟩, fun other listed same => ?_,
    fun other listed => ?_, fun none other listed same => ?_⟩
  next =>
    rcases List.mem_append.mp listed with old | new
    next => exact holds.most other old same
    next => exact absurd (List.mem_singleton.mp new ▸ same) differs
  next =>
    obtain ⟨old, rest⟩ := holds.summary other listed
    exact ⟨List.mem_append_left _ old, rest⟩
  next =>
    rcases List.mem_append.mp listed with old | new
    next => exact holds.chunksOnly none other old same
    next => exact absurd (List.mem_singleton.mp new ▸ same) differs

theorem Group.Holds.first {hit : Hit S V} (fresh : ∀ other ∈ seen, other.key ≠ hit.key) :
    (Group.add none hit).Holds hit.key (seen ++ [hit]) := by
  have only : ∀ other ∈ seen ++ [hit], other.key = hit.key → other = hit := by
    intro other listed same
    rcases List.mem_append.mp listed with old | new
    next => exact absurd same (fresh other old)
    next => exact List.mem_singleton.mp new
  refine ⟨⟨by simp [Group.add], rfl⟩, fun other listed same => ?_, fun other listed => ?_,
    fun none other listed same => ?_⟩
  next => exact (only other listed same).symm ▸ le_refl _
  next =>
    unfold Group.add at listed
    dsimp only at listed
    split at listed
    next => cases listed
    next summary =>
      cases Option.mem_some.mp listed
      exact ⟨by simp, rfl, by simpa using summary⟩
  next =>
    rw [only other listed same]
    by_contra summary
    simp [Group.add, summary] at none

theorem Group.Holds.next {group : Group S V} {hit : Hit S V} (holds : group.Holds hit.key seen) :
    (Group.add (some group) hit).Holds hit.key (seen ++ [hit]) := by
  have best : (Group.add (some group) hit).best =
      if group.best.score < hit.score then hit else group.best := rfl
  have least : hit.score ≤ (Group.add (some group) hit).best.score ∧
      group.best.score ≤ (Group.add (some group) hit).best.score := by
    rw [best]
    split
    next higher => exact ⟨le_refl _, le_of_lt higher⟩
    next lower => exact ⟨not_lt.mp lower, le_refl _⟩
  refine ⟨?_, fun other listed same => ?_, fun other listed => ?_, fun none other listed same => ?_⟩
  next =>
    rw [best]
    split
    next => exact ⟨by simp, rfl⟩
    next => exact ⟨List.mem_append_left _ holds.best.1, holds.best.2⟩
  next =>
    rcases List.mem_append.mp listed with old | new
    next => exact (holds.most other old same).trans least.2
    next => exact List.mem_singleton.mp new ▸ least.1
  next =>
    unfold Group.add at listed
    dsimp only at listed
    split at listed
    next =>
      obtain ⟨old, rest⟩ := holds.summary other listed
      exact ⟨List.mem_append_left _ old, rest⟩
    next summary =>
      cases Option.mem_some.mp listed
      exact ⟨by simp, rfl, by simpa using summary⟩
  next =>
    have chunk : hit.chunkOf.isSome := by
      by_contra summary
      simp [Group.add, summary] at none
    have before : group.summary = Option.none := by
      simpa [Group.add, chunk] using none
    rcases List.mem_append.mp listed with old | new
    next => exact holds.chunksOnly before other old same
    next => exact List.mem_singleton.mp new ▸ chunk

theorem Grouped.step {groups : Groups S V} (hit : Hit S V) (grouped : Grouped groups seen) :
    Grouped (addHit groups hit) (seen ++ [hit]) := by
  refine ⟨fun key missing other listed same => ?_, fun key group found => ?_⟩
  next =>
    rw [addHit, Dict.get?_set] at missing
    split at missing
    next => cases missing
    next differs =>
      rcases List.mem_append.mp listed with old | new
      next => exact grouped.missing key missing other old same
      next => exact differs (List.mem_singleton.mp new ▸ same).symm
  next =>
    rw [addHit, Dict.get?_set] at found
    split at found
    next same =>
      subst same
      cases found
      cases before : groups.get? hit.key with
      | none => exact .first (grouped.missing _ before)
      | some group => exact (grouped.holds _ group before).next
    next differs => exact (grouped.holds key group found).other (Ne.symm differs)

theorem grouped_groupHits (hits : List (Hit S V)) : Grouped (groupHits hits) hits := by
  induction hits using List.reverseRecOn with
  | nil =>
    refine ⟨fun _ _ _ listed => absurd listed List.not_mem_nil, fun key group found => ?_⟩
    rw [groupHits, List.foldl_nil, Dict.get?_empty] at found
    cases found
  | append_singleton seen hit ih =>
    rw [groupHits, List.foldl_append]
    exact ih.step hit

end Pass

section Result

variable [LinearOrder S] {hits : List (Hit S V)}

def BestScore (hits : List (Hit S V)) (id : String) (score : S) : Prop :=
  (∃ hit ∈ hits, hit.key = id ∧ hit.score = score) ∧ ∀ hit ∈ hits, hit.key = id → hit.score ≤ score

structure Collapsed (hits out : List (Hit S V)) : Prop where
  distinct : (out.map Hit.id).Nodup
  ids : ∀ id, id ∈ out.map Hit.id ↔ ∃ hit ∈ hits, hit.key = id
  scores : ∀ id score, (id, score) ∈ out.map (fun hit => (hit.id, hit.score)) ↔
    BestScore hits id score
  summaries : ∀ result ∈ out, (∃ hit ∈ hits, hit.key = result.id ∧ hit.chunkOf = none) →
    ∃ hit ∈ hits, hit.key = result.id ∧ hit.chunkOf = none ∧ result.payload = hit.payload ∧
      result.embedding = some (hit.embedding.getD [])
  sorted : out.Pairwise fun first second => second.score ≤ first.score
  clean : ∀ result ∈ out, result.payloadOrEmpty.noChunkFields

theorem BestScore.unique {id : String} {first second : S} (one : BestScore hits id first)
    (two : BestScore hits id second) : first = second := by
  obtain ⟨⟨hit, listed, same, rfl⟩, most⟩ := one
  obtain ⟨⟨other, present, also, rfl⟩, least⟩ := two
  exact le_antisymm (least hit listed same) (most other present also)

theorem BestScore.perm {other : List (Hit S V)} {id : String} {score : S}
    (same : hits.Perm other) (best : BestScore hits id score) : BestScore other id score := by
  obtain ⟨⟨hit, listed, own⟩, most⟩ := best
  exact ⟨⟨hit, same.subset listed, own⟩, fun hit listed => most hit (same.symm.subset listed)⟩

theorem collapsed_id {key : String} {group : Group S V}
    (holds : group.Holds key hits) : (collapsed key group).id = key := by
  unfold collapsed
  dsimp only
  split
  next summary found =>
    obtain ⟨_, own, unchunked⟩ := holds.summary summary found
    simpa [Hit.key, unchunked] using own
  next => rfl

omit [LinearOrder S] in
theorem collapsed_score (key : String) (group : Group S V) :
    (collapsed key group).score = group.best.score := by
  unfold collapsed
  dsimp only
  split
  next => rfl
  next => rfl

theorem collapsed_summary {key : String} {group : Group S V} (holds : group.Holds key hits)
    {hit : Hit S V} (listed : hit ∈ hits) (own : hit.key = key) (summary : hit.chunkOf = none) :
    ∃ hit ∈ hits, hit.key = key ∧ hit.chunkOf = none ∧
      (collapsed key group).payload = hit.payload ∧
      (collapsed key group).embedding = some (hit.embedding.getD []) := by
  cases found : group.summary with
  | none => simpa [summary] using holds.chunksOnly found hit listed own
  | some kept =>
    obtain ⟨present, same, unchunked⟩ := holds.summary kept found
    exact ⟨kept, present, same, unchunked, by simp [collapsed, found], by simp [collapsed, found]⟩

theorem collapsed_clean {key : String} {group : Group S V} (holds : group.Holds key hits)
    (points : ∀ hit ∈ hits, hit.Point) : (collapsed key group).payloadOrEmpty.noChunkFields := by
  cases found : group.summary with
  | none =>
    have payload : (collapsed key group).payloadOrEmpty =
        group.best.payloadOrEmpty.withoutChunkFields := by
      simp [collapsed, found, Hit.payloadOrEmpty]
    exact payload ▸ Payload.withoutChunkFields_none _
  | some summary =>
    obtain ⟨listed, _, unchunked⟩ := holds.summary summary found
    have payload : (collapsed key group).payloadOrEmpty = summary.payloadOrEmpty := by
      simp [collapsed, found, Hit.payloadOrEmpty]
    rw [payload]
    rcases points summary listed with bare | ⟨memoryId, named, chunk⟩
    next => exact bare
    next => simp [Hit.chunkOf, chunk, named] at unchunked

def groupsLeft (hits : List (Hit S V)) : List (Hit S V) :=
  (groupHits hits).entries.map fun entry => collapsed entry.1 entry.2

theorem mem_groupsLeft {result : Hit S V} :
    result ∈ groupsLeft hits ↔ ∃ key group, (groupHits hits).get? key = some group ∧
      result = collapsed key group := by
  unfold groupsLeft
  rw [List.mem_map]
  constructor
  next =>
    rintro ⟨⟨key, group⟩, listed, rfl⟩
    exact ⟨key, group, Dict.get?_eq_some.mpr listed, rfl⟩
  next =>
    rintro ⟨key, group, found, rfl⟩
    exact ⟨(key, group), Dict.get?_eq_some.mp found, rfl⟩

theorem groupsLeft_ids (hits : List (Hit S V)) :
    (groupsLeft hits).map Hit.id = (groupHits hits).keys := by
  unfold groupsLeft Dict.keys
  rw [List.map_map]
  refine List.map_congr_left fun entry listed => ?_
  exact collapsed_id ((grouped_groupHits hits).holds _ _ (Dict.get?_eq_some.mpr listed))

theorem mem_groupHits_keys {id : String} :
    id ∈ (groupHits hits).keys ↔ ∃ hit ∈ hits, hit.key = id := by
  have grouped := grouped_groupHits hits
  rw [Dict.mem_keys]
  cases found : (groupHits hits).get? id with
  | none =>
    have missing := grouped.missing id found
    simpa using missing
  | some group =>
    have best := (grouped.holds id group found).best
    simpa using ⟨group.best, best⟩

theorem groupsLeft_scores {id : String} {score : S} :
    (id, score) ∈ (groupsLeft hits).map (fun hit => (hit.id, hit.score)) ↔
      BestScore hits id score := by
  have grouped := grouped_groupHits hits
  have best : ∀ key group, (groupHits hits).get? key = some group →
      BestScore hits key group.best.score := by
    intro key group found
    have holds := grouped.holds key group found
    exact ⟨⟨group.best, holds.best.1, holds.best.2, rfl⟩, holds.most⟩
  rw [List.mem_map]
  constructor
  next =>
    rintro ⟨result, listed, same⟩
    obtain ⟨key, group, found, rfl⟩ := mem_groupsLeft.mp listed
    rw [collapsed_id (grouped.holds key group found), collapsed_score] at same
    obtain ⟨rfl, rfl⟩ := Prod.mk.inj same
    exact best _ group found
  next =>
    intro highest
    obtain ⟨hit, listed, own, _⟩ := highest.1
    have present := mem_groupHits_keys.mpr ⟨hit, listed, own⟩
    obtain ⟨group, found⟩ := Option.isSome_iff_exists.mp (Dict.mem_keys.mp present)
    refine ⟨collapsed id group, mem_groupsLeft.mpr ⟨id, group, found, rfl⟩, ?_⟩
    rw [collapsed_id (grouped.holds id group found), collapsed_score,
      (best id group found).unique highest]

theorem collapseChunkHits_perm (chunk : ∃ hit ∈ hits, hit.marked = true) :
    (collapseChunkHits hits).Perm (groupsLeft hits) := by
  unfold collapseChunkHits
  rw [if_pos (List.any_eq_true.mpr chunk)]
  exact List.perm_insertionSort _ _

theorem collapseChunkHits_collapsed (chunk : ∃ hit ∈ hits, hit.marked = true)
    (points : ∀ hit ∈ hits, hit.Point) : Collapsed hits (collapseChunkHits hits) := by
  have same := collapseChunkHits_perm chunk
  have grouped := grouped_groupHits hits
  refine ⟨?_, fun id => ?_, fun id score => ?_, fun result listed => ?_, ?_,
    fun result listed => ?_⟩
  next =>
    rw [(same.map Hit.id).nodup_iff, groupsLeft_ids]
    exact (groupHits hits).keys_nodup
  next => rw [(same.map Hit.id).mem_iff, groupsLeft_ids, mem_groupHits_keys]
  next => rw [(same.map _).mem_iff, groupsLeft_scores]
  next =>
    obtain ⟨key, group, found, rfl⟩ := mem_groupsLeft.mp (same.subset listed)
    have holds := grouped.holds key group found
    rw [collapsed_id holds]
    rintro ⟨hit, present, own, summary⟩
    exact collapsed_summary holds present own summary
  next =>
    unfold collapseChunkHits
    rw [if_pos (List.any_eq_true.mpr chunk)]
    have total : Std.Total fun first second : Hit S V => second.score ≤ first.score :=
      ⟨fun first second => le_total second.score first.score⟩
    have trans : IsTrans (Hit S V) fun first second => second.score ≤ first.score :=
      ⟨fun _ _ _ one two => two.trans one⟩
    exact List.pairwise_insertionSort _ _
  next =>
    obtain ⟨key, group, found, rfl⟩ := mem_groupsLeft.mp (same.subset listed)
    exact collapsed_clean (grouped.holds key group found) points

theorem collapseChunkHits_unmarked {out : List (Hit S V)}
    (clean : ∀ hit ∈ out, hit.payloadOrEmpty.noChunkFields) : collapseChunkHits out = out := by
  unfold collapseChunkHits
  refine if_neg fun someMarked => ?_
  obtain ⟨hit, listed, marked⟩ := List.any_eq_true.mp someMarked
  simp [Hit.marked, (clean hit listed).1] at marked

end Result

theorem one_hit_per_memory [LinearOrder S] (hits : List (Hit S V))
    (chunk : ∃ hit ∈ hits, hit.marked = true) (points : ∀ hit ∈ hits, hit.Point) :
    Collapsed hits (collapseChunkHits hits) ∧
      (∀ other, other.Perm hits → ∀ pair,
        pair ∈ (collapseChunkHits other).map (fun hit => (hit.id, hit.score)) ↔
          pair ∈ (collapseChunkHits hits).map fun hit => (hit.id, hit.score)) ∧
      collapseChunkHits (collapseChunkHits hits) = collapseChunkHits hits := by
  have collapsed := collapseChunkHits_collapsed chunk points
  refine ⟨collapsed, fun other same pair => ?_, collapseChunkHits_unmarked collapsed.clean⟩
  obtain ⟨id, score⟩ := pair
  obtain ⟨hit, listed, marked⟩ := chunk
  have also := collapseChunkHits_collapsed ⟨hit, same.symm.subset listed, marked⟩
    fun hit listed => points hit (same.subset listed)
  rw [also.scores, collapsed.scores]
  exact ⟨BestScore.perm same, BestScore.perm same.symm⟩

def summaryHit (id : String) (score : Nat) : Hit Nat String :=
  { id
    score
    payload := some { (Payload.empty : Payload String) with rest := [("summary", id)] }
    embedding := some [score]
    matchedChunkText := none
    matchedChunkIndex := none
    rest := [] }

def chunkHit (memoryId : String) (index score : Nat) : Hit Nat String :=
  { id := memoryId ++ toString index
    score
    payload := some
      { (Payload.empty : Payload String) with
        chunkOf := some memoryId
        chunkIndex := some index
        chunkText := some "text" }
    embedding := none
    matchedChunkText := none
    matchedChunkIndex := none
    rest := [] }

-- A memory found through both kinds of point, and one found through a chunk only.
theorem one_hit_per_memory_mixed :
    let hits := [summaryHit "a" 3, chunkHit "b" 0 4, chunkHit "a" 1 5]
    (collapseChunkHits hits).map (fun hit => (hit.id, hit.score)) = [("a", 5), ("b", 4)] ∧
      Collapsed hits (collapseChunkHits hits) := by
  intro hits
  refine ⟨by decide, (one_hit_per_memory hits ⟨chunkHit "b" 0 4, by simp [hits], rfl⟩ ?_).1⟩
  intro hit listed
  simp only [hits, List.mem_cons, List.not_mem_nil, or_false] at listed
  rcases listed with rfl | rfl | rfl
  next => exact Or.inl ⟨rfl, rfl, rfl, rfl⟩
  next => exact Or.inr ⟨"b", by decide, rfl⟩
  next => exact Or.inr ⟨"a", by decide, rfl⟩

end MemoryCloud.Chunks
