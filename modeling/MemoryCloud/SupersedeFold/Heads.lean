import MemoryCloud.SupersedeFold.Model

set_option autoImplicit false

/-!
# Heads and what is folded under them

A head is a memory of the pool that no other one reaches, and what a head reaches is folded under
the newest such head. What only a cycle without a head reaches is not folded.
-/

namespace MemoryCloud.SupersedeFold

open Search SetDict Relation

section Pools

variable {Id Time : Type} [DecidableEq Id]

theorem addNode_ids (pool : List (Memory Id Time)) (memory : Memory Id Time) (id : Id) :
    id ∈ (addNode pool memory).map Memory.id ↔ id ∈ pool.map Memory.id ∨ id = memory.id := by
  unfold addNode
  split
  next listed =>
    constructor
    next => exact .inl
    next => exact fun either => either.elim (·) fun same => same ▸ listed
  next => simp

theorem addNodes_spec (memories pool : List (Memory Id Time))
    (distinct : (pool.map Memory.id).Nodup) :
    ((memories.foldl addNode pool).map Memory.id).Nodup ∧
      ∀ id, id ∈ (memories.foldl addNode pool).map Memory.id ↔
        id ∈ pool.map Memory.id ∨ id ∈ memories.map Memory.id := by
  induction memories generalizing pool with
  | nil => exact ⟨distinct, fun id => by simp⟩
  | cons memory rest ih =>
    have added : ((addNode pool memory).map Memory.id).Nodup := by
      unfold addNode
      split
      next => exact distinct
      next fresh =>
        rw [List.map_append, List.map_singleton, List.nodup_append]
        refine ⟨distinct, List.nodup_singleton _, fun id listed other same => ?_⟩
        rw [List.mem_singleton] at same
        exact fun equal => fresh (same ▸ equal ▸ listed)
    obtain ⟨nodup, ids⟩ := ih (addNode pool memory) added
    refine ⟨nodup, fun id => ?_⟩
    rw [List.foldl_cons, ids, addNode_ids, List.map_cons, List.mem_cons]
    tauto

variable {V Q F : Type} {memories : String → Option (Memory Id Time)} {rows : List (Row V Q F)}

theorem poolOf_nodup : ((poolOf memories rows).map Memory.id).Nodup :=
  (addNodes_spec _ [] List.nodup_nil).1

theorem mem_poolOf {id : Id} :
    id ∈ (poolOf memories rows).map Memory.id ↔ ∃ row ∈ rows, row.isOf memories id := by
  rw [poolOf, (addNodes_spec _ [] List.nodup_nil).2]
  simp only [List.map_nil, List.not_mem_nil, false_or, List.mem_map, List.mem_filterMap, Row.isOf,
    Option.any_eq_true, decide_eq_true_eq]
  constructor
  next =>
    rintro ⟨memory, ⟨row, listed, found⟩, rfl⟩
    exact ⟨row, listed, memory, found, rfl⟩
  next =>
    rintro ⟨row, listed, memory, found, rfl⟩
    exact ⟨memory, ⟨row, listed, found⟩, rfl⟩

end Pools

section Links

variable {Id Time : Type} [DecidableEq Id]

theorem mem_bridgesOf {hydrated pool : List (Memory Id Time)} {shadowMap : List (Id × Id)} {id : Id} :
    id ∈ (bridgesOf hydrated pool shadowMap).map Memory.id ↔
      id ∈ hydrated.map Memory.id ∧ id ∈ shadowMap.map Prod.fst ∧ id ∉ pool.map Memory.id := by
  rw [bridgesOf, (addNodes_spec _ [] List.nodup_nil).2, List.map_nil, List.mem_map, List.mem_map]
  simp only [List.not_mem_nil, false_or, List.mem_filter, decide_eq_true_eq]
  constructor
  next =>
    rintro ⟨memory, ⟨listed, shadowed⟩, rfl⟩
    exact ⟨⟨memory, listed, rfl⟩, shadowed⟩
  next =>
    rintro ⟨⟨memory, listed, rfl⟩, shadowed⟩
    exact ⟨memory, ⟨listed, shadowed⟩, rfl⟩

-- An edge of shadowing leads from its source to the bridge, a verified candidate to its memory.
theorem link_foldLinks {bridges nodes : List Id} {candidates : List (Id × Candidate Id)}
    {shadowMap : List (Id × Id)} {source target : Id} :
    Link (foldLinks bridges nodes candidates shadowMap) source target ↔
      (target, source) ∈ shadowMap ∧ target ∈ bridges ∧ source ∈ nodes ∨
        ∃ candidate, (source, candidate) ∈ candidates ∧ candidate.verified = some true ∧
          candidate.memoryId = target ∧ target ∈ nodes ∧ target ≠ source := by
  have shadowing : ∀ (edges : List (Id × Id)) (links : List (Id × List Id)),
      Link (edges.foldl (fun links edge =>
        if edge.1 ∈ bridges ∧ edge.2 ∈ nodes then add edge.2 edge.1 links else links) links)
          source target ↔
        Link links source target ∨ (target, source) ∈ edges ∧ target ∈ bridges ∧ source ∈ nodes := by
    intro edges
    induction edges with
    | nil => simp
    | cons edge rest ih =>
      intro links
      rw [List.foldl_cons, ih]
      split
      next both =>
        rw [Link, mem_add, List.mem_cons, Prod.ext_iff]
        unfold Link
        grind
      next neither =>
        rw [List.mem_cons, Prod.ext_iff]
        grind
  have verified : ∀ (entries : List (Id × Candidate Id)) (links : List (Id × List Id)),
      Link (entries.foldl (fun links entry =>
        if entry.2.verified = some true ∧ entry.2.memoryId ∈ nodes ∧ entry.2.memoryId ≠ entry.1 then
          add entry.1 entry.2.memoryId links
        else links) links) source target ↔
        Link links source target ∨ ∃ candidate, (source, candidate) ∈ entries ∧
          candidate.verified = some true ∧ candidate.memoryId = target ∧ target ∈ nodes ∧
            target ≠ source := by
    intro entries
    induction entries with
    | nil => simp
    | cons entry rest ih =>
      intro links
      rw [List.foldl_cons, ih]
      simp only [List.mem_cons, Prod.ext_iff]
      split
      next added =>
        rw [Link, mem_add]
        unfold Link
        grind
      next => grind
  unfold foldLinks
  rw [verified, shadowing]
  simp [Link]

end Links

section Heads

variable {Id Time : Type} [DecidableEq Id] {links : List (Id × List Id)}

theorem reaches_iff {source target : Id} :
    reaches links source target ↔ TransGen (Link links) source target ∧ target ≠ source := by
  rw [reaches, decide_eq_true_eq, mem_visit_iff]

theorem reaches_trans {first second third : Id} (front : reaches links first second)
    (back : reaches links second third) (other : third ≠ first) : reaches links first third := by
  rw [reaches_iff] at front back ⊢
  exact ⟨front.1.trans back.1, other⟩

variable {pool : List (Memory Id Time)}

theorem isHead_iff {id : Id} :
    isHead links pool id ↔ ∀ source ∈ pool.map Memory.id, ¬ reaches links source id := by
  simp [isHead, List.all_eq_true]

variable [LinearOrder Time] {str : Id → String}

theorem foldedUnder_some {id head : Id} (folded : foldedUnder links pool str id = some head) :
    id ∈ pool.map Memory.id ∧ head ∈ pool.map Memory.id ∧ isHead links pool head ∧
      reaches links head id := by
  unfold foldedUnder at folded
  split at folded
  next listed =>
    obtain ⟨owner, newest, rfl⟩ := Option.map_eq_some_iff.mp folded
    have owned := List.mem_filter.mp (List.argmax_mem newest)
    rw [Bool.and_eq_true] at owned
    exact ⟨listed, List.mem_map_of_mem owned.1, owned.2.2, owned.2.1⟩
  next => cases folded

theorem foldedUnder_none {id source : Id} (listed : id ∈ pool.map Memory.id)
    (free : foldedUnder links pool str id = none) (owner : source ∈ pool.map Memory.id)
    (reached : reaches links source id) : ¬ isHead links pool source := by
  intro head
  rw [foldedUnder, if_pos listed, Option.map_eq_none_iff, List.argmax_eq_none,
    List.filter_eq_nil_iff] at free
  obtain ⟨memory, inside, rfl⟩ := List.mem_map.mp owner
  exact free memory inside (by rw [reached, head, Bool.and_self])

-- Nothing reaches a head, so it is not folded.
theorem foldedUnder_head {head : Id} (top : isHead links pool head) :
    foldedUnder links pool str head = none := by
  cases folded : foldedUnder links pool str head with
  | none => rfl
  | some other =>
    obtain ⟨_, listed, _, reached⟩ := foldedUnder_some folded
    exact absurd reached (isHead_iff.mp top other listed)

theorem mem_membersOf {head id : Id} :
    id ∈ membersOf links pool str head ↔ foldedUnder links pool str id = some head := by
  simp only [membersOf, List.mem_map, List.mem_insertionSort, List.mem_filter, decide_eq_true_eq]
  constructor
  next =>
    rintro ⟨memory, ⟨_, folded⟩, rfl⟩
    exact folded
  next =>
    intro folded
    obtain ⟨memory, listed, rfl⟩ := List.mem_map.mp (foldedUnder_some folded).1
    exact ⟨memory, ⟨listed, folded⟩, rfl⟩

theorem membersOf_nodup (distinct : (pool.map Memory.id).Nodup) (head : Id) :
    (membersOf links pool str head).Nodup :=
  ((List.perm_insertionSort _ _).map Memory.id).nodup_iff.mpr
    (distinct.sublist (List.filter_sublist.map Memory.id))

theorem mem_foldMap {entry : Id × List Id} :
    entry ∈ foldMap links pool str ↔
      entry.2 = membersOf links pool str entry.1 ∧ entry.2 ≠ [] := by
  simp only [foldMap, List.mem_filter, decide_eq_true_eq, List.mem_map]
  constructor
  next =>
    rintro ⟨⟨head, _, rfl⟩, filled⟩
    exact ⟨rfl, filled⟩
  next =>
    rintro ⟨members, filled⟩
    obtain ⟨id, listed⟩ := List.exists_mem_of_ne_nil _ filled
    rw [members, mem_membersOf] at listed
    obtain ⟨memory, inside, same⟩ := List.mem_map.mp (foldedUnder_some listed).2.1
    exact ⟨⟨entry.1, ⟨memory, inside, same⟩, Prod.ext rfl members.symm⟩, filled⟩

theorem headOf_eq_some {id head : Id} :
    headOf links pool str id = some head ↔
      ∃ entry ∈ foldMap links pool str, entry.1 = head ∧ (id = head ∨ id ∈ entry.2) := by
  unfold headOf
  by_cases none : membersOf links pool str id = []
  next =>
    rw [if_pos none]
    constructor
    next =>
      intro folded
      have member := mem_membersOf.mpr folded
      exact ⟨(head, _), mem_foldMap.mpr ⟨rfl, List.ne_nil_of_mem member⟩, rfl, .inr member⟩
    next =>
      rintro ⟨entry, listed, rfl, rfl | member⟩
      next => exact absurd ((mem_foldMap.mp listed).1.trans none) (mem_foldMap.mp listed).2
      next => rwa [(mem_foldMap.mp listed).1, mem_membersOf] at member
  next =>
    rw [if_neg none, Option.some.injEq]
    constructor
    next =>
      rintro rfl
      exact ⟨(id, _), mem_foldMap.mpr ⟨rfl, none⟩, rfl, .inl rfl⟩
    next =>
      rintro ⟨entry, listed, rfl, same | member⟩
      next => exact same
      next =>
        -- A memory with members is a head, and no head is a member.
        rw [(mem_foldMap.mp listed).1, mem_membersOf] at member
        obtain ⟨other, inside⟩ := List.exists_mem_of_ne_nil _ none
        rw [foldedUnder_head (foldedUnder_some (mem_membersOf.mp inside)).2.2.1] at member
        cases member

-- Once the folded memories are gone, nothing is left to fold.
theorem foldMap_again {later : List (Memory Id Time)}
    (left : ∀ id, id ∈ later.map Memory.id ↔
      id ∈ pool.map Memory.id ∧ foldedUnder links pool str id = none) :
    foldMap links later str = [] := by
  rw [List.eq_nil_iff_forall_not_mem]
  intro entry listed
  obtain ⟨members, filled⟩ := mem_foldMap.mp listed
  obtain ⟨id, member⟩ := List.exists_mem_of_ne_nil _ filled
  rw [members, mem_membersOf] at member
  obtain ⟨present, owner, head, reached⟩ := foldedUnder_some member
  rw [left] at present owner
  refine foldedUnder_none present.1 present.2 owner.1 reached (isHead_iff.mpr ?_)
  intro source listed reaching
  cases folded : foldedUnder links pool str source with
  | none => exact isHead_iff.mp head source ((left source).mpr ⟨listed, folded⟩) reaching
  | some above =>
    obtain ⟨_, aboveListed, aboveHead, aboveReaches⟩ := foldedUnder_some folded
    by_cases same : entry.1 = above
    next => exact isHead_iff.mp (same ▸ aboveHead) source listed reaching
    next =>
      refine isHead_iff.mp head above ((left above).mpr ⟨aboveListed, foldedUnder_head aboveHead⟩) ?_
      exact reaches_trans aboveReaches reaching same

end Heads

end MemoryCloud.SupersedeFold
