import Mathlib.Data.Set.Card
import MemoryCloud.Dedup.Components

set_option autoImplicit false

/-!
# Oversize clusters are split soundly

The internal pairs are taken in one total order. A component never outgrows the cap, its recorded
size is its real one, and what it joins was joined by pairs inside it.
-/

namespace MemoryCloud.Dedup

open SetDict Forest Relation

variable {N Q : Type} [DecidableEq N]

section Searching

variable {cluster : List N}

theorem findHalving_spec {steps fuel : Nat} {parent : N → N} {x root : N}
    (grows : Grows cluster parent) (leads : Leads parent x steps root) (listed : x ∈ cluster)
    (enough : steps < fuel) :
    ∃ found, findHalving fuel parent x = some (root, found) ∧ Grows cluster found ∧
      SameRoots parent found := by
  induction steps using Nat.strongRecOn generalizing fuel parent x with
  | ind steps ih =>
    obtain ⟨fuel, rfl⟩ : ∃ less, fuel = less + 1 := ⟨fuel - 1, by omega⟩
    cases leads with
    | root top =>
      exact ⟨parent, if_pos top, grows, SameRoots.refl _⟩
    | @up _ _ less below rest =>
      obtain ⟨more, near, nearer⟩ : ∃ more ≤ less, Leads parent (parent (parent x)) more root := by
        cases rest with
        | root top => exact ⟨0, Nat.zero_le _, by rw [top]; exact .root top⟩
        | up _ further => exact ⟨_, Nat.le_succ _, further⟩
      have whole : Leads parent x (less + 1) root := .up below rest
      have target := grows.inside _ (grows.inside x listed)
      obtain ⟨grown, same⟩ := shortcut below whole nearer (Nat.lt_succ_of_le near) grows listed target
      have moved : Function.update parent x (parent (parent x)) x = parent (parent x) :=
        Function.update_self _ _ _
      obtain ⟨found, answer, after, kept⟩ := ih more (Nat.lt_succ_of_le near) grown
        (whole.update nearer (Nat.lt_succ_of_le near)) target
        (Nat.lt_of_le_of_lt near (Nat.lt_of_succ_lt_succ enough))
      refine ⟨found, ?_, after, same.trans kept⟩
      rw [findHalving, if_neg below]
      simp only [moved]
      exact answer

theorem findHalving_answers {parent : N → N} {x : N} (grows : Grows cluster parent)
    (listed : x ∈ cluster) :
    ∃ root found, findHalving (cluster.length + 1) parent x = some (root, found) ∧
      RootOf parent x root ∧ Grows cluster found ∧ SameRoots parent found := by
  obtain ⟨root, steps, leads⟩ := grows.grounded x
  obtain ⟨found, answer, grown, same⟩ := findHalving_spec grows leads listed
    (Nat.lt_succ_of_lt (leads.steps_lt grows.inside listed))
  exact ⟨root, found, answer, leads.rootOf, grown, same⟩

end Searching

section Merging

variable {cluster : List N} {maxSize : Int} {state : Components N} {ends : List (N × N)}

def treeOf (cluster : List N) (parent : N → N) (root : N) : Set N :=
  {x | x ∈ cluster ∧ RootOf parent x root}

omit [DecidableEq N] in
theorem treeOf_finite (cluster : List N) (parent : N → N) (root : N) :
    (treeOf cluster parent root).Finite :=
  (List.finite_toSet cluster).subset fun _ inside => inside.1

def RecordsSizes (cluster : List N) (state : Components N) : Prop :=
  ∀ root ∈ cluster, state.parent root = root →
    state.compSize root = (treeOf cluster state.parent root).ncard

structure Divides (cluster : List N) (maxSize : Int) (ends : List (N × N)) (state : Components N) :
    Prop where
  grows : Grows cluster state.parent
  sizes : RecordsSizes cluster state
  fits : ∀ root ∈ cluster, state.parent root = root →
    state.compSize root = 1 ∨ (state.compSize root : Int) ≤ maxSize
  used : ∃ joined, joined ⊆ ends ∧ Represents state.parent joined

omit [DecidableEq N] in
theorem start_divides : Divides cluster maxSize ends
    { parent := id, compSize := fun _ => 1, skippedPairs := 0 } where
  grows := ⟨fun node => ⟨node, rootOf_self rfl⟩, fun _ listed => listed, fun _ _ => rfl⟩
  sizes := by
    intro root listed _
    have single : treeOf cluster id root = {root} := by
      ext x
      refine ⟨fun inside => (inside.2.self rfl).symm, ?_⟩
      rintro rfl
      exact ⟨listed, rootOf_self rfl⟩
    rw [single, Set.ncard_singleton]
  fits _ _ _ := .inl rfl
  used := ⟨[], List.nil_subset _, empty_built.represents⟩

omit [DecidableEq N] in
theorem treeOf_congr {parent parent' : N → N} (same : SameRoots parent parent') (root : N) :
    treeOf cluster parent' root = treeOf cluster parent root := by
  ext x
  exact and_congr_right fun _ => same x root

omit [DecidableEq N] in
theorem Divides.searched (divides : Divides cluster maxSize ends state) {parent : N → N}
    (grows : Grows cluster parent) (same : SameRoots state.parent parent) (skipped : Nat) :
    Divides cluster maxSize ends
      { parent, compSize := state.compSize, skippedPairs := skipped } := by
  obtain ⟨joined, included, represents⟩ := divides.used
  refine ⟨grows, fun root listed top => ?_, fun root listed top => ?_,
    joined, included, represents.congr same⟩
  next =>
    rw [treeOf_congr same]
    exact divides.sizes root listed (same.top.mp top)
  next => exact divides.fits root listed (same.top.mp top)

theorem Divides.joined (divides : Divides cluster maxSize ends state) {left right a b : N}
    (leadsA : RootOf state.parent left a) (leadsB : RootOf state.parent right b) (apart : a ≠ b)
    (listedA : a ∈ cluster) (listedB : b ∈ cluster) (taken : (left, right) ∈ ends)
    (small : (state.compSize a + state.compSize b : Int) ≤ maxSize) :
    Divides cluster maxSize ends
      { parent := Function.update state.parent b a
        compSize := Function.update state.compSize a (state.compSize a + state.compSize b)
        skippedPairs := state.skippedPairs } := by
  obtain ⟨grown, roots⟩ := link divides.grows leadsA.top leadsB.top apart listedA listedB
  obtain ⟨joined, included, represents⟩ := divides.used
  have oldTop : ∀ root, Function.update state.parent b a root = root → root ≠ b ∧
      state.parent root = root := by
    intro root top
    have different : root ≠ b := by
      rintro rfl
      rw [Function.update_self] at top
      exact apart top
    exact ⟨different, by rwa [Function.update_of_ne different] at top⟩
  refine ⟨grown, fun root listed top => ?_, fun root listed top => ?_,
    joined ++ [(left, right)], ?_, represents.link divides.grows leadsA leadsB apart listedA listedB⟩
  next =>
    obtain ⟨different, before⟩ := oldTop root top
    by_cases same : root = a
    next =>
      subst same
      have whole : treeOf cluster (Function.update state.parent b root) root =
          treeOf cluster state.parent root ∪ treeOf cluster state.parent b := by
        ext x
        simp only [treeOf, Set.mem_union, Set.mem_ofPred_eq, roots]
        simp only [ne_eq, apart, not_false_eq_true, and_true]
        exact and_or_left
      have disjoint : Disjoint (treeOf cluster state.parent root) (treeOf cluster state.parent b) :=
        Set.disjoint_left.mpr fun x one two => apart (one.2.unique two.2)
      change Function.update state.compSize root _ root = _
      rw [Function.update_self, whole,
        Set.ncard_union_eq disjoint (treeOf_finite _ _ _) (treeOf_finite _ _ _),
        ← divides.sizes root listed before, ← divides.sizes b listedB leadsB.top]
    next =>
      have unchanged : treeOf cluster (Function.update state.parent b a) root =
          treeOf cluster state.parent root := by
        ext x
        simp [treeOf, roots, same, different]
      change Function.update state.compSize a _ root = _
      rw [Function.update_of_ne same, unchanged]
      exact divides.sizes root listed before
  next =>
    obtain ⟨_, before⟩ := oldTop root top
    change Function.update state.compSize a _ root = 1 ∨
      ((Function.update state.compSize a _ root : Nat) : Int) ≤ maxSize
    by_cases same : root = a
    next =>
      subst same
      rw [Function.update_self]
      exact .inr (by exact_mod_cast small)
    next =>
      rw [Function.update_of_ne same]
      exact divides.fits root listed before
  next =>
    exact List.append_subset.mpr ⟨included, List.cons_subset.mpr ⟨taken, List.nil_subset _⟩⟩

theorem mergePair_divides (divides : Divides cluster maxSize ends state) {pair : ScoredPair N Q}
    (first : pair.first ∈ cluster) (second : pair.second ∈ cluster) (taken : pair.ends ∈ ends) :
    ∃ next, mergePair cluster maxSize state pair = some next ∧ Divides cluster maxSize ends next := by
  obtain ⟨a, one, answer, leadsA, grownOne, sameOne⟩ := findHalving_answers divides.grows first
  obtain ⟨b, two, answer', leadsB, grownTwo, sameTwo⟩ := findHalving_answers grownOne second
  have both := sameOne.trans sameTwo
  have searched := divides.searched grownTwo both
  have leadsA' : RootOf two pair.first a := (both _ _).mpr leadsA
  have leadsB' : RootOf two pair.second b := (sameTwo _ _).mpr leadsB
  unfold mergePair
  simp only [answer, answer', Option.bind_eq_bind, Option.bind_some]
  split
  next => exact ⟨_, rfl, searched state.skippedPairs⟩
  next apart =>
    split
    next => exact ⟨_, rfl, searched (state.skippedPairs + 1)⟩
    next small =>
      exact ⟨_, rfl, (searched state.skippedPairs).joined leadsA' leadsB' apart
        (grownTwo.root_mem leadsA' first) (grownTwo.root_mem leadsB' second) taken (Int.not_lt.mp small)⟩

variable (cluster maxSize ends) in
theorem mergePairs_divides (pairs : List (ScoredPair N Q))
    (inside : ∀ pair ∈ pairs, pair.first ∈ cluster ∧ pair.second ∈ cluster)
    (taken : ∀ pair ∈ pairs, pair.ends ∈ ends) :
    ∃ state, mergePairs cluster maxSize pairs = some state ∧ Divides cluster maxSize ends state := by
  induction pairs using List.reverseRecOn with
  | nil => exact ⟨_, rfl, start_divides⟩
  | append_singleton pairs pair ih =>
    obtain ⟨state, answer, divides⟩ := ih
      (fun other listed => inside other (List.mem_append_left _ listed))
      (fun other listed => taken other (List.mem_append_left _ listed))
    have last : pair ∈ pairs ++ [pair] := by simp
    obtain ⟨next, answer', divides'⟩ := mergePair_divides divides (inside pair last).1
      (inside pair last).2 (taken pair last)
    refine ⟨next, ?_, divides'⟩
    rw [mergePairs, List.foldlM_append, ← mergePairs, answer]
    simpa using answer'

end Merging

section Ordering

variable [LinearOrder Q] {naming : Naming N} {cluster : List N}

def ScoredPair.turned (pair : ScoredPair N Q) : ScoredPair N Q :=
  { first := pair.second, second := pair.first, score := pair.score }

def SamePairs (pairs others : List (ScoredPair N Q)) : Prop :=
  ∃ either : List (ScoredPair N Q),
    List.Forall₂ (fun pair other => other = pair ∨ other = pair.turned) pairs either ∧
      either.Perm others

omit [DecidableEq N] [LinearOrder Q] in
theorem pairSortKey_injective : Function.Injective (pairSortKey (Q := Q) naming) := by
  intro left right same
  obtain ⟨a, b, score⟩ := left
  obtain ⟨c, d, score'⟩ := right
  simp only [pairSortKey, EmbeddingLike.apply_eq_iff_eq, Prod.mk.injEq] at same
  obtain ⟨rfl, first, second⟩ := same
  rw [naming.distinct first, naming.distinct second]

omit [DecidableEq N] [LinearOrder Q] in
theorem orderedPair_turned (pair : ScoredPair N Q) :
    orderedPair naming pair.turned = orderedPair naming pair := by
  unfold orderedPair ScoredPair.turned
  rcases lt_trichotomy (naming.str pair.first) (naming.str pair.second) with less | same | less
  next => rw [if_pos less, if_neg (lt_asymm less)]
  next =>
    obtain ⟨a, b, score⟩ := pair
    have equal : a = b := naming.distinct same
    subst equal
    rfl
  next => rw [if_neg (lt_asymm less), if_pos less]

omit [DecidableEq N] [LinearOrder Q] in
variable (naming) in
theorem orderedPair_ends (pair : ScoredPair N Q) :
    orderedPair naming pair = pair ∨ orderedPair naming pair = pair.turned := by
  unfold orderedPair
  split
  next => exact .inr rfl
  next => exact .inl rfl

theorem mem_internalPairs {pairs : List (ScoredPair N Q)} {pair : ScoredPair N Q}
    (listed : pair ∈ internalPairs naming cluster pairs) :
    (pair.first ∈ cluster ∧ pair.second ∈ cluster) ∧ (pair ∈ pairs ∨ pair.turned ∈ pairs) := by
  rw [internalPairs, List.mem_insertionSort, List.mem_map] at listed
  obtain ⟨old, kept, rfl⟩ := listed
  obtain ⟨present, inside⟩ := List.mem_filter.mp kept
  rw [decide_eq_true_eq] at inside
  rcases orderedPair_ends naming old with same | turned
  next =>
    rw [same]
    exact ⟨inside, .inl present⟩
  next =>
    rw [turned]
    exact ⟨inside.symm, .inr present⟩

theorem internalPairs_same {pairs others : List (ScoredPair N Q)} (same : SamePairs pairs others) :
    internalPairs naming cluster others = internalPairs naming cluster pairs := by
  obtain ⟨either, turned, perm⟩ := same
  have aligned : (either.filter fun pair => decide (pair.first ∈ cluster ∧ pair.second ∈ cluster)).map
      (orderedPair naming) =
        (pairs.filter fun pair => decide (pair.first ∈ cluster ∧ pair.second ∈ cluster)).map
          (orderedPair naming) := by
    clear perm
    induction turned with
    | nil => rfl
    | @cons pair other _ _ equal _ ih =>
      rcases equal with rfl | rfl
      next =>
        rw [List.filter_cons, List.filter_cons]
        split
        next => rw [List.map_cons, List.map_cons, ih]
        next => exact ih
      next =>
        have both : decide (pair.turned.first ∈ cluster ∧ pair.turned.second ∈ cluster) =
            decide (pair.first ∈ cluster ∧ pair.second ∈ cluster) :=
          decide_eq_decide.mpr and_comm
        rw [List.filter_cons, List.filter_cons, both]
        split
        next => rw [List.map_cons, List.map_cons, ih, orderedPair_turned]
        next => exact ih
  have sortedPerm := ((perm.symm.filter fun pair =>
    decide (pair.first ∈ cluster ∧ pair.second ∈ cluster)).map (orderedPair naming))
  rw [aligned] at sortedPerm
  refine (((List.perm_insertionSort _ _).trans sortedPerm).trans
    (List.perm_insertionSort _ _).symm).eq_of_pairwise ?_ (List.pairwise_insertionSort _ _)
    (List.pairwise_insertionSort _ _)
  exact fun left right _ _ low high => pairSortKey_injective (le_antisymm low high)

end Ordering

section Claims

variable [LinearOrder Q]

omit [DecidableEq N] in
theorem joined_inside {ends : List (N × N)} {link : N → N → Prop} {group : List N} {x y : N}
    (closed : ∀ a ∈ group, ∀ b, Joined ends a b → b ∈ group)
    (links : ∀ a b, (a, b) ∈ ends → link a b ∨ link b a) (joined : Joined ends x y)
    (inside : x ∈ group) : EqvGen (fun a b => link a b ∧ a ∈ group ∧ b ∈ group) x y := by
  induction joined with
  | rel a b listed =>
    have other := closed a inside b (.rel a b listed)
    rcases links a b listed with forward | backward
    next => exact .rel a b ⟨forward, inside, other⟩
    next => exact .symm b a (.rel b a ⟨backward, other, inside⟩)
  | refl a => exact .refl a
  | symm a b joined ih => exact .symm a b (ih (closed b inside a (joined.symm _ _)))
  | trans a b c one two ihOne ihTwo =>
    exact .trans a b c (ihOne inside) (ihTwo (closed a inside b one))

theorem splitOversizeCluster_groups (naming : Naming N) (cluster : List N)
    (pairs : List (ScoredPair N Q)) (maxSize : Int) :
    ∃ subclusters skipped,
      splitOversizeCluster naming cluster pairs maxSize = some (subclusters, skipped) ∧
      subclusters.Pairwise List.Disjoint ∧
      ∀ group ∈ subclusters, group.Nodup ∧ group ⊆ cluster ∧ 2 ≤ group.length ∧
        (group.length : Int) ≤ maxSize ∧ ∀ x ∈ group, ∀ y ∈ group,
          EqvGen (fun a b => (∃ score, ⟨a, b, score⟩ ∈ pairs) ∧ a ∈ group ∧ b ∈ group) x y := by
  obtain ⟨state, merged, divides⟩ := mergePairs_divides cluster maxSize
    ((internalPairs naming cluster pairs).map ScoredPair.ends) (internalPairs naming cluster pairs)
    (fun pair listed => (mem_internalPairs listed).1) (fun pair listed => List.mem_map_of_mem listed)
  choose label known using divides.grows.grounded
  let Kept (parent : N → N) : Prop := Grows cluster parent ∧ SameRoots state.parent parent
  have answers : ∀ parent, Kept parent → ∀ x ∈ cluster,
      ∃ next, findHalving (cluster.length + 1) parent x = some (label x, next) ∧ Kept next := by
    rintro parent ⟨grows, same⟩ x listed
    obtain ⟨root, found, answer, leads, grown, still⟩ := findHalving_answers grows listed
    obtain rfl := ((same x root).mp leads).unique (known x)
    exact ⟨found, answer, grown, same.trans still⟩
  obtain ⟨groups, done, grouped⟩ := groupBy_grouped Kept answers ⟨divides.grows, SameRoots.refl _⟩
    (Grouped.nil label)
  rw [List.nil_append] at grouped
  refine ⟨(groups.map Prod.snd).filter fun group => decide (2 ≤ group.length), state.skippedPairs,
    ?_, grouped.disjoint.sublist List.filter_sublist, fun group listed => ?_⟩
  next => simp [splitOversizeCluster, merged, done]
  next =>
    obtain ⟨inside, size⟩ := List.mem_filter.mp listed
    rw [decide_eq_true_eq] at size
    obtain ⟨entry, present, rfl⟩ := List.mem_map.mp inside
    have distinct := grouped.nodup_entry present
    have members := grouped.mem_entry present
    refine ⟨distinct, fun x member => ((members x).mp member).1, size, ?_, fun x member y also => ?_⟩
    next =>
      obtain ⟨x, member⟩ := List.exists_mem_of_ne_nil _ (grouped.entry_ne_nil present)
      obtain ⟨listed, same⟩ := (members x).mp member
      have root : RootOf state.parent x entry.1 := same ▸ known x
      have whole : treeOf cluster state.parent entry.1 = (entry.2.toFinset : Set N) := by
        ext y
        rw [List.coe_toFinset, Set.mem_ofPred_eq, members]
        refine and_congr_right fun _ => ⟨fun path => (known y).unique path, ?_⟩
        exact fun same => same ▸ known y
      have recorded := divides.sizes entry.1 (divides.grows.root_mem root listed) root.top
      rw [whole, Set.ncard_coe_finset, List.toFinset_card_of_nodup distinct] at recorded
      have bounded := divides.fits entry.1 (divides.grows.root_mem root listed) root.top
      omega
    next =>
      obtain ⟨joined, included, represents⟩ := divides.used
      refine joined_inside (fun a inA b both => ?_) (fun a b taken => ?_)
        ((represents x y).mp ⟨entry.1, ?_, ?_⟩) member
      next =>
        obtain ⟨listed, same⟩ := (members a).mp inA
        obtain ⟨root, one, two⟩ := (represents a b).mpr both
        refine (members b).mpr ⟨divides.grows.sameRoot_mem listed ⟨root, one, two⟩, ?_⟩
        exact ((known b).unique two).trans ((one.unique (known a)).trans same)
      next =>
        obtain ⟨pair, listed, ends⟩ := List.mem_map.mp (included taken)
        obtain ⟨rfl, rfl⟩ := Prod.mk.inj ends
        rcases (mem_internalPairs listed).2 with forward | backward
        next => exact .inl ⟨pair.score, forward⟩
        next => exact .inr ⟨pair.score, backward⟩
      next => exact ((members x).mp member).2 ▸ known x
      next => exact ((members y).mp also).2 ▸ known y

-- The clusters are the connected components, and an oversize cluster is split soundly.
theorem oversize_clusters_split_soundly (naming : Naming N) (pairs : List (ScoredPair N Q)) :
    (∃ clusters, clustersOf pairs = some clusters ∧ clusters.flatten.Nodup ∧
      (∀ x, x ∈ clusters.flatten ↔ ∃ pair ∈ pairs, x = pair.first ∨ x = pair.second) ∧
      ∀ cluster ∈ clusters, cluster ≠ [] ∧
        ∀ x ∈ cluster, ∀ y, y ∈ cluster ↔ Joined (pairs.map ScoredPair.ends) x y) ∧
    ∀ (cluster : List N) (maxSize : Int),
      (∃ subclusters skipped,
        splitOversizeCluster naming cluster pairs maxSize = some (subclusters, skipped) ∧
        subclusters.Pairwise List.Disjoint ∧
        ∀ group ∈ subclusters, group.Nodup ∧ group ⊆ cluster ∧ 2 ≤ group.length ∧
          (group.length : Int) ≤ maxSize ∧ ∀ x ∈ group, ∀ y ∈ group,
            EqvGen (fun a b => (∃ score, ⟨a, b, score⟩ ∈ pairs) ∧ a ∈ group ∧ b ∈ group) x y) ∧
      (∀ others, SamePairs pairs others → splitOversizeCluster naming cluster others maxSize =
        splitOversizeCluster naming cluster pairs maxSize) ∧
      ∀ done rest, internalPairs naming cluster pairs = done ++ rest →
        ∃ state, mergePairs cluster maxSize done = some state ∧ RecordsSizes cluster state := by
  refine ⟨clustersOf_components pairs, fun cluster maxSize => ⟨?_, fun others same => ?_,
    fun done rest split => ?_⟩⟩
  next => exact splitOversizeCluster_groups naming cluster pairs maxSize
  next => simp only [splitOversizeCluster, internalPairs_same same]
  next =>
    have inside : ∀ pair ∈ done, pair ∈ internalPairs naming cluster pairs := by
      intro pair listed
      rw [split]
      exact List.mem_append_left _ listed
    obtain ⟨state, answer, divides⟩ := mergePairs_divides cluster maxSize
      (done.map ScoredPair.ends) done (fun pair listed => (mem_internalPairs (inside pair listed)).1)
      (fun pair listed => List.mem_map_of_mem listed)
    exact ⟨state, answer, divides.sizes⟩

end Claims

end MemoryCloud.Dedup
