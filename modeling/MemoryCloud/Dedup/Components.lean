import Mathlib.Data.List.Induction
import MemoryCloud.Dedup.Clusters
import MemoryCloud.Shared.Forest

set_option autoImplicit false

/-!
# The clusters are the connected components

The trees of the union-find stand for the pairs it has seen; a search only shortens ways.
-/

namespace MemoryCloud.Dedup

open SetDict Forest

variable {N Q : Type} [DecidableEq N]

section Grouping

variable {S : Type} {find : S → N → Option (N × S)} {label : N → N}

-- A search that always answers the label groups by it.
theorem groupBy_grouped (Kept : S → Prop) {values rest : List N}
    (answers : ∀ state, Kept state → ∀ x ∈ rest, ∃ next, find state x = some (label x, next) ∧ Kept next)
    {state : S} (kept : Kept state) {groups : List (N × List N)} (grouped : Grouped label values groups) :
    ∃ all, groupBy find rest state groups = some all ∧ Grouped label (values ++ rest) all := by
  induction rest generalizing values state groups with
  | nil => exact ⟨groups, rfl, by rwa [List.append_nil]⟩
  | cons x rest ih =>
    obtain ⟨next, answer, stays⟩ := answers state kept x List.mem_cons_self
    obtain ⟨all, done, whole⟩ := ih
      (fun state kept other listed => answers state kept other (List.mem_cons_of_mem _ listed))
      stays (grouped.add x)
    refine ⟨all, ?_, by rwa [List.append_assoc, List.singleton_append] at whole⟩
    rw [groupBy, answer, Option.bind_some]
    exact done

theorem groups_flatten {values : List N} {groups : List (N × List N)}
    (grouped : Grouped label values groups) :
    (groups.map Prod.snd).flatten.Nodup ∧ ∀ x, x ∈ (groups.map Prod.snd).flatten ↔ x ∈ values := by
  constructor
  next =>
    rw [List.nodup_flatten]
    refine ⟨fun group listed => ?_, grouped.disjoint⟩
    obtain ⟨entry, inside, rfl⟩ := List.mem_map.mp listed
    exact grouped.nodup_entry inside
  next =>
    intro x
    rw [List.mem_flatten]
    constructor
    next =>
      rintro ⟨group, listed, inside⟩
      obtain ⟨entry, present, rfl⟩ := List.mem_map.mp listed
      exact ((grouped.mem_entry present x).mp inside).1
    next =>
      intro listed
      obtain ⟨entry, present, inside⟩ := grouped.exists_entry listed
      exact ⟨entry.2, List.mem_map_of_mem present, inside⟩

end Grouping

section Searching

variable {uf : UnionFind N} {x : N}

theorem ensure_listed (listed : x ∈ uf.nodes) : uf.ensure x = uf :=
  if_pos listed

theorem ensure_fresh (grows : Grows uf.nodes uf.parent) (fresh : x ∉ uf.nodes) :
    (uf.ensure x).nodes = uf.nodes ++ [x] ∧ (uf.ensure x).parent = uf.parent := by
  rw [UnionFind.ensure, if_neg fresh]
  exact ⟨rfl, Function.update_eq_self_iff.mpr (grows.outside x fresh).symm⟩

omit [DecidableEq N] in
theorem grows_concat {nodes : List N} {parent : N → N} (grows : Grows nodes parent)
    (fresh : x ∉ nodes) : Grows (nodes ++ [x]) parent := by
  refine ⟨grows.grounded, fun other listed => ?_, fun other outside => ?_⟩
  next =>
    rcases List.mem_append.mp listed with old | new
    next => exact List.mem_append_left _ (grows.inside other old)
    next =>
      rw [List.mem_singleton.mp new, grows.outside x fresh]
      simp
  next => exact grows.outside other fun old => outside (List.mem_append_left _ old)

theorem findUp_spec (grows : Grows uf.nodes uf.parent) {steps fuel : Nat} {root : N}
    (leads : Leads uf.parent x steps root) (listed : x ∈ uf.nodes) (enough : steps < fuel) :
    ∃ found, UnionFind.findUp fuel uf x = some (root, found) ∧ found.nodes = uf.nodes ∧
      Grows uf.nodes found.parent ∧ SameRoots uf.parent found.parent := by
  induction leads generalizing fuel with
  | @root x top =>
    obtain ⟨fuel, rfl⟩ := Nat.exists_eq_add_of_lt enough
    refine ⟨uf, ?_, rfl, grows, SameRoots.refl _⟩
    rw [UnionFind.findUp, ensure_listed listed, if_pos top]
  | @up x root steps below rest ih =>
    obtain ⟨fuel, rfl⟩ : ∃ less, fuel = less + 1 := ⟨fuel - 1, by omega⟩
    obtain ⟨found, answer, nodes, grown, same⟩ := ih (grows.inside x listed) (Nat.lt_of_succ_lt_succ enough)
    have newBelow : found.parent x ≠ x := fun top => below (same.top.mp top)
    obtain ⟨more, path⟩ : RootOf found.parent x root :=
      (same x root).mpr (Leads.up below rest).rootOf
    have top : found.parent root = root := path.top
    have far : 0 < more := by
      cases path with
      | root top => exact absurd top newBelow
      | up _ _ => exact Nat.succ_pos _
    have present : root ∈ uf.nodes := grows.root_mem (Leads.up below rest).rootOf listed
    obtain ⟨after, kept⟩ := shortcut newBelow path (.root top) far grown listed present
    refine ⟨{ found with parent := Function.update found.parent x root }, ?_, nodes, after,
      same.trans kept⟩
    rw [UnionFind.findUp, ensure_listed listed, if_neg below, answer, Option.map_some]

theorem find_spec (grows : Grows uf.nodes uf.parent) (x : N) :
    ∃ root found, uf.find x = some (root, found) ∧ RootOf uf.parent x root ∧
      found.nodes = (if x ∈ uf.nodes then uf.nodes else uf.nodes ++ [x]) ∧
      Grows found.nodes found.parent ∧ SameRoots uf.parent found.parent := by
  by_cases listed : x ∈ uf.nodes
  next =>
    obtain ⟨root, steps, leads⟩ := grows.grounded x
    have near := leads.steps_lt grows.inside listed
    obtain ⟨found, answer, nodes, grown, same⟩ :=
      findUp_spec grows leads listed (Nat.lt_succ_of_lt near)
    refine ⟨root, found, answer, leads.rootOf, ?_, ?_, same⟩
    next => rw [nodes, if_pos listed]
    next => rwa [nodes]
  next =>
    have top := grows.outside x listed
    obtain ⟨nodes, parent⟩ := ensure_fresh grows listed
    refine ⟨x, uf.ensure x, ?_, rootOf_self top, ?_, ?_, ?_⟩
    next => rw [UnionFind.find, UnionFind.findUp, if_pos (by rw [parent, top])]
    next => rw [nodes, if_neg listed]
    next =>
      rw [nodes, parent]
      exact grows_concat grows listed
    next =>
      rw [parent]
      exact SameRoots.refl _

end Searching

section Building

structure Built (uf : UnionFind N) (ends : List (N × N)) : Prop where
  grows : Grows uf.nodes uf.parent
  nodup : uf.nodes.Nodup
  nodes : ∀ x, x ∈ uf.nodes ↔ ∃ pair ∈ ends, x = pair.1 ∨ x = pair.2
  represents : Represents uf.parent ends

omit [DecidableEq N] in
theorem empty_built : Built (UnionFind.empty : UnionFind N) [] where
  grows := ⟨fun node => ⟨node, rootOf_self rfl⟩, fun _ listed => listed, fun _ _ => rfl⟩
  nodup := List.nodup_nil
  nodes := by simp [UnionFind.empty]
  represents := by
    intro first second
    have own : ∀ {node root : N}, RootOf id node root → root = node := fun path => path.self rfl
    constructor
    next =>
      rintro ⟨root, one, two⟩
      rw [← own one, ← own two]
      exact .refl root
    next =>
      intro joined
      have same : first = second := by
        induction joined with
        | rel _ _ listed => cases listed
        | refl _ => rfl
        | symm _ _ _ ih => exact ih.symm
        | trans _ _ _ _ _ one two => exact one.trans two
      exact ⟨first, rootOf_self rfl, same ▸ rootOf_self rfl⟩

theorem find_nodes {uf found : UnionFind N} {x : N} (distinct : uf.nodes.Nodup)
    (nodes : found.nodes = if x ∈ uf.nodes then uf.nodes else uf.nodes ++ [x]) :
    found.nodes.Nodup ∧ ∀ y, y ∈ found.nodes ↔ y ∈ uf.nodes ∨ y = x := by
  rw [nodes]
  split
  next listed =>
    refine ⟨distinct, fun y => ⟨.inl, fun either => either.elim (·) fun same => same ▸ listed⟩⟩
  next fresh =>
    refine ⟨?_, by simp⟩
    rw [List.nodup_append]
    refine ⟨distinct, List.nodup_singleton _, fun y listed other same => ?_⟩
    rw [List.mem_singleton] at same
    exact fun equal => fresh (same ▸ equal ▸ listed)

theorem union_built {uf : UnionFind N} {ends : List (N × N)} (built : Built uf ends) (x y : N) :
    ∃ joined, uf.union x y = some joined ∧ Built joined (ends ++ [(x, y)]) := by
  obtain ⟨rx, one, answer, rootX, nodesOne, grownOne, sameOne⟩ := find_spec built.grows x
  obtain ⟨ry, two, answer', rootY, nodesTwo, grownTwo, sameTwo⟩ := find_spec grownOne y
  obtain ⟨distinctOne, memOne⟩ := find_nodes built.nodup nodesOne
  obtain ⟨distinctTwo, memTwo⟩ := find_nodes distinctOne nodesTwo
  have represents := (built.represents.congr sameOne).congr sameTwo
  have leadsX : RootOf two.parent x rx := (sameTwo x rx).mpr ((sameOne x rx).mpr rootX)
  have leadsY : RootOf two.parent y ry := (sameTwo y ry).mpr rootY
  have nodes : ∀ z, z ∈ two.nodes ↔ ∃ pair ∈ ends ++ [(x, y)], z = pair.1 ∨ z = pair.2 := by
    intro z
    rw [memTwo, memOne, built.nodes, or_assoc]
    simp only [List.mem_append, List.mem_singleton, or_and_right, exists_or, exists_eq_left]
  have memX : rx ∈ two.nodes := grownTwo.root_mem leadsX ((memTwo x).mpr (.inl ((memOne x).mpr (.inr rfl))))
  have memY : ry ∈ two.nodes := grownTwo.root_mem leadsY ((memTwo y).mpr (.inr rfl))
  unfold UnionFind.union
  simp only [answer, answer', Option.bind_eq_bind, Option.bind_some]
  by_cases same : rx = ry
  next =>
    subst same
    exact ⟨two, if_pos rfl, grownTwo, distinctTwo, nodes, represents.within leadsX leadsY⟩
  next =>
    rw [if_neg same]
    refine ⟨_, rfl, ?_⟩
    -- The higher rank wins, whichever end of the pair it is at.
    split
    next =>
      obtain ⟨grown, _⟩ := link grownTwo leadsY.top leadsX.top (Ne.symm same) memY memX
      exact ⟨grown, distinctTwo, nodes,
        (represents.link grownTwo leadsY leadsX (Ne.symm same) memY memX).swap⟩
    next =>
      obtain ⟨grown, _⟩ := link grownTwo leadsX.top leadsY.top same memX memY
      exact ⟨grown, distinctTwo, nodes, represents.link grownTwo leadsX leadsY same memX memY⟩

theorem unionPairs_built (pairs : List (ScoredPair N Q)) :
    ∃ uf, unionPairs pairs = some uf ∧ Built uf (pairs.map ScoredPair.ends) := by
  induction pairs using List.reverseRecOn with
  | nil => exact ⟨_, rfl, empty_built⟩
  | append_singleton pairs pair ih =>
    obtain ⟨uf, answer, built⟩ := ih
    obtain ⟨joined, answer', built'⟩ := union_built built pair.first pair.second
    refine ⟨joined, ?_, by rwa [List.map_append, List.map_singleton]⟩
    rw [unionPairs, List.foldlM_append, ← unionPairs, answer]
    simpa using answer'

theorem clustersOf_components (pairs : List (ScoredPair N Q)) :
    ∃ clusters, clustersOf pairs = some clusters ∧ clusters.flatten.Nodup ∧
      (∀ x, x ∈ clusters.flatten ↔ ∃ pair ∈ pairs, x = pair.first ∨ x = pair.second) ∧
      ∀ cluster ∈ clusters, cluster ≠ [] ∧
        ∀ x ∈ cluster, ∀ y, y ∈ cluster ↔ Joined (pairs.map ScoredPair.ends) x y := by
  obtain ⟨uf, answer, built⟩ := unionPairs_built pairs
  choose label known using built.grows.grounded
  let Kept (state : UnionFind N) : Prop :=
    state.nodes = uf.nodes ∧ Grows state.nodes state.parent ∧ SameRoots uf.parent state.parent
  have answers : ∀ state, Kept state → ∀ x ∈ uf.nodes,
      ∃ next, state.find x = some (label x, next) ∧ Kept next := by
    rintro state ⟨nodes, grows, same⟩ x listed
    obtain ⟨root, found, answer, leads, now, grown, still⟩ := find_spec grows x
    obtain rfl := ((same x root).mp leads).unique (known x)
    rw [if_pos (nodes ▸ listed)] at now
    exact ⟨found, answer, now.trans nodes, grown, same.trans still⟩
  obtain ⟨groups, done, grouped⟩ := groupBy_grouped Kept answers ⟨rfl, built.grows, SameRoots.refl _⟩
    (Grouped.nil label)
  rw [List.nil_append] at grouped
  obtain ⟨distinct, all⟩ := groups_flatten grouped
  refine ⟨groups.map Prod.snd, ?_, distinct, fun x => ?_, fun cluster listed => ?_⟩
  next => rw [clustersOf, answer, Option.bind_some, UnionFind.clusters, done, Option.map_some]
  next =>
    rw [all, built.nodes]
    simp [ScoredPair.ends]
  next =>
    obtain ⟨entry, present, rfl⟩ := List.mem_map.mp listed
    refine ⟨grouped.entry_ne_nil present, fun x inside y => ?_⟩
    rw [grouped.mem_entry present] at inside ⊢
    rw [← built.represents, ← inside.2]
    constructor
    next => exact fun also => ⟨label x, known x, also.2 ▸ known y⟩
    next =>
      rintro ⟨root, one, two⟩
      exact ⟨built.grows.sameRoot_mem inside.1 ⟨root, one, two⟩,
        ((known y).unique two).trans (one.unique (known x))⟩

end Building

end MemoryCloud.Dedup
