import Mathlib.Data.List.Nodup
import Mathlib.Data.List.Perm.Subperm
import Mathlib.Logic.Function.Basic
import Mathlib.Logic.Relation

set_option autoImplicit false

/-!
# Forests of parent pointers

A root is its own parent, and every node leads to one root. Pointing a node at another node on its
way keeps all roots, and pointing a root at another root joins their two trees. The trees of a
forest stand for the sets of nodes that pairs join.
-/

namespace MemoryCloud.Forest

open Relation

variable {N : Type}

section Paths

inductive Leads (parent : N → N) : N → Nat → N → Prop
  | root {node : N} (top : parent node = node) : Leads parent node 0 node
  | up {node root : N} {steps : Nat} (below : parent node ≠ node)
      (rest : Leads parent (parent node) steps root) : Leads parent node (steps + 1) root

def RootOf (parent : N → N) (node root : N) : Prop :=
  ∃ steps, Leads parent node steps root

variable {parent parent' : N → N} {node root other : N} {steps more : Nat}

theorem Leads.top (leads : Leads parent node steps root) : parent root = root := by
  induction leads with
  | root top => exact top
  | up _ _ ih => exact ih

theorem Leads.unique (leads : Leads parent node steps root) (again : Leads parent node more other) :
    steps = more ∧ root = other := by
  induction leads generalizing more with
  | root top =>
    cases again with
    | root _ => exact ⟨rfl, rfl⟩
    | up below _ => exact absurd top below
  | up below _ ih =>
    cases again with
    | root top => exact absurd top below
    | up _ rest =>
      obtain ⟨same, root⟩ := ih rest
      exact ⟨congrArg (· + 1) same, root⟩

theorem Leads.rootOf (leads : Leads parent node steps root) : RootOf parent node root :=
  ⟨steps, leads⟩

theorem rootOf_self (top : parent node = node) : RootOf parent node node :=
  ⟨0, .root top⟩

theorem RootOf.top (leads : RootOf parent node root) : parent root = root :=
  leads.elim fun _ path => path.top

theorem RootOf.unique (leads : RootOf parent node root) (again : RootOf parent node other) :
    root = other := by
  obtain ⟨_, first⟩ := leads
  obtain ⟨_, second⟩ := again
  exact (first.unique second).2

theorem RootOf.up (below : parent node ≠ node) (rest : RootOf parent (parent node) root) :
    RootOf parent node root :=
  rest.elim fun _ path => ⟨_, .up below path⟩

theorem RootOf.self (leads : RootOf parent node root) (top : parent node = node) : root = node :=
  leads.unique (rootOf_self top)

end Paths

structure Grows (nodes : List N) (parent : N → N) : Prop where
  grounded : ∀ node, ∃ root, RootOf parent node root
  inside : ∀ node ∈ nodes, parent node ∈ nodes
  outside : ∀ node, node ∉ nodes → parent node = node

def SameRoots (parent parent' : N → N) : Prop :=
  ∀ node root, RootOf parent' node root ↔ RootOf parent node root

variable {nodes : List N} {parent parent' : N → N} {node root other target : N} {steps more : Nat}

theorem SameRoots.refl (parent : N → N) : SameRoots parent parent := fun _ _ => Iff.rfl

theorem SameRoots.trans {parent'' : N → N} (first : SameRoots parent parent')
    (second : SameRoots parent' parent'') : SameRoots parent parent'' :=
  fun node root => (second node root).trans (first node root)

theorem SameRoots.top (same : SameRoots parent parent') :
    parent' node = node ↔ parent node = node := by
  constructor
  next => exact fun top => ((same node node).mp (rootOf_self top)).top
  next => exact fun top => ((same node node).mpr (rootOf_self top)).top

theorem Leads.path (leads : Leads parent node steps root) (inside : ∀ node ∈ nodes, parent node ∈ nodes)
    (listed : node ∈ nodes) : ∃ path : List N, path.Nodup ∧ path.length = steps + 1 ∧
      (∀ other ∈ path, other ∈ nodes ∧ ∃ more ≤ steps, Leads parent other more root) := by
  induction leads with
  | @root node top =>
    refine ⟨[node], List.nodup_singleton _, rfl, fun other same => ?_⟩
    rw [List.mem_singleton.mp same]
    exact ⟨listed, 0, Nat.le_refl _, .root top⟩
  | @up node root steps below rest ih =>
    obtain ⟨path, distinct, size, known⟩ := ih (inside _ listed)
    refine ⟨node :: path, List.nodup_cons.mpr ⟨fun again => ?_, distinct⟩, ?_, fun other on => ?_⟩
    next =>
      obtain ⟨_, more, fewer, again⟩ := known node again
      have same := (Leads.unique (.up below rest) again).1
      omega
    next => rw [List.length_cons, size]
    next =>
      cases on with
      | head => exact ⟨listed, steps + 1, Nat.le_refl _, .up below rest⟩
      | tail _ later =>
        obtain ⟨present, more, fewer, path⟩ := known other later
        exact ⟨present, more, Nat.le_succ_of_le fewer, path⟩

theorem Leads.steps_lt (leads : Leads parent node steps root)
    (inside : ∀ node ∈ nodes, parent node ∈ nodes) (listed : node ∈ nodes) :
    steps < nodes.length := by
  obtain ⟨path, distinct, size, known⟩ := leads.path inside listed
  have fits := (List.subperm_of_subset distinct fun other on => (known other on).1).length_le
  omega

theorem Grows.root_mem (grows : Grows nodes parent) (leads : RootOf parent node root)
    (listed : node ∈ nodes) : root ∈ nodes := by
  obtain ⟨_, path⟩ := leads
  induction path with
  | root _ => exact listed
  | up _ _ ih => exact ih (grows.inside _ listed)

variable [DecidableEq N]

section Shortcuts

variable (below : parent node ≠ node) (leads : Leads parent node steps root)
  (nearer : Leads parent target more root) (less : more < steps)

include leads in
theorem Leads.update (path : Leads parent other more root) (less : more < steps) :
    Leads (Function.update parent node target) other more root := by
  induction path with
  | @root other top =>
    refine .root ?_
    have apart : other ≠ node := by
      rintro rfl
      have same := (leads.unique (.root top)).1
      omega
    rw [Function.update_of_ne apart, top]
  | @up other root more under rest ih =>
    have apart : other ≠ node := by
      rintro rfl
      have same := (leads.unique (.up under rest)).1
      omega
    have kept : Function.update parent node target other = parent other :=
      Function.update_of_ne apart _ _
    refine .up (kept ▸ under) ?_
    rw [kept]
    exact ih leads (by omega)

include below leads nearer less

theorem rootOf_shortcut {start top : N} (path : RootOf parent start top) :
    RootOf (Function.update parent node target) start top := by
  obtain ⟨_, path⟩ := path
  induction path with
  | @root start top =>
    refine rootOf_self ?_
    have apart : start ≠ node := by
      rintro rfl
      exact below top
    rw [Function.update_of_ne apart, top]
  | @up start top _ under rest ih =>
    by_cases same : start = node
    next =>
      subst same
      have apart : target ≠ start := by
        rintro rfl
        have same := (leads.unique nearer).1
        omega
      have moved : Function.update parent start target start = target := Function.update_self _ _ _
      obtain rfl := (leads.unique (.up under rest)).2
      refine RootOf.up (by rwa [moved]) ?_
      rw [moved]
      exact (leads.update nearer less).rootOf
    next =>
      have kept : Function.update parent node target start = parent start :=
        Function.update_of_ne same _ _
      refine RootOf.up (kept ▸ under) ?_
      rwa [kept]

theorem shortcut (grows : Grows nodes parent) (listed : node ∈ nodes) (present : target ∈ nodes) :
    Grows nodes (Function.update parent node target) ∧
      SameRoots parent (Function.update parent node target) := by
  have kept : ∀ start top, RootOf parent start top →
      RootOf (Function.update parent node target) start top :=
    fun start top path => rootOf_shortcut below leads nearer less path
  refine ⟨⟨fun start => ?_, fun other inside => ?_, fun other outside => ?_⟩, fun start top => ?_⟩
  next =>
    obtain ⟨top, path⟩ := grows.grounded start
    exact ⟨top, kept start top path⟩
  next =>
    by_cases same : other = node
    next => rwa [same, Function.update_self]
    next =>
      rw [Function.update_of_ne same]
      exact grows.inside other inside
  next =>
    have apart : other ≠ node := fun same => outside (same ▸ listed)
    rw [Function.update_of_ne apart, grows.outside other outside]
  next =>
    refine ⟨fun path => ?_, kept start top⟩
    obtain ⟨old, before⟩ := grows.grounded start
    rwa [path.unique (kept start old before)]

end Shortcuts

section Links

variable {winner loser : N}

theorem rootOf_link (top : parent winner = winner) (loserTop : parent loser = loser)
    (apart : winner ≠ loser) {start top : N} (path : RootOf parent start top) :
    RootOf (Function.update parent loser winner) start (if top = loser then winner else top) := by
  have kept : ∀ other, other ≠ loser → Function.update parent loser winner other = parent other :=
    fun other different => Function.update_of_ne different _ _
  have moved : Function.update parent loser winner loser = winner := Function.update_self _ _ _
  obtain ⟨_, path⟩ := path
  induction path with
  | @root start rootTop =>
    split
    next same =>
      subst same
      refine RootOf.up (by rwa [moved]) ?_
      rw [moved]
      exact rootOf_self ((kept winner apart).trans ‹_›)
    next different => exact rootOf_self ((kept start different).trans rootTop)
  | @up start top _ under rest ih =>
    have different : start ≠ loser := by
      rintro rfl
      exact under loserTop
    refine RootOf.up (kept start different ▸ under) ?_
    rwa [kept start different]

-- Pointing a root at another one joins the two trees and no others.
theorem link (grows : Grows nodes parent) (top : parent winner = winner)
    (loserTop : parent loser = loser) (apart : winner ≠ loser) (winning : winner ∈ nodes)
    (losing : loser ∈ nodes) :
    Grows nodes (Function.update parent loser winner) ∧
      ∀ start root, RootOf (Function.update parent loser winner) start root ↔
        RootOf parent start root ∧ root ≠ loser ∨ RootOf parent start loser ∧ root = winner := by
  have moved : ∀ start old, RootOf parent start old →
      RootOf (Function.update parent loser winner) start (if old = loser then winner else old) :=
    fun start old path => rootOf_link top loserTop apart path
  refine ⟨⟨fun start => ?_, fun other inside => ?_, fun other outside => ?_⟩, fun start root => ?_⟩
  next =>
    obtain ⟨old, path⟩ := grows.grounded start
    exact ⟨_, moved start old path⟩
  next =>
    by_cases same : other = loser
    next => rwa [same, Function.update_self]
    next =>
      rw [Function.update_of_ne same]
      exact grows.inside other inside
  next =>
    have different : other ≠ loser := fun same => outside (same ▸ losing)
    rw [Function.update_of_ne different, grows.outside other outside]
  next =>
    constructor
    next =>
      intro path
      obtain ⟨old, before⟩ := grows.grounded start
      have same := path.unique (moved start old before)
      split at same
      next lost => exact .inr ⟨lost ▸ before, same⟩
      next other => exact .inl ⟨same ▸ before, same ▸ other⟩
    next =>
      rintro (⟨path, other⟩ | ⟨path, rfl⟩)
      next => simpa [other] using moved start root path
      next => simpa using moved start loser path

end Links

section Sets

def Joined (pairs : List (N × N)) : N → N → Prop :=
  EqvGen fun first second => (first, second) ∈ pairs

def SameRoot (parent : N → N) (first second : N) : Prop :=
  ∃ root, RootOf parent first root ∧ RootOf parent second root

def Represents (parent : N → N) (pairs : List (N × N)) : Prop :=
  ∀ first second, SameRoot parent first second ↔ Joined pairs first second

variable {pairs : List (N × N)} {left right winner loser : N}

omit [DecidableEq N] in
-- A tree with one node is a tree of nodes.
theorem Grows.sameRoot_mem (grows : Grows nodes parent) {first second : N} (listed : first ∈ nodes)
    (same : SameRoot parent first second) : second ∈ nodes := by
  obtain ⟨root, one, two⟩ := same
  by_contra outside
  have own : root = second := two.self (grows.outside second outside)
  exact outside (own ▸ grows.root_mem one listed)

omit [DecidableEq N] in
theorem Joined.mono {more : List (N × N)} (included : pairs ⊆ more) {first second : N}
    (joined : Joined pairs first second) : Joined more first second :=
  EqvGen.mono (fun _ _ listed => included listed) _ _ joined

omit [DecidableEq N] in
theorem joined_concat {first second : N} :
    Joined (pairs ++ [(left, right)]) first second ↔ Joined pairs first second ∨
      Joined pairs first left ∧ Joined pairs right second ∨
      Joined pairs first right ∧ Joined pairs left second := by
  have whole : ∀ {a b}, Joined pairs a b → Joined (pairs ++ [(left, right)]) a b :=
    fun joined => joined.mono (List.subset_append_left _ _)
  have last : Joined (pairs ++ [(left, right)]) left right := .rel _ _ (by simp)
  constructor
  next =>
    intro joined
    induction joined with
    | rel a b listed =>
      rcases List.mem_append.mp listed with old | new
      next => exact .inl (.rel _ _ old)
      next =>
        rw [List.mem_singleton, Prod.mk.injEq] at new
        obtain ⟨rfl, rfl⟩ := new
        exact .inr (.inl ⟨.refl _, .refl _⟩)
    | refl a => exact .inl (.refl a)
    | symm a b _ ih =>
      rcases ih with old | ⟨front, back⟩ | ⟨front, back⟩
      next => exact .inl (old.symm _ _)
      next => exact .inr (.inr ⟨back.symm _ _, front.symm _ _⟩)
      next => exact .inr (.inl ⟨back.symm _ _, front.symm _ _⟩)
    | trans a b c _ _ one two =>
      rcases one with old | ⟨front, back⟩ | ⟨front, back⟩
      next =>
        rcases two with also | ⟨front', back'⟩ | ⟨front', back'⟩
        next => exact .inl (old.trans _ _ _ also)
        next => exact .inr (.inl ⟨old.trans _ _ _ front', back'⟩)
        next => exact .inr (.inr ⟨old.trans _ _ _ front', back'⟩)
      next =>
        rcases two with also | ⟨front', back'⟩ | ⟨front', back'⟩
        next => exact .inr (.inl ⟨front, back.trans _ _ _ also⟩)
        next => exact .inr (.inl ⟨front, back'⟩)
        next => exact .inl (front.trans _ _ _ back')
      next =>
        rcases two with also | ⟨front', back'⟩ | ⟨front', back'⟩
        next => exact .inr (.inr ⟨front, back.trans _ _ _ also⟩)
        next => exact .inl (front.trans _ _ _ back')
        next => exact .inr (.inr ⟨front, back'⟩)
  next =>
    rintro (old | ⟨front, back⟩ | ⟨front, back⟩)
    next => exact whole old
    next => exact ((whole front).trans _ _ _ last).trans _ _ _ (whole back)
    next => exact ((whole front).trans _ _ _ (last.symm _ _)).trans _ _ _ (whole back)

omit [DecidableEq N] in
theorem Represents.congr (represents : Represents parent pairs) (same : SameRoots parent parent') :
    Represents parent' pairs := by
  intro first second
  rw [← represents]
  exact exists_congr fun root => and_congr (same first root) (same second root)

omit [DecidableEq N] in
theorem Represents.within (represents : Represents parent pairs) {root : N}
    (one : RootOf parent left root) (two : RootOf parent right root) :
    Represents parent (pairs ++ [(left, right)]) := by
  intro first second
  have joined : Joined pairs left right := (represents left right).mp ⟨root, one, two⟩
  rw [represents, joined_concat]
  constructor
  next => exact .inl
  next =>
    rintro (old | ⟨front, back⟩ | ⟨front, back⟩)
    next => exact old
    next => exact (front.trans _ _ _ joined).trans _ _ _ back
    next => exact (front.trans _ _ _ (joined.symm _ _)).trans _ _ _ back

omit [DecidableEq N] in
theorem Represents.swap (represents : Represents parent (pairs ++ [(left, right)])) :
    Represents parent (pairs ++ [(right, left)]) := by
  intro first second
  rw [represents, joined_concat, joined_concat]
  exact or_congr_right or_comm

theorem Represents.link (represents : Represents parent pairs) (grows : Grows nodes parent)
    (one : RootOf parent left winner) (two : RootOf parent right loser) (apart : winner ≠ loser)
    (winning : winner ∈ nodes) (losing : loser ∈ nodes) :
    Represents (Function.update parent loser winner) (pairs ++ [(left, right)]) := by
  obtain ⟨_, moved⟩ := Forest.link grows one.top two.top apart winning losing
  have near : ∀ a root, RootOf parent a root → ∀ b top, RootOf parent b top →
      (Joined pairs a b ↔ root = top) := by
    intro a root here b top there
    rw [← represents]
    constructor
    next => exact fun ⟨_, first, second⟩ => (here.unique first).trans (second.unique there)
    next => exact fun same => ⟨root, here, same ▸ there⟩
  intro first second
  obtain ⟨root, here⟩ := grows.grounded first
  obtain ⟨top, there⟩ := grows.grounded second
  rw [joined_concat, near _ _ here _ _ there, near _ _ here _ _ one, near _ _ two _ _ there,
    near _ _ here _ _ two, near _ _ one _ _ there]
  have roots : ∀ {a old}, RootOf parent a old → ∀ new,
      RootOf (Function.update parent loser winner) a new ↔
        old = new ∧ new ≠ loser ∨ old = loser ∧ new = winner := by
    intro a old before new
    rw [moved]
    constructor
    next =>
      rintro (⟨path, other⟩ | ⟨path, same⟩)
      next => exact .inl ⟨before.unique path, other⟩
      next => exact .inr ⟨before.unique path, same⟩
    next =>
      rintro (⟨rfl, other⟩ | ⟨rfl, same⟩)
      next => exact .inl ⟨before, other⟩
      next => exact .inr ⟨before, same⟩
  simp only [SameRoot, roots here, roots there]
  constructor
  next =>
    rintro ⟨new, ⟨one, _⟩ | ⟨lost, won⟩, ⟨two, _⟩ | ⟨lost', won'⟩⟩
    next => exact .inl (one.trans two.symm)
    next => exact .inr (.inl ⟨one.trans won', lost'.symm⟩)
    next => exact .inr (.inr ⟨lost, won.symm.trans two.symm⟩)
    next => exact .inl (lost.trans lost'.symm)
  next =>
    rintro (same | ⟨won, lost⟩ | ⟨lost, won⟩)
    next =>
      by_cases moved : root = loser
      next => exact ⟨winner, .inr ⟨moved, rfl⟩, .inr ⟨same.symm.trans moved, rfl⟩⟩
      next => exact ⟨root, .inl ⟨rfl, moved⟩, .inl ⟨same.symm, moved⟩⟩
    next => exact ⟨winner, .inl ⟨won, apart⟩, .inr ⟨lost.symm, rfl⟩⟩
    next => exact ⟨winner, .inr ⟨lost, rfl⟩, .inl ⟨won.symm, apart⟩⟩

end Sets

end MemoryCloud.Forest
