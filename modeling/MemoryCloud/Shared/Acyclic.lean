import Mathlib.Logic.Relation
import Mathlib.Order.WellFounded
import Mathlib.Data.Set.Finite.Basic

set_option autoImplicit false

/-!
# Acyclic relations

Adding an arrow that closes no path and merging two nodes with no path between
them through a third keep a relation acyclic. In an acyclic relation whose
sources are finitely many, every node is reached from a node nothing points at.
-/

namespace MemoryCloud.Relations

open Relation

variable {N : Type} {arrow : N → N → Prop}

def Acyclic (arrow : N → N → Prop) : Prop := ∀ node, ¬ TransGen arrow node node

theorem Acyclic.mono {fewer : N → N → Prop} (acyclic : Acyclic arrow)
    (included : ∀ source target, fewer source target → arrow source target) : Acyclic fewer :=
  fun node cycle => acyclic node (TransGen.mono included _ _ cycle)

theorem Acyclic.irrefl (acyclic : Acyclic arrow) (node : N) : ¬ arrow node node :=
  fun loop => acyclic node (.single loop)

-- A path over the old arrows and one new arrow either avoids the new one or passes through it.
theorem path_insert {more : N → N → Prop} {source target : N}
    (included : ∀ first second, more first second →
      arrow first second ∨ first = source ∧ second = target) {first second : N}
    (path : TransGen more first second) :
    TransGen arrow first second ∨
      ReflTransGen arrow first source ∧ ReflTransGen more target second := by
  induction path with
  | single last =>
    rcases included _ _ last with old | ⟨rfl, rfl⟩
    next => exact Or.inl (.single old)
    next => exact Or.inr ⟨.refl, .refl⟩
  | tail front last ih =>
    rcases ih with old | ⟨before, after⟩
    next =>
      rcases included _ _ last with arrow | ⟨rfl, rfl⟩
      next => exact Or.inl (old.tail arrow)
      next => exact Or.inr ⟨old.to_reflTransGen, .refl⟩
    next => exact Or.inr ⟨before, after.tail last⟩

theorem Acyclic.insert {more : N → N → Prop} {source target : N} (acyclic : Acyclic arrow)
    (unclosed : ¬ ReflTransGen arrow target source)
    (included : ∀ first second, more first second →
      arrow first second ∨ first = source ∧ second = target) : Acyclic more := by
  -- A path from the new arrow's target avoids the new arrow, which lies behind the source.
  have avoids : ∀ node, ReflTransGen more target node → ReflTransGen arrow target node := by
    intro node path
    induction path with
    | refl => exact .refl
    | tail front last ih =>
      rcases included _ _ last with old | ⟨rfl, _⟩
      next => exact ih.tail old
      next => exact absurd ih unclosed
  intro node cycle
  rcases path_insert included cycle with old | ⟨before, after⟩
  next => exact acyclic node old
  next => exact unclosed ((avoids node after).trans before)

def Unbridged (arrow : N → N → Prop) (first second : N) : Prop :=
  ∀ node, node ≠ first → node ≠ second →
    ¬ (TransGen arrow first node ∧ TransGen arrow node second) ∧
      ¬ (TransGen arrow second node ∧ TransGen arrow node first)

section Merge

variable [DecidableEq N] {merged : N → N → Prop} {winner loser : N}

def mergeInto (winner loser node : N) : N := if node = loser then winner else node

theorem mergeInto_of_ne {node : N} (other : mergeInto winner loser node ≠ winner) :
    mergeInto winner loser node = node ∧ node ≠ loser := by
  unfold mergeInto at other ⊢
  split at other
  next => exact absurd rfl other
  next kept => exact ⟨if_neg kept, kept⟩

theorem eq_of_mergeInto {node : N} (same : mergeInto winner loser node = winner) :
    node = winner ∨ node = loser := by
  unfold mergeInto at same
  split at same
  next gone => exact Or.inr gone
  next => exact Or.inl same

-- Every merged arrow between different nodes comes from an arrow before the merge.
variable (lifts : ∀ source target, merged source target → source ≠ target ∧
  ∃ oldSource oldTarget, arrow oldSource oldTarget ∧
    mergeInto winner loser oldSource = source ∧ mergeInto winner loser oldTarget = target)
include lifts

theorem reached_from_winner {node : N} (path : ReflTransGen merged winner node)
    (other : node ≠ winner) :
    ∃ start, (start = winner ∨ start = loser) ∧ TransGen arrow start node := by
  induction path with
  | refl => exact absurd rfl other
  | @tail middle last front step ih =>
    obtain ⟨different, oldSource, oldTarget, old, source, target⟩ := lifts _ _ step
    have lastOld : oldTarget = last := by
      rw [← target] at other
      rw [← target, (mergeInto_of_ne other).1]
    subst lastOld
    by_cases here : middle = winner
    next =>
      rw [here] at source
      exact ⟨oldSource, eq_of_mergeInto source, .single old⟩
    next =>
      obtain ⟨start, kind, reached⟩ := ih here
      have middleOld : oldSource = middle := by
        rw [← source] at here
        rw [← source, (mergeInto_of_ne here).1]
      subst middleOld
      exact ⟨start, kind, reached.tail old⟩

theorem avoids_or_meets_winner {first second : N} (path : TransGen merged first second) :
    ReflTransGen merged first winner ∧ ReflTransGen merged winner second ∨
      second ≠ winner ∧ TransGen arrow first second := by
  have lift : ∀ {source target : N}, merged source target → source ≠ winner → target ≠ winner →
      arrow source target := by
    intro source target step sourceOther targetOther
    obtain ⟨_, oldSource, oldTarget, old, sameSource, sameTarget⟩ := lifts _ _ step
    rw [← sameSource] at sourceOther
    rw [← sameTarget] at targetOther
    rw [← sameSource, ← sameTarget, (mergeInto_of_ne sourceOther).1,
      (mergeInto_of_ne targetOther).1]
    exact old
  induction path with
  | single step =>
    rename_i last
    by_cases starts : first = winner
    next =>
      subst starts
      exact Or.inl ⟨.refl, .single step⟩
    next =>
      by_cases ends : last = winner
      next =>
        subst ends
        exact Or.inl ⟨.single step, .refl⟩
      next => exact Or.inr ⟨ends, .single (lift step starts ends)⟩
  | @tail middle last front step ih =>
    rcases ih with ⟨before, after⟩ | ⟨other, old⟩
    next => exact Or.inl ⟨before, after.tail step⟩
    next =>
      by_cases ends : last = winner
      next =>
        subst ends
        exact Or.inl ⟨front.to_reflTransGen.tail step, .refl⟩
      next => exact Or.inr ⟨ends, old.tail (lift step other ends)⟩

theorem Acyclic.merge (acyclic : Acyclic arrow) (unbridged : Unbridged arrow winner loser) :
    Acyclic merged := by
  have winnerFree : ¬ TransGen merged winner winner := by
    intro cycle
    obtain ⟨last, front, step⟩ := TransGen.tail'_iff.mp cycle
    obtain ⟨different, oldSource, oldTarget, old, source, target⟩ := lifts _ _ step
    have middleOld : oldSource = last ∧ oldSource ≠ loser := by
      rw [← source] at different
      exact ⟨by rw [← source, (mergeInto_of_ne different).1], (mergeInto_of_ne different).2⟩
    obtain ⟨rfl, notLoser⟩ := middleOld
    obtain ⟨start, kind, reached⟩ := reached_from_winner lifts front different
    have bridge := unbridged oldSource different notLoser
    rcases kind with rfl | rfl
    next =>
      rcases eq_of_mergeInto target with same | same
      next =>
        rw [same] at old
        exact acyclic _ (reached.tail old)
      next =>
        rw [same] at old
        exact bridge.1 ⟨reached, .single old⟩
    next =>
      rcases eq_of_mergeInto target with same | same
      next =>
        rw [same] at old
        exact bridge.2 ⟨reached, .single old⟩
      next =>
        rw [same] at old
        exact acyclic _ (reached.tail old)
  intro node cycle
  rcases avoids_or_meets_winner lifts cycle with ⟨before, after⟩ | ⟨_, old⟩
  next =>
    exact winnerFree ((TransGen.trans_right after cycle).trans_left before)
  next => exact acyclic node old

end Merge

-- Arrows into a node without arrows of its own close nothing.
theorem Acyclic.of_deadEnd (dead : N) (ends : ∀ target, ¬ arrow dead target)
    (acyclic : Acyclic fun source target => arrow source target ∧ target ≠ dead) :
    Acyclic arrow := by
  have restrict : ∀ {first second : N}, TransGen arrow first second → second ≠ dead →
      TransGen (fun source target => arrow source target ∧ target ≠ dead) first second := by
    intro first second path
    induction path with
    | single step => exact fun other => .single ⟨step, other⟩
    | @tail middle last front step ih =>
      intro other
      have alive : middle ≠ dead := by
        rintro rfl
        exact ends _ step
      exact (ih alive).tail ⟨step, other⟩
  intro node cycle
  have alive : node ≠ dead := by
    rintro rfl
    obtain ⟨next, step, _⟩ := TransGen.head'_iff.mp cycle
    exact ends _ step
  exact acyclic node (restrict cycle alive)

theorem Acyclic.exists_root (acyclic : Acyclic arrow) (sources : List N)
    (finite : ∀ source target, arrow source target → source ∈ sources) {node : N}
    (pointed : ∃ source, arrow source node) :
    ∃ root, TransGen arrow root node ∧ ∀ source, ¬ arrow source root := by
  let above : {n // n ∈ sources} → {n // n ∈ sources} → Prop :=
    fun first second => TransGen arrow first.1 second.1
  have transitive : IsTrans _ above := ⟨fun _ _ _ one two => one.trans two⟩
  have irreflexive : Std.Irrefl above := ⟨fun node => acyclic node.1⟩
  have few : Finite {n // n ∈ sources} := (List.finite_toSet sources).to_subtype
  have wellFounded : WellFounded above := Finite.wellFounded_of_trans_of_irrefl above
  have climb : ∀ start : {n // n ∈ sources}, ∃ root,
      (root = start.1 ∨ TransGen arrow root start.1) ∧ ∀ source, ¬ arrow source root := by
    intro start
    induction start using wellFounded.induction with
    | h start ih =>
      by_cases more : ∃ source, arrow source start.1
      next =>
        obtain ⟨source, step⟩ := more
        obtain ⟨root, reached, free⟩ :=
          ih ⟨source, finite source start.1 step⟩ (TransGen.single step)
        refine ⟨root, Or.inr ?_, free⟩
        rcases reached with rfl | path
        next => exact .single step
        next => exact path.tail step
      next => exact ⟨start.1, Or.inl rfl, fun source step => more ⟨source, step⟩⟩
  obtain ⟨source, step⟩ := pointed
  obtain ⟨root, reached, free⟩ := climb ⟨source, finite source node step⟩
  refine ⟨root, ?_, free⟩
  rcases reached with rfl | path
  next => exact .single step
  next => exact path.tail step

end MemoryCloud.Relations
