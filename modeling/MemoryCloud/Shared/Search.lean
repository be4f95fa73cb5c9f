import Mathlib.Data.Finset.Card
import Mathlib.Logic.Relation
import MemoryCloud.Shared.SetDict

set_option autoImplicit false

/-!
# Depth-first search over a finite graph

The graph is a dictionary from a node to its successors. The search keeps the nodes that it
has seen and a stack of nodes to look at, and sees exactly what can be reached from the stack.
-/

namespace MemoryCloud.Search

open Relation SetDict

variable {N : Type} [DecidableEq N]

def Link (graph : List (N × List N)) (source target : N) : Prop :=
  target ∈ members graph source

def unseen (graph : List (N × List N)) (seen : List N) : Finset N :=
  (graph.map Prod.fst).toFinset.filter (· ∉ seen)

theorem unseen_cons_of_mem {graph : List (N × List N)} {seen : List N} {node : N}
    (fresh : node ∉ seen) (listed : node ∈ graph.map Prod.fst) :
    (unseen graph (node :: seen)).card < (unseen graph seen).card := by
  refine Finset.card_lt_card ((Finset.ssubset_iff_of_subset fun other inside => ?_).mpr
    ⟨node, by simp [unseen, fresh, List.mem_map.mp listed], by simp [unseen]⟩)
  rw [unseen, Finset.mem_filter] at inside ⊢
  exact ⟨inside.1, fun old => inside.2 (List.mem_cons_of_mem _ old)⟩

theorem unseen_cons_le (graph : List (N × List N)) (seen : List N) (node : N) :
    (unseen graph (node :: seen)).card ≤ (unseen graph seen).card := by
  refine Finset.card_le_card fun other inside => ?_
  rw [unseen, Finset.mem_filter] at inside ⊢
  exact ⟨inside.1, fun old => inside.2 (List.mem_cons_of_mem _ old)⟩

def visit (graph : List (N × List N)) : List N → List N → List N
  | seen, [] => seen
  | seen, node :: stack =>
      if node ∈ seen then visit graph seen stack
      else visit graph (node :: seen) (members graph node ++ stack)
termination_by seen stack => ((unseen graph seen).card, stack.length)
decreasing_by
  · exact Prod.Lex.right _ (Nat.lt_succ_self _)
  · next fresh =>
    by_cases listed : node ∈ graph.map Prod.fst
    next => exact Prod.Lex.left _ _ (unseen_cons_of_mem fresh listed)
    next =>
      rw [members_unlisted listed, List.nil_append]
      rcases Nat.lt_or_eq_of_le (unseen_cons_le graph seen node) with less | same
      next => exact Prod.Lex.left _ _ less
      next =>
        rw [same]
        exact Prod.Lex.right _ (Nat.lt_succ_self _)

variable {graph : List (N × List N)}

theorem visit_sound {seen stack : List N} {node : N} (found : node ∈ visit graph seen stack) :
    node ∈ seen ∨ ∃ start ∈ stack, ReflTransGen (Link graph) start node := by
  induction seen, stack using visit.induct graph with
  | case1 seen => exact .inl (by rwa [visit] at found)
  | case2 seen first stack old ih =>
    rw [visit, if_pos old] at found
    refine (ih found).imp_right fun ⟨start, listed, path⟩ => ⟨start, ?_, path⟩
    exact List.mem_cons_of_mem _ listed
  | case3 seen first stack fresh ih =>
    rw [visit, if_neg fresh] at found
    rcases ih found with inside | ⟨start, listed, path⟩
    next =>
      rw [List.mem_cons] at inside
      refine inside.symm.imp_right ?_
      rintro rfl
      exact ⟨node, List.mem_cons_self, .refl⟩
    next =>
      rcases List.mem_append.mp listed with successor | waiting
      next => exact .inr ⟨first, List.mem_cons_self, path.head successor⟩
      next => exact .inr ⟨start, List.mem_cons_of_mem _ waiting, path⟩

def Closed (graph : List (N × List N)) (seen stack : List N) : Prop :=
  ∀ source ∈ seen, ∀ target, Link graph source target → target ∈ seen ∨ target ∈ stack

theorem visit_closed {seen stack : List N} (closed : Closed graph seen stack) :
    Closed graph (visit graph seen stack) [] ∧ ∀ node, node ∈ seen ∨ node ∈ stack →
      node ∈ visit graph seen stack := by
  induction seen, stack using visit.induct graph with
  | case1 seen =>
    rw [visit]
    exact ⟨closed, fun node listed => listed.resolve_right (List.not_mem_nil)⟩
  | case2 seen first stack old ih =>
    rw [visit, if_pos old]
    have narrower : ∀ node, node ∈ seen ∨ node ∈ first :: stack → node ∈ seen ∨ node ∈ stack := by
      intro node listed
      refine listed.elim .inl fun waiting => (List.mem_cons.mp waiting).elim ?_ .inr
      rintro rfl
      exact .inl old
    obtain ⟨whole, kept⟩ := ih fun source listed target link =>
      narrower target (closed source listed target link)
    exact ⟨whole, fun node listed => kept node (narrower node listed)⟩
  | case3 seen first stack fresh ih =>
    rw [visit, if_neg fresh]
    have wider : ∀ node, node ∈ seen ∨ node ∈ first :: stack →
        node ∈ first :: seen ∨ node ∈ members graph first ++ stack := by
      intro node listed
      simp only [List.mem_cons, List.mem_append] at listed ⊢
      tauto
    have grown : Closed graph (first :: seen) (members graph first ++ stack) := by
      intro source listed target link
      rcases List.mem_cons.mp listed with rfl | old
      next => exact .inr (List.mem_append_left _ link)
      next => exact wider target (closed source old target link)
    obtain ⟨whole, kept⟩ := ih grown
    exact ⟨whole, fun node listed => kept node (wider node listed)⟩

theorem mem_visit_iff {start node : N} :
    node ∈ visit graph [] (members graph start) ↔ TransGen (Link graph) start node := by
  constructor
  next =>
    intro found
    obtain ⟨first, listed, path⟩ := (visit_sound found).resolve_left List.not_mem_nil
    exact .head' listed path
  next =>
    intro path
    have fresh : Closed graph [] (members graph start) :=
      fun _ listed => absurd listed List.not_mem_nil
    obtain ⟨closed, kept⟩ := visit_closed fresh
    induction path with
    | single link => exact kept _ (.inr link)
    | tail _ link found =>
      exact (closed _ found _ link).resolve_right List.not_mem_nil

end MemoryCloud.Search
