import MemoryCloud.Edges.Transfer
import MemoryCloud.Edges.Undo

set_option autoImplicit false

/-!
# The graph after a merge

A transfer that goes through leaves the loser bare, and every pair of the winner with the better
of the two edges it could have. It goes through, and leaves no loop on the winner, exactly when
the winner had none and no row of another scope holds a pair that one of the edges comes to.
-/

namespace MemoryCloud.Edges

variable {W : Type}

def survivor [LT W] [DecidableLT W] (existing incoming : Option (Edge W)) : Option (Edge W) :=
  match existing, incoming with
  | none, incoming => incoming
  | existing, none => existing
  | some existing, some incoming =>
    if existing.origin = .hebbian ↔ incoming.origin = .hebbian then
      some (if existing.weight < incoming.weight then incoming else existing)
    else some (if existing.origin = .hebbian then incoming else existing)

namespace TransferCall

variable (call : TransferCall)

def Near (edge : Edge W) : Prop :=
  call.Touches edge ∨ edge.srcId = call.toNode ∨ edge.dstId = call.toNode

structure MergesSoundly [LT W] [DecidableLT W] (table written : Table W) : Prop where
  emptied : ∀ edge ∈ written.rows, call.Own edge → ¬ call.Touches edge
  unlooped : ∀ edge ∈ written.rows, call.Own edge →
    ¬ (edge.srcId = call.toNode ∧ edge.dstId = call.toNode)
  single : ∀ first ∈ written.rows, ∀ second ∈ written.rows, call.Own first → call.Own second →
    first.srcId = second.srcId → first.dstId = second.dstId → first = second
  out : ∀ node, node ≠ call.fromNode → node ≠ call.toNode →
    scopedEdge written call.userId call.toNode node call.scope =
      survivor (scopedEdge table call.userId call.toNode node call.scope)
        ((scopedEdge table call.userId call.fromNode node call.scope).map call.moved)
  into : ∀ node, node ≠ call.fromNode → node ≠ call.toNode →
    scopedEdge written call.userId node call.toNode call.scope =
      survivor (scopedEdge table call.userId node call.toNode call.scope)
        ((scopedEdge table call.userId node call.fromNode call.scope).map call.moved)
  others : ∀ edge, ¬ (call.Own edge ∧ call.Near edge) → (edge ∈ written.rows ↔ edge ∈ table.rows)

def Clear (table : Table W) : Prop :=
  ∀ edge ∈ table.rows, call.Own edge → call.Touches edge → ¬ call.Loop edge →
    ∀ other ∈ table.rows, other.pair = call.newPair edge → other.inScope call.scope

def Fits (table : Table W) : Prop :=
  if call.fromNode = call.toNode then
    ∀ edge ∈ table.rows, call.Own edge → call.Touches edge → edge.srcId = edge.dstId
  else
    (∀ edge ∈ table.rows, call.Own edge → ¬ (edge.srcId = call.toNode ∧ edge.dstId = call.toNode)) ∧
      call.Clear table

instance (edge : Edge W) : Decidable (call.Own edge) :=
  inferInstanceAs (Decidable (_ ∧ _))

instance (edge : Edge W) : Decidable (call.Touches edge) :=
  inferInstanceAs (Decidable (_ ∨ _))

def ownEdges (table : Table W) : List (Edge W) :=
  table.rows.filter fun edge => edge.userId = call.userId ∧
    (edge.srcId = call.fromNode ∨ edge.dstId = call.fromNode) ∧ edge.inScope call.scope

end TransferCall

variable {call : TransferCall} {table current written : Table W} {edge row : Edge W}

theorem mem_ownEdges :
    edge ∈ call.ownEdges table ↔ edge ∈ table.rows ∧ call.Own edge ∧ call.Touches edge := by
  rw [TransferCall.ownEdges, List.mem_filter, decide_eq_true_eq]
  exact and_congr_right fun _ => ⟨fun ⟨user, touches, inside⟩ => ⟨⟨user, inside⟩, touches⟩,
    fun ⟨⟨user, inside⟩, touches⟩ => ⟨user, touches, inside⟩⟩

theorem ownEdges_nodup : (call.ownEdges table).Nodup :=
  table.numbered.of_map.filter _

theorem ownEdges_doing {done : List (Edge W)} (known : ∀ edge ∈ done, edge ∈ call.ownEdges table) :
    call.Doing table done where
  listed := fun edge within => (mem_ownEdges.mp (known edge within)).1
  own := fun edge within => (mem_ownEdges.mp (known edge within)).2.1
  touches := fun edge within => (mem_ownEdges.mp (known edge within)).2.2

theorem scopedEdge_eq_some {srcId dstId : MemoryId} {userId : UserId} {scope : Scope} :
    scopedEdge table userId srcId dstId scope = some edge ↔
      edge ∈ table.rows ∧ edge.pair = (userId, srcId, dstId) ∧ edge.inScope scope := by
  rw [scopedEdge_some_iff, pairEdge_some_iff, and_assoc]

section Runs

variable [LT W] [DecidableLT W]

theorem run_eq : call.run table = (call.ownEdges table).foldlM call.one table :=
  rfl

theorem rest_stays (apart : call.fromNode ≠ call.toNode) (clear : call.Clear table)
    (rest : List (Edge W)) {done : List (Edge W)} (split : done ++ rest = call.ownEdges table)
    (stays : ∀ row, row ∈ current.rows ↔ call.Stays table.rows done row) :
    ∃ written, rest.foldlM call.one current = some written ∧
      ∀ row, row ∈ written.rows ↔ call.Stays table.rows (call.ownEdges table) row := by
  induction rest generalizing done current with
  | nil =>
    rw [List.append_nil] at split
    exact ⟨current, rfl, split ▸ stays⟩
  | cons edge rest ih =>
    have whole : (done ++ [edge]) ++ rest = call.ownEdges table := by
      rw [List.append_assoc, List.singleton_append, split]
    have doing : call.Doing table (done ++ [edge]) :=
      ownEdges_doing fun edge within => whole ▸ List.mem_append_left rest within
    have fresh : edge ∉ done := by
      have unique : (done ++ edge :: rest).Nodup := split ▸ ownEdges_nodup
      exact fun before => (List.nodup_append.mp unique).2.2 edge before edge List.mem_cons_self rfl
    have last : edge ∈ done ++ [edge] := List.mem_append_right done List.mem_cons_self
    obtain ⟨next, step, rows⟩ := one_stays apart doing fresh stays
      (clear edge (doing.listed edge last) (doing.own edge last) (doing.touches edge last))
    obtain ⟨written, finished, all⟩ := ih whole rows
    refine ⟨written, ?_, all⟩
    rw [List.foldlM_cons, step]
    exact finished

theorem run_stays (apart : call.fromNode ≠ call.toNode) (clear : call.Clear table) :
    ∃ written, call.run table = some written ∧
      ∀ row, row ∈ written.rows ↔ call.Stays table.rows (call.ownEdges table) row := by
  refine rest_stays apart clear (call.ownEdges table) (List.nil_append _) fun row => ?_
  simp [TransferCall.Stays]

theorem survivor_eq_some {existing incoming : Option (Edge W)} :
    survivor existing (incoming.map call.moved) = some row ↔
      (existing = some row ∧ ∀ edge, incoming = some edge → keepIncoming row edge = false) ∨
        ∃ edge, incoming = some edge ∧ row = call.moved edge ∧
          ∀ other, existing = some other → keepIncoming other edge = true := by
  match existing, incoming with
  | none, none => simp [survivor]
  | none, some edge => simpa [survivor] using (eq_comm : call.moved edge = row ↔ _)
  | some other, none => simp [survivor]
  | some other, some edge =>
    have origin : (call.moved edge).origin = edge.origin := rfl
    have weight : (call.moved edge).weight = edge.weight := rfl
    have chosen : survivor (some other) (some (call.moved edge)) =
        some (if keepIncoming other edge then call.moved edge else other) := by
      unfold survivor keepIncoming
      dsimp only
      rw [origin, weight]
      by_cases weak : other.origin = .hebbian <;> by_cases weak' : edge.origin = .hebbian <;>
        simp [weak, weak']
    rw [Option.map_some, chosen]
    cases kept : keepIncoming other edge with
    | false => grind
    | true => grind

variable (known : ∀ row, row ∈ written.rows ↔ call.Stays table.rows (call.ownEdges table) row)

include known

theorem scoped_survives {srcId dstId : MemoryId} {incoming : Option (Edge W)}
    (offSrc : srcId ≠ call.fromNode) (offDst : dstId ≠ call.fromNode) (straight : srcId ≠ dstId)
    (comes : ∀ edge, incoming = some edge ↔ edge ∈ call.ownEdges table ∧
      call.newSrc edge = srcId ∧ call.newDst edge = dstId) :
    scopedEdge written call.userId srcId dstId call.scope =
      survivor (scopedEdge table call.userId srcId dstId call.scope) (incoming.map call.moved) := by
  have meets : ∀ edge, incoming = some edge → ∀ row, call.Meets row edge ↔
      row.pair = (call.userId, srcId, dstId) ∧ row.inScope call.scope := by
    intro edge arrives row
    obtain ⟨_, src, dst⟩ := (comes edge).mp arrives
    rw [TransferCall.Meets, TransferCall.newPair, src, dst]
  have aims : ∀ edge ∈ call.ownEdges table, ∀ row : Edge W, row.pair = (call.userId, srcId, dstId) →
      call.Meets row edge → incoming = some edge := by
    intro edge within row pair met
    obtain ⟨src, dst⟩ := Prod.mk.inj (Prod.mk.inj (pair.symm.trans met.1)).2
    exact (comes edge).mpr ⟨within, src.symm, dst.symm⟩
  refine Option.ext fun row => ?_
  rw [survivor_eq_some]
  simp only [scopedEdge_eq_some, known, TransferCall.Stays]
  constructor
  next =>
    rintro ⟨⟨listed, idle, keeps⟩ | ⟨edge, within, straight', rfl, wins⟩, pair, inside⟩
    next =>
      refine .inl ⟨⟨listed, pair, inside⟩, fun edge arrives => ?_⟩
      obtain ⟨within, src, dst⟩ := (comes edge).mp arrives
      refine keeps edge within (fun loop => straight ?_) ((meets edge arrives row).mpr ⟨pair, inside⟩)
      rw [← src, ← dst]
      exact loop
    next =>
      obtain ⟨_, src, dst⟩ := Prod.mk.inj pair |>.imp_right Prod.mk.inj
      have arrives := (comes edge).mpr ⟨within, src, dst⟩
      refine .inr ⟨edge, arrives, rfl, fun other both => ?_⟩
      exact wins other both.1 ((meets edge arrives other).mpr both.2)
  next =>
    rintro (⟨⟨listed, pair, inside⟩, keeps⟩ | ⟨edge, arrives, rfl, wins⟩)
    next =>
      obtain ⟨_, src, dst⟩ := Prod.mk.inj pair |>.imp_right Prod.mk.inj
      refine ⟨.inl ⟨listed, fun within => ?_, fun edge within _ met => ?_⟩, pair, inside⟩
      next =>
        rcases (mem_ownEdges.mp within).2.2 with touches | touches
        next => exact offSrc (src.symm.trans touches)
        next => exact offDst (dst.symm.trans touches)
      next => exact keeps edge (aims edge within row pair met)
    next =>
      obtain ⟨within, src, dst⟩ := (comes edge).mp arrives
      obtain ⟨_, ⟨user, inside⟩, _⟩ := mem_ownEdges.mp within
      have pair : (call.moved edge).pair = (call.userId, srcId, dstId) := by
        rw [← user, ← src, ← dst]
        rfl
      refine ⟨.inr ⟨edge, within, fun loop => straight ?_, rfl, fun other listed met => ?_⟩,
        pair, inside⟩
      next =>
        rw [← src, ← dst]
        exact loop
      next => exact wins other ⟨listed, (meets edge arrives other).mp met⟩

theorem written_others (distant : ¬ (call.Own row ∧ call.Near row)) :
    row ∈ written.rows ↔ row ∈ table.rows := by
  rw [known]
  constructor
  next =>
    rintro (⟨listed, _⟩ | ⟨edge, within, _, rfl, _⟩)
    next => exact listed
    next =>
      obtain ⟨_, own, touches⟩ := mem_ownEdges.mp within
      refine absurd ⟨own, .inr (touches.imp (fun here => ?_) fun here => ?_)⟩ distant
      next => exact if_pos here
      next => exact if_pos here
  next =>
    intro listed
    refine .inl ⟨listed, fun within => ?_, fun edge within _ met => absurd ⟨?_, ?_⟩ distant⟩
    next =>
      obtain ⟨_, own, touches⟩ := mem_ownEdges.mp within
      exact distant ⟨own, .inl touches⟩
    next => exact ⟨congrArg Prod.fst met.1, met.2⟩
    next =>
      obtain ⟨_, src, dst⟩ := Prod.mk.inj met.1 |>.imp_right Prod.mk.inj
      refine .inr ((mem_ownEdges.mp within).2.2.imp (fun here => ?_) fun here => ?_)
      next => exact src.trans (if_pos here)
      next => exact dst.trans (if_pos here)

theorem stays_soundly (apart : call.fromNode ≠ call.toNode)
    (unlooped : ∀ edge ∈ table.rows, call.Own edge →
      ¬ (edge.srcId = call.toNode ∧ edge.dstId = call.toNode)) :
    call.MergesSoundly table written where
  emptied := by
    intro row listed own
    rcases (known row).mp listed with ⟨within, idle, _⟩ | ⟨edge, _, _, rfl, _⟩
    next => exact fun touches => idle (mem_ownEdges.mpr ⟨within, own, touches⟩)
    next =>
      rintro (here | here)
      next => exact moveNode_ne apart _ here
      next => exact moveNode_ne apart _ here
  unlooped := by
    intro row listed own ends
    rcases (known row).mp listed with ⟨within, _⟩ | ⟨edge, _, straight, rfl, _⟩
    next => exact unlooped row within own ends
    next => exact straight (ends.1.trans ends.2.symm)
  single := by
    intro first one second two own own' src dst
    refine row_of_pair one two ?_
    rw [Edge.pair, Edge.pair, own.1, own'.1, src, dst]
  out := by
    intro node offFrom offTo
    refine scoped_survives known (Ne.symm apart) offFrom (Ne.symm offTo) fun edge => ?_
    rw [scopedEdge_eq_some, mem_ownEdges]
    simp only [Edge.pair, Prod.mk.injEq, TransferCall.Own, TransferCall.Touches, TransferCall.newSrc,
      TransferCall.newDst, moveNode]
    grind
  into := by
    intro node offFrom offTo
    refine scoped_survives known offFrom (Ne.symm apart) offTo fun edge => ?_
    rw [scopedEdge_eq_some, mem_ownEdges]
    simp only [Edge.pair, Prod.mk.injEq, TransferCall.Own, TransferCall.Touches, TransferCall.newSrc,
      TransferCall.newDst, moveNode]
    grind
  others := fun _ distant => written_others known distant

end Runs

section Refusals

theorem repoint_rows {id : Nat} {srcId dstId : MemoryId} {now : Nat}
    (accepted : table.repoint id srcId dstId now = some written) :
    written.rows = table.rows.map (repointRow id srcId dstId now) := by
  unfold Table.repoint at accepted
  split at accepted
  next => rw [← Option.some.inj accepted]
  next => cases accepted

variable [LT W] [DecidableLT W]

theorem one_keeps (step : call.one current edge = some written) (held : row ∈ current.rows)
    (other : row.id ≠ edge.id) (unmet : ¬ call.Loop edge → ¬ call.Meets row edge) :
    row ∈ written.rows := by
  have survives : ∀ {rows : List (Edge W)}, row ∈ rows → row ∈ rows.map
      (repointRow edge.id (call.newSrc edge) (call.newDst edge) call.now) :=
    fun within => List.mem_map.mpr ⟨row, within, repointRow_other other _ _ _⟩
  unfold TransferCall.one transferEdge at step
  dsimp only at step
  split at step
  next =>
    rw [← Option.some.inj step]
    exact List.mem_filter.mpr ⟨held, decide_eq_true other⟩
  next straight =>
    split at step
    next existing found =>
      have holds := List.find?_some found
      rw [decide_eq_true_eq] at holds
      split at step
      next =>
        rw [repoint_rows step]
        refine survives (List.mem_filter.mpr ⟨held, decide_eq_true fun same => unmet straight ?_⟩)
        rw [row_of_id held (List.mem_of_find?_eq_some found) same]
        exact ⟨holds.1, holds.2.1⟩
      next =>
        rw [← Option.some.inj step]
        exact List.mem_filter.mpr ⟨held, decide_eq_true other⟩
    next =>
      rw [repoint_rows step]
      exact survives held

theorem rest_keeps {rest : List (Edge W)} (steps : rest.foldlM call.one current = some written)
    (held : row ∈ current.rows)
    (apart : ∀ edge ∈ rest, row.id ≠ edge.id ∧ (¬ call.Loop edge → ¬ call.Meets row edge)) :
    row ∈ written.rows := by
  induction rest generalizing current with
  | nil => exact Option.some.inj steps ▸ held
  | cons edge rest ih =>
    rw [List.foldlM_cons] at steps
    obtain ⟨next, step, later⟩ := Option.bind_eq_some_iff.mp steps
    obtain ⟨other, unmet⟩ := apart edge List.mem_cons_self
    exact ih later (one_keeps step held other unmet)
      fun later within => apart later (List.mem_cons_of_mem edge within)

theorem run_split (edge : Edge W) (within : edge ∈ call.ownEdges table)
    (runs : call.run table = some written) :
    ∃ (before after : List (Edge W)) (middle next : Table W),
      before.foldlM call.one table = some middle ∧
      call.one middle edge = some next ∧ after.foldlM call.one next = some written ∧
      (∀ other ∈ before, other ∈ call.ownEdges table ∧ other ≠ edge) ∧
      ∀ other ∈ after, other ∈ call.ownEdges table ∧ other ≠ edge := by
  obtain ⟨before, after, split⟩ := List.append_of_mem within
  rw [run_eq, split, List.foldlM_append] at runs
  obtain ⟨middle, first, rest⟩ := Option.bind_eq_some_iff.mp runs
  rw [List.foldlM_cons] at rest
  obtain ⟨next, step, last⟩ := Option.bind_eq_some_iff.mp rest
  have unique : (before ++ edge :: after).Nodup := split ▸ ownEdges_nodup
  obtain ⟨_, later, distinct⟩ := List.nodup_append.mp unique
  refine ⟨before, after, middle, next, first, step, last, fun other listed => ⟨?_, ?_⟩,
    fun other listed => ⟨?_, ?_⟩⟩
  next => exact split ▸ List.mem_append_left _ listed
  next => exact distinct other listed edge List.mem_cons_self
  next => exact split ▸ List.mem_append_right _ (List.mem_cons_of_mem _ listed)
  next => exact fun same => (List.nodup_cons.mp later).1 (same ▸ listed)

theorem run_clear (apart : call.fromNode ≠ call.toNode) (runs : call.run table = some written) :
    call.Clear table := by
  intro edge listed own touches straight other held pair
  by_contra outside
  obtain ⟨before, _, middle, next, first, step, _, earlier, _⟩ :=
    run_split edge (mem_ownEdges.mpr ⟨listed, own, touches⟩) runs
  have different : other ≠ edge := fun same => outside (same ▸ own.2)
  have stored : edge ∈ middle.rows := by
    refine rest_keeps first listed fun first within => ⟨fun same => ?_, fun _ met => ?_⟩
    next =>
      obtain ⟨within, distinct⟩ := earlier first within
      exact distinct (row_of_id listed (mem_ownEdges.mp within).1 same).symm
    next => exact meets_untouched apart met touches
  have taken : other ∈ middle.rows := by
    refine rest_keeps first held fun first within => ⟨fun same => ?_, fun _ met => outside met.2⟩
    obtain ⟨within, _⟩ := earlier first within
    rw [row_of_id held (mem_ownEdges.mp within).1 same] at outside
    exact outside (mem_ownEdges.mp within).2.1.2
  have refused : middle.repoint edge.id (call.newSrc edge) (call.newDst edge) call.now = none :=
    repoint_taken stored taken (own.1.symm ▸ pair) different
  unfold TransferCall.one transferEdge at step
  dsimp only at step
  split at step
  next loop => exact straight loop
  next =>
    split at step
    next existing found =>
      have holds := List.find?_some found
      rw [decide_eq_true_eq] at holds
      have same := row_of_pair (List.mem_of_find?_eq_some found) taken (holds.1.trans pair.symm)
      exact outside (same ▸ holds.2.1)
    next => cases refused.symm.trans step

theorem run_loop (apart : call.fromNode ≠ call.toNode) (runs : call.run table = some written)
    (listed : row ∈ table.rows) (ends : row.srcId = call.toNode ∧ row.dstId = call.toNode) :
    row ∈ written.rows := by
  refine rest_keeps runs listed fun edge within => ⟨fun same => ?_, fun straight met => straight ?_⟩
  next =>
    obtain ⟨present, _, touches⟩ := mem_ownEdges.mp within
    rw [← row_of_id listed present same] at touches
    rcases touches with here | here
    next => exact apart (here.symm.trans ends.1)
    next => exact apart (here.symm.trans ends.2)
  next =>
    obtain ⟨_, src, dst⟩ := Prod.mk.inj met.1 |>.imp_right Prod.mk.inj
    exact src.symm.trans (ends.1.trans (ends.2.symm.trans dst))

end Refusals

section Itself

theorem newPair_itself (itself : call.fromNode = call.toNode) (own : call.Own edge) :
    call.newPair edge = edge.pair := by
  have still : ∀ node, moveNode call.fromNode call.toNode node = node := by
    intro node
    rw [moveNode, ← itself]
    split
    next here => exact here.symm
    next => rfl
  rw [TransferCall.newPair, TransferCall.newSrc, TransferCall.newDst, still, still, ← own.1]
  rfl

theorem loop_itself (itself : call.fromNode = call.toNode) (own : call.Own edge) :
    call.Loop edge ↔ edge.srcId = edge.dstId := by
  obtain ⟨_, src, dst⟩ := Prod.mk.inj (newPair_itself itself own) |>.imp_right Prod.mk.inj
  rw [TransferCall.Loop, src, dst]

variable [LT W] [DecidableLT W]

variable (call current) in
theorem loops_run {rest : List (Edge W)} (loops : ∀ edge ∈ rest, call.Loop edge) :
    ∃ written, rest.foldlM call.one current = some written ∧
      ∀ row, row ∈ written.rows ↔ row ∈ current.rows ∧ ∀ edge ∈ rest, row.id ≠ edge.id := by
  induction rest generalizing current with
  | nil => exact ⟨current, rfl, fun row => by simp⟩
  | cons edge rest ih =>
    have step : call.one current edge = some (current.keep fun other => other.id ≠ edge.id) :=
      if_pos (loops edge List.mem_cons_self)
    obtain ⟨written, finished, rows⟩ := ih (current.keep fun other => other.id ≠ edge.id)
      fun later within => loops later (List.mem_cons_of_mem edge within)
    refine ⟨written, ?_, fun row => ?_⟩
    next =>
      rw [List.foldlM_cons, step]
      exact finished
    next =>
      rw [rows, Table.keep, List.mem_filter, decide_eq_true_eq, List.forall_mem_cons, and_assoc]

-- A node merged into itself only loses its loops.
theorem itself_soundly (itself : call.fromNode = call.toNode)
    (loops : ∀ edge ∈ table.rows, call.Own edge → call.Touches edge → edge.srcId = edge.dstId) :
    ∃ written, call.run table = some written ∧ call.MergesSoundly table written := by
  have around : ∀ edge ∈ call.ownEdges table, call.Loop edge := by
    intro edge within
    obtain ⟨listed, own, touches⟩ := mem_ownEdges.mp within
    exact (loop_itself itself own).mpr (loops edge listed own touches)
  obtain ⟨written, runs, rows⟩ := loops_run call table around
  have known : ∀ row, row ∈ written.rows ↔ row ∈ table.rows ∧ ¬ (call.Own row ∧ call.Touches row) := by
    intro row
    rw [rows]
    refine and_congr_right fun listed => ⟨fun other near => ?_, fun far edge within same => far ?_⟩
    next => exact other row (mem_ownEdges.mpr ⟨listed, near⟩) rfl
    next =>
      obtain ⟨present, own, touches⟩ := mem_ownEdges.mp within
      rw [row_of_id listed present same]
      exact ⟨own, touches⟩
  have bare : ∀ (kept : Table W), (∀ row ∈ kept.rows, row ∈ table.rows) → ∀ srcId dstId,
      (srcId = call.fromNode ∨ dstId = call.fromNode) → srcId ≠ dstId →
      scopedEdge kept call.userId srcId dstId call.scope = none := by
    intro kept old srcId dstId touches straight
    refine Option.eq_none_iff_forall_ne_some.mpr fun row found => straight ?_
    obtain ⟨listed, pair, inside⟩ := scopedEdge_eq_some.mp found
    obtain ⟨user, src, dst⟩ := Prod.mk.inj pair |>.imp_right Prod.mk.inj
    rw [← src, ← dst] at touches ⊢
    exact loops row (old row listed) ⟨user, inside⟩ touches
  have fewer : ∀ row ∈ written.rows, row ∈ table.rows := fun row listed => ((known row).mp listed).1
  refine ⟨written, runs, ?_, ?_, ?_, ?_, ?_, ?_⟩
  next => exact fun row listed own touches => ((known row).mp listed).2 ⟨own, touches⟩
  next =>
    intro row listed own ends
    exact ((known row).mp listed).2 ⟨own, .inl (ends.1.trans itself.symm)⟩
  next =>
    intro first one second two own own' src dst
    refine row_of_pair one two ?_
    rw [Edge.pair, Edge.pair, own.1, own'.1, src, dst]
  next =>
    intro node offFrom _
    rw [← itself, bare written fewer _ _ (.inl rfl) (Ne.symm offFrom),
      bare table (fun _ listed => listed) _ _ (.inl rfl) (Ne.symm offFrom)]
    rfl
  next =>
    intro node offFrom _
    rw [← itself, bare written fewer _ _ (.inr rfl) offFrom,
      bare table (fun _ listed => listed) _ _ (.inr rfl) offFrom]
    rfl
  next =>
    intro row distant
    rw [known]
    exact and_iff_left fun near => distant ⟨near.1, .inl near.2⟩

theorem run_itself (itself : call.fromNode = call.toNode) (runs : call.run table = some written)
    (emptied : ∀ edge ∈ written.rows, call.Own edge → ¬ call.Touches edge) :
    ∀ edge ∈ table.rows, call.Own edge → call.Touches edge → edge.srcId = edge.dstId := by
  intro edge listed own touches
  by_contra straight
  have within := mem_ownEdges.mpr ⟨listed, own, touches⟩
  obtain ⟨before, after, middle, next, first, step, last, earlier, later⟩ := run_split edge within runs
  have alone : ∀ other, other ∈ call.ownEdges table ∧ other ≠ edge → edge.id ≠ other.id ∧
      edge.pair ≠ call.newPair other := by
    intro other ⟨within, distinct⟩
    obtain ⟨present, own', _⟩ := mem_ownEdges.mp within
    rw [newPair_itself itself own']
    exact ⟨fun same => distinct (row_of_id listed present same).symm,
      fun same => distinct (row_of_pair listed present same).symm⟩
  have stored : edge ∈ middle.rows := by
    refine rest_keeps first listed fun other within => ?_
    obtain ⟨id, pair⟩ := alone other (earlier other within)
    exact ⟨id, fun _ met => pair met.1⟩
  have same : (call.moved edge).pair = edge.pair := by
    rw [← newPair_itself itself own, TransferCall.newPair, ← own.1]
    rfl
  have moved : call.moved edge ∈ next.rows := by
    unfold TransferCall.one transferEdge at step
    dsimp only at step
    split at step
    next loop => exact absurd ((loop_itself itself own).mp loop) straight
    next =>
      split at step
      next existing found =>
        have holds := List.find?_some found
        rw [decide_eq_true_eq] at holds
        have equal := row_of_pair (List.mem_of_find?_eq_some found) stored
          (holds.1.trans (newPair_itself itself own))
        exact absurd (equal ▸ rfl) holds.2.2
      next =>
        rw [repoint_rows step]
        exact List.mem_map.mpr ⟨edge, stored, repointRow_self _ _ _ _⟩
  have kept : call.moved edge ∈ written.rows := by
    refine rest_keeps last moved fun other within => ?_
    obtain ⟨id, pair⟩ := alone other (later other within)
    exact ⟨id, fun _ met => pair (same.symm.trans met.1)⟩
  obtain ⟨_, src, dst⟩ := Prod.mk.inj same |>.imp_right Prod.mk.inj
  exact emptied _ kept own (touches.imp src.trans dst.trans)

end Itself

theorem merges_soundly_iff [LT W] [DecidableLT W] (call : TransferCall) (table : Table W) :
    (∃ written, call.run table = some written ∧ call.MergesSoundly table written) ↔
      call.Fits table := by
  unfold TransferCall.Fits
  split
  next itself =>
    constructor
    next => exact fun ⟨written, runs, sound⟩ => run_itself itself runs sound.emptied
    next => exact itself_soundly itself
  next apart =>
    constructor
    next =>
      rintro ⟨written, runs, sound⟩
      refine ⟨fun edge listed own ends => ?_, run_clear apart runs⟩
      exact sound.unlooped edge (run_loop apart runs listed ends) own ends
    next =>
      rintro ⟨unlooped, clear⟩
      obtain ⟨written, runs, known⟩ := run_stays apart clear
      exact ⟨written, runs, stays_soundly known apart unlooped⟩

section Foreign

private def semanticEdge (id : Nat) (srcId dstId : MemoryId) (contextId : ContextId) : Edge Nat :=
  { id, userId := 1, srcId, dstId, workspaceId := 1, contextId, edgeType := .relatedTo, weight := 1,
    confidence := 1, origin := .semantic, edgeMetadata := none, createdAt := 0, lastUpdated := 0 }

-- The loser 2 links to 3 in context 1; the winner 1 already links to 3 in context 2.
def foreignPair : Table Nat where
  rows := [semanticEdge 1 2 3 1, semanticEdge 2 1 3 2]
  nextId := 3
  numbered := by decide
  below := by decide
  uniqueEdge := by decide

def foreignMerge : TransferCall where
  fromNode := 2
  toNode := 1
  userId := 1
  scope := { workspaceId := 1, contextId := 1 }
  now := 5

theorem foreign_pair_aborts : foreignMerge.run foreignPair = none ∧
    ¬ ∃ written, foreignMerge.run foreignPair = some written ∧
      foreignMerge.MergesSoundly foreignPair written := by
  have refused : foreignMerge.run foreignPair = none := by decide
  refine ⟨refused, fun ⟨written, runs, _⟩ => ?_⟩
  rw [refused] at runs
  cases runs

end Foreign

end MemoryCloud.Edges
