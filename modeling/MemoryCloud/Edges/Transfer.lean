import MemoryCloud.Edges.Model

set_option autoImplicit false

/-!
# Merging edges into a winner

After each edge of a transfer the table is known from the rows it started with: the moved edges
that won their pair, and the rows that neither moved nor lost. The transfer fails on a row of
another scope that holds a pair it needs.
-/

namespace MemoryCloud.Edges

variable {W : Type}

structure TransferCall where
  fromNode : MemoryId
  toNode : MemoryId
  userId : UserId
  scope : Scope
  now : Nat

namespace TransferCall

variable (call : TransferCall)

def Own (edge : Edge W) : Prop :=
  edge.userId = call.userId ∧ edge.inScope call.scope

def Touches (edge : Edge W) : Prop :=
  edge.srcId = call.fromNode ∨ edge.dstId = call.fromNode

def newSrc (edge : Edge W) : MemoryId :=
  moveNode call.fromNode call.toNode edge.srcId

def newDst (edge : Edge W) : MemoryId :=
  moveNode call.fromNode call.toNode edge.dstId

def Loop (edge : Edge W) : Prop :=
  call.newSrc edge = call.newDst edge

def moved (edge : Edge W) : Edge W :=
  { edge with srcId := call.newSrc edge, dstId := call.newDst edge, lastUpdated := call.now }

def newPair (edge : Edge W) : UserId × MemoryId × MemoryId :=
  (call.userId, call.newSrc edge, call.newDst edge)

def Meets (existing edge : Edge W) : Prop :=
  existing.pair = call.newPair edge ∧ existing.inScope call.scope

section Run

variable [LT W] [DecidableLT W]

def one (table : Table W) (edge : Edge W) : Option (Table W) :=
  transferEdge call.userId call.scope call.fromNode call.toNode call.now table edge

def run (table : Table W) : Option (Table W) :=
  transferEdges table call.fromNode call.toNode call.userId call.scope call.now

end Run

end TransferCall

section Rows

variable {table written : Table W}

theorem row_of_id {first second : Edge W} (one : first ∈ table.rows) (two : second ∈ table.rows)
    (same : first.id = second.id) : first = second :=
  List.inj_on_of_nodup_map table.numbered one two same

theorem row_of_pair {first second : Edge W} (one : first ∈ table.rows) (two : second ∈ table.rows)
    (same : first.pair = second.pair) : first = second :=
  List.inj_on_of_nodup_map table.uniqueEdge one two same

theorem mem_keep_id {edge : Edge W} (stored : edge ∈ table.rows) {row : Edge W} :
    row ∈ (table.keep fun other => other.id ≠ edge.id).rows ↔ row ∈ table.rows ∧ row ≠ edge := by
  rw [Table.keep, List.mem_filter, decide_eq_true_eq]
  refine and_congr_right fun listed => not_congr ⟨row_of_id listed stored, ?_⟩
  exact fun same => same ▸ rfl

theorem repointRow_self (edge : Edge W) (srcId dstId : MemoryId) (now : Nat) :
    repointRow edge.id srcId dstId now edge =
      { edge with srcId := srcId, dstId := dstId, lastUpdated := now } :=
  if_pos rfl

theorem repointRow_other {id : Nat} {edge : Edge W} (other : edge.id ≠ id) (srcId dstId : MemoryId)
    (now : Nat) : repointRow id srcId dstId now edge = edge :=
  if_neg other

theorem repoint_free {edge : Edge W} (stored : edge ∈ table.rows) (srcId dstId : MemoryId) (now : Nat)
    (free : ∀ other ∈ table.rows, other.pair = (edge.userId, srcId, dstId) → other = edge) :
    ∃ written, table.repoint edge.id srcId dstId now = some written ∧
      ∀ row, row ∈ written.rows ↔
        row = { edge with srcId := srcId, dstId := dstId, lastUpdated := now } ∨
          row ∈ table.rows ∧ row ≠ edge := by
  have mapped : ∀ row ∈ table.rows, repointRow edge.id srcId dstId now row =
      if row.id = edge.id then { edge with srcId := srcId, dstId := dstId, lastUpdated := now }
      else row := by
    intro row listed
    split
    next same => rw [row_of_id listed stored same, repointRow_self]
    next other => exact repointRow_other other _ _ _
  have unique : ((table.rows.map (repointRow edge.id srcId dstId now)).map Edge.pair).Nodup := by
    rw [List.map_map]
    refine List.Nodup.map_on ?_ table.numbered.of_map
    intro row listed other present same
    rw [Function.comp_apply, Function.comp_apply, mapped row listed, mapped other present] at same
    split at same
    next here =>
      split at same
      next there => exact row_of_id listed present (here.trans there.symm)
      next there => exact absurd (free other present same.symm ▸ rfl) there
    next here =>
      split at same
      next there => exact absurd (free row listed same ▸ rfl) here
      next there => exact row_of_pair listed present same
  refine ⟨_, dif_pos unique, fun row => ?_⟩
  rw [List.mem_map]
  constructor
  next =>
    rintro ⟨old, listed, rfl⟩
    rw [mapped old listed]
    split
    next => exact .inl rfl
    next other => exact .inr ⟨listed, fun same => other (same ▸ rfl)⟩
  next =>
    rintro (rfl | ⟨listed, other⟩)
    next => exact ⟨edge, stored, repointRow_self _ _ _ _⟩
    next =>
      have apart : row.id ≠ edge.id := fun same => other (row_of_id listed stored same)
      exact ⟨row, listed, repointRow_other apart _ _ _⟩

theorem repoint_taken {edge other : Edge W} (stored : edge ∈ table.rows) {srcId dstId : MemoryId}
    {now : Nat} (taken : other ∈ table.rows) (holds : other.pair = (edge.userId, srcId, dstId))
    (apart : other ≠ edge) : table.repoint edge.id srcId dstId now = none := by
  refine dif_neg fun unique => ?_
  rw [List.map_map] at unique
  have different : other.id ≠ edge.id := fun same => apart (row_of_id taken stored same)
  refine apart (List.inj_on_of_nodup_map unique taken stored ?_)
  rw [Function.comp_apply, Function.comp_apply, repointRow_other different, repointRow_self]
  exact holds

end Rows

section Steps

variable [LT W] [DecidableLT W] {call : TransferCall} {table current : Table W} {edge : Edge W}

open TransferCall

theorem moveNode_ne {fromNode toNode : MemoryId} (apart : fromNode ≠ toNode) (node : MemoryId) :
    moveNode fromNode toNode node ≠ fromNode := by
  unfold moveNode
  split
  next => exact Ne.symm apart
  next other => exact other

omit [LT W] [DecidableLT W] in
theorem meets_untouched (apart : call.fromNode ≠ call.toNode) {existing : Edge W}
    (meets : call.Meets existing edge) : ¬ call.Touches existing := by
  obtain ⟨_, src, dst⟩ := Prod.mk.inj meets.1 |>.imp_right Prod.mk.inj
  rintro (touches | touches)
  next => exact moveNode_ne apart _ (src.symm.trans touches)
  next => exact moveNode_ne apart _ (dst.symm.trans touches)

omit [LT W] [DecidableLT W] in
theorem newPair_inj {first second : Edge W} (one : first ∈ table.rows) (two : second ∈ table.rows)
    (own : call.Own first) (own' : call.Own second) (touches : call.Touches first)
    (touches' : call.Touches second) (straight : ¬ call.Loop first)
    (same : call.newPair first = call.newPair second) : first = second := by
  refine row_of_pair one two ?_
  obtain ⟨_, src, dst⟩ := Prod.mk.inj same |>.imp_right Prod.mk.inj
  simp only [Edge.pair, own.1, own'.1, Prod.mk.injEq, true_and]
  simp only [Loop, TransferCall.newSrc, TransferCall.newDst, moveNode] at straight src dst
  simp only [Touches] at touches touches'
  grind

-- A row after the `done` edges of a transfer from `rows`.
def TransferCall.Stays (call : TransferCall) (rows done : List (Edge W)) (row : Edge W) : Prop :=
  (row ∈ rows ∧ row ∉ done ∧
    ∀ edge ∈ done, ¬ call.Loop edge → call.Meets row edge → keepIncoming row edge = false) ∨
  ∃ edge ∈ done, ¬ call.Loop edge ∧ row = call.moved edge ∧
    ∀ existing ∈ rows, call.Meets existing edge → keepIncoming existing edge = true

structure TransferCall.Doing (call : TransferCall) (table : Table W) (done : List (Edge W)) : Prop where
  listed : ∀ edge ∈ done, edge ∈ table.rows
  own : ∀ edge ∈ done, call.Own edge
  touches : ∀ edge ∈ done, call.Touches edge

variable {done : List (Edge W)} (apart : call.fromNode ≠ call.toNode)
  (doing : call.Doing table (done ++ [edge])) (fresh : edge ∉ done)
  (stays : ∀ row, row ∈ current.rows ↔ call.Stays table.rows done row)

include apart doing fresh stays

theorem current_edge : edge ∈ current.rows := by
  have last : edge ∈ done ++ [edge] := by simp
  refine (stays edge).mpr (.inl ⟨doing.listed edge last, fresh, fun other _ _ meets => ?_⟩)
  exact absurd (doing.touches edge last) (meets_untouched apart meets)

omit apart in
theorem current_pair {row : Edge W} (listed : row ∈ current.rows)
    (pair : row.pair = call.newPair edge) : row ∈ table.rows := by
  rcases (stays row).mp listed with old | ⟨other, before, straight', rfl, _⟩
  next => exact old.1
  next =>
    have last : edge ∈ done ++ [edge] := by simp
    have first : other ∈ done ++ [edge] := List.mem_append_left _ before
    have owner : (call.moved other).userId = call.userId := (doing.own other first).1
    have same : call.newPair other = call.newPair edge := by
      rw [← pair]
      simp only [Edge.pair, owner]
      rfl
    have equal := newPair_inj (doing.listed other first) (doing.listed edge last)
      (doing.own other first) (doing.own edge last) (doing.touches other first)
      (doing.touches edge last) straight' same
    exact absurd (equal ▸ before) fresh

theorem current_meets {existing : Edge W} (listed : existing ∈ table.rows)
    (meets : call.Meets existing edge) : existing ∈ current.rows := by
  have last : edge ∈ done ++ [edge] := by simp
  refine (stays existing).mpr (.inl ⟨listed, fun before => ?_, fun other before straight' meets' => ?_⟩)
  next =>
    exact meets_untouched apart meets (doing.touches existing (List.mem_append_left _ before))
  next =>
    have first : other ∈ done ++ [edge] := List.mem_append_left _ before
    have equal := newPair_inj (doing.listed other first) (doing.listed edge last)
      (doing.own other first) (doing.own edge last) (doing.touches other first)
      (doing.touches edge last) straight' (meets'.1.symm.trans meets.1)
    exact absurd (equal ▸ before) fresh

omit [LT W] [DecidableLT W] apart stays in
theorem moved_apart {other : Edge W} (before : other ∈ done) :
    call.moved other ≠ edge ∧ ∀ existing ∈ table.rows, ¬ call.Touches existing →
      call.moved other ≠ existing := by
  have first : other ∈ done ++ [edge] := List.mem_append_left _ before
  have last : edge ∈ done ++ [edge] := by simp
  constructor
  next =>
    intro same
    have id : (call.moved other).id = edge.id := congrArg Edge.id same
    exact fresh (row_of_id (doing.listed other first) (doing.listed edge last) id ▸ before)
  next =>
    intro existing listed untouched same
    have id : (call.moved other).id = existing.id := congrArg Edge.id same
    exact untouched (row_of_id (doing.listed other first) listed id ▸ doing.touches other first)

omit apart doing fresh stays in
theorem stays_concat {rows : List (Edge W)} {row : Edge W} :
    call.Stays rows (done ++ [edge]) row ↔
      ((row ∈ rows ∧ row ∉ done ∧ ∀ other ∈ done, ¬ call.Loop other → call.Meets row other →
          keepIncoming row other = false) ∧ row ≠ edge ∧
        (¬ call.Loop edge → call.Meets row edge → keepIncoming row edge = false)) ∨
      (∃ other ∈ done, ¬ call.Loop other ∧ row = call.moved other ∧
        ∀ existing ∈ rows, call.Meets existing other → keepIncoming existing other = true) ∨
      ¬ call.Loop edge ∧ row = call.moved edge ∧
        ∀ existing ∈ rows, call.Meets existing edge → keepIncoming existing edge = true := by
  simp only [Stays, List.mem_append, List.mem_singleton, or_imp, forall_and, not_or, forall_eq,
    or_and_right, exists_or, exists_eq_left]
  refine or_congr_left ⟨?_, ?_⟩
  next =>
    rintro ⟨listed, ⟨idle, other⟩, kept, last⟩
    exact ⟨⟨listed, idle, kept⟩, other, last⟩
  next =>
    rintro ⟨⟨listed, idle, kept⟩, other, last⟩
    exact ⟨listed, ⟨idle, other⟩, kept, last⟩

-- One edge of a transfer whose pair is free, held in scope, or lost as a loop.
theorem one_stays (clear : ¬ call.Loop edge → ∀ other ∈ table.rows,
      other.pair = call.newPair edge → other.inScope call.scope) :
    ∃ written, call.one current edge = some written ∧
      ∀ row, row ∈ written.rows ↔ call.Stays table.rows (done ++ [edge]) row := by
  have last : edge ∈ done ++ [edge] := by simp
  have stored := current_edge apart doing fresh stays
  have owner := (doing.own edge last).1
  unfold TransferCall.one transferEdge
  dsimp only
  split
  next loop =>
    refine ⟨_, rfl, fun row => ?_⟩
    have loop' : call.Loop edge := loop
    rw [mem_keep_id stored, stays, stays_concat]
    simp only [loop', not_true_eq_false, false_implies, false_and, or_false, and_true]
    constructor
    next => exact fun ⟨held, other⟩ => held.imp_left fun old => ⟨old, other⟩
    next =>
      rintro (⟨old, other⟩ | ⟨other, before, straight, rfl, won⟩)
      next => exact ⟨.inl old, other⟩
      next => exact ⟨.inr ⟨other, before, straight, rfl, won⟩, (moved_apart doing fresh before).1⟩
  next straight =>
    have straight' : ¬ call.Loop edge := straight
    have only : ∀ row ∈ current.rows, row.pair = call.newPair edge →
        row ∈ table.rows ∧ call.Meets row edge := by
      intro row listed pair
      have old := current_pair doing fresh stays listed pair
      exact ⟨old, pair, clear straight' row old pair⟩
    split
    next existing found =>
      have holds := List.find?_some found
      rw [decide_eq_true_eq] at holds
      have present := List.mem_of_find?_eq_some found
      obtain ⟨old, meets⟩ := only existing present holds.1
      have untouched := meets_untouched apart meets
      have unique : ∀ row ∈ table.rows, call.Meets row edge → row = existing :=
        fun row listed meets' => row_of_pair listed old (meets'.1.trans meets.1.symm)
      have other : existing ≠ edge := by
        rintro rfl
        exact untouched (doing.touches existing last)
      split
      next keeps =>
        have left : ∀ {row : Edge W}, row ∈ (current.keep fun other => other.id ≠ existing.id).rows ↔
            row ∈ current.rows ∧ row ≠ existing := mem_keep_id present
        have storedLeft := left.mpr ⟨stored, Ne.symm other⟩
        obtain ⟨written, done', rows⟩ := repoint_free storedLeft (call.newSrc edge) (call.newDst edge)
          call.now fun row listed pair => by
            obtain ⟨within, apart⟩ := left.mp listed
            rw [owner] at pair
            obtain ⟨listed', meets'⟩ := only row within pair
            exact absurd (unique row listed' meets') apart
        refine ⟨written, done', fun row => ?_⟩
        rw [rows, left, stays, stays_concat]
        constructor
        next =>
          rintro (moved | ⟨⟨held, lost⟩, row'⟩)
          next =>
            refine .inr (.inr ⟨straight', moved, fun taken listed meets' => ?_⟩)
            rw [unique taken listed meets']
            exact keeps
          next =>
            rcases held with idle | won
            next =>
              refine .inl ⟨idle, row', fun _ meets' => absurd (unique row idle.1 meets') lost⟩
            next => exact .inr (.inl won)
        next =>
          rintro (⟨idle, row', loses⟩ | ⟨first, before, straight'', rfl, won⟩ | ⟨_, moved, _⟩)
          next =>
            refine .inr ⟨⟨.inl idle, ?_⟩, row'⟩
            rintro rfl
            rw [loses straight' meets] at keeps
            cases keeps
          next =>
            obtain ⟨first', second⟩ := moved_apart doing fresh before
            exact .inr ⟨⟨.inr ⟨first, before, straight'', rfl, won⟩, second existing old untouched⟩,
              first'⟩
          next => exact .inl moved
      next loses =>
        refine ⟨_, rfl, fun row => ?_⟩
        rw [mem_keep_id stored, stays, stays_concat]
        rw [Bool.not_eq_true] at loses
        constructor
        next =>
          rintro ⟨idle | won, row'⟩
          next =>
            refine .inl ⟨idle, row', fun _ meets' => ?_⟩
            rw [unique row idle.1 meets']
            exact loses
          next => exact .inr (.inl won)
        next =>
          rintro (⟨idle, row', _⟩ | ⟨first, before, straight'', rfl, won⟩ | ⟨_, _, wins⟩)
          next => exact ⟨.inl idle, row'⟩
          next =>
            exact ⟨.inr ⟨first, before, straight'', rfl, won⟩, (moved_apart doing fresh before).1⟩
          next =>
            rw [wins existing old meets] at loses
            cases loses
    next none =>
      have unmet : ∀ row ∈ table.rows, ¬ call.Meets row edge := by
        intro row listed meets
        have present := current_meets apart doing fresh stays listed meets
        refine List.find?_eq_none.mp none row present (decide_eq_true ⟨meets.1, meets.2, fun same => ?_⟩)
        have equal := row_of_id listed (doing.listed edge last) same
        exact meets_untouched apart meets (equal ▸ doing.touches edge last)
      obtain ⟨written, done', rows⟩ := repoint_free stored (call.newSrc edge) (call.newDst edge)
        call.now fun row listed pair => by
          rw [owner] at pair
          obtain ⟨listed', meets'⟩ := only row listed pair
          exact absurd meets' (unmet row listed')
      refine ⟨written, done', fun row => ?_⟩
      rw [rows, stays, stays_concat]
      constructor
      next =>
        rintro (moved | ⟨idle | won, row'⟩)
        next =>
          exact .inr (.inr ⟨straight', moved, fun taken listed meets =>
            absurd meets (unmet taken listed)⟩)
        next => exact .inl ⟨idle, row', fun _ meets => absurd meets (unmet row idle.1)⟩
        next => exact .inr (.inl won)
      next =>
        rintro (⟨idle, row', _⟩ | ⟨first, before, straight'', rfl, won⟩ | ⟨_, moved, _⟩)
        next => exact .inr ⟨.inl idle, row'⟩
        next =>
          exact .inr ⟨.inr ⟨first, before, straight'', rfl, won⟩, (moved_apart doing fresh before).1⟩
        next => exact .inl moved

end Steps

end MemoryCloud.Edges
