import MemoryCloud.Triggers.Summaries

set_option autoImplicit false

/-!
# What the parser accepts

Every function of the parser moves forward, so no loop runs out of rounds, and
what it returns describes the expression it has read.
-/

namespace MemoryCloud.Triggers

section Ends

variable {A B : Type} {holds : A → Prop} {kept : B → Prop}

def Ends (holds : A → Prop) : Except Stop A → Prop
  | .ok value => holds value
  | .error stop => stop ≠ .exhausted

theorem Ends.bind {first : Except Stop A} {rest : A → Except Stop B} (ends : Ends holds first)
    (onward : ∀ value, holds value → Ends kept (rest value)) : Ends kept (first >>= rest) := by
  cases first with
  | ok value => exact onward value ends
  | error stop => exact ends

theorem Ends.mono {wide : A → Prop} {call : Except Stop A} (ends : Ends holds call)
    (more : ∀ value, holds value → wide value) : Ends wide call := by
  cases call with
  | ok value => exact more value ends
  | error stop => exact ends

theorem Ends.of_ok {call : Except Stop A} {value : A} (ends : Ends holds call)
    (returned : call = .ok value) : holds value := by
  rw [returned] at ends
  exact ends

end Ends

variable {parser : Parser} {pos : Pos}

theorem ends_fail {A : Type} {holds : A → Prop} (code : Code) (sentence : String) :
    Ends holds (parser.fail pos code sentence) := by
  intro exhausted
  cases exhausted

section Lexical

def Moves (least : Nat) (pos next : Pos) : Prop :=
  pos.i + least ≤ next.i ∧ next.unboundedCount = pos.unboundedCount

theorem moves_skip (pos : Pos) (count : Nat) : Moves count pos (pos.skip count) :=
  ⟨Nat.le_refl _, rfl⟩

theorem Moves.trans {least more : Nat} {middle next : Pos} (first : Moves least pos middle)
    (second : Moves more middle next) : Moves (least + more) pos next :=
  ⟨by have := first.1; have := second.1; omega, second.2.trans first.2⟩

theorem Moves.weaken {least more : Nat} {next : Pos} (moves : Moves more pos next)
    (le : least ≤ more) : Moves least pos next :=
  ⟨by have := moves.1; omega, moves.2⟩

theorem int_ends (text : List CodePoint) : Ends (fun _ => True) (parser.int text) := by
  unfold Parser.int
  split
  next =>
    intro exhausted
    cases exhausted
  next => trivial

theorem upper_ends (text : List CodePoint) : Ends (fun _ => True) (parser.upper text) := by
  unfold Parser.upper
  split
  next => trivial
  next =>
    have ends : Ends (fun _ => True) (parser.int text) := int_ends text
    cases read : parser.int text with
    | ok value => trivial
    | error stop =>
      rw [read] at ends
      exact ends

theorem bounds_ends : Ends (fun read => Moves 1 pos read.2) (parser.bounds pos) := by
  unfold Parser.bounds
  split
  next => exact ends_fail _ _
  next inner _ =>
    split
    next => exact ends_fail _ _
    next =>
      dsimp only
      split
      next => exact ends_fail _ _
      next =>
        refine (int_ends _).bind fun low _ => (upper_ends _).bind fun high _ => ?_
        split
        next => exact ends_fail _ _
        next =>
          split
          next => exact ends_fail _ _
          next => exact (moves_skip pos _).weaken (by omega)

theorem quantifierKind_ends (char : CodePoint) :
    Ends (fun read => Moves 1 pos read.2) (parser.quantifierKind pos char) := by
  unfold Parser.quantifierKind
  split
  next => exact bounds_ends
  next =>
    split
    next => exact moves_skip pos 1
    next => exact moves_skip pos 1

theorem quantifier_ends : Ends (fun read => Moves 0 pos read.2) (parser.quantifier pos) := by
  unfold Parser.quantifier
  split
  next => exact moves_skip pos 0
  next char _ =>
    split
    next => exact moves_skip pos 0
    next =>
      refine (quantifierKind_ends char).bind fun read moves => ?_
      have suffix : Moves 0 pos (if parser.sees read.2 '?' then read.2.skip 1 else read.2) := by
        split
        next => exact (moves.trans (moves_skip read.2 1)).weaken (Nat.zero_le _)
        next => exact moves.weaken (Nat.zero_le _)
      dsimp only
      generalize (if parser.sees read.2 '?' then read.2.skip 1 else read.2) = next at suffix ⊢
      split
      next => exact ends_fail _ _
      next =>
        split
        next => exact ends_fail _ _
        next => exact suffix

theorem escape_ends (inClass : Bool) :
    Ends (fun read => Moves 1 pos read.2 ∧ (inClass = true → read.1 ≠ .zeroWidth))
      (parser.escape pos inClass) := by
  have forward : ∀ count, Moves 1 pos (((pos.skip 1).skip 1).skip count) := fun count =>
    ((moves_skip pos 1).trans ((moves_skip _ 1).trans (moves_skip _ count))).weaken (by omega)
  unfold Parser.escape
  dsimp only
  split
  next => exact ends_fail _ _
  next =>
    split
    next => exact ends_fail _ _
    next =>
      split
      next => exact ends_fail _ _
      next =>
        split
        next => exact ⟨forward 0, fun _ zero => by cases zero⟩
        next =>
          split
          next =>
            split
            next => exact ends_fail _ _
            next outside => exact ⟨forward 0, fun inside => absurd inside outside⟩
          next =>
            split
            next => exact ⟨forward 0, fun _ zero => by cases zero⟩
            next =>
              split
              next =>
                split
                next => exact ends_fail _ _
                next =>
                  split
                  next => exact ends_fail _ _
                  next =>
                    split
                    next => exact ends_fail _ _
                    next => exact ⟨forward _, fun _ zero => by cases zero⟩
              next => exact ends_fail _ _

theorem classItem_ends (present : (parser.peek pos).isSome) :
    Ends (fun read => Moves 1 pos read.2 ∧ read.1.2.1 = read.1.2.2.sample parser)
      (parser.classItem pos) := by
  unfold Parser.classItem
  split
  next missing => simp [missing] at present
  next char _ =>
    split
    next =>
      refine (escape_ends true).bind fun read found => ⟨found.1, ?_⟩
      cases escape : read.1 with
      | zeroWidth => exact absurd escape (found.2 rfl)
      | set letter => rfl
      | literal char => rfl
    next => exact ⟨moves_skip pos 1, rfl⟩

def Members.Ok (parser : Parser) (members : Members) : Prop :=
  members.chars = members.items.flatMap (Item.sample parser)

theorem Members.Ok.add {members : Members} (ok : members.Ok parser) (literal : Bool) (item : Item)
    {chars : List CodePoint} (same : chars = item.sample parser) :
    Members.Ok parser ⟨literal, members.chars ++ chars, members.items ++ [item]⟩ := by
  rw [Members.Ok, List.flatMap_append, ← ok, same]
  simp

theorem classLoop_ends (fuel : Nat) (first : Bool) (members : Members) (pos : Pos)
    (enough : parser.p.length - pos.i < fuel) (ok : members.Ok parser) :
    Ends (fun read => Moves 1 pos read.2 ∧ read.1.Ok parser)
      (parser.classLoop fuel first members pos) := by
  induction fuel generalizing first members pos with
  | zero => exact absurd enough (Nat.not_lt_zero _)
  | succ fuel ih =>
    unfold Parser.classLoop
    split
    next => exact ends_fail _ _
    next char seen =>
      have inside : pos.i < parser.p.length := (List.getElem?_eq_some_iff.mp seen).1
      -- Each round reads at least one member.
      have onward : ∀ (next : Pos) (collected : Members), Moves 1 pos next → collected.Ok parser →
          Ends (fun read => Moves 1 pos read.2 ∧ read.1.Ok parser)
            (parser.classLoop fuel false collected next) := by
        intro next collected moves collects
        have shorter : parser.p.length - next.i < fuel := by
          have := moves.1
          omega
        exact (ih false collected next shorter collects).mono fun read found =>
          ⟨(moves.trans found.1).weaken (by omega), found.2⟩
      split
      next => exact ⟨moves_skip pos 1, ok⟩
      next =>
        split
        next => exact ends_fail _ _
        next =>
          split
          next => exact ends_fail _ _
          next =>
            refine (classItem_ends (by simp [seen])).bind fun read found => ?_
            obtain ⟨⟨lo, loSet, item⟩, middle⟩ := read
            obtain ⟨moves, same⟩ := found
            dsimp only at moves same ⊢
            split
            next => exact ends_fail _ _
            next =>
              split
              next ranged =>
                split
                next => exact ends_fail _ _
                next low =>
                  split
                  next => exact ends_fail _ _
                  next =>
                    have present : (parser.peek (middle.skip 1)).isSome := by
                      obtain ⟨char, at', _⟩ := Option.any_eq_true _ _ |>.mp ranged.2
                      exact Option.isSome_iff_exists.mpr ⟨char, at'⟩
                    refine (classItem_ends present).bind fun read found => ?_
                    obtain ⟨⟨hi, hiSet, other⟩, last⟩ := read
                    have reached : Moves 1 pos last :=
                      ((moves.trans (moves_skip middle 1)).trans found.1).weaken (by omega)
                    dsimp only
                    split
                    next => exact ends_fail _ _
                    next high =>
                      split
                      next => exact ends_fail _ _
                      next => exact onward last _ reached (ok.add _ (.range low high) rfl)
              next => exact onward middle _ moves (ok.add _ item same)

theorem class_ends :
    Ends (fun read => Moves 1 pos read.2 ∧
      read.1.Ok parser pos.unboundedCount read.2.unboundedCount) (parser.class pos) := by
  unfold Parser.class
  dsimp only
  have begun : Moves 1 pos (if parser.sees (pos.skip 1) '^' then (pos.skip 1).skip 1
      else pos.skip 1) := by
    split
    next => exact ((moves_skip pos 1).trans (moves_skip _ 1)).weaken (by omega)
    next => exact moves_skip pos 1
  generalize (if parser.sees (pos.skip 1) '^' then (pos.skip 1).skip 1 else pos.skip 1) = start
    at begun ⊢
  split
  next => exact ends_fail _ _
  next =>
    have none : Members.Ok parser ⟨false, [], []⟩ := rfl
    refine (classLoop_ends _ _ _ _ (by omega) none).bind fun read found => ?_
    obtain ⟨moves, ok⟩ := found
    have reached := (begun.trans moves).weaken (Nat.le_add_right 1 1)
    refine ⟨reached, ⟨_, rfl, ?_⟩, reached.2.symm⟩
    simp only [CharSet.sample]
    rw [← ok]

end Lexical

section Walks

variable {walk : Walk} {atom : Atom}

theorem walkGroup_ends : Ends (fun _ => True) (parser.walkGroup pos walk atom) := by
  unfold Parser.walkGroup
  split
  next => exact ends_fail _ _
  next =>
    dsimp only
    split
    next => exact ends_fail _ _
    next => trivial

theorem walkUnbounded_ends : Ends (fun _ => True) (parser.walkUnbounded pos walk atom) := by
  unfold Parser.walkUnbounded
  split
  next => exact ends_fail _ _
  next =>
    split
    next => exact ends_fail _ _
    next =>
      split
      next => exact ends_fail _ _
      next => trivial

theorem round_ends (quantifier : Option Quantifier) :
    Ends (fun _ => True) (parser.round pos walk atom quantifier) := by
  unfold Parser.round
  dsimp only
  split
  next => exact ends_fail _ _
  next =>
    split
    next => exact ends_fail _ _
    next =>
      split
      next => trivial
      next =>
        have ends : Ends (fun _ => True) (parser.walkGroup pos (walk.note atom none) atom) :=
          walkGroup_ends
        cases walked : parser.walkGroup pos (walk.note atom none) atom with
        | ok value => trivial
        | error stop =>
          rw [walked] at ends
          exact ends
      next => exact walkUnbounded_ends
      next => trivial
      next => trivial

end Walks

section Grammar

def ReadsAtoms (parser : Parser) (readAtom : Pos → Except Stop (Atom × Pos)) : Prop :=
  ∀ pos, Ends (fun read => pos.i < read.2.i ∧
    read.1.Ok parser pos.unboundedCount read.2.unboundedCount) (readAtom pos)

def ReadsAlternatives (parser : Parser) (alternation : Pos → Except Stop (Seq × Pos)) : Prop :=
  ∀ pos, Ends (fun read => pos.i ≤ read.2.i ∧
    pos.unboundedCount ≤ read.2.unboundedCount ∧
      read.1.Ok parser (decide (pos.unboundedCount < read.2.unboundedCount))) (alternation pos)

variable {readAtom : Pos → Except Stop (Atom × Pos)} (atoms : ReadsAtoms parser readAtom)

include atoms

theorem sequenceLoop_ends (fuel start : Nat) (walk : Walk) (pos : Pos)
    (enough : parser.p.length - pos.i < fuel) (le : start ≤ pos.unboundedCount)
    (ok : walk.Ok parser (decide (start < pos.unboundedCount))) :
    Ends (fun read => pos.i ≤ read.2.i ∧ start ≤ read.2.unboundedCount ∧
      read.1.Ok parser (decide (start < read.2.unboundedCount)))
      (parser.sequenceLoop readAtom fuel walk pos) := by
  induction fuel generalizing walk pos with
  | zero => exact absurd enough (Nat.not_lt_zero _)
  | succ fuel ih =>
    unfold Parser.sequenceLoop
    split
    next => exact ⟨Nat.le_refl _, le, ok⟩
    next char seen =>
      have inside : pos.i < parser.p.length := (List.getElem?_eq_some_iff.mp seen).1
      split
      next => exact ⟨Nat.le_refl _, le, ok⟩
      next =>
        split
        next =>
          split
          next => exact ends_fail _ _
          next => exact ends_fail _ _
        next =>
          refine (atoms pos).bind fun first read => ?_
          refine quantifier_ends.bind fun second moves => ?_
          obtain ⟨atom, middle⟩ := first
          obtain ⟨quantifier, later⟩ := second
          obtain ⟨forward, described⟩ := read
          dsimp only at forward described moves ⊢
          have counted : atom.Ok parser pos.unboundedCount later.unboundedCount := by
            rw [moves.2]
            exact described
          have taken : Ends (fun read => read.2.i = later.i ∧ start ≤ read.2.unboundedCount ∧
              read.1.Ok parser (decide (start < read.2.unboundedCount)))
              (parser.round later walk atom quantifier) := by
            have ends : Ends (fun _ => True) (parser.round later walk atom quantifier) :=
              round_ends quantifier
            cases result : parser.round later walk atom quantifier with
            | ok value =>
              obtain ⟨kept, more, same⟩ := round_ok ok counted le result
              exact ⟨same, Nat.le_trans (Nat.le_trans le counted.le) more, kept⟩
            | error stop =>
              rw [result] at ends
              exact ends
          refine taken.bind fun third next => ?_
          obtain ⟨same, more, kept⟩ := next
          have shorter : parser.p.length - third.2.i < fuel := by
            have := moves.1
            omega
          refine (ih third.1 third.2 shorter more kept).mono fun read found => ⟨?_, found.2⟩
          have := moves.1
          have := found.1
          omega

theorem sequence_ends : ReadsAlternatives parser (parser.sequence readAtom) := by
  intro pos
  unfold Parser.sequence
  refine (sequenceLoop_ends atoms _ pos.unboundedCount .init pos (by omega) (Nat.le_refl _)
    walk_init_ok).bind fun read found => ?_
  dsimp only
  split
  next => exact ends_fail _ _
  next => exact ⟨found.1, found.2.1, found.2.2.seq⟩

theorem branches_ends (fuel start : Nat) (read : List Seq) (pos : Pos)
    (enough : parser.p.length - pos.i < fuel) (le : start ≤ pos.unboundedCount)
    (ok : ∀ seq ∈ read, seq.Ok parser (decide (start < pos.unboundedCount))) :
    Ends (fun result => pos.i ≤ result.2.i ∧ start ≤ result.2.unboundedCount ∧
      read <+: result.1 ∧
        ∀ seq ∈ result.1, seq.Ok parser (decide (start < result.2.unboundedCount)))
      (parser.branches readAtom fuel read pos) := by
  induction fuel generalizing read pos with
  | zero => exact absurd enough (Nat.not_lt_zero _)
  | succ fuel ih =>
    unfold Parser.branches
    split
    next seen =>
      have inside : pos.i < parser.p.length := by
        have found : parser.p[pos.i]? = some '|'.toNat := of_decide_eq_true seen
        exact (List.getElem?_eq_some_iff.mp found).1
      refine (sequence_ends atoms (pos.skip 1)).bind fun first found => ?_
      obtain ⟨seq, next⟩ := first
      obtain ⟨forward, more, described⟩ := found
      simp only [Pos.skip] at forward more described
      dsimp only
      have later : ∀ other ∈ read ++ [seq],
          other.Ok parser (decide (start < next.unboundedCount)) := by
        intro other listed
        rcases List.mem_append.mp listed with early | last
        next =>
          refine (ok other early).mono fun counted => decide_eq_true ?_
          exact Nat.lt_of_lt_of_le (of_decide_eq_true counted) more
        next =>
          rw [List.mem_singleton.mp last]
          refine described.mono fun counted => decide_eq_true ?_
          exact Nat.lt_of_le_of_lt le (of_decide_eq_true counted)
      refine (ih (read ++ [seq]) next (by omega) (Nat.le_trans le more) later).mono
        fun result kept => ⟨by have := kept.1; omega, kept.2.1, ?_, kept.2.2.2⟩
      exact (List.prefix_append read [seq]).trans kept.2.2.1
    next => exact ⟨Nat.le_refl _, le, List.prefix_rfl, ok⟩

theorem alternationOf_ends : ReadsAlternatives parser (parser.alternationOf readAtom) := by
  intro pos
  unfold Parser.alternationOf
  refine (sequence_ends atoms pos).bind fun first found => ?_
  obtain ⟨forward, more, described⟩ := found
  refine (branches_ends atoms _ pos.unboundedCount [first.1] first.2 (by omega) more
    (fun seq listed => ?_)).bind fun result kept => ?_
  next =>
    rw [List.mem_singleton.mp listed]
    exact described
  next =>
    refine ⟨Nat.le_trans forward kept.1, kept.2.1, merge_ok ?_ kept.2.2.2⟩
    intro empty
    have begun := kept.2.2.1
    rw [empty] at begun
    simpa using begun.length_le

omit atoms in
theorem groupStart_ends :
    Ends (fun next => Moves 1 pos next) (parser.groupStart pos) := by
  unfold Parser.groupStart
  dsimp only
  split
  next => exact moves_skip pos 1
  next =>
    split
    next => exact ((moves_skip pos 1).trans (moves_skip _ 2)).weaken (by omega)
    next =>
      split
      next => exact ends_fail _ _
      next =>
        split
        next => exact ends_fail _ _
        next =>
          split
          next => exact ends_fail _ _
          next => exact ends_fail _ _

omit atoms in
theorem group_ends {alternation : Pos → Except Stop (Seq × Pos)}
    (alternatives : ReadsAlternatives parser alternation) :
    ReadsAtoms parser (parser.group alternation) := by
  intro pos
  unfold Parser.group
  refine groupStart_ends.bind fun start begun => ?_
  split
  next => exact ends_fail _ _
  next =>
    dsimp only
    refine (alternatives start).bind fun read found => ?_
    obtain ⟨body, last⟩ := read
    obtain ⟨forward, more, described⟩ := found
    dsimp only at forward more described ⊢
    split
    next => exact ends_fail _ _
    next =>
      refine ⟨?_, body, ⟨rfl, rfl, rfl, rfl, rfl, rfl, rfl, rfl, rfl⟩, described, ?_, ?_⟩
      next =>
        have := begun.1
        simp only [Pos.skip]
        omega
      next =>
        rw [← begun.2]
        exact more
      next =>
        rw [← begun.2]
        rfl

omit atoms in
theorem atom_ends {group : Pos → Except Stop (Atom × Pos)} (groups : ReadsAtoms parser group) :
    ReadsAtoms parser (parser.atom group) := by
  intro pos
  have single : ∀ atom : Atom, atom.Ok parser pos.unboundedCount pos.unboundedCount →
      Ends (fun read => pos.i < read.2.i ∧
        read.1.Ok parser pos.unboundedCount read.2.unboundedCount)
          (.ok (atom, pos.skip 1)) := fun atom ok => ⟨Nat.lt_succ_self _, ok⟩
  unfold Parser.atom
  split
  next => exact single _ ⟨rfl, rfl⟩
  next char _ =>
    split
    next => exact groups pos
    next =>
      split
      next => exact class_ends.mono fun read found => ⟨found.1.1, found.2⟩
      next =>
        split
        next =>
          refine (escape_ends false).bind fun read found => ⟨found.1.1, ?_⟩
          have same : pos.unboundedCount = read.2.unboundedCount := found.1.2.symm
          cases escape : read.1 with
          | zeroWidth => exact ⟨rfl, same⟩
          | set letter => exact ⟨⟨_, rfl, by simp [Escape.atom, CharSet.sample, Item.sample]⟩, same⟩
          | literal char => exact ⟨⟨_, rfl, by simp [Escape.atom, CharSet.sample, Item.sample]⟩, same⟩
        next =>
          split
          next => exact single _ ⟨rfl, rfl⟩
          next =>
            split
            next => exact single _ ⟨⟨_, rfl, rfl⟩, rfl⟩
            next =>
              split
              next => exact ends_fail _ _
              next =>
                split
                next => exact ends_fail _ _
                next =>
                  split
                  next => exact ends_fail _ _
                  next =>
                    exact single _ ⟨⟨_, rfl, by simp [CharSet.sample, Item.sample]⟩, rfl⟩

omit atoms in
theorem alternation_ends (left : Nat) : ReadsAlternatives parser (parser.alternation left) := by
  induction left with
  | zero => exact alternationOf_ends (atom_ends fun pos => ends_fail _ _)
  | succ left ih => exact alternationOf_ends (atom_ends (group_ends ih))

omit atoms in
-- The parser ends by itself, and its summary describes the pattern.
theorem parse_ends : Ends (fun seq => ∃ unbounded, seq.Ok parser unbounded) parser.parse := by
  unfold Parser.parse
  refine (alternation_ends _ _).bind fun read found => ?_
  dsimp only
  split
  next => exact ends_fail _ _
  next => exact ⟨_, found.2.2⟩

end Grammar

end MemoryCloud.Triggers
