import MemoryCloud.Triggers.Paths

set_option autoImplicit false

/-!
# The summaries describe the paths

Each round of `_sequence` composes the edges of what it has walked with those
of the next element. So the summary of an accepted alternative covers every
path through it.
-/

namespace MemoryCloud.Triggers

open Separators (Token Edges Covers Exact)

variable {parser : Parser}

def Walk.edges (walk : Walk) (unbounded : Bool) : Edges CodePoint :=
  { starts := walk.startsUnbounded
    ends := walk.pendingUnbounded
    mandatory := walk.seenMandatory
    ambiguous := walk.ambiguous
    hasUnbounded := unbounded
    firstSet := walk.firstSet
    endSet := walk.runSet }

def Seq.edges (seq : Seq) (unbounded : Bool) : Edges CodePoint :=
  { starts := seq.startsUnbounded
    ends := seq.endsUnbounded
    mandatory := seq.mandatory
    ambiguous := seq.ambiguous
    hasUnbounded := unbounded
    firstSet := seq.firstSet
    endSet := seq.endSet }

structure Seq.Ok (parser : Parser) (seq : Seq) (unbounded : Bool) : Prop where
  paths : ∀ path ∈ seq.regex.paths, Covers (reading parser) (seq.edges unbounded) path
  counted : seq.endsUnbounded = true → unbounded = true
  mandatory : seq.mandatory = seq.regex.separates
  first : seq.firstSet = seq.regex.sample parser
  plain : seq.hasQuantifier = false → seq.hasAlternation = false → seq.regex.plain = true
  flat : seq.regex.flat = true

structure Walk.Ok (parser : Parser) (walk : Walk) (unbounded : Bool) : Prop where
  paths : ∀ path ∈ walk.front.paths, Exact (reading parser) (walk.edges unbounded) path
  counted : walk.pendingUnbounded = true → unbounded = true
  mandatory : walk.seenMandatory = walk.front.separates
  opened : walk.firstOpen = !walk.seenMandatory
  first : walk.firstSet = walk.front.sample parser
  plain : walk.hasQuantifier = false → walk.hasAlternation = false → walk.front.plain = true
  flat : walk.front.flat = true

structure Atom.OfBody (atom : Atom) (body : Seq) : Prop where
  node : atom.node = .group body.regex
  chars : atom.chars = body.firstSet
  starts : atom.startsUnbounded = body.startsUnbounded
  ends : atom.endsUnbounded = body.endsUnbounded
  endSet : atom.endSet = body.endSet
  mandatory : atom.mandatory = body.mandatory
  ambiguous : atom.ambiguous = body.ambiguous
  hasQuantifier : atom.hasQuantifier = body.hasQuantifier
  hasAlternation : atom.hasAlternation = body.hasAlternation

def Atom.Ok (parser : Parser) (atom : Atom) (before after : Nat) : Prop :=
  match atom.kind with
  | .zeroWidth => atom.node = .zeroWidth ∧ before = after
  | .atom => (∃ set, atom.node = .chars set ∧ atom.chars = set.sample parser) ∧ before = after
  | .group => ∃ body, atom.OfBody body ∧ body.Ok parser atom.hasUnbounded ∧ before ≤ after ∧
      atom.hasUnbounded = decide (before < after)

section Pieces

variable {walk : Walk} {atom : Atom} {quantifier : Option Quantifier} {before after : Nat}

theorem Atom.Ok.le (ok : atom.Ok parser before after) : before ≤ after := by
  unfold Atom.Ok at ok
  split at ok
  next => exact Nat.le_of_eq ok.2
  next => exact Nat.le_of_eq ok.2
  next =>
    obtain ⟨_, _, _, le, _⟩ := ok
    exact le

theorem Atom.Ok.sample (ok : atom.Ok parser before after) (consumes : atom.kind ≠ .zeroWidth) :
    atom.node.sample parser = atom.chars := by
  unfold Atom.Ok at ok
  split at ok
  next zero => exact absurd zero consumes
  next =>
    obtain ⟨⟨set, node, chars⟩, _⟩ := ok
    rw [node, chars]
    rfl
  next =>
    obtain ⟨body, made, described, _⟩ := ok
    rw [made.node, made.chars, described.first]
    rfl

theorem Atom.Ok.flat (ok : atom.Ok parser before after) : atom.node.flat = true := by
  unfold Atom.Ok at ok
  split at ok
  next =>
    rw [ok.1]
    rfl
  next =>
    obtain ⟨⟨set, node, _⟩, _⟩ := ok
    rw [node]
    rfl
  next =>
    obtain ⟨body, made, described, _⟩ := ok
    rw [made.node]
    exact described.flat

theorem Atom.Ok.plain (ok : atom.Ok parser before after)
    (quantifier : atom.kind = .group → atom.hasQuantifier = false)
    (alternation : atom.kind = .group → atom.hasAlternation = false) :
    atom.node.plain = true := by
  unfold Atom.Ok at ok
  split at ok
  next =>
    rw [ok.1]
    rfl
  next =>
    obtain ⟨⟨set, node, _⟩, _⟩ := ok
    rw [node]
    rfl
  next group =>
    obtain ⟨body, made, described, _⟩ := ok
    rw [made.node]
    exact described.plain (made.hasQuantifier ▸ quantifier group)
      (made.hasAlternation ▸ alternation group)

end Pieces

section Rounds

variable {walk next : Walk} {atom : Atom} {quantifier : Option Quantifier} {pos pos' : Pos}
  {unbounded : Bool} {before after : Nat}

theorem note_first (ok : walk.Ok parser unbounded) (read : atom.Ok parser before after) :
    (walk.note atom quantifier).firstSet = (walk.note atom quantifier).front.sample parser := by
  simp only [Walk.note, Regex.sample, ← ok.mandatory, ← ok.first, ok.opened]
  by_cases zero : atom.kind = .zeroWidth
  next =>
    have node : atom.node = .zeroWidth := by
      unfold Atom.Ok at read
      rw [zero] at read
      exact read.1
    simp [zero, node, Regex.sample]
  next =>
    rw [read.sample zero]
    cases walk.seenMandatory <;> simp [zero]

theorem note_plain (ok : walk.Ok parser unbounded) (read : atom.Ok parser before after)
    (noQuantifier : (walk.note atom quantifier).hasQuantifier = false)
    (noAlternation : (walk.note atom quantifier).hasAlternation = false) :
    (walk.note atom quantifier).front.plain = true := by
  simp only [Walk.note, Bool.or_eq_false_iff, Bool.and_eq_false_iff, decide_eq_false_iff_not]
    at noQuantifier noAlternation
  simp only [Walk.note, Regex.plain, Bool.and_eq_true]
  refine ⟨⟨ok.plain noQuantifier.1.1 noAlternation.1, ?_⟩, ?_⟩
  next =>
    refine read.plain (fun group => ?_) fun group => ?_
    next => exact noQuantifier.1.2.resolve_left (fun other => other group)
    next => exact noAlternation.2.resolve_left (fun other => other group)
  next => simpa using noQuantifier.2

theorem note_flat (ok : walk.Ok parser unbounded) (read : atom.Ok parser before after)
    (flat : quantifier.isSome → atom.kind = .group →
      atom.hasQuantifier = false ∧ atom.hasAlternation = false) :
    (walk.note atom quantifier).front.flat = true := by
  simp only [Walk.note, Regex.flat, ok.flat, read.flat, Bool.true_and]
  cases quantifier with
  | none => rfl
  | some quantifier =>
    simp only [Option.isNone_some, Bool.false_or]
    exact read.plain (fun group => (flat rfl group).1) fun group => (flat rfl group).2

theorem note_firstSet (quantifier : Option Quantifier) (ok : walk.Ok parser unbounded)
    (consumes : atom.kind ≠ .zeroWidth) :
    (walk.note atom quantifier).firstSet =
      if walk.seenMandatory then walk.firstSet else walk.firstSet ++ atom.chars := by
  simp only [Walk.note, ok.opened, consumes, ne_eq, not_false_eq_true, true_and]
  cases walk.seenMandatory <;> rfl

theorem paths_snoc (edges : Edges CodePoint) {unbounded' : Bool} (ok : walk.Ok parser unbounded)
    (front : next.front = .snoc walk.front atom.node quantifier)
    (pieces : ∀ late ∈ turns atom.node quantifier, Exact (reading parser) edges late)
    (absorbed : (walk.edges unbounded).absorb edges = some (next.edges unbounded')) :
    ∀ path ∈ next.front.paths, Exact (reading parser) (next.edges unbounded') path := by
  intro path listed
  rw [front] at listed
  obtain ⟨early, inside, late, way, rfl⟩ := mem_paths_snoc listed
  exact (ok.paths early inside).append (pieces late way) absorbed

def optionalEdges (chars : List CodePoint) : Edges CodePoint :=
  ⟨false, false, false, false, false, chars, []⟩

def closerEdges (chars : List CodePoint) : Edges CodePoint :=
  ⟨false, false, true, false, false, chars, []⟩

def runEdges (chars : List CodePoint) : Edges CodePoint :=
  ⟨true, true, false, false, true, chars, chars⟩

theorem piece_exact (edges : Edges CodePoint) (read : atom.Ok parser before after)
    (consumes : atom.kind ≠ .zeroWidth) (only : quantifier.isSome ∨ atom.kind = .atom)
    (closing : edges.mandatory = closes (atom.node, quantifier))
    (run : edges.hasUnbounded = true →
      edges.starts = true ∧ edges.ends = true ∧ edges.endSet = atom.chars)
    (counted : edges.hasUnbounded = Triggers.unbounded (atom.node, quantifier))
    (opened : edges.ends = true → edges.hasUnbounded = true)
    (first : edges.firstSet = atom.chars) :
    ∀ late ∈ turns atom.node quantifier, Exact (reading parser) edges late := by
  intro late way
  have single : late = [.element (atom.node, quantifier)] := by
    cases quantifier with
    | some quantifier =>
      rw [turns_some] at way
      exact List.mem_singleton.mp way
    | none =>
      have kind := only.resolve_left (by simp)
      unfold Atom.Ok at read
      rw [kind] at read
      obtain ⟨⟨set, node, _⟩, _⟩ := read
      rw [node] at way ⊢
      exact List.mem_singleton.mp way
  have chars : (reading parser).chars (atom.node, quantifier) = atom.chars := read.sample consumes
  rw [single]
  refine .single closing (fun repeats => ?_) counted opened ?_
  next =>
    obtain ⟨starts, ends, endSet⟩ := run (counted.trans repeats)
    refine ⟨starts, ends, ?_⟩
    rw [chars, endSet]
    exact List.Subset.refl _
  next =>
    rw [chars, first]
    exact List.Subset.refl _

theorem zeroWidth_ok (ok : walk.Ok parser unbounded) (read : atom.Ok parser before after)
    (zero : atom.kind = .zeroWidth) : (walk.note atom none).Ok parser unbounded := by
  have node : atom.node = .zeroWidth := by
    unfold Atom.Ok at read
    rw [zero] at read
    exact read.1
  have separates : (walk.note atom none).front.separates = walk.front.separates := by
    simp [Walk.note, Regex.separates, node]
  refine ⟨paths_snoc .none ok rfl (fun late way => ?_) ?_, ok.counted,
    ok.mandatory.trans separates.symm, ok.opened, note_first ok read, note_plain ok read,
    note_flat ok read fun some => by cases some⟩
  next =>
    rw [node] at way
    rw [List.mem_singleton.mp way]
    exact .single rfl (fun run => by cases run) rfl id (List.nil_subset _)
  next => simp [Edges.absorb, Edges.none, Walk.edges, Walk.note, zero]

theorem nullable_ok (ok : walk.Ok parser unbounded) (read : atom.Ok parser before after)
    (consumes : atom.kind ≠ .zeroWidth)
    (flat : atom.kind = .group → atom.hasQuantifier = false ∧ atom.hasAlternation = false) :
    (walk.note atom (some .nullable)).Ok parser unbounded := by
  refine ⟨paths_snoc (optionalEdges atom.chars) ok rfl
    (piece_exact _ read consumes (.inl rfl) rfl (fun run => by cases run) rfl id rfl) ?_,
    ok.counted, ok.mandatory, ok.opened, note_first ok read, note_plain ok read,
    note_flat ok read fun _ => flat⟩
  have first := note_firstSet (some .nullable) ok consumes
  by_cases seen : walk.seenMandatory = true <;>
    simp [Edges.absorb, optionalEdges, Walk.edges, first, seen] <;> simp [Walk.note, seen]

theorem close_ok (ok : walk.Ok parser unbounded) (read : atom.Ok parser before after)
    (consumes : atom.kind ≠ .zeroWidth)
    (closing : atom.kind = .atom ∧ quantifier = none ∨ quantifier = some .mandatory)
    (flat : quantifier.isSome → atom.kind = .group →
      atom.hasQuantifier = false ∧ atom.hasAlternation = false) :
    ((walk.note atom quantifier).close atom).Ok parser unbounded := by
  have chars : quantifier = none → ∃ set, atom.node = .chars set := by
    intro bare
    obtain ⟨kind, _⟩ := closing.resolve_right (by simp [bare])
    unfold Atom.Ok at read
    rw [kind] at read
    obtain ⟨⟨set, node, _⟩, _⟩ := read
    exact ⟨set, node⟩
  have separates : (Regex.snoc walk.front atom.node quantifier).separates = true := by
    rcases closing with ⟨_, rfl⟩ | rfl
    next =>
      obtain ⟨set, node⟩ := chars rfl
      simp [Regex.separates, node]
    next => rfl
  have closer : closes (atom.node, quantifier) = true := by
    rcases closing with ⟨_, rfl⟩ | rfl
    next =>
      obtain ⟨set, node⟩ := chars rfl
      simp [closes, Regex.nullable, node]
    next => rfl
  have bounded : false = Triggers.unbounded (atom.node, quantifier) := by
    rcases closing with ⟨_, rfl⟩ | rfl <;> rfl
  have only : quantifier.isSome ∨ atom.kind = .atom := by
    rcases closing with ⟨kind, _⟩ | rfl
    next => exact .inr kind
    next => exact .inl rfl
  refine ⟨paths_snoc (closerEdges atom.chars) ok rfl
    (piece_exact _ read consumes only closer.symm (fun run => by cases run) bounded id rfl) ?_,
    fun pending => (by cases pending), separates.symm, rfl, note_first ok read, note_plain ok read,
    note_flat ok read flat⟩
  have first := note_firstSet quantifier ok consumes
  by_cases seen : walk.seenMandatory = true <;>
    simp [Edges.absorb, closerEdges, Walk.edges, Walk.close, first, seen] <;> simp [Walk.note]

theorem unbounded_ok {minZero : Bool} {start : Nat}
    (ok : walk.Ok parser (decide (start < pos.unboundedCount))) (read : atom.Ok parser before after)
    (le : start ≤ pos.unboundedCount) (consumes : atom.kind ≠ .zeroWidth)
    (flat : atom.kind = .group → atom.hasQuantifier = false ∧ atom.hasAlternation = false)
    (taken : parser.walkUnbounded pos (walk.note atom (some (.unbounded minZero))) atom =
      .ok (next, pos')) :
    next.Ok parser (decide (start < pos'.unboundedCount)) ∧
      pos.unboundedCount ≤ pos'.unboundedCount ∧ pos'.i = pos.i := by
  unfold Parser.walkUnbounded at taken
  split at taken
  next => cases taken
  next quiet =>
    split at taken
    next => cases taken
    next clear =>
      split at taken
      next => cases taken
      next =>
        cases taken
        refine ⟨⟨paths_snoc (runEdges atom.chars) ok rfl
          (piece_exact _ read consumes (.inl rfl) rfl (fun _ => ⟨rfl, rfl, rfl⟩) rfl id rfl) ?_,
          fun _ => decide_eq_true (Nat.lt_succ_of_le le), ok.mandatory, ok.opened,
          note_first ok read, note_plain ok read, note_flat ok read fun _ => flat⟩, Nat.le_succ _, rfl⟩
        have first := note_firstSet (some (.unbounded minZero)) ok consumes
        have idle : walk.pendingUnbounded = false := by simpa [Walk.note] using quiet
        have sure : walk.ambiguous = false := by simpa [Walk.note] using clear
        have counts : start < pos.unboundedCount + 1 := Nat.lt_succ_of_le le
        by_cases seen : walk.seenMandatory = true <;>
          simp [Edges.absorb, runEdges, Walk.edges, first, seen, idle, sure, counts] <;>
            simp [Walk.note, sure, seen]

theorem bracket_exact {body : Seq} (described : body.Ok parser unbounded) :
    ∀ late ∈ turns (.group body.regex) none,
      Exact (reading parser) (body.edges unbounded) late := by
  intro late way
  obtain ⟨path, listed, rfl⟩ := List.mem_map.mp way
  have covers := described.paths path listed
  unfold bracket
  split
  next mandatory => exact covers.exact (described.mandatory.trans mandatory)
  next optional =>
    exact covers.bracket (described.mandatory.trans (Bool.eq_false_iff.mpr optional))

theorem group_ok {start : Nat} (ok : walk.Ok parser (decide (start < before)))
    (read : atom.Ok parser before after) (le : start ≤ before) (group : atom.kind = .group)
    (taken : parser.walkGroup pos (walk.note atom none) atom = .ok next) :
    next.Ok parser (decide (start < after)) := by
  have consumes : atom.kind ≠ .zeroWidth := by simp [group]
  have first := note_firstSet none ok consumes
  have opened := read
  unfold Atom.Ok at opened
  rw [group] at opened
  obtain ⟨body, made, described, more, counted⟩ := opened
  have sum : (decide (start < before) || atom.hasUnbounded) = decide (start < after) := by
    rw [counted, ← Bool.decide_or, decide_eq_decide]
    omega
  unfold Parser.walkGroup at taken
  split at taken
  next => cases taken
  next apart =>
    dsimp only at taken
    split at taken
    next => cases taken
    next clear =>
      cases taken
      refine ⟨paths_snoc (body.edges atom.hasUnbounded) ok rfl ?_ ?_, ?_, ?_, ?_, note_first ok read,
        note_plain ok read, note_flat ok read fun some => by cases some⟩
      next =>
        rw [made.node]
        exact bracket_exact described
      next =>
        simp only [Edges.absorb, Walk.edges, Seq.edges, ← made.starts, ← made.ends, ← made.endSet,
          ← made.mandatory, ← made.ambiguous, ← made.chars, sum]
        refine (if_neg apart).trans ((if_neg clear).trans ?_)
        rw [first]
        rfl
      next =>
        rw [← sum]
        intro either
        rcases Bool.or_eq_true_iff.mp either with late | early
        next => rw [described.counted (made.ends ▸ late), Bool.or_true]
        next => rw [ok.counted (Bool.and_eq_true_iff.mp early).1, Bool.true_or]
      next =>
        simp [Regex.separates, Walk.note, made.node, ok.mandatory, made.mandatory,
          described.mandatory]
      next => simp [Walk.note, ok.opened]

theorem Walk.Ok.mono {wide : Bool} (ok : walk.Ok parser unbounded)
    (more : unbounded = true → wide = true) : walk.Ok parser wide where
  paths := by
    intro path listed
    have exact := ok.paths path listed
    have covers : Covers (reading parser) (walk.edges wide) path :=
      exact.toCovers.weaken id id (fun _ => List.Subset.refl _) id (List.Subset.refl _) id more
        fun ends => more (ok.counted ends)
    exact { covers with exact := exact.exact }
  counted := fun pending => more (ok.counted pending)
  mandatory := ok.mandatory
  opened := ok.opened
  first := ok.first
  plain := ok.plain
  flat := ok.flat

theorem round_ok {start : Nat} (ok : walk.Ok parser (decide (start < before)))
    (read : atom.Ok parser before pos.unboundedCount) (le : start ≤ before)
    (taken : parser.round pos walk atom quantifier = .ok (next, pos')) :
    next.Ok parser (decide (start < pos'.unboundedCount)) ∧
      pos.unboundedCount ≤ pos'.unboundedCount ∧ pos'.i = pos.i := by
  have later : walk.Ok parser (decide (start < pos.unboundedCount)) :=
    ok.mono fun early => decide_eq_true (Nat.lt_of_lt_of_le (of_decide_eq_true early) read.le)
  have reached : start ≤ pos.unboundedCount := Nat.le_trans le read.le
  unfold Parser.round at taken
  dsimp only at taken
  split at taken
  next => cases taken
  next bare =>
    split at taken
    next => cases taken
    next nested =>
      have flat : quantifier.isSome → atom.kind = .group →
          atom.hasQuantifier = false ∧ atom.hasAlternation = false := by
        intro quantified group
        simpa [quantified, group] using nested
      cases quantifier with
      | none =>
        cases kind : atom.kind with
        | zeroWidth =>
          rw [kind] at taken
          cases taken
          exact ⟨zeroWidth_ok later read kind, Nat.le_refl _, rfl⟩
        | atom =>
          rw [kind] at taken
          cases taken
          exact ⟨close_ok later read (by simp [kind]) (.inl ⟨kind, rfl⟩) flat, Nat.le_refl _, rfl⟩
        | group =>
          rw [kind] at taken
          cases walked : parser.walkGroup pos (walk.note atom none) atom with
          | error stop =>
            rw [walked] at taken
            cases taken
          | ok result =>
            rw [walked] at taken
            cases taken
            exact ⟨group_ok ok read le kind walked, Nat.le_refl _, rfl⟩
      | some quantifier =>
        have consumes : atom.kind ≠ .zeroWidth := by simpa using bare
        have kinds : atom.kind = .atom ∨ atom.kind = .group := by
          cases kind : atom.kind <;> simp_all
        cases quantifier with
        | unbounded minZero =>
          have walked : parser.walkUnbounded pos (walk.note atom (some (.unbounded minZero))) atom =
              .ok (next, pos') := by
            rcases kinds with kind | kind <;> rw [kind] at taken <;> exact taken
          exact unbounded_ok later read reached consumes (flat rfl) walked
        | nullable =>
          have same : (walk.note atom (some .nullable), pos) = (next, pos') := by
            rcases kinds with kind | kind <;> rw [kind] at taken <;> exact Except.ok.inj taken
          cases same
          exact ⟨nullable_ok later read consumes (flat rfl), Nat.le_refl _, rfl⟩
        | mandatory =>
          have same : ((walk.note atom (some .mandatory)).close atom, pos) = (next, pos') := by
            rcases kinds with kind | kind <;> rw [kind] at taken <;> exact Except.ok.inj taken
          cases same
          exact ⟨close_ok later read consumes (.inr rfl) flat, Nat.le_refl _, rfl⟩

end Rounds

section Alternatives

variable {unbounded : Bool} {branches : List Seq}

theorem walk_init_ok : Walk.init.Ok parser unbounded where
  paths := by
    intro path listed
    rw [List.mem_singleton.mp listed]
    have covers : Covers (reading parser) (Walk.init.edges unbounded) [] :=
      Exact.nil.toCovers.weaken id id (fun _ => List.Subset.refl _) id (List.Subset.refl _) id
        (fun counted => by cases counted) fun ends => by cases ends
    exact { covers with exact := fun found => by cases found }
  counted := fun pending => by cases pending
  mandatory := rfl
  opened := rfl
  first := rfl
  plain := fun _ _ => rfl
  flat := rfl

theorem Walk.Ok.seq {walk : Walk} (ok : walk.Ok parser unbounded) :
    walk.seq.Ok parser unbounded where
  paths := by
    intro path listed
    refine (ok.paths path listed).toCovers.weaken id id (fun ends => ?_) id (List.Subset.refl _) id
      id ok.counted
    have pending : walk.pendingUnbounded = true := ends
    simp [Seq.edges, Walk.edges, Walk.seq, pending]
  counted := ok.counted
  mandatory := ok.mandatory
  first := ok.first
  plain := ok.plain
  flat := ok.flat

theorem Seq.Ok.mono {seq : Seq} {wide : Bool} (ok : seq.Ok parser unbounded)
    (more : unbounded = true → wide = true) : seq.Ok parser wide where
  paths := fun path listed =>
    (ok.paths path listed).weaken id id (fun _ => List.Subset.refl _) id (List.Subset.refl _) id more
      fun ends => more (ok.counted ends)
  counted := fun ends => more (ok.counted ends)
  mandatory := ok.mandatory
  first := ok.first
  plain := ok.plain
  flat := ok.flat

section Either

variable (some : branches ≠ []) (ok : ∀ seq ∈ branches, seq.Ok parser unbounded)

include some

theorem mem_paths_either {path : List (Token Element)} (listed : path ∈ (either branches).paths) :
    ∃ seq ∈ branches, path ∈ seq.regex.paths := by
  fun_induction either branches with
  | case1 => exact absurd rfl some
  | case2 seq => exact ⟨seq, List.mem_singleton_self _, listed⟩
  | case3 seq rest more ih =>
    rcases List.mem_append.mp listed with here | later
    next => exact ⟨seq, List.mem_cons_self, here⟩
    next =>
      obtain ⟨found, inside, way⟩ := ih (fun empty => more empty) later
      exact ⟨found, List.mem_cons_of_mem _ inside, way⟩

include ok

theorem either_separates : branches.all Seq.mandatory = (either branches).separates := by
  fun_induction either branches with
  | case1 => exact absurd rfl some
  | case2 seq => simpa using (ok seq List.mem_cons_self).mandatory
  | case3 seq rest more ih =>
    rw [List.all_cons, (ok seq List.mem_cons_self).mandatory,
      ih (fun empty => more empty) fun seq listed => ok seq (List.mem_cons_of_mem _ listed)]
    rfl

theorem either_sample : branches.flatMap Seq.firstSet = (either branches).sample parser := by
  fun_induction either branches with
  | case1 => exact absurd rfl some
  | case2 seq => simpa using (ok seq List.mem_cons_self).first
  | case3 seq rest more ih =>
    rw [List.flatMap_cons, (ok seq List.mem_cons_self).first,
      ih (fun empty => more empty) fun seq listed => ok seq (List.mem_cons_of_mem _ listed)]
    rfl

theorem either_flat : (either branches).flat = true := by
  fun_induction either branches with
  | case1 => rfl
  | case2 seq => exact (ok seq List.mem_cons_self).flat
  | case3 seq rest more ih =>
    rw [Regex.flat, (ok seq List.mem_cons_self).flat,
      ih (fun empty => more empty) fun seq listed => ok seq (List.mem_cons_of_mem _ listed)]
    rfl

end Either

theorem merge_ok (some : branches ≠ []) (ok : ∀ seq ∈ branches, seq.Ok parser unbounded) :
    (merge branches).Ok parser unbounded := by
  have counted : (merge branches).endsUnbounded = true → unbounded = true := by
    intro ends
    obtain ⟨seq, listed, still⟩ := List.any_eq_true.mp ends
    exact (ok seq listed).counted still
  refine ⟨fun path listed => ?_, counted, either_separates some ok, either_sample some ok, ?_,
    either_flat some ok⟩
  next =>
    obtain ⟨seq, inside, way⟩ := mem_paths_either some listed
    refine ((ok seq inside).paths path way).weaken (fun starts => ?_) (fun ends => ?_)
      (fun _ char member => ?_) (fun mandatory => ?_) (fun char member => ?_)
      (fun ambiguous => ?_) id counted
    next => exact List.any_eq_true.mpr ⟨seq, inside, starts⟩
    next => exact List.any_eq_true.mpr ⟨seq, inside, ends⟩
    next => exact List.mem_flatMap.mpr ⟨seq, inside, member⟩
    next => exact List.all_eq_true.mp mandatory seq inside
    next => exact List.mem_flatMap.mpr ⟨seq, inside, member⟩
    next => exact List.any_eq_true.mpr ⟨seq, inside, ambiguous⟩
  next =>
    intro noQuantifier noAlternation
    match branches, some with
    | [seq], _ =>
      refine (ok seq List.mem_cons_self).plain ?_ ?_
      next => simpa [merge] using noQuantifier
      next => simpa [merge] using noAlternation
    | seq :: other :: rest, _ => simp [merge] at noAlternation

end Alternatives

end MemoryCloud.Triggers
