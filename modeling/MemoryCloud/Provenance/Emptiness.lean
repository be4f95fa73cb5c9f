import Mathlib.Tactic.IntervalCases
import MemoryCloud.Provenance.Held

set_option autoImplicit false

/-!
# What two erasures leave of nothing

An erasure that leaves no key writes NULL only where its lowest walk ended in a NULL state. The
second erasure walks the keys its own member gave a value, so whether one of these has been there
since the last NULL decides, and that depends on who goes first.
-/

namespace MemoryCloud.Provenance

open Versions

variable {K J G : Type} [LinearOrder K] [DecidableEq J] [DecidableEq G]

section Conditions

variable (log : DetailsLog K J G)

structure DetailsLog.LastNull (last : Nat) : Prop where
  below : last < log.edits.length
  null : stateAt log.states last = some none
  above : ∀ i, last < i → i ≤ log.edits.length → stateAt log.states i ≠ some none

-- Where the order of two erasures does not matter to what is left of nothing: no key came with the
-- edit that ended the last NULL and stayed, or the other member has given a value to none of the
-- live keys, or to one of those that stayed.
def DetailsLog.OrderFree : Prop :=
  ∀ last edit, log.LastNull last → log.edits[last]? = some edit →
    (∃ key, log.HeldSince last key) →
    (∃ key other, other ≠ edit.actorUserId ∧ log.Touched other key) →
    ∃ key other, other ≠ edit.actorUserId ∧ log.HeldSince last key ∧ log.Touched other key

end Conditions

section Lowest

variable {digest : K → G} {log : DetailsLog K J G} {subject : UserId} {erased : List UserId}

omit [LinearOrder K] [DecidableEq J] in
theorem lower_trans {first second third : KeyRevert K J × Nat} (one : lower first second = true)
    (two : lower first third = false) : lower second third = false := by
  simp only [lower, Bool.or_eq_true, Bool.and_eq_true, decide_eq_true_eq, Bool.or_eq_false_iff,
    Bool.and_eq_false_iff, decide_eq_false_iff_not] at one two ⊢
  omega

omit [LinearOrder K] [DecidableEq J] in
theorem lowest_least {walked : List (KeyRevert K J × Nat)} {least : KeyRevert K J × Nat}
    (low : lowest walked = some least) :
    least ∈ walked ∧ ∀ other ∈ walked, lower other least = false := by
  have irrefl : ∀ one : KeyRevert K J × Nat, lower one one = false := by simp [lower]
  have run : ∀ (rest : List (KeyRevert K J × Nat)) (start : KeyRevert K J × Nat),
      rest.foldl keepLower (some start) = some least →
      least ∈ start :: rest ∧ ∀ other ∈ start :: rest, lower other least = false := by
    intro rest
    induction rest with
    | nil =>
      rintro start is
      cases is
      simp [irrefl]
    | cons next rest ih =>
      intro start goes
      rw [List.foldl_cons, keepLower] at goes
      split at goes
      next less =>
        obtain ⟨listed, others⟩ := ih next goes
        refine ⟨List.mem_cons_of_mem _ listed, List.forall_mem_cons.mpr ⟨?_, others⟩⟩
        exact lower_trans less (others next List.mem_cons_self)
      next more =>
        obtain ⟨listed, others⟩ := ih start goes
        obtain ⟨first, later⟩ := List.forall_mem_cons.mp others
        refine ⟨?_, List.forall_mem_cons.mpr ⟨first, List.forall_mem_cons.mpr ⟨?_, later⟩⟩⟩
        next => exact List.cons_subset_cons _ (List.subset_cons_self _ _) listed
        next =>
          simp only [lower, Bool.not_eq_true, Bool.or_eq_false_iff, Bool.and_eq_false_iff,
            decide_eq_false_iff_not] at more first ⊢
          omega
  cases walked with
  | nil => cases low
  | cons start rest => exact run rest start low

omit [DecidableEq J] in
theorem revertFrom_unavailable {run : Replay K J G} {key : K} {keyDigest : G} {turns j i : Nat}
    {revert : KeyRevert K J}
    (ends : revertFrom run erased key keyDigest turns j = some (revert, i))
    (unavailable : revert.unavailable = true) : stateAt run.states i = none := by
  induction turns generalizing j with
  | zero => cases ends
  | succ turns ih =>
    rw [revertFrom] at ends
    split at ends
    next lost =>
      split at ends
      next => exact ih ends
      next =>
        cases ends
        exact lost
    next =>
      dsimp only at ends
      split at ends
      next =>
        split at ends
        next =>
          split at ends
          next =>
            cases ends
            cases unavailable
          next => exact ih ends
        next =>
          cases ends
          cases unavailable
      next =>
        split at ends
        next => exact ih ends
        next =>
          cases ends
          cases unavailable

omit [DecidableEq J] [DecidableEq G] in
theorem versionAt_lt {j i : Nat} (less : j < i) (inside : i < log.edits.length) :
    versionAt log.edits j < versionAt log.edits i := by
  rw [versionAt, versionAt, List.getElem?_eq_getElem inside,
    List.getElem?_eq_getElem (Nat.lt_trans less inside)]
  exact List.pairwise_iff_getElem.mp log.ascending j i _ inside less

theorem lowest_walk (notAuthor : log.author ≠ subject) {least : KeyRevert K J} {below : Nat}
    (low : lowest (walks digest (log.run digest subject erased) subject erased) =
      some (least, below)) :
    (∃ key ∈ log.written digest subject erased log.edits.length,
      log.walk digest subject erased key = some (least, below)) ∧
    ∀ key ∈ log.written digest subject erased log.edits.length, ∀ target j,
      log.walk digest subject erased key = some (target, j) → below ≤ j := by
  obtain ⟨listed, others⟩ := lowest_least low
  rw [walks_eq, List.mem_filterMap] at listed
  have ends : ∀ key ∈ log.written digest subject erased log.edits.length, ∀ target j,
      log.walk digest subject erased key = some (target, j) →
      target.fromVersion = versionAt log.edits j ∧ j < log.edits.length := by
    intro key mine target j walk
    obtain ⟨origin, revert, i, _, _, found, path, later, within, stops⟩ := walk_stops notAuthor mine
    cases walk.symm.trans found
    have lower := descends_le (by omega) path
    exact ⟨stops.version, by omega⟩
  refine ⟨listed, fun key mine target j walk => ?_⟩
  obtain ⟨start, mine', walk'⟩ := listed
  obtain ⟨version, _⟩ := ends key mine target j walk
  obtain ⟨version', inside⟩ := ends start mine' least below walk'
  have not := others (target, j) (List.mem_filterMap.mpr ⟨key, mine, walk⟩)
  by_contra above
  have less := versionAt_lt (show j < below by omega) inside
  simp only [lower, version, version', less, decide_true, Bool.true_or] at not
  cases not

-- An erasure writes NULL when it leaves no key and its lowest walk ended in a NULL state.
theorem planned_null (notAuthor : log.author ≠ subject) {revert : MemoryRevert K J G}
    (planned : planRevert digest log.memoryId (log.run digest subject erased) log.live subject
      erased = some revert)
    (known : ∀ key ∈ log.written digest subject erased log.edits.length, ∀ target j,
      log.walk digest subject erased key = some (target, j) →
      (stateAt log.states j).isSome = true) :
    revert.result = none ↔ (∀ key, (keysOf (some revert.result)).get? key = none) ∧
      ∃ key ∈ log.written digest subject erased log.edits.length, ∃ target j,
        log.walk digest subject erased key = some (target, j) ∧
        stateAt log.states j = some none ∧
        ∀ other ∈ log.written digest subject erased log.edits.length, ∀ target' j',
          log.walk digest subject erased other = some (target', j') → j ≤ j' := by
  cases low : lowest (walks digest (log.run digest subject erased) subject erased) with
  | none =>
    simp only [planRevert, low] at planned
    cases planned
  | some found =>
    obtain ⟨least, below⟩ := found
    obtain ⟨⟨start, mine, walk⟩, others⟩ := lowest_walk notAuthor low
    have available : least.unavailable = false := by
      refine Bool.eq_false_iff.mpr fun lost => ?_
      obtain ⟨origin, held, ends⟩ := Option.bind_eq_some_iff.mp walk
      have gone : stateAt log.states below = none := revertFrom_unavailable ends lost
      have there := known start mine least below walk
      rw [gone] at there
      cases there
    have lowestNull : (∃ key ∈ log.written digest subject erased log.edits.length, ∃ target j,
        log.walk digest subject erased key = some (target, j) ∧ stateAt log.states j = some none ∧
        ∀ other ∈ log.written digest subject erased log.edits.length, ∀ target' j',
          log.walk digest subject erased other = some (target', j') → j ≤ j') ↔
        stateAt log.states below = some none := by
      constructor
      next =>
        rintro ⟨key, mine', target, j, walk', null, least'⟩
        have same : j = below := Nat.le_antisymm (least' start mine least below walk)
          (others key mine' target j walk')
        exact same ▸ null
      next => exact fun null => ⟨start, mine, least, below, walk, null, others⟩
    rw [planRevert_some low] at planned
    cases planned
    dsimp only
    rw [lowestNull, available, Bool.false_or]
    generalize applyReverts (keysOf (some log.live)) _ = result
    by_cases empty : result.entries = []
    next =>
      by_cases null : stateAt log.states below = some none
      next => simp [empty, null, keysOf, Doc.get?, Doc.empty]
      next => simp [null]
    next =>
      obtain ⟨entry, listed⟩ := List.exists_mem_of_ne_nil _ empty
      have there : result.get? entry.1 = some entry.2 := Doc.mem_entries.mp listed
      simp only [empty, decide_false, Bool.false_and, Bool.false_eq_true, if_false, reduceCtorEq,
        false_iff, not_and]
      intro gone
      cases (gone entry.1).symm.trans there

end Lowest

section Ends

variable {digest : K → G} {log : DetailsLog K J G} {first second pseudonym : UserId} {key : K}
  {last : Nat}

omit [DecidableEq J] [DecidableEq G] in
theorem DetailsLog.LastNull.absent (null : log.LastNull last) (key : K) :
    log.valueAt last key = none := by
  rw [DetailsLog.valueAt, null.null]
  rfl

omit [DecidableEq J] [DecidableEq G] in
theorem DetailsLog.LastNull.least (null : log.LastNull last) {j : Nat} (since : log.HeldSince j key) :
    last ≤ j := by
  by_contra below
  have there := since last (by omega) (Nat.le_of_lt null.below)
  rw [null.absent key] at there
  cases there

omit [DecidableEq J] [DecidableEq G] in
theorem DetailsLog.LastNull.only (null : log.LastNull last) {j : Nat} (low : last ≤ j)
    (inside : j ≤ log.edits.length) (gone : stateAt log.states j = some none) : j = last := by
  by_contra other
  exact null.above j (by omega) inside gone

omit [DecidableEq J] [DecidableEq G] in
theorem DetailsLog.LastNull.unique (null : log.LastNull last) {other : Nat}
    (null' : log.LastNull other) : last = other := by
  rcases Nat.lt_or_ge last other with before | after
  next => exact absurd null'.null (null.above other before (Nat.le_of_lt null'.below))
  next => exact null'.only after (Nat.le_of_lt null.below) null.null

theorem above_last (api : ApiLog log first second) (null : log.LastNull last) {j : Nat}
    (low : last ≤ j) (known : j ≤ log.edits.length) {origin : Origin}
    (held : log.origins digest j key = some origin) : last < origin.state := by
  by_contra below
  have there := api.held_span known held (show origin.state ≤ last by omega) low
  rw [null.absent key] at there
  cases there

theorem settled_empty (api : ApiLog log first second) (null : log.LastNull last) {j : Nat}
    {value : Option J} (settles : Settles digest log [first, second] key j value) (low : last ≤ j)
    (known : j ≤ log.edits.length) : value = none := by
  induction settles with
  | absent gone => rfl
  | @kept j value origin there held other =>
    have above := above_last api null low known held
    obtain ⟨edit, _, actor, own⟩ :=
      api.member known held (show origin.state = origin.state - 1 + 1 by omega)
    have wrote : wroteErased origin [first, second] = true := by
      rcases own with is | is <;> simp [wroteErased, actor, is]
    rw [wrote] at other
    cases other
  | @past j below value origin held wrote state _ ih =>
    have above := above_last api null low known held
    have lower := (origin_names known held).low
    exact ih (by omega) (by omega)

theorem twice_empty (injective : Function.Injective digest) (api : ApiLog log first second)
    (notFirst : log.author ≠ first) (notSecond : log.author ≠ second)
    (unnamed : Unattributed digest log pseudonym) (name : UserId) (null : log.LastNull last) (key : K) :
    (keysOf (some (log.twice digest first pseudonym second name).live)).get? key = none :=
  settled_empty api null
    (twice_settles injective api.plain notFirst notSecond unnamed name key)
    (Nat.le_of_lt null.below) (Nat.le_refl _)

structure Ends (log walking : DetailsLog K J G) (key : K) (target : KeyRevert K J) (j : Nat) :
    Prop where
  below : j < log.edits.length
  since : log.HeldSince j key
  absent : target.target = none → log.valueAt j key = none
  known : (stateAt walking.states j).isSome = true
  null : stateAt walking.states j = some none ↔ stateAt log.states j = some none

theorem once_ends (api : ApiLog log first second) (notFirst : log.author ≠ first)
    (mine : key ∈ log.written digest first [first] log.edits.length) {target : KeyRevert K J} {j : Nat}
    (walk : log.walk digest first [first] key = some (target, j)) : Ends log log key target j := by
  obtain ⟨origin, revert, i, held, _, found, path, later, within, stops⟩ := walk_stops notFirst mine
  cases walk.symm.trans found
  have lower := descends_le (show origin.state - 1 ≤ log.edits.length by omega) path
  have start : log.HeldSince (origin.state - 1) key := held_below (held_last key)
    fun i above upTo => api.held_span (Nat.le_refl _) held (by omega) upTo
  have since := held_walked (Nat.le_refl _)
    (fun _ _ known step => held_descends api known step) (by omega) path start
  obtain ⟨value, _⟩ := plain_stops api.plain notFirst (by omega) stops
  exact ⟨by omega, since, fun gone => value.symm.trans gone, api.plain.known (by omega), Iff.rfl⟩

omit [DecidableEq J] [DecidableEq G] in
theorem map_eq_none {keys : List K} {state : State K J} :
    state.map (Option.map (without keys)) = some none ↔ state = some none := by
  cases state with
  | none => simp
  | some details => cases details <;> simp

theorem twice_ends (injective : Function.Injective digest) (api : ApiLog log first second)
    (notFirst : log.author ≠ first) (notSecond : log.author ≠ second)
    (unnamed : Unattributed digest log pseudonym) {target : KeyRevert K J} {j : Nat}
    (mine : key ∈ (log.once digest first pseudonym).written digest second [second, pseudonym]
      (log.once digest first pseudonym).edits.length)
    (walk : (log.once digest first pseudonym).walk digest second [second, pseudonym] key =
      some (target, j)) : Ends log (log.once digest first pseudonym) key target j := by
  have author : (log.once digest first pseudonym).author ≠ second := by
    rw [DetailsLog.once, erase_author digest pseudonym notFirst]
    exact notSecond
  obtain ⟨origin, revert, i, held, _, found, path, later, _, stops⟩ := walk_stops author mine
  cases walk.symm.trans found
  obtain ⟨source, down, _, origins, _⟩ :=
    once_path pseudonym injective api.plain notFirst key
  have known : source ≤ log.edits.length := descends_le (Nat.le_refl _) down
  rw [origins] at held
  have low := (origin_names known held).low
  have longer : log.edits.length ≤ (log.once digest first pseudonym).edits.length :=
    erase_length digest pseudonym notFirst []
  have lower := descends_le (by omega) path
  have row : j < log.edits.length := by omega
  have since : log.HeldSince source key := held_walked (Nat.le_refl _)
    (fun _ _ known step => held_descends api known step) (Nat.le_refl _) down (held_last key)
  have start : log.HeldSince (origin.state - 1) key := held_below since
    fun i above upTo => api.held_span known held (by omega) upTo
  have ends := held_walked (n := log.edits.length - 1) (by omega)
    (fun _ _ known step => once_held injective api notFirst (by omega) step) (by omega) path start
  have extends_ := erase_extends digest pseudonym notFirst []
  have size : (log.cleaned digest first pseudonym [first]).edits.length = log.edits.length :=
    cleaned_length
  have state : stateAt (log.once digest first pseudonym).states j = _ :=
    (extends_.states j (by rw [size]; omega)).trans (cleaned_state j)
  refine ⟨row, ends, fun gone => ?_, once_known api.plain notFirst (Nat.le_of_lt row), ?_⟩
  next => exact once_absent api.plain notFirst notSecond unnamed row stops gone
  next => rw [state, map_eq_none]

end Ends

section Twice

variable {digest : K → G} {log : DetailsLog K J G} {first second pseudonym name : UserId}
  {last : Nat}

theorem planned_erasure {walking : DetailsLog K J G} {subject : UserId} {erasedActors : List UserId}
    (notAuthor : walking.author ≠ subject) {revert : MemoryRevert K J G}
    (planned : (planErasure digest walking subject erasedActors).reverts = [revert]) :
    planRevert digest walking.memoryId (walking.run digest subject (subject :: erasedActors))
      walking.live subject (subject :: erasedActors) = some revert := by
  rw [(planErasure_eq digest notAuthor erasedActors).1] at planned
  exact Option.mem_toList.mp (planned ▸ List.mem_singleton_self revert)

-- Where an erasure leaves no key, one that came after the last NULL and stayed decides.
theorem null_iff_held {walking : DetailsLog K J G} {subject : UserId} {erased : List UserId}
    (notAuthor : walking.author ≠ subject) {revert : MemoryRevert K J G}
    (planned : planRevert digest walking.memoryId (walking.run digest subject erased) walking.live
      subject erased = some revert)
    (reverts : Reverts digest walking subject erased revert) (null : log.LastNull last)
    (ends : ∀ key ∈ walking.written digest subject erased walking.edits.length, ∀ target j,
      walking.walk digest subject erased key = some (target, j) → Ends log walking key target j)
    (empty : ∀ key, (keysOf (some revert.result)).get? key = none) :
    revert.result = none ↔
      ∃ key ∈ walking.written digest subject erased walking.edits.length, log.HeldSince last key := by
  rw [planned_null notAuthor planned fun key mine target j walk => (ends key mine target j walk).known]
  constructor
  next =>
    rintro ⟨_, key, mine, target, j, walk, gone, _⟩
    have here := ends key mine target j walk
    have same := null.only (null.least here.since) (Nat.le_of_lt here.below) (here.null.mp gone)
    exact ⟨key, mine, same ▸ here.since⟩
  next =>
    rintro ⟨key, mine, since⟩
    obtain ⟨_, target, j, _, _, walk, _⟩ := walk_stops notAuthor mine
    have here := ends key mine target j walk
    have nothing : target.target = none := by
      have found := reverts.get? notAuthor key
      rw [if_pos mine, walk, empty] at found
      exact found.symm
    have same : j = last := by
      by_contra other
      have there := since j (by have := null.least here.since; omega) (Nat.le_of_lt here.below)
      rw [here.absent nothing] at there
      cases there
    refine ⟨empty, key, mine, target, j, walk, here.null.mpr (same ▸ null.null), ?_⟩
    intro other mine' target' j' walk'
    exact same ▸ null.least (ends other mine' target' j' walk').since

variable (digest pseudonym) in
theorem once_author (notFirst : log.author ≠ first) (notSecond : log.author ≠ second) :
    (log.once digest first pseudonym).author ≠ second := by
  rw [DetailsLog.once, erase_author digest pseudonym notFirst]
  exact notSecond

variable (digest pseudonym) in
theorem once_cases (notFirst : log.author ≠ first) :
    (log.written digest first [first] log.edits.length = [] ∧
      (log.once digest first pseudonym).live = log.live) ∨
    ∃ revert, Reverts digest log first [first] revert ∧
      planRevert digest log.memoryId (log.run digest first [first]) log.live first [first] =
        some revert ∧
      (log.once digest first pseudonym).live = revert.result := by
  rcases erase_cases digest pseudonym notFirst [] with
    ⟨nothing, _, is⟩ | ⟨revert, reverts, planned, _, live⟩
  next =>
    refine .inl ⟨nothing, ?_⟩
    rw [DetailsLog.once, is]
    exact congrArg (fun keys => log.live.map (without keys)) nothing |>.trans (map_without_nil _)
  next => exact .inr ⟨revert, reverts, planned_erasure notFirst planned, live⟩

variable (digest) in
theorem held_written (api : ApiLog log first second) (null : log.LastNull last) {key : K}
    (since : log.HeldSince last key) (untouched : ¬ log.Touched second key) :
    key ∈ log.written digest first [first] log.edits.length := by
  have there := since log.edits.length null.below (Nat.le_refl _)
  obtain ⟨value, is⟩ := Option.isSome_iff_exists.mp there
  obtain ⟨origin, held⟩ := origin_of_value digest (Nat.le_refl _) is
  have above := above_last api null (Nat.le_of_lt null.below) (Nat.le_refl _) held
  have state : origin.state = origin.state - 1 + 1 := by omega
  obtain ⟨edit, listed, actor, own | own⟩ := api.member (Nat.le_refl _) held state
  next => exact (mem_written _ (Nat.le_refl _)).mpr ⟨origin, held, actor.trans (congrArg some own)⟩
  next =>
    refine absurd ⟨origin.state - 1, edit, listed, own, ?_, ?_⟩ untouched
    next => exact api.changed (Nat.le_refl _) held state
    next =>
      exact held_below (held_last key) fun i above upTo =>
        api.held_span (Nat.le_refl _) held (by omega) upTo

section Results

variable (injective : Function.Injective digest) (api : ApiLog log first second)
  (different : first ≠ second) (notFirst : log.author ≠ first) (notSecond : log.author ≠ second)

include injective api different notFirst notSecond

variable (pseudonym name) in
-- The second erasure changes nothing where its member gave no live key a value.
theorem twice_cases :
    ((∀ key, ¬ log.Touched second key) ∧
      (log.twice digest first pseudonym second name).live = (log.once digest first pseudonym).live) ∨
    ∃ revert, (∃ key, log.Touched second key) ∧
      Reverts digest (log.once digest first pseudonym) second [second, pseudonym] revert ∧
      planRevert digest (log.once digest first pseudonym).memoryId
        ((log.once digest first pseudonym).run digest second [second, pseudonym])
        (log.once digest first pseudonym).live second [second, pseudonym] = some revert ∧
      (log.twice digest first pseudonym second name).live = revert.result := by
  have author := once_author digest pseudonym notFirst notSecond
  rcases erase_cases digest name author [pseudonym] with
    ⟨nothing, _, is⟩ | ⟨revert, reverts, planned, _, live⟩
  next =>
    refine .inl ⟨fun key touched => ?_, ?_⟩
    next =>
      have mine := (once_written_iff pseudonym injective api different notFirst
        notSecond [second, pseudonym]).mpr touched
      rw [nothing] at mine
      cases mine
    next =>
      rw [DetailsLog.twice, is]
      exact congrArg (fun keys => (log.once digest first pseudonym).live.map (without keys)) nothing
        |>.trans (map_without_nil _)
  next =>
    obtain ⟨key, mine⟩ := List.exists_mem_of_ne_nil _ reverts.some_
    have touched := (once_written_iff pseudonym injective api different notFirst
      notSecond [second, pseudonym]).mp mine
    exact .inr ⟨revert, ⟨key, touched⟩, reverts, planned_erasure author planned, live⟩

theorem twice_null (unnamed : Unattributed digest log pseudonym) (null : log.LastNull last) :
    (log.twice digest first pseudonym second name).live = none ↔
      ∃ key, log.HeldSince last key ∧
        (log.Touched second key ∨ ∀ other, ¬ log.Touched second other) := by
  have empty := twice_empty injective api notFirst notSecond unnamed name null
  have author := once_author digest pseudonym notFirst notSecond
  rcases twice_cases pseudonym name injective api different notFirst
    notSecond with ⟨untouched, live⟩ | ⟨revert, ⟨key', touched⟩, reverts, planned, live⟩
  next =>
    simp only [live] at empty ⊢
    simp only [untouched, not_false_eq_true, implies_true, or_true, and_true]
    rcases once_cases digest pseudonym notFirst with
      ⟨nothing, same⟩ | ⟨revert, reverts, planned, same⟩
    next =>
      have object : log.live ≠ none := by
        intro gone
        refine null.above log.edits.length null.below (Nat.le_refl _) ?_
        rw [stateAt_live, gone]
      refine iff_of_false (same ▸ object) fun ⟨key, since⟩ => ?_
      have mine := held_written digest api null since
        (untouched key)
      rw [nothing] at mine
      cases mine
    next =>
      rw [same] at empty ⊢
      rw [null_iff_held notFirst planned reverts null
        (fun key mine target j walk => once_ends api notFirst mine walk) empty]
      constructor
      next => exact fun ⟨key, _, since⟩ => ⟨key, since⟩
      next =>
        exact fun ⟨key, since⟩ => ⟨key,
          held_written digest api null since (untouched key), since⟩
  next =>
    rw [live] at empty ⊢
    rw [null_iff_held author planned reverts null
      (fun key mine target j walk => twice_ends injective api notFirst notSecond unnamed mine walk)
      empty]
    constructor
    next =>
      rintro ⟨key, mine, since⟩
      exact ⟨key, since,
        .inl ((once_written_iff pseudonym injective api different notFirst notSecond _).mp mine)⟩
    next =>
      rintro ⟨key, since, own | untouched⟩
      next =>
        exact ⟨key, (once_written_iff pseudonym injective api different notFirst notSecond _).mpr own,
          since⟩
      next => exact absurd touched (untouched key')

theorem twice_object (unnamed : Unattributed digest log pseudonym)
    (objects : ∀ i ≤ log.edits.length, stateAt log.states i ≠ some none) :
    (log.twice digest first pseudonym second name).live ≠ none := by
  have author := once_author digest pseudonym notFirst notSecond
  rcases twice_cases pseudonym name injective api different notFirst
    notSecond with ⟨_, live⟩ | ⟨revert, _, _, planned, live⟩
  next =>
    rcases once_cases digest pseudonym notFirst with
      ⟨_, same⟩ | ⟨revert, reverts, planned, same⟩
    next =>
      rw [live, same]
      intro gone
      exact objects log.edits.length (Nat.le_refl _) (by rw [stateAt_live, gone])
    next =>
      rw [live, same]
      intro gone
      rw [planned_null notFirst planned
        fun key mine target j walk => (once_ends api notFirst mine walk).known] at gone
      obtain ⟨_, key, mine, target, j, walk, lost, _⟩ := gone
      exact objects j (Nat.le_of_lt (once_ends api notFirst mine walk).below) lost
  next =>
    rw [live]
    intro gone
    rw [planned_null author planned fun key mine target j walk =>
      (twice_ends injective api notFirst notSecond unnamed mine walk).known] at gone
    obtain ⟨_, key, mine, target, j, walk, lost, _⟩ := gone
    have ends := twice_ends injective api notFirst notSecond unnamed mine walk
    exact objects j (Nat.le_of_lt ends.below) (ends.null.mp lost)

theorem twice_nothing (gone : log.live = none) :
    (log.twice digest first pseudonym second name).live = none := by
  have absent : ∀ key, log.valueAt log.edits.length key = none := by
    intro key
    rw [DetailsLog.valueAt, stateAt_live, gone]
    rfl
  rcases twice_cases pseudonym name injective api different notFirst
    notSecond with ⟨_, live⟩ | ⟨_, ⟨key, i, edit, listed, _, _, since⟩, _⟩
  next =>
    rcases once_cases digest pseudonym notFirst with ⟨_, same⟩ | ⟨_, reverts, _⟩
    next => rw [live, same, gone]
    next =>
      obtain ⟨key, mine⟩ := List.exists_mem_of_ne_nil _ reverts.some_
      have there := written_held (Nat.le_refl _) mine
      rw [absent] at there
      cases there
  next =>
    have there := since log.edits.length (List.getElem?_eq_some_iff.mp listed).1 (Nat.le_refl _)
    rw [absent] at there
    cases there

end Results

end Twice

section Orders

variable {digest : K → G} {log : DetailsLog K J G} {first second pseudonym name : UserId}

omit [DecidableEq G] in
theorem exists_lastNull (object : log.live ≠ none)
    (null : ∃ i ≤ log.edits.length, stateAt log.states i = some none) :
    ∃ last, log.LastNull last := by
  obtain ⟨i, inside, gone⟩ := null
  have found := Nat.findGreatest_spec (P := fun i => stateAt log.states i = some none) inside gone
  have low := Nat.findGreatest_le (P := fun i => stateAt log.states i = some none) log.edits.length
  refine ⟨_, Nat.lt_of_le_of_ne low fun same => object ?_, found, fun j above inside => ?_⟩
  next =>
    rw [same, stateAt_live] at found
    exact Option.some.inj found
  next => exact Nat.findGreatest_is_greatest above inside

omit [DecidableEq J] in
theorem agree_iff {left right : Details K J} (same : keysOf (some left) = keysOf (some right)) :
    left = right ↔ (left = none ↔ right = none) := by
  constructor
  next => exact fun equal => equal ▸ Iff.rfl
  next =>
    intro both
    match left, right with
    | none, none => rfl
    | none, some _ => cases both.mp rfl
    | some _, none => cases both.mpr rfl
    | some _, some _ => exact congrArg some same

omit [DecidableEq J] [DecidableEq G] in
theorem order_free_iff (api : ApiLog log first second) (different : first ≠ second) {last : Nat}
    (null : log.LastNull last) {edit : DetailsEdit K J G} (listed : log.edits[last]? = some edit)
    (own : edit.actorUserId = first) :
    ((∃ key, log.HeldSince last key ∧
        (log.Touched second key ∨ ∀ other, ¬ log.Touched second other)) ↔
      ∃ key, log.HeldSince last key ∧
        (log.Touched first key ∨ ∀ other, ¬ log.Touched first other)) ↔ log.OrderFree := by
  have opened : ∀ key, log.HeldSince last key → log.Touched first key := by
    intro key since
    refine ⟨last, edit, listed, own, ?_, since⟩
    rw [null.absent key]
    intro gone
    have there := since (last + 1) (Nat.lt_succ_self _) null.below
    rw [← gone] at there
    cases there
  have member : ∀ key other, other ≠ first → log.Touched other key → other = second := by
    rintro key other apart ⟨i, row, there, rfl, _⟩
    exact (api.members row (List.mem_of_getElem? there)).resolve_left apart
  constructor
  next =>
    rintro agree last' edit' null' listed' ⟨key, since⟩ ⟨key', other, apart, touched⟩
    cases null.unique null'
    cases listed.symm.trans listed'
    rw [own] at apart
    have isSecond := member key' other apart touched
    obtain ⟨found, held, touched' | untouched⟩ := agree.mpr ⟨key, since, .inl (opened key since)⟩
    next => exact ⟨found, second, own.symm ▸ Ne.symm different, held, touched'⟩
    next => exact absurd (isSecond ▸ touched) (untouched key')
  next =>
    intro free
    constructor
    next => exact fun ⟨key, since, _⟩ => ⟨key, since, .inl (opened key since)⟩
    next =>
      rintro ⟨key, since, _⟩
      by_cases given : ∃ other, log.Touched second other
      next =>
        obtain ⟨other, touched⟩ := given
        obtain ⟨found, who, apart, held, touched'⟩ := free last edit null listed ⟨key, since⟩
          ⟨other, second, own.symm ▸ Ne.symm different, touched⟩
        exact ⟨found, held, .inl (member found who (own ▸ apart) touched' ▸ touched')⟩
      next => exact ⟨key, since, .inr fun other touched => given ⟨other, touched⟩⟩

theorem erasures_agree_on_nothing (injective : Function.Injective digest) (memoryId : MemoryId)
    (start : Details K J) (steps : List (ApiStep K J)) {author : UserId}
    (members : ∀ actor value, .details actor value ∈ steps → actor = first ∨ actor = second)
    (different : first ≠ second) (notFirst : author ≠ first) (notSecond : author ≠ second)
    (fresh : pseudonym ≠ author ∧ pseudonym ≠ first ∧ pseudonym ≠ second)
    (fresh' : name ≠ author ∧ name ≠ first ∧ name ≠ second) :
    let log : DetailsLog K J G := apiLog memoryId author start steps
    (log.twice digest first pseudonym second name).live =
        (log.twice digest second name first pseudonym).live ↔ log.OrderFree := by
  intro log
  obtain ⟨api, is⟩ : ApiLog log first second ∧ log.author = author := apiLog_api members
  rw [← is] at notFirst notSecond fresh fresh'
  have unattributed : ∀ user, user ≠ log.author ∧ user ≠ first ∧ user ≠ second →
      Unattributed digest log user := by
    intro user ⟨other, notFirst', notSecond'⟩
    refine unattributed_of_rows (Ne.symm other) fun edit listed _ => ?_
    rcases api.members edit listed with own | own
    next => exact own.symm ▸ Ne.symm notFirst'
    next => exact own.symm ▸ Ne.symm notSecond'
  have unnamed := unattributed pseudonym fresh
  have unnamed' := unattributed name fresh'
  rw [agree_iff (plain_commutes injective api.plain notFirst notSecond unnamed unnamed')]
  by_cases object : log.live = none
  next =>
    refine iff_of_true (iff_of_true ?_ ?_) ?_
    next => exact twice_nothing injective api different notFirst notSecond object
    next => exact twice_nothing injective api.swap (Ne.symm different) notSecond notFirst object
    next =>
      intro last edit null _ _ _
      refine absurd ?_ (null.above log.edits.length null.below (Nat.le_refl _))
      rw [stateAt_live, object]
  next =>
    by_cases null : ∃ i ≤ log.edits.length, stateAt log.states i = some none
    next =>
      obtain ⟨last, null⟩ := exists_lastNull object null
      have below := null.below
      have listed : log.edits[last]? = some log.edits[last] := List.getElem?_eq_getElem null.below
      rw [twice_null injective api different notFirst notSecond unnamed null,
        twice_null injective api.swap (Ne.symm different) notSecond notFirst unnamed' null]
      rcases api.members _ (List.getElem_mem below) with own | own
      next => exact order_free_iff api different null listed own
      next =>
        rw [iff_comm (a := ∃ key, _)]
        exact order_free_iff api.swap (Ne.symm different) null listed own
    next =>
      have objects : ∀ i ≤ log.edits.length, stateAt log.states i ≠ some none :=
        fun i inside gone => null ⟨i, inside, gone⟩
      refine iff_of_true (iff_of_false ?_ ?_) fun last edit null' _ _ _ => ?_
      next => exact twice_object injective api different notFirst notSecond unnamed objects
      next => exact twice_object injective api.swap (Ne.symm different) notSecond notFirst unnamed' objects
      next => exact absurd ⟨last, Nat.le_of_lt null'.below, null'.null⟩ null

end Orders

section Examples

-- Member 3 replaces the value member 2 gave the only key.
def replacedSteps : List (ApiStep Nat Nat) :=
  [.details 2 (some (oneKey 10)), .details 3 (some (oneKey 20))]

theorem erasures_agree_on_nothing_replaced :
    let log : DetailsLog Nat Nat Nat := apiLog 7 1 none replacedSteps
    (log.twice id 2 12 3 13).live = (log.twice id 3 13 2 12).live := by
  intro log
  have members : ∀ actor value, .details actor value ∈ replacedSteps → actor = 2 ∨ actor = 3 := by
    intro actor value listed
    simp only [replacedSteps, List.mem_cons, ApiStep.details.injEq, List.not_mem_nil, or_false] at listed
    exact listed.imp And.left And.left
  refine (erasures_agree_on_nothing Function.injective_id 7 none replacedSteps members
    (by decide) (by decide) (by decide) (by decide) (by decide)).mpr ?_
  rintro last edit null listed - -
  have below : last < 2 := null.below
  have first : last = 0 := by
    by_contra later
    obtain rfl : last = 1 := by omega
    exact absurd null.null (by decide)
  subst first
  have apart : 3 ≠ edit.actorUserId := by
    cases listed
    decide
  have since : log.HeldSince 0 1 := by
    intro i above inside
    have upTo : i ≤ 2 := inside
    interval_cases i
    next => decide
    next => decide
  exact ⟨1, 3, apart, since, 1, _, rfl, rfl, by decide, fun i above => since i (by omega)⟩

-- Member 2 adds the first key to NULL details and member 3 a second one.
theorem erasures_differ_on_nothing :
    let log : DetailsLog Nat Nat Nat :=
      apiLog 7 1 none [.details 2 (some (oneKey 10)), .details 3 (some (twoKeys 10 20))]
    (log.twice id 2 12 3 13).live = some Doc.empty ∧ (log.twice id 3 13 2 12).live = none ∧
      (log.twice id 2 12 3 13).live ≠ (log.twice id 3 13 2 12).live := by
  decide +kernel

end Examples

end MemoryCloud.Provenance
