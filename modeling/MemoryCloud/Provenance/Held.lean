import MemoryCloud.Provenance.Commute

set_option autoImplicit false

/-!
# The keys of an api log

In a log of `api` edits an origin lasts from the edit it names to the state. So the walk of a key
leaves it only in states that held it, and after the first of two erasures the second member's live
keys are those that member gave a value.
-/

namespace MemoryCloud.Provenance

open Versions

variable {K J G : Type} [LinearOrder K] [DecidableEq J] [DecidableEq G]

inductive ApiStep (K J : Type) [LinearOrder K]
  | details (actor : UserId) (value : Details K J)
  | other

def applyApi (log : DetailsLog K J G) : ApiStep K J → DetailsLog K J G
  | .details actor value => apiEdit log actor value
  | .other => otherEdit log

def apiLog (memoryId : MemoryId) (author : UserId) (start : Details K J) (steps : List (ApiStep K J)) :
    DetailsLog K J G :=
  steps.foldl applyApi (DetailsLog.created memoryId author start)

structure ApiLog (log : DetailsLog K J G) (first second : UserId) : Prop where
  unmarked : ∀ edit ∈ log.edits, edit.erased = false ∧ edit.erasedKeys = [] ∧
    edit.restoredFromByKey = none
  api : ∀ edit ∈ log.edits, edit.putBack = false
  members : ∀ edit ∈ log.edits, edit.actorUserId = first ∨ edit.actorUserId = second

section Conditions

variable (log : DetailsLog K J G)

def DetailsLog.HeldSince (low : Nat) (key : K) : Prop :=
  ∀ i, low < i → i ≤ log.edits.length → (log.valueAt i key).isSome = true

def DetailsLog.Touched (member : UserId) (key : K) : Prop :=
  ∃ i edit, log.edits[i]? = some edit ∧ edit.actorUserId = member ∧
    log.valueAt i key ≠ log.valueAt (i + 1) key ∧ log.HeldSince i key

end Conditions

section Logs

variable {log : DetailsLog K J G} {first second : UserId}

omit [DecidableEq J] [DecidableEq G] in
theorem ApiLog.swap (api : ApiLog log first second) : ApiLog log second first :=
  ⟨api.unmarked, api.api, fun edit listed => (api.members edit listed).symm⟩

omit [DecidableEq G] in
theorem ApiLog.plain (api : ApiLog log first second) : Plain log := by
  refine ⟨api.unmarked, List.all_eq_true.mpr fun (edit, i) listed => ?_⟩
  have row := List.mem_zipIdx_iff_getElem?.mp listed
  simp [api.api edit (List.mem_of_getElem? row)]

omit [DecidableEq J] [DecidableEq G] in
theorem ApiLog.append {row : DetailsEdit K J G} {after : DetailsLog K J G}
    (api : ApiLog log first second) (edits : after.edits = log.edits ++ [row])
    (new : row.erased = false ∧ row.erasedKeys = [] ∧ row.restoredFromByKey = none)
    (writer : row.putBack = false) (member : row.actorUserId = first ∨ row.actorUserId = second) :
    ApiLog after first second := by
  constructor
  all_goals
    intro edit listed
    rw [edits] at listed
    rcases List.mem_append.mp listed with old | is
  · exact api.unmarked edit old
  · rw [List.mem_singleton.mp is]
    exact new
  · exact api.api edit old
  · rw [List.mem_singleton.mp is]
    exact writer
  · exact api.members edit old
  · rw [List.mem_singleton.mp is]
    exact member

omit [DecidableEq G] in
theorem apiLog_api {memoryId : MemoryId} {author : UserId} {start : Details K J}
    {steps : List (ApiStep K J)}
    (members : ∀ actor value, .details actor value ∈ steps → actor = first ∨ actor = second) :
    ApiLog (apiLog memoryId author start steps : DetailsLog K J G) first second ∧
      (apiLog memoryId author start steps : DetailsLog K J G).author = author := by
  have run : ∀ log : DetailsLog K J G, ApiLog log first second →
      ApiLog (steps.foldl applyApi log) first second ∧
        (steps.foldl applyApi log).author = log.author := by
    induction steps with
    | nil => exact fun log api => ⟨api, rfl⟩
    | cons step rest ih =>
      intro log api
      have later := ih fun actor value listed => members actor value (List.mem_cons_of_mem _ listed)
      cases step with
      | other => exact later _ ⟨api.unmarked, api.api, api.members⟩
      | details actor value =>
        rcases apiEdit_cases log actor value with ⟨is, _⟩ | ⟨appends, _⟩
        next =>
          rw [List.foldl_cons, applyApi, is]
          exact later log api
        next =>
          rw [List.foldl_cons, applyApi]
          have next := api.append appends.edits ⟨rfl, rfl, rfl⟩ rfl
            (members actor value List.mem_cons_self)
          exact ⟨(later _ next).1, (later _ next).2.trans appends.author⟩
  exact run _ ⟨by simp [DetailsLog.created], by simp [DetailsLog.created],
    by simp [DetailsLog.created]⟩

end Logs

section Origins

variable {digest : K → G} {log : DetailsLog K J G} {first second : UserId} {key : K}

theorem ApiLog.span (api : ApiLog log first second) {j : Nat} (known : j ≤ log.edits.length)
    {origin : Origin} (held : log.origins digest j key = some origin) {i : Nat}
    (from_ : origin.state ≤ i) (upTo : i ≤ j) : log.origins digest i key = some origin := by
  induction j with
  | zero =>
    rw [Nat.le_zero.mp upTo]
    exact held
  | succ j ih =>
    rcases Nat.lt_or_eq_of_le upTo with below | rfl
    next =>
      have listed : log.edits[j]? = some log.edits[j] := List.getElem?_eq_getElem (by omega)
      rcases api.plain.api_origins listed (api.api _ (List.getElem_mem _)) held with
        ⟨older, _⟩ | rfl
      next => exact ih (by omega) older (by omega)
      next =>
        dsimp only at from_
        omega
    next => exact held

theorem ApiLog.held_span (api : ApiLog log first second) {j : Nat} (known : j ≤ log.edits.length)
    {origin : Origin} (held : log.origins digest j key = some origin) {i : Nat}
    (from_ : origin.state ≤ i) (upTo : i ≤ j) : (log.valueAt i key).isSome = true := by
  obtain ⟨value, there⟩ := value_of_origin (Nat.le_trans upTo known) (api.span known held from_ upTo)
  rw [there]
  rfl

variable (digest) in
-- An edit that changes a key's value is its origin.
theorem ApiLog.wrote (api : ApiLog log first second) {i : Nat} {edit : DetailsEdit K J G}
    (listed : log.edits[i]? = some edit) (there : (log.valueAt (i + 1) key).isSome = true)
    (changed : log.valueAt i key ≠ log.valueAt (i + 1) key) :
    log.origins digest (i + 1) key = some ⟨some edit.actorUserId, edit.version, i + 1, false⟩ := by
  have inside : i < log.edits.length := (List.getElem?_eq_some_iff.mp listed).1
  obtain ⟨value, is⟩ := Option.isSome_iff_exists.mp there
  obtain ⟨origin, held⟩ := origin_of_value digest inside is
  rcases api.plain.api_origins listed (api.api edit (List.mem_of_getElem? listed)) held with
    ⟨_, same⟩ | new
  next => exact absurd same changed
  next => rw [held, new]

theorem ApiLog.changed (api : ApiLog log first second) {j s : Nat} (known : j ≤ log.edits.length)
    {origin : Origin} (held : log.origins digest j key = some origin) (state : origin.state = s + 1) :
    log.valueAt s key ≠ log.valueAt (s + 1) key := by
  intro same
  have low := (origin_names known held).low
  have above := api.span known held (show origin.state ≤ s + 1 by omega) (by omega)
  obtain ⟨value, there⟩ := value_of_origin (show s + 1 ≤ log.edits.length by omega) above
  have listed : log.edits[s]? = some log.edits[s] := List.getElem?_eq_getElem (by omega)
  have kept : log.valueAt s key = some value := same.trans there
  rw [(log.traced digest).succ s _ listed, api.plain.last (by omega)] at above
  obtain ⟨value', there', is⟩ := Option.map_eq_some_iff.mp above
  cases there.symm.trans there'
  obtain ⟨older, from_⟩ := origin_of_value digest (show s ≤ log.edits.length by omega) kept
  rw [attributeKey_kept (api.api _ (List.getElem_mem _)) ((lookIn_value kept).trans from_)] at is
  have lower := (origin_names (by omega) from_).low
  rw [is] at lower
  omega

theorem ApiLog.member (api : ApiLog log first second) {j s : Nat} (known : j ≤ log.edits.length)
    {origin : Origin} (held : log.origins digest j key = some origin) (state : origin.state = s + 1) :
    ∃ edit, log.edits[s]? = some edit ∧ origin.actor = some edit.actorUserId ∧
      (edit.actorUserId = first ∨ edit.actorUserId = second) := by
  have low := (origin_names known held).low
  have listed : log.edits[s]? = some log.edits[s] := List.getElem?_eq_getElem (by omega)
  have above := api.span known held (show origin.state ≤ s + 1 by omega) (by omega)
  refine ⟨_, listed, ?_, api.members _ (List.getElem_mem _)⟩
  rcases api.plain.api_origins listed (api.api _ (List.getElem_mem _)) above with ⟨older, _⟩ | new
  next =>
    have lower := (origin_names (by omega) older).low
    omega
  next => exact congrArg Origin.actor new

end Origins

section Held

variable {digest : K → G} {log : DetailsLog K J G} {first second pseudonym : UserId} {key : K}

omit [DecidableEq J] [DecidableEq G] in
theorem held_below {low high : Nat} (since : log.HeldSince high key)
    (between : ∀ i, low < i → i ≤ high → (log.valueAt i key).isSome = true) :
    log.HeldSince low key := by
  intro i above inside
  rcases Nat.lt_or_ge high i with after | before
  next => exact since i after inside
  next => exact between i above before

omit [DecidableEq J] [DecidableEq G] in
theorem held_last (key : K) : log.HeldSince log.edits.length key :=
  fun _ above inside => absurd (Nat.lt_of_lt_of_le above inside) (Nat.lt_irrefl _)

theorem held_descends (api : ApiLog log first second) {erased : List UserId} {j i : Nat}
    (known : j ≤ log.edits.length) (step : Descends digest log erased key j i)
    (since : log.HeldSince j key) : log.HeldSince i key := by
  cases step with
  | unknown lost =>
    have there := api.plain.known known
    rw [lost] at there
    cases there
  | past held wrote state =>
    exact held_below since fun i above upTo => api.held_span known held (by omega) upTo
  | stripped known absent marked =>
    rw [api.plain.marks] at marked
    cases marked

theorem once_held (injective : Function.Injective digest) (api : ApiLog log first second)
    (notFirst : log.author ≠ first) {erased : List UserId} {j i : Nat} (row : j < log.edits.length)
    (step : Descends digest (log.once digest first pseudonym) erased key j i)
    (since : log.HeldSince j key) : log.HeldSince i key := by
  cases step with
  | unknown lost =>
    have there : (stateAt (log.once digest first pseudonym).states _).isSome = true :=
      once_known api.plain notFirst (Nat.le_of_lt row)
    rw [lost] at there
    cases there
  | past held wrote state =>
    rw [DetailsLog.once, erase_below digest pseudonym notFirst [] (Nat.le_of_lt row),
      Option.filter_eq_some_iff] at held
    exact held_below since fun i above upTo =>
      api.held_span (Nat.le_of_lt row) held.1 (by omega) upTo
  | @stripped j known absent marked =>
    rw [once_marks api.plain notFirst row, List.mem_map] at marked
    obtain ⟨other, mine, same⟩ := marked
    cases injective same
    have there := written_held (Nat.le_of_lt row) mine
    have inside : j < log.edits.length := by omega
    have listed : log.edits[j]? = some log.edits[j] := List.getElem?_eq_getElem inside
    rcases once_below digest pseudonym api.plain notFirst listed key with
      ⟨_, is⟩ | ⟨_, putBack, _⟩
    next =>
      rw [is]
      refine held_below since fun i above upTo => ?_
      rw [show i = j + 1 by omega]
      exact there
    next =>
      rw [api.api _ (List.getElem_mem inside)] at putBack
      cases putBack

theorem held_walked {walking : DetailsLog K J G} {erased : List UserId} {n : Nat}
    (inside : n ≤ walking.edits.length)
    (back : ∀ j i, j ≤ n → Descends digest walking erased key j i →
      log.HeldSince j key → log.HeldSince i key) {j i : Nat} (known : j ≤ n)
    (walk : Relation.ReflTransGen (Descends digest walking erased key) j i)
    (since : log.HeldSince j key) : log.HeldSince i key := by
  induction walk with
  | refl => exact since
  | tail before step ih =>
    exact back _ _ (Nat.le_trans (descends_le (Nat.le_trans known inside) before) known) step ih

-- A walk past one member's values does not go below an edit of the other's.
theorem walked_above (api : ApiLog log first second) (different : first ≠ second) {s j i : Nat}
    {edit : DetailsEdit K J G} (listed : log.edits[s]? = some edit)
    (own : edit.actorUserId = second) (changed : log.valueAt s key ≠ log.valueAt (s + 1) key)
    (there : (log.valueAt (s + 1) key).isSome = true) (above : s < j) (known : j ≤ log.edits.length)
    (walk : Relation.ReflTransGen (Descends digest log [first] key) j i) : s < i := by
  induction walk with
  | refl => exact above
  | @tail middle i before step ih =>
    have inside : middle ≤ log.edits.length := Nat.le_trans (descends_le known before) known
    cases step with
    | unknown lost =>
      have there := api.plain.known inside
      rw [lost] at there
      cases there
    | @past _ _ origin held wrote state =>
      by_contra below
      have mine := api.span inside held (show origin.state ≤ s + 1 by omega) (by omega)
      cases mine.symm.trans (api.wrote digest listed there changed)
      simp only [wroteErased, own, List.mem_singleton, decide_eq_true_eq] at wrote
      exact different wrote.symm
    | stripped known absent marked =>
      rw [api.plain.marks] at marked
      cases marked

variable (pseudonym) in
theorem once_written_iff (injective : Function.Injective digest) (api : ApiLog log first second)
    (different : first ≠ second) (notFirst : log.author ≠ first) (notSecond : log.author ≠ second)
    (erased : List UserId) :
    let after := log.once digest first pseudonym
    key ∈ after.written digest second erased after.edits.length ↔ log.Touched second key := by
  intro after
  obtain ⟨j, path, _, origins, other⟩ :=
    once_path pseudonym injective api.plain notFirst key
  have known : j ≤ log.edits.length := descends_le (Nat.le_refl _) path
  have since : log.HeldSince j key := held_walked (Nat.le_refl _)
    (fun _ _ known step => held_descends api known step) (Nat.le_refl _) path (held_last key)
  rw [mem_written erased (Nat.le_refl _), show after.origins digest after.edits.length key = _ from
    origins]
  constructor
  next =>
    rintro ⟨origin, held, own⟩
    have names := origin_names known held
    have low := names.low
    cases state : origin.state with
    | zero => exact absurd (Option.some.inj ((names.first state).symm.trans own)) notSecond
    | succ s =>
      obtain ⟨edit, listed, actor, _⟩ := api.member known held state
      refine ⟨s, edit, listed, Option.some.inj (actor.symm.trans own), api.changed known held state, ?_⟩
      exact held_below since fun i above upTo => api.held_span known held (by omega) upTo
  next =>
    rintro ⟨s, edit, listed, own, changed, sinceEdit⟩
    have inside : s < log.edits.length := (List.getElem?_eq_some_iff.mp listed).1
    have there := sinceEdit (s + 1) (by omega) inside
    have above : s < j := walked_above api different listed own changed there inside (Nat.le_refl _) path
    obtain ⟨value, is⟩ := Option.isSome_iff_exists.mp (sinceEdit j above known)
    obtain ⟨origin, held⟩ := origin_of_value digest known is
    refine ⟨origin, held, ?_⟩
    cases state : origin.state with
    | zero =>
      have mine := api.span known held (show origin.state ≤ s + 1 by omega) (by omega)
      cases mine.symm.trans (api.wrote digest listed there changed)
      cases state
    | succ r =>
      obtain ⟨by_, _, actor, isFirst | isSecond⟩ := api.member known held state
      next => exact absurd (actor.trans (congrArg some isFirst)) (other origin held)
      next => exact actor.trans (congrArg some isSecond)

end Held

end MemoryCloud.Provenance
