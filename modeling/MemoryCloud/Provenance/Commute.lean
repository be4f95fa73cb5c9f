import MemoryCloud.Provenance.Residue

set_option autoImplicit false

/-!
# Two erasures

What is left of a key once two members are erased does not depend on who went first: both
orders end at the value `Settles` finds in the log as it was, going past every value either
of them wrote.
-/

namespace MemoryCloud.Provenance

open Versions

variable {K J G : Type} [LinearOrder K] [DecidableEq J] [DecidableEq G]

def wholePutBack (log : DetailsLog K J G) (edit : DetailsEdit K J G) (i : Nat) : Bool :=
  decide (edit.writer = .rollback) &&
    match edit.restoredFrom with
    | some stamp =>
        decide (stateAt log.states (i + 1) =
          stateAt log.states (pre (log.edits.map (·.version)) stamp i))
    | none => false

def wholePutBacks (log : DetailsLog K J G) : Bool :=
  log.edits.zipIdx.all fun (edit, i) => !edit.putBack || wholePutBack log edit i

structure Plain (log : DetailsLog K J G) : Prop where
  unmarked : ∀ edit ∈ log.edits, edit.erased = false ∧ edit.erasedKeys = [] ∧
    edit.restoredFromByKey = none
  puts : wholePutBacks log = true

inductive Settles (digest : K → G) (log : DetailsLog K J G) (erased : List UserId) (key : K) :
    Nat → Option J → Prop
  | absent {j : Nat} (gone : log.origins digest j key = none) : Settles digest log erased key j none
  | kept {j : Nat} {value : J} {origin : Origin} (there : log.valueAt j key = some value)
      (held : log.origins digest j key = some origin) (other : wroteErased origin erased = false) :
      Settles digest log erased key j (some value)
  | past {j below : Nat} {value : Option J} {origin : Origin}
      (held : log.origins digest j key = some origin) (wrote : wroteErased origin erased = true)
      (state : origin.state = below + 1) (settles : Settles digest log erased key below value) :
      Settles digest log erased key j value

section Settling

variable {digest : K → G} {log : DetailsLog K J G} {erased : List UserId} {key : K}

theorem Settles.unique {j : Nat} {first second : Option J}
    (left : Settles digest log erased key j first)
    (right : Settles digest log erased key j second) : first = second := by
  induction left generalizing second with
  | absent gone =>
    cases right with
    | absent => rfl
    | kept there held other =>
      rw [gone] at held
      cases held
    | past held wrote state settles =>
      rw [gone] at held
      cases held
  | kept there held other =>
    cases right with
    | absent gone =>
      rw [gone] at held
      cases held
    | kept there' held' other' =>
      rw [there] at there'
      exact there'
    | past held' wrote state settles =>
      rw [held] at held'
      cases held'
      rw [other] at wrote
      cases wrote
  | past held wrote state settles ih =>
    cases right with
    | absent gone =>
      rw [gone] at held
      cases held
    | kept there' held' other' =>
      rw [held] at held'
      cases held'
      rw [wrote] at other'
      cases other'
    | past held' wrote' state' settles' =>
      rw [held] at held'
      cases held'
      rw [state] at state'
      cases state'
      exact ih settles'

theorem Settles.carried {i j : Nat} {value : Option J}
    (settles : Settles digest log erased key i value)
    (origins : log.origins digest j key = log.origins digest i key)
    (values : log.valueAt j key = log.valueAt i key) : Settles digest log erased key j value := by
  cases settles with
  | absent gone => exact .absent (origins.trans gone)
  | kept there held other => exact .kept (values.trans there) (origins.trans held) other
  | past held wrote state below => exact .past (origins.trans held) wrote state below

theorem Settles.same {others : List UserId} {j : Nat} {value : Option J}
    (settles : Settles digest log erased key j value)
    (members : ∀ user, user ∈ erased ↔ user ∈ others) :
    Settles digest log others key j value := by
  have wrote : ∀ origin, wroteErased origin erased = wroteErased origin others := by
    intro origin
    unfold wroteErased
    cases origin.actor with
    | none => rfl
    | some actor => simp [members actor]
  induction settles with
  | absent gone => exact .absent gone
  | kept there held other => exact .kept there held ((wrote _).symm.trans other)
  | past held wroteIt state _ ih => exact .past held ((wrote _).symm.trans wroteIt) state ih

theorem Settles.walked {walking : DetailsLog K J G} {others : List UserId} {value : Option J}
    {n : Nat} (inside : n ≤ walking.edits.length)
    (back : ∀ j i, j ≤ n → Descends digest walking others key j i →
      Settles digest log erased key i value → Settles digest log erased key j value)
    {j i : Nat} (known : j ≤ n)
    (walk : Relation.ReflTransGen (Descends digest walking others key) j i)
    (settles : Settles digest log erased key i value) : Settles digest log erased key j value := by
  induction walk using Relation.ReflTransGen.head_induction_on with
  | refl => exact settles
  | head step _ ih =>
    have lower := step.lower (Nat.le_trans known inside)
    exact back _ _ known step (ih (by omega))

end Settling

section Plain

variable {digest : K → G} {log : DetailsLog K J G}

omit [DecidableEq G] in
theorem Plain.known (plain : Plain log) {i : Nat} (inside : i ≤ log.edits.length) :
    (stateAt log.states i).isSome = true := by
  rcases Nat.lt_or_eq_of_le inside with row | live
  next =>
    have listed : log.edits[i]? = some log.edits[i] := List.getElem?_eq_getElem row
    rw [stateAt_row listed, DetailsEdit.state, (plain.unmarked _ (List.getElem_mem row)).1]
    rfl
  next =>
    rw [live, stateAt_live]
    rfl

omit [DecidableEq G] in
theorem Plain.marks (plain : Plain log) (j : Nat) : log.marks j = [] := by
  rw [DetailsLog.marks]
  cases listed : log.edits[j]? with
  | none => rfl
  | some edit => exact (plain.unmarked edit (List.mem_of_getElem? listed)).2.1

omit [DecidableEq G] in
theorem Plain.last (plain : Plain log) {i : Nat} (inside : i ≤ log.edits.length) :
    lastKnown log.states i = some i := by
  have known := plain.known inside
  cases i with
  | zero => simp [lastKnown, known]
  | succ i => simp [lastKnown, known]

omit [DecidableEq G] in
theorem Plain.whole (plain : Plain log) {i : Nat} {edit : DetailsEdit K J G}
    (listed : log.edits[i]? = some edit) (putBack : edit.putBack = true) :
    edit.writer = .rollback ∧ ∃ stamp, edit.restoredFrom = some stamp ∧
      stateAt log.states (i + 1) =
        stateAt log.states (pre (log.edits.map (·.version)) stamp i) := by
  have all := List.all_eq_true.mp plain.puts (edit, i)
    (List.mem_zipIdx_iff_getElem?.mpr listed)
  simp only [putBack, Bool.not_true, Bool.false_or, wholePutBack, Bool.and_eq_true,
    decide_eq_true_eq] at all
  obtain ⟨writer, restored⟩ := all
  cases stamped : edit.restoredFrom with
  | none => simp [stamped] at restored
  | some stamp =>
    simp only [stamped, decide_eq_true_eq] at restored
    exact ⟨writer, stamp, rfl, restored⟩

theorem Plain.api_origins (plain : Plain log) {i : Nat} {edit : DetailsEdit K J G}
    (listed : log.edits[i]? = some edit) (api : edit.putBack = false) {key : K} {origin : Origin}
    (held : log.origins digest (i + 1) key = some origin) :
    (log.origins digest i key = some origin ∧ log.valueAt i key = log.valueAt (i + 1) key) ∨
      origin = ⟨some edit.actorUserId, edit.version, i + 1, false⟩ := by
  have inside : i < log.edits.length := (List.getElem?_eq_some_iff.mp listed).1
  rw [(log.traced digest).succ i edit listed, plain.last (Nat.le_of_lt inside)] at held
  obtain ⟨value, there, is⟩ := Option.map_eq_some_iff.mp held
  have there' : log.valueAt (i + 1) key = some value := there
  by_cases same : log.valueAt i key = some value
  next =>
    obtain ⟨older, from_⟩ := origin_of_value digest (Nat.le_of_lt inside) same
    rw [attributeKey_kept api ((lookIn_value same).trans from_)] at is
    rw [← is, same, there']
    exact .inl ⟨from_, rfl⟩
  next =>
    rw [attributeKey_new api (lookIn_other same)] at is
    exact .inr is.symm

variable (digest) in
theorem Plain.rollback_origins (plain : Plain log) {i stamp : Nat} {edit : DetailsEdit K J G}
    (listed : log.edits[i]? = some edit) (putBack : edit.putBack = true)
    (stamped : edit.restoredFrom = some stamp) (key : K) :
    let below := pre (log.edits.map (·.version)) stamp i
    log.origins digest (i + 1) key = log.origins digest below key ∧
      log.valueAt (i + 1) key = log.valueAt below key := by
  intro below
  have inside : i < log.edits.length := (List.getElem?_eq_some_iff.mp listed).1
  have low : below ≤ i := Nat.min_le_right _ _
  obtain ⟨writer, stamp', is, same⟩ := plain.whole listed putBack
  rw [stamped] at is
  cases is
  have values : log.valueAt (i + 1) key = log.valueAt below key := by
    rw [DetailsLog.valueAt, DetailsLog.valueAt, same]
  refine ⟨?_, values⟩
  have from_ : preOf digest log.edits edit i key = some below := by
    have scalar : restoredFrom edit (digest key) = some stamp := by
      rw [restoredFrom, (plain.unmarked edit (List.mem_of_getElem? listed)).2.2]
      exact stamped
    rw [preOf, if_pos putBack, scalar]
    rfl
  have carries : carriesFirst log.states edit i = false := by
    rw [carriesFirst, writer]
    rfl
  have here : (keysOf (stateAt log.states (i + 1))).get? key = log.valueAt below key := values
  rw [(log.traced digest).succ i edit listed, here, from_, carries]
  cases value : log.valueAt below key with
  | none => exact (origin_of_absent digest (by omega) value).symm
  | some value =>
    obtain ⟨origin, held⟩ := origin_of_value digest (by omega) value
    rw [held]
    exact congrArg some (attributeKey_rolledBack putBack ((lookIn_value value).trans held))

end Plain

section Once

variable {digest : K → G} {log : DetailsLog K J G} {first pseudonym second : UserId}

variable (digest log first pseudonym) in
def DetailsLog.once : DetailsLog K J G := eraseSubjectDetails digest log first pseudonym []

theorem once_known (plain : Plain log) (notFirst : log.author ≠ first) {i : Nat}
    (inside : i ≤ log.edits.length) :
    (stateAt (log.once digest first pseudonym).states i).isSome = true := by
  have extends_ := erase_extends digest pseudonym notFirst []
  have size : (log.cleaned digest first pseudonym [first]).edits.length = log.edits.length :=
    cleaned_length
  rw [DetailsLog.once, extends_.states i (by rw [size]; exact inside), cleaned_state,
    Option.isSome_map]
  exact plain.known inside

theorem once_marks (plain : Plain log) (notFirst : log.author ≠ first) {i : Nat}
    (row : i < log.edits.length) : (log.once digest first pseudonym).marks i =
      (log.written digest first [first] i).map digest := by
  have listed : log.edits[i]? = some log.edits[i] := List.getElem?_eq_getElem row
  rw [DetailsLog.marks, DetailsLog.once, erase_row pseudonym notFirst [] listed]
  change log.edits[i].erasedKeys ++ _ = _
  rw [(plain.unmarked _ (List.getElem_mem row)).2.1]
  rfl

variable (digest pseudonym) in
theorem once_below (plain : Plain log) (notFirst : log.author ≠ first) {j : Nat}
    {edit : DetailsEdit K J G} (listed : log.edits[j]? = some edit) (key : K) :
    (edit.putBack = false ∧ (log.once digest first pseudonym).belowMark digest key (j + 1) = j) ∨
      ∃ stamp, edit.putBack = true ∧ edit.restoredFrom = some stamp ∧
        (log.once digest first pseudonym).belowMark digest key (j + 1) =
          pre (log.edits.map (·.version)) stamp j := by
  have inside : j < log.edits.length := (List.getElem?_eq_some_iff.mp listed).1
  have unmarked := plain.unmarked edit (List.mem_of_getElem? listed)
  have sameVersions : ∀ version, pre ((log.once digest first pseudonym).edits.map (·.version))
      version j = pre (log.edits.map (·.version)) version j := by
    intro version
    have extends_ := erase_extends digest pseudonym notFirst []
    have size : (log.cleaned digest first pseudonym [first]).edits.length = log.edits.length :=
      cleaned_length
    rw [DetailsLog.once, extends_.versions version j (by rw [size]; omega), cleaned_versions]
  cases putBack : edit.putBack with
  | false =>
    have writer : edit.writer ≠ .erasure := by
      intro is
      simp [DetailsEdit.putBack, is] at putBack
    have api : (renameActor first pseudonym
        (cleanRow digest (log.written digest first [first] j) edit)).putBack = false := putBack
    refine .inl ⟨rfl, ?_⟩
    rw [DetailsLog.once, belowMark_row (erase_row pseudonym notFirst [] listed) unmarked.2.2 writer, api]
    split
    next => rfl
    next => rfl
  | true =>
    obtain ⟨writer, stamp, stamped, _⟩ := plain.whole listed putBack
    have rolledBack : (renameActor first pseudonym
        (cleanRow digest (log.written digest first [first] j) edit)).putBack = true := putBack
    have stamped' : (renameActor first pseudonym
        (cleanRow digest (log.written digest first [first] j) edit)).restoredFrom = some stamp :=
      stamped
    have other : edit.writer ≠ .erasure := by
      rw [writer]
      decide
    refine .inr ⟨stamp, rfl, stamped, ?_⟩
    rw [DetailsLog.once, belowMark_row (erase_row pseudonym notFirst [] listed) unmarked.2.2 other,
      stamped', rolledBack]
    exact sameVersions stamp

theorem wrote_second {origin : Origin} (unnamed : origin.actor ≠ some pseudonym)
    (other : origin.actor ≠ some first) :
    wroteErased origin [second, pseudonym] = wroteErased origin [first, second] := by
  unfold wroteErased
  cases actor : origin.actor with
  | none => rfl
  | some user =>
    have notPseudonym : user ≠ pseudonym := fun is => unnamed (by rw [actor, is])
    have notFirst : user ≠ first := fun is => other (by rw [actor, is])
    simp [notPseudonym, notFirst]

theorem once_back (injective : Function.Injective digest) (plain : Plain log)
    (notFirst : log.author ≠ first) (unnamed : Unattributed digest log pseudonym) {key : K}
    {j i : Nat} (row : j < log.edits.length)
    (step : Descends digest (log.once digest first pseudonym) [second, pseudonym] key j i)
    {value : Option J} (settles : Settles digest log [first, second] key i value) :
    Settles digest log [first, second] key j value := by
  cases step with
  | unknown lost =>
    have known : (stateAt (log.once digest first pseudonym).states (i + 1)).isSome = true :=
      once_known plain notFirst (Nat.le_of_lt row)
    rw [lost] at known
    cases known
  | past held wrote state =>
    rw [DetailsLog.once, erase_below digest pseudonym notFirst [] (Nat.le_of_lt row),
      Option.filter_eq_some_iff] at held
    have other := held.2
    rw [keeps, decide_eq_true_eq] at other
    rw [wrote_second (unnamed j (Nat.le_of_lt row) key _ held.1) other] at wrote
    exact .past held.1 wrote state settles
  | @stripped j known absent marked =>
    rw [once_marks plain notFirst row, List.mem_map] at marked
    obtain ⟨other, mine, same⟩ := marked
    cases injective same
    obtain ⟨origin, held, own⟩ := (mem_written _ (Nat.le_of_lt row)).mp mine
    have inside : j < log.edits.length := by omega
    have listed : log.edits[j]? = some log.edits[j] := List.getElem?_eq_getElem inside
    rcases once_below digest pseudonym plain notFirst listed key with
      ⟨api, is⟩ | ⟨stamp, putBack, stamped, is⟩
    next =>
      rw [is] at settles
      rcases plain.api_origins listed api held with ⟨older, same⟩ | new
      next => exact settles.carried (held.trans older.symm) same.symm
      next =>
        rw [new] at held own
        have wrote : wroteErased ⟨some log.edits[j].actorUserId, log.edits[j].version, j + 1, false⟩
            [first, second] = true := by
          simp only [Option.some.injEq] at own
          simp [wroteErased, own]
        exact .past held wrote rfl settles
    next =>
      rw [is] at settles
      obtain ⟨origins, values⟩ := plain.rollback_origins digest listed putBack stamped key
      exact settles.carried origins values

theorem once_absent (plain : Plain log) (notFirst : log.author ≠ first) (notSecond : log.author ≠ second)
    (unnamed : Unattributed digest log pseudonym) {key : K} {j : Nat} {revert : KeyRevert K J}
    (row : j < log.edits.length)
    (stops : Stops digest (log.once digest first pseudonym) [second, pseudonym] key j revert)
    (nothing : revert.target = none) : log.valueAt j key = none := by
  have known : j ≤ log.edits.length := Nat.le_of_lt row
  have here : (log.once digest first pseudonym).valueAt j key = _ :=
    erase_value digest pseudonym notFirst [] known key
  have origins : (log.once digest first pseudonym).origins digest j key = _ :=
    erase_below digest pseudonym notFirst [] known key
  have lives : (stateAt (log.once digest first pseudonym).states j).isSome = true :=
    once_known plain notFirst known
  by_contra present
  obtain ⟨value, there⟩ := Option.ne_none_iff_exists'.mp present
  obtain ⟨origin, held⟩ := origin_of_value digest known there
  have names := origin_names known held
  rw [held, Option.all_some] at here
  rw [held, Option.filter_some] at origins
  by_cases own : origin.actor = some first
  next =>
    have taken : ¬ keeps first origin = true := by simp [keeps, own]
    rw [if_neg taken] at origins
    have later : 1 ≤ j := by
      by_contra zero
      rw [names.first (by have := names.low; omega)] at own
      exact notFirst (Option.some.inj own)
    have marked : digest key ∈ (log.once digest first pseudonym).marks j := by
      rw [once_marks plain notFirst row]
      exact List.mem_map_of_mem ((mem_written _ known).mpr ⟨origin, held, own⟩)
    rcases stops.absent nothing with lost | ⟨found, is, _⟩ | ⟨_, unmarked⟩
    next =>
      rw [lost] at lives
      cases lives
    next =>
      rw [is] at origins
      cases origins
    next => exact unmarked ⟨later, marked⟩
  next =>
    have kept : keeps first origin = true := by simp [keeps, own]
    rw [if_pos kept] at here origins
    rcases stops.absent nothing with lost | ⟨found, is, wrote, created⟩ | ⟨missing, _⟩
    next =>
      rw [lost] at lives
      cases lives
    next =>
      rw [origins] at is
      cases is
      have author := names.first created
      rw [wroteErased, author] at wrote
      simp only [List.mem_cons, List.not_mem_nil, or_false, decide_eq_true_eq] at wrote
      rcases wrote with isSecond | isPseudonym
      next => exact notSecond isSecond
      next => exact unnamed j known key origin held (author.trans (congrArg some isPseudonym))
    next =>
      rw [here, there] at missing
      cases missing

theorem once_stops (plain : Plain log) (notFirst : log.author ≠ first) (notSecond : log.author ≠ second)
    (unnamed : Unattributed digest log pseudonym) {key : K} {j : Nat} {revert : KeyRevert K J}
    (row : j < log.edits.length)
    (stops : Stops digest (log.once digest first pseudonym) [second, pseudonym] key j revert) :
    Settles digest log [first, second] key j revert.target := by
  have known : j ≤ log.edits.length := Nat.le_of_lt row
  cases target : revert.target with
  | none =>
    exact .absent (origin_of_absent digest known
      (once_absent plain notFirst notSecond unnamed row stops target))
  | some found =>
    have here : (log.once digest first pseudonym).valueAt j key = _ :=
      erase_value digest pseudonym notFirst [] known key
    have origins : (log.once digest first pseudonym).origins digest j key = _ :=
      erase_below digest pseudonym notFirst [] known key
    obtain ⟨is, other⟩ := stops.found found target
    rw [here] at is
    split at is
    next kept =>
      obtain ⟨origin, held⟩ := origin_of_value digest known is
      rw [held, Option.all_some] at kept
      rw [held, Option.filter_some, if_pos kept] at origins
      have surviving := other origin origins
      rw [keeps, decide_eq_true_eq] at kept
      rw [wrote_second (unnamed j known key origin held) kept] at surviving
      exact .kept is held surviving
    next => cases is

theorem plain_back (plain : Plain log) {erased : List UserId} (member : first ∈ erased) {key : K}
    {j i : Nat} (inside : j ≤ log.edits.length) (step : Descends digest log [first] key j i)
    {value : Option J} (settles : Settles digest log erased key i value) :
    Settles digest log erased key j value := by
  cases step with
  | unknown lost =>
    have known := plain.known inside
    rw [lost] at known
    cases known
  | @past _ _ origin held wrote state =>
    have wroteIt : wroteErased origin erased = true := by
      unfold wroteErased at wrote ⊢
      cases actor : origin.actor with
      | none => simp [actor] at wrote
      | some user =>
        simp only [actor, List.mem_singleton, decide_eq_true_eq] at wrote
        simp [wrote, member]
    exact .past held wroteIt state settles
  | stripped known absent marked =>
    rw [plain.marks] at marked
    cases marked

theorem plain_stops (plain : Plain log) (notFirst : log.author ≠ first) {key : K} {j : Nat}
    {revert : KeyRevert K J} (known : j ≤ log.edits.length)
    (stops : Stops digest log [first] key j revert) :
    revert.target = log.valueAt j key ∧
      ∀ origin, log.origins digest j key = some origin → origin.actor ≠ some first := by
  have wrote : ∀ origin : Origin, origin.actor = some first → wroteErased origin [first] = true := by
    intro origin own
    simp [wroteErased, own]
  cases target : revert.target with
  | some value =>
    obtain ⟨there, kept⟩ := stops.found value target
    refine ⟨there.symm, ?_⟩
    intro origin held own
    have surviving := kept origin held
    rw [wrote origin own] at surviving
    cases surviving
  | none =>
    rcases stops.absent target with lost | ⟨origin, held, mine, created⟩ | ⟨gone, _⟩
    next =>
      have lives := plain.known known
      rw [lost] at lives
      cases lives
    next =>
      rw [wroteErased, (origin_names known held).first created] at mine
      exact absurd (by simpa using mine) notFirst
    next =>
      refine ⟨gone.symm, ?_⟩
      intro origin held
      rw [origin_of_absent digest known gone] at held
      cases held

variable (pseudonym) in
theorem once_path (injective : Function.Injective digest) (plain : Plain log)
    (notFirst : log.author ≠ first) (key : K) :
    let after := log.once digest first pseudonym
    ∃ j, Relation.ReflTransGen (Descends digest log [first] key) log.edits.length j ∧
      (keysOf (some after.live)).get? key = log.valueAt j key ∧
      after.origins digest after.edits.length key = log.origins digest j key ∧
      ∀ origin, log.origins digest j key = some origin → origin.actor ≠ some first := by
  intro after
  have live : (keysOf (some after.live)).get? key = _ := erase_live digest pseudonym notFirst [] key
  have origins : after.origins digest after.edits.length key = _ :=
    erase_origins pseudonym injective notFirst [] key
  by_cases mine : key ∈ log.written digest first [first] log.edits.length
  next =>
    rw [if_pos mine] at live origins
    obtain ⟨origin, revert, j, held, own, walk, path, later, low, stops⟩ :=
      walk_stops notFirst mine
    have lower : j ≤ origin.state - 1 := descends_le (by omega) path
    have wrote : wroteErased origin [first] = true := by simp [wroteErased, own]
    obtain ⟨ends, other⟩ := plain_stops plain notFirst (by omega) stops
    refine ⟨j, .head (.past held wrote (by omega)) path, ?_, ?_, other⟩
    · rw [live, walk]
      exact ends
    · rw [origins, walk, Option.bind_some, ends]
      cases value : log.valueAt j key with
      | some _ => rfl
      | none => exact (origin_of_absent digest (by omega) value).symm
  next =>
    rw [if_neg mine] at live origins
    refine ⟨log.edits.length, .refl, ?_, origins, ?_⟩
    · rw [live, DetailsLog.valueAt, stateAt_live]
    · intro origin held own
      exact mine ((mem_written _ (Nat.le_refl _)).mpr ⟨origin, held, own⟩)

theorem once_source (injective : Function.Injective digest) (plain : Plain log)
    (notFirst : log.author ≠ first) {erased : List UserId} (member : first ∈ erased) (key : K) :
    let after := log.once digest first pseudonym
    ∃ j ≤ log.edits.length,
      (∀ value, Settles digest log erased key j value →
        Settles digest log erased key log.edits.length value) ∧
      (keysOf (some after.live)).get? key = log.valueAt j key ∧
      after.origins digest after.edits.length key = log.origins digest j key ∧
      ∀ origin, log.origins digest j key = some origin → origin.actor ≠ some first := by
  intro after
  obtain ⟨j, path, live, origins, other⟩ := once_path pseudonym injective plain notFirst key
  refine ⟨j, descends_le (Nat.le_refl _) path, fun value settles => ?_, live, origins, other⟩
  exact Settles.walked (Nat.le_refl _)
    (fun _ _ inside step => plain_back plain member inside step) (Nat.le_refl _) path settles

end Once

section Twice

variable {digest : K → G} {log : DetailsLog K J G} {first second pseudonym : UserId}

variable (digest log) in
-- The log after both erasures, the second knowing of the first.
def DetailsLog.twice (first pseudonym second name : UserId) : DetailsLog K J G :=
  eraseSubjectDetails digest (log.once digest first pseudonym) second name [pseudonym]

theorem twice_settles (injective : Function.Injective digest) (plain : Plain log)
    (notFirst : log.author ≠ first) (notSecond : log.author ≠ second)
    (unnamed : Unattributed digest log pseudonym) (name : UserId) (key : K) :
    Settles digest log [first, second] key log.edits.length
      ((keysOf (some (log.twice digest first pseudonym second name).live)).get? key) := by
  have author : (log.once digest first pseudonym).author ≠ second := by
    rw [DetailsLog.once, erase_author digest pseudonym notFirst]
    exact notSecond
  obtain ⟨j, known, back, live, origins, other⟩ :=
    once_source injective plain notFirst (show first ∈ [first, second] by simp) key
  have becomes : (keysOf (some (log.twice digest first pseudonym second name).live)).get? key = _ :=
    erase_live digest name author [pseudonym] key
  apply back
  rw [becomes]
  by_cases mine : key ∈ (log.once digest first pseudonym).written digest second
      [second, pseudonym] (log.once digest first pseudonym).edits.length
  next =>
    obtain ⟨origin, revert, i, held, own, walk, path, later, low, stops⟩ := walk_stops author mine
    rw [origins] at held
    have high := (origin_names known held).low
    have length : log.edits.length ≤ (log.once digest first pseudonym).edits.length :=
      erase_length digest pseudonym notFirst []
    have lower : i ≤ origin.state - 1 := descends_le (by omega) path
    have settles := once_stops plain notFirst notSecond unnamed (show i < _ by omega) stops
    have start : Settles digest log [first, second] key (origin.state - 1) revert.target :=
      Settles.walked (n := log.edits.length - 1) (by omega)
        (fun _ _ row step => once_back injective plain notFirst unnamed (by omega) step)
        (by omega) path settles
    have wrote : wroteErased origin [first, second] = true := by simp [wroteErased, own]
    rw [if_pos mine, walk]
    exact .past held wrote (by omega) start
  next =>
    rw [if_neg mine, live]
    cases value : log.valueAt j key with
    | none => exact .absent (origin_of_absent digest known value)
    | some value =>
      obtain ⟨origin, held⟩ := origin_of_value digest known value
      have notMine : origin.actor ≠ some second := by
        intro own
        exact mine ((mem_written _ (Nat.le_refl _)).mpr ⟨origin, origins.trans held, own⟩)
      have surviving : wroteErased origin [first, second] = false := by
        have notFirst := other origin held
        unfold wroteErased
        cases actor : origin.actor with
        | none => rfl
        | some user =>
          rw [actor] at notMine notFirst
          simp only [ne_eq, Option.some.injEq] at notMine notFirst
          simp [notMine, notFirst]
      exact .kept value held surviving

variable {name : UserId}

variable (digest pseudonym name) in
theorem twice_value (notFirst : log.author ≠ first) (notSecond : log.author ≠ second) {i : Nat}
    (inside : i ≤ log.edits.length) (key : K) :
    (log.twice digest first pseudonym second name).valueAt i key =
      if (log.origins digest i key).all fun origin => keeps first origin && keeps second origin then
        log.valueAt i key
      else none := by
  have author : (log.once digest first pseudonym).author ≠ second := by
    rw [DetailsLog.once, erase_author digest pseudonym notFirst]
    exact notSecond
  have length := erase_length digest pseudonym notFirst []
  rw [DetailsLog.twice, erase_value digest name author [pseudonym] (Nat.le_trans inside length),
    DetailsLog.once, erase_below digest pseudonym notFirst [] inside,
    erase_value digest pseudonym notFirst [] inside]
  cases log.origins digest i key with
  | none => rfl
  | some origin =>
    by_cases isFirst : keeps first origin = true
    next =>
      by_cases isSecond : keeps second origin = true
      next => simp [Option.filter, isFirst, isSecond]
      next => simp [Option.filter, isFirst, isSecond]
    next => simp [Option.filter, isFirst]

variable (digest pseudonym name) in
theorem twice_row (notFirst : log.author ≠ first) (notSecond : log.author ≠ second) {i : Nat}
    {edit : DetailsEdit K J G} (listed : log.edits[i]? = some edit) :
    ∃ row, (log.twice digest first pseudonym second name).edits[i]? = some row ∧ row.id = edit.id := by
  have author : (log.once digest first pseudonym).author ≠ second := by
    rw [DetailsLog.once, erase_author digest pseudonym notFirst]
    exact notSecond
  exact ⟨_, erase_row name author [pseudonym] (erase_row pseudonym notFirst [] listed), rfl⟩

def priors (log : DetailsLog K J G) (rows : Nat) : List (Nat × Doc K J) :=
  (log.edits.take rows).map fun row => (row.id, keysOf row.state)

variable (digest log first second pseudonym name) in
theorem twice_priors (notFirst : log.author ≠ first) (notSecond : log.author ≠ second) :
    priors (log.twice digest first pseudonym second name) log.edits.length =
      priors (log.twice digest second name first pseudonym) log.edits.length := by
  apply List.ext_getElem?
  intro i
  simp only [priors, List.getElem?_map, List.getElem?_take]
  split
  next row =>
    have listed : log.edits[i]? = some log.edits[i] := List.getElem?_eq_getElem row
    obtain ⟨one, isOne, oneId⟩ := twice_row digest pseudonym name notFirst notSecond listed
    obtain ⟨two, isTwo, twoId⟩ := twice_row digest name pseudonym notSecond notFirst listed
    have same : keysOf one.state = keysOf two.state := by
      rw [← stateAt_row isOne, ← stateAt_row isTwo]
      apply Doc.ext_get
      intro key
      have left := twice_value digest pseudonym name notFirst notSecond (Nat.le_of_lt row) key
      have right := twice_value digest name pseudonym notSecond notFirst (Nat.le_of_lt row) key
      rw [DetailsLog.valueAt] at left right
      rw [left, right]
      simp only [Bool.and_comm]
    rw [isOne, isTwo, Option.map_some, Option.map_some, oneId, twoId, same]
  next => rfl

variable (digest pseudonym name) in
theorem priors_ids (notFirst : log.author ≠ first) (notSecond : log.author ≠ second) :
    (priors (log.twice digest first pseudonym second name) log.edits.length).map Prod.fst =
      log.edits.map (·.id) := by
  apply List.ext_getElem?
  intro i
  simp only [priors, List.getElem?_map, List.getElem?_take]
  split
  next row =>
    have listed : log.edits[i]? = some log.edits[i] := List.getElem?_eq_getElem row
    obtain ⟨one, isOne, oneId⟩ := twice_row digest pseudonym name notFirst notSecond listed
    rw [isOne, listed, Option.map_some, Option.map_some, Option.map_some, oneId]
  next beyond =>
    rw [List.getElem?_eq_none_iff.mpr (by omega)]
    rfl

theorem plain_commutes (injective : Function.Injective digest) (plain : Plain log)
    (notFirst : log.author ≠ first) (notSecond : log.author ≠ second)
    (unnamed : Unattributed digest log pseudonym) (unnamed' : Unattributed digest log name) :
    keysOf (some (log.twice digest first pseudonym second name).live) =
      keysOf (some (log.twice digest second name first pseudonym).live) := by
  apply Doc.ext_get
  intro key
  have there := twice_settles injective plain notFirst notSecond unnamed name key
  have here := twice_settles injective plain notSecond notFirst unnamed' pseudonym key
  exact there.unique (here.same (by simp [or_comm]))

end Twice

end MemoryCloud.Provenance
