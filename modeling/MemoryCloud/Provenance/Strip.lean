import MemoryCloud.Provenance.Replay

set_option autoImplicit false

/-!
# Rewriting the evidence

An erasure takes the subject's keys out of every state and appends one row. The other keys
keep the origins they had: a lookup that found a kept key finds it again, and the states it
passed over before hold the value no more than they did.
-/

namespace MemoryCloud.Provenance

open Versions

variable {K J G : Type} [LinearOrder K] [DecidableEq J] [DecidableEq G]

def keeps (subject : UserId) (origin : Origin) : Bool := decide (origin.actor ≠ some subject)

section Attribution

omit [DecidableEq J] [DecidableEq G]

theorem attributeKey_filter {look : Nat → Option Origin} {edit edit' : DetailsEdit K J G} {i : Nat}
    {last pre : Option Nat} {carriedFirst : Bool} {keep : Origin → Bool}
    (writer : edit'.writer = edit.writer) (version : edit'.version = edit.version)
    (kept : keep (attributeKey look edit i last pre carriedFirst false) = true)
    (actor : keep ⟨some edit.actorUserId, edit.version, i + 1, false⟩ = true →
      edit'.actorUserId = edit.actorUserId) :
    attributeKey (fun j => (look j).filter keep) edit' i last pre carriedFirst false =
      attributeKey look edit i last pre carriedFirst false := by
  have samePutBack : edit'.putBack = edit.putBack := by rw [DetailsEdit.putBack, writer]; rfl
  have bindFilter : ∀ at_ : Option Nat,
      (at_.bind fun j => (look j).filter keep) = (at_.bind look).filter keep := by
    intro at_
    cases at_ <;> rfl
  unfold attributeKey at kept ⊢
  simp only [samePutBack, version, bindFilter]
  split
  next api =>
    rw [if_pos api] at kept
    cases found : last.bind look with
    | none =>
      simp only [found, Option.getD_none] at kept
      simp [actor kept]
    | some origin =>
      simp only [found, Option.getD_some] at kept
      simp [Option.filter, kept]
  next notApi =>
    rw [if_neg notApi] at kept
    simp only at kept ⊢
    cases ordered : (if carriedFirst then [last, pre] else [pre, last]).findSome?
        fun j => j.bind look with
    | some origin =>
      simp only [ordered] at kept
      rw [findSome?_filter (fun j : Option Nat => j.bind look)
        (fun found is => by rw [ordered] at is; cases is; exact kept), ordered]
    | none =>
      simp only [ordered] at kept
      rw [findSome?_filter (fun j : Option Nat => j.bind look)
        (fun found is => by rw [ordered] at is; cases is), ordered]
      cases searched : (List.range (i + 1)).reverse.findSome? look with
      | some origin =>
        simp only [searched] at kept
        rw [findSome?_filter look (fun found is => by rw [searched] at is; cases is; exact kept),
          searched]
      | none =>
        rw [findSome?_filter look (fun found is => by rw [searched] at is; cases is), searched]

end Attribution

structure Stripped (digest : K → G) (subject pseudonym : UserId) (log after : DetailsLog K J G) :
    Prop where
  author : after.author = log.author
  versions : after.edits.map (·.version) = log.edits.map (·.version)
  rows : ∀ (i : Nat) (edit' : DetailsEdit K J G), after.edits[i]? = some edit' →
    ∃ edit : DetailsEdit K J G, log.edits[i]? = some edit ∧ edit'.writer = edit.writer ∧
      edit'.restoredFrom = edit.restoredFrom ∧
    edit'.restoredFromByKey = edit.restoredFromByKey ∧ edit'.version = edit.version ∧
    edit'.actorUserId = if edit.actorUserId = subject then pseudonym else edit.actorUserId
  known : ∀ i, (stateAt after.states i).isSome = (stateAt log.states i).isSome
  values : ∀ i ≤ log.edits.length, ∀ key, after.valueAt i key =
    if (log.origins digest i key).all (keeps subject) then log.valueAt i key else none

section Stripping

variable {digest : K → G} {subject pseudonym : UserId} {log after : DetailsLog K J G}

omit [DecidableEq J] in
theorem lastKnown_congr {states states' : List (State K J)} {i : Nat}
    (same : ∀ j ≤ i, (stateAt states' j).isSome = (stateAt states j).isSome) :
    lastKnown states' i = lastKnown states i := by
  induction i with
  | zero => simp only [lastKnown, same 0 (Nat.le_refl 0)]
  | succ i ih =>
    simp only [lastKnown, same (i + 1) (Nat.le_refl _), ih fun j below => same j (by omega)]

omit [DecidableEq J] in
theorem preOf_congr {edits edits' : List (DetailsEdit K J G)} {edit edit' : DetailsEdit K J G}
    {i : Nat} (versions : edits'.map (·.version) = edits.map (·.version))
    (writer : edit'.writer = edit.writer) (restored : edit'.restoredFrom = edit.restoredFrom)
    (byKey : edit'.restoredFromByKey = edit.restoredFromByKey)
    (version : edit'.version = edit.version) (key : K) :
    preOf digest edits' edit' i key = preOf digest edits edit i key := by
  have samePutBack : edit'.putBack = edit.putBack := by rw [DetailsEdit.putBack, writer]; rfl
  simp only [preOf, restoredFrom, samePutBack, versions, restored, byKey, version]

theorem Stripped.length (stripped : Stripped digest subject pseudonym log after) :
    after.edits.length = log.edits.length := by
  have same := congrArg List.length stripped.versions
  rw [List.length_map, List.length_map] at same
  exact same

theorem Stripped.looks (stripped : Stripped digest subject pseudonym log after) {j : Nat}
    (known : j ≤ log.edits.length) (key : K) (value : J) :
    lookIn after.states (fun i key => (log.origins digest i key).filter (keeps subject)) key value j =
      (lookIn log.states (log.origins digest) key value j).filter (keeps subject) := by
  have values := stripped.values j known key
  rw [DetailsLog.valueAt, DetailsLog.valueAt] at values
  simp only [lookIn, holds, values]
  cases origin : log.origins digest j key with
  | none => simp
  | some found =>
    by_cases same : (keysOf (stateAt log.states j)).get? key = some value
    next =>
      by_cases keep : keeps subject found = true
      next => simp [same, keep, Option.filter]
      next => simp [same, keep, Option.filter]
    next =>
      by_cases keep : keeps subject found = true
      next => simp [same, keep]
      next => simp [same, keep]

theorem Stripped.traced (stripped : Stripped digest subject pseudonym log after) :
    Traced digest after.edits after.states after.author fun i key =>
      (log.origins digest i key).filter (keeps subject) := by
  have traced := log.traced digest
  constructor
  · intro key
    have values := stripped.values 0 (Nat.zero_le _) key
    rw [DetailsLog.valueAt] at values
    rw [values, stripped.author, traced.zero]
    cases held : (keysOf (stateAt log.states 0)).get? key with
    | none => simp [DetailsLog.valueAt, held]
    | some value =>
      by_cases own : keeps subject ⟨some log.author, 1, 0, false⟩ = true
      next => simp [DetailsLog.valueAt, held, own, Option.filter]
      next => simp [own, Option.filter]
  · intro i edit' listed' key
    obtain ⟨edit, listed, writer, restored, byKey, version, actor⟩ := stripped.rows i edit' listed'
    have inside : i < log.edits.length := (List.getElem?_eq_some_iff.mp listed).1
    have values := stripped.values (i + 1) (by omega) key
    rw [DetailsLog.valueAt] at values
    rw [values]
    have here := traced.succ i edit listed key
    cases held : log.valueAt (i + 1) key with
    | none =>
      rw [DetailsLog.valueAt] at held
      rw [here, held]
      simp
    | some value =>
      have held' : (keysOf (stateAt log.states (i + 1))).get? key = some value := held
      rw [held', Option.map_some] at here
      rw [here]
      by_cases kept : keeps subject
          (attributeKey (lookIn log.states (log.origins digest) key value) edit i
            (lastKnown log.states i) (preOf digest log.edits edit i key)
            (carriesFirst log.states edit i) false) = true
      next =>
        have sameCarries : carriesFirst after.states edit' i = carriesFirst log.states edit i := by
          rw [carriesFirst, carriesFirst, writer, stripped.known]
        rw [Option.all_some, if_pos kept, Option.map_some, Option.filter_some, if_pos kept]
        rw [lastKnown_congr fun j _ => stripped.known j,
          preOf_congr stripped.versions writer restored byKey version, sameCarries]
        congr 1
        rw [← attributeKey_filter writer version kept]
        · apply attributeKey_congr
          · exact fun j at_ => lastKnown_le at_
          · exact fun j at_ => preOf_le at_
          · exact fun j below => (stripped.looks (show j ≤ _ by omega) key value).symm
        · intro own
          rw [actor, if_neg]
          intro same
          simp [keeps, same] at own
      next => simp [kept, Option.filter]

theorem Stripped.origins (stripped : Stripped digest subject pseudonym log after) {i : Nat}
    (known : i ≤ log.edits.length) (key : K) :
    after.origins digest i key = (log.origins digest i key).filter (keeps subject) := by
  have same := (after.traced digest).unique stripped.traced (i := i) (by rw [stripped.length]; exact known)
  exact congrFun same key

theorem Stripped.look (stripped : Stripped digest subject pseudonym log after) {j : Nat}
    (known : j ≤ log.edits.length) (key : K) (value : J) :
    lookIn after.states (after.origins digest) key value j =
      (lookIn log.states (log.origins digest) key value j).filter (keeps subject) := by
  rw [← stripped.looks known, lookIn, lookIn, stripped.origins known]

theorem Stripped.found (stripped : Stripped digest subject pseudonym log after) {j : Nat}
    (known : j ≤ log.edits.length) {key : K} {value : J} {origin : Origin}
    (there : log.valueAt j key = some value) (held : log.origins digest j key = some origin)
    (keep : keeps subject origin = true) :
    lookIn after.states (after.origins digest) key value j = some origin := by
  rw [stripped.look known, lookIn_value there, held, Option.filter_some, if_pos keep]

theorem Stripped.lost (stripped : Stripped digest subject pseudonym log after) {j : Nat}
    (known : j ≤ log.edits.length) {key : K} (value : J) {origin : Origin}
    (held : log.origins digest j key = some origin) (taken : origin.actor = some subject) :
    lookIn after.states (after.origins digest) key value j = none := by
  have gone : ¬ keeps subject origin = true := by simp [keeps, taken]
  rw [stripped.look known, lookIn, held]
  split
  next => rw [Option.filter_some, if_neg gone]
  next => rfl

end Stripping

structure Appends (log : DetailsLog K J G) (row : DetailsEdit K J G) (after : DetailsLog K J G) :
    Prop where
  author : after.author = log.author
  edits : after.edits = log.edits ++ [row]
  prior : row.state = some log.live

section Appending

variable {digest : K → G} {log after : DetailsLog K J G} {row : DetailsEdit K J G}

omit [DecidableEq J] [DecidableEq G] in
theorem Appends.states (appends : Appends log row after) :
    after.states = log.states ++ [some after.live] := by
  simp [DetailsLog.states, appends.edits, appends.prior]

omit [DecidableEq J] [DecidableEq G] in
theorem states_length (log : DetailsLog K J G) : log.states.length = log.edits.length + 1 := by
  simp [DetailsLog.states]

omit [DecidableEq J] [DecidableEq G] in
theorem Appends.stateAt (appends : Appends log row after) {i : Nat} (old : i ≤ log.edits.length) :
    stateAt after.states i = stateAt log.states i := by
  rw [Provenance.stateAt, Provenance.stateAt, appends.states, List.getElem?_append_left]
  rw [states_length]
  omega

omit [DecidableEq J] [DecidableEq G] in
theorem Appends.live (appends : Appends log row after) :
    Provenance.stateAt after.states (log.edits.length + 1) = some after.live := by
  rw [Provenance.stateAt, appends.states, List.getElem?_append_right (by rw [states_length]),
    states_length]
  simp

omit [DecidableEq J] [DecidableEq G] in
theorem stateAt_live (log : DetailsLog K J G) :
    Provenance.stateAt log.states log.edits.length = some log.live := by
  simp [Provenance.stateAt, DetailsLog.states]

theorem pre_append (versions : List Nat) (last version : Nat) {i : Nat}
    (inside : i ≤ versions.length) : pre (versions ++ [last]) version i = pre versions version i := by
  unfold pre bisectLeft
  rw [List.takeWhile_append]
  split
  next whole =>
    rw [List.length_append, whole]
    omega
  next => rfl

omit [DecidableEq J] in
theorem preOf_append {edits : List (DetailsEdit K J G)} {edit : DetailsEdit K J G} {i : Nat}
    (inside : i ≤ edits.length) (key : K) :
    preOf digest (edits ++ [row]) edit i key = preOf digest edits edit i key := by
  unfold preOf
  simp only [List.map_append, List.map_cons, List.map_nil]
  congr 1
  funext version
  exact pre_append _ _ _ (by rw [List.length_map]; exact inside)

theorem Appends.origins (appends : Appends log row after) {i : Nat}
    (old : i ≤ log.edits.length) : after.origins digest i = log.origins digest i := by
  induction i using Nat.strong_induction_on with
  | _ i ih =>
    funext key
    cases i with
    | zero =>
      rw [(after.traced digest).zero, (log.traced digest).zero, appends.stateAt old, appends.author]
    | succ i =>
      have listed : log.edits[i]? = some log.edits[i] := List.getElem?_eq_getElem (by omega)
      have listed' : after.edits[i]? = some log.edits[i] := by
        rw [appends.edits, List.getElem?_append_left (by omega), listed]
      have sameKnown : lastKnown after.states i = lastKnown log.states i :=
        lastKnown_congr fun j below => by rw [appends.stateAt (by omega)]
      have sameCarries : carriesFirst after.states log.edits[i] i =
          carriesFirst log.states log.edits[i] i := by
        rw [carriesFirst, carriesFirst, appends.stateAt (by omega)]
      rw [(after.traced digest).succ i _ listed', (log.traced digest).succ i _ listed,
        appends.stateAt old, sameKnown, sameCarries, appends.edits, preOf_append (by omega)]
      congr 1
      funext value
      apply attributeKey_congr
      · exact fun j at_ => lastKnown_le at_
      · exact fun j at_ => preOf_le at_
      · intro j below
        simp only [lookIn, ih j (by omega) (by omega), appends.stateAt (show j ≤ _ by omega)]

omit [DecidableEq J] [DecidableEq G] in
theorem lastKnown_live (log : DetailsLog K J G) :
    lastKnown log.states log.edits.length = some log.edits.length := by
  have live := stateAt_live log
  cases size : log.edits.length with
  | zero =>
    rw [size] at live
    simp [lastKnown, live]
  | succ n =>
    rw [size] at live
    simp [lastKnown, live]

theorem Appends.last (appends : Appends log row after) (key : K) :
    after.origins digest (log.edits.length + 1) key =
      ((keysOf (some after.live)).get? key).map fun value =>
        attributeKey (lookIn log.states (log.origins digest) key value) row log.edits.length
          (some log.edits.length) (preOf digest log.edits row log.edits.length key)
          (decide (row.writer = .erasure)) false := by
  have listed : after.edits[log.edits.length]? = some row := by
    rw [appends.edits]
    simp
  have keptKnown : lastKnown after.states log.edits.length =
      lastKnown log.states log.edits.length :=
    lastKnown_congr fun j below => by rw [appends.stateAt below]
  have sameKnown := keptKnown.trans (lastKnown_live log)
  have carries : carriesFirst after.states row log.edits.length =
      decide (row.writer = .erasure) := by
    rw [carriesFirst, appends.stateAt (Nat.le_refl _), stateAt_live]
    simp
  rw [(after.traced digest).succ _ _ listed, appends.live, sameKnown, carries, appends.edits,
    preOf_append (Nat.le_refl _)]
  congr 1
  funext value
  apply attributeKey_congr
  · exact fun j at_ => by cases at_; exact Nat.le_refl _
  · exact fun j at_ => preOf_le at_
  · intro j below
    simp only [lookIn, appends.origins below, appends.stateAt below]

end Appending

section Writes

variable (log : DetailsLog K J G) (actor : UserId) (stamp : Nat) (details : Details K J)

omit [DecidableEq J] [DecidableEq G]

def DetailsLog.apiRow : DetailsEdit K J G :=
  { memoryId := log.memoryId, version := log.version + 1, id := log.nextId, actorUserId := actor
    writer := .api, details := log.live }

def DetailsLog.putBackRow : DetailsEdit K J G :=
  { memoryId := log.memoryId, version := log.version + 1, id := log.nextId, actorUserId := actor
    writer := .rollback, details := log.live, restoredFrom := some stamp }

theorem apiEdit_cases [DecidableEq J] :
    apiEdit log actor details = log ∧ details = log.live ∨
      Appends log (log.apiRow actor) (apiEdit log actor details) ∧
        (apiEdit log actor details).live = details := by
  unfold apiEdit
  split
  next same => exact .inl ⟨rfl, same⟩
  next => exact .inr ⟨⟨rfl, rfl, rfl⟩, rfl⟩

theorem putBackDetails_cases [DecidableEq J] :
    putBackDetails log actor stamp details = log ∧ details = log.live ∨
      Appends log (log.putBackRow actor stamp) (putBackDetails log actor stamp details) ∧
        (putBackDetails log actor stamp details).live = details := by
  unfold putBackDetails
  split
  next same => exact .inl ⟨rfl, same⟩
  next => exact .inr ⟨⟨rfl, rfl, rfl⟩, rfl⟩

end Writes

end MemoryCloud.Provenance
