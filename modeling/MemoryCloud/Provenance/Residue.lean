import MemoryCloud.Provenance.Erasure

set_option autoImplicit false

/-!
# What is left of an erased member

After an erasure no state of the log holds a key that replay gives to the subject, under
either name, and a second plan under the pseudonym has nothing to do.
-/

namespace MemoryCloud.Provenance

open Versions

variable {K J G : Type} [LinearOrder K] [DecidableEq J] [DecidableEq G]

def stripWhole (edit : DetailsEdit K J G) : DetailsEdit K J G :=
  { edit with details := none, erased := true }

-- The authored arm: every prior is stripped whole and the live details are NULLed.
def scrubAuthored (log : DetailsLog K J G) (pseudonym : UserId) : DetailsLog K J G :=
  { pseudonymizeRevisionActor
      (log.rewrite stripWhole (fun _ => rfl) (fun _ => rfl) (fun _ => rfl) (fun _ => rfl))
      log.author pseudonym with
    author := pseudonym
    live := none }

def Unattributed (digest : K → G) (log : DetailsLog K J G) (user : UserId) : Prop :=
  ∀ i ≤ log.edits.length, ∀ key origin, log.origins digest i key = some origin →
    origin.actor ≠ some user

-- The logs of memories nobody edits under the pseudonym. The log at the start is any log in which
-- the pseudonym wrote nothing yet, whichever of its states are stripped whole.
inductive Reached (digest : K → G) (pseudonym : UserId) : DetailsLog K J G → Prop
  | start {log : DetailsLog K J G} (author : log.author ≠ pseudonym)
      (rows : ∀ edit ∈ log.edits, edit.putBack = false → edit.actorUserId ≠ pseudonym) :
      Reached digest pseudonym log
  | api {log : DetailsLog K J G} (reached : Reached digest pseudonym log) (actor : UserId)
      (details : Details K J) (member : actor ≠ pseudonym) :
      Reached digest pseudonym (apiEdit log actor details)
  | other {log : DetailsLog K J G} (reached : Reached digest pseudonym log) :
      Reached digest pseudonym (otherEdit log)
  | putBack {log : DetailsLog K J G} (reached : Reached digest pseudonym log) (actor : UserId)
      (stamp : Nat) (details : Details K J) :
      Reached digest pseudonym (putBackDetails log actor stamp details)
  | erased {log : DetailsLog K J G} (reached : Reached digest pseudonym log)
      (subject name : UserId) (erasedActors : List UserId) (notAuthor : log.author ≠ subject) :
      Reached digest pseudonym (eraseSubjectDetails digest log subject name erasedActors)
  | scrubbed {log : DetailsLog K J G} (reached : Reached digest pseudonym log) (name : UserId)
      (other : name ≠ pseudonym) : Reached digest pseudonym (scrubAuthored log name)

section Steps

variable {digest : K → G} {log after : DetailsLog K J G} {row : DetailsEdit K J G} {user : UserId}

theorem Appends.unattributed (appends : Appends log row after)
    (old : Unattributed digest log user) (new : row.putBack = false → row.actorUserId ≠ user) :
    Unattributed digest after user := by
  intro i known key origin held
  have size : after.edits.length = log.edits.length + 1 := by simp [appends.edits]
  rcases Nat.lt_or_eq_of_le known with below | last
  next =>
    rw [appends.origins (by omega)] at held
    exact old i (by omega) key origin held
  next =>
    rw [last, size, appends.last] at held
    obtain ⟨value, _, rfl⟩ := Option.map_eq_some_iff.mp held
    have lastBound : ∀ j ∈ some log.edits.length, j ≤ log.edits.length := by
      intro j is
      cases is
      exact Nat.le_refl _
    have preBound : ∀ j ∈ preOf digest log.edits row log.edits.length key,
        j ≤ log.edits.length := fun j at_ => preOf_le at_
    rcases attributeKey_from (lookIn log.states (log.origins digest) key value) row
        (decide (row.writer = .erasure)) lastBound preBound with
      ⟨j, low, looked⟩ | ⟨api, is⟩ | ⟨_, is⟩
    next =>
      rw [lookIn] at looked
      split at looked
      next => exact old j low key _ looked
      next => cases looked
    next =>
      rw [is]
      exact fun same => new api (Option.some.inj same)
    next =>
      rw [is]
      exact fun same => by cases same

theorem Stripped.unattributed {subject pseudonym : UserId}
    (stripped : Stripped digest subject pseudonym log after)
    (old : user = subject ∨ Unattributed digest log user) : Unattributed digest after user := by
  intro i known key origin held
  rw [stripped.length] at known
  rw [stripped.origins known, Option.filter_eq_some_iff] at held
  rcases old with isSubject | old
  next =>
    rw [isSubject]
    simpa [keeps] using held.2
  next => exact old i known key origin held.1

theorem erase_unattributed {subject pseudonym : UserId} (notAuthor : log.author ≠ subject)
    (erasedActors : List UserId) (old : user = subject ∨ Unattributed digest log user) :
    Unattributed digest (eraseSubjectDetails digest log subject pseudonym erasedActors) user := by
  have cleaned : Unattributed digest
      (log.cleaned digest subject pseudonym (subject :: erasedActors)) user :=
    cleaned_stripped.unattributed old
  rcases erase_cases digest pseudonym notAuthor erasedActors with
    ⟨_, _, is⟩ | ⟨revert, _, _, appends, _⟩
  next =>
    rw [is]
    exact cleaned
  next => exact appends.unattributed cleaned fun api => by cases api

theorem unattributed_of_rows (author : log.author ≠ user)
    (rows : ∀ edit ∈ log.edits, edit.putBack = false → edit.actorUserId ≠ user) :
    Unattributed digest log user := by
  intro i known key origin held named
  have names := origin_names known held
  cases place : origin.state with
  | zero =>
    rw [names.first place] at named
    exact author (Option.some.inj named)
  | succ s =>
    obtain ⟨edit, listed, ⟨api, actor⟩ | nobody⟩ := names.later s place
    next =>
      rw [actor] at named
      exact rows edit (List.mem_of_getElem? listed) api (Option.some.inj named)
    next =>
      rw [nobody] at named
      cases named

theorem scrubbed_unattributed (name : UserId) :
    Unattributed digest (scrubAuthored log name) user := by
  intro i known key origin held
  have exists_ : ((scrubAuthored log name).origins digest i key).isSome =
      ((scrubAuthored log name).valueAt i key).isSome :=
    origin_exists known key
  rcases Nat.lt_or_eq_of_le known with row | live
  next =>
    have listed := List.getElem?_eq_getElem row
    have gone : stateAt (scrubAuthored log name).states i = none := by
      rw [stateAt_row listed]
      simp [scrubAuthored, pseudonymizeRevisionActor, DetailsLog.rewrite, renameActor, stripWhole,
        DetailsEdit.state]
    rw [held, DetailsLog.valueAt, gone] at exists_
    cases exists_
  next =>
    rw [held, DetailsLog.valueAt, live, stateAt_live] at exists_
    cases exists_

end Steps

section Runs

variable {digest : K → G} {log : DetailsLog K J G} {subject pseudonym : UserId}

theorem Reached.author (reached : Reached digest pseudonym log) : log.author ≠ pseudonym := by
  induction reached with
  | start author rows => exact author
  | @api log reached actor details member ih =>
    rcases apiEdit_cases log actor details with ⟨is, _⟩ | ⟨appends, _⟩
    next =>
      rw [is]
      exact ih
    next =>
      rw [appends.author]
      exact ih
  | other reached ih => exact ih
  | @putBack log reached actor stamp details ih =>
    rcases putBackDetails_cases log actor stamp details with ⟨is, _⟩ | ⟨appends, _⟩
    next =>
      rw [is]
      exact ih
    next =>
      rw [appends.author]
      exact ih
  | erased reached subject name erasedActors notAuthor ih =>
    rw [erase_author digest name notAuthor]
    exact ih
  | scrubbed reached name other ih => exact other

theorem Reached.unattributed (reached : Reached digest pseudonym log) :
    Unattributed digest log pseudonym := by
  induction reached with
  | start author rows => exact unattributed_of_rows author rows
  | @api log reached actor details member ih =>
    rcases apiEdit_cases log actor details with ⟨is, _⟩ | ⟨appends, _⟩
    next =>
      rw [is]
      exact ih
    next => exact appends.unattributed ih fun _ => member
  | other reached ih => exact ih
  | @putBack log reached actor stamp details ih =>
    rcases putBackDetails_cases log actor stamp details with ⟨is, _⟩ | ⟨appends, _⟩
    next =>
      rw [is]
      exact ih
    next => exact appends.unattributed ih fun api => by cases api
  | erased reached subject name erasedActors notAuthor ih =>
    exact erase_unattributed notAuthor erasedActors (.inr ih)
  | scrubbed reached name other ih => exact scrubbed_unattributed name

-- A member nothing is attributed to has nothing to revert and nothing to strip.
theorem planErasure_nothing (notAuthor : log.author ≠ subject)
    (nothing : Unattributed digest log subject) (erasedActors : List UserId) :
    (planErasure digest log subject erasedActors).reverts = [] ∧
      (planErasure digest log subject erasedActors).strips = [] := by
  have written : ∀ i ≤ log.edits.length,
      log.written digest subject (subject :: erasedActors) i = [] := by
    intro i known
    rw [List.eq_nil_iff_forall_not_mem]
    intro key listed
    obtain ⟨origin, held, own⟩ := (mem_written _ known).mp listed
    exact nothing i known key origin held own
  obtain ⟨reverts, strips⟩ := planErasure_eq digest notAuthor erasedActors
  constructor
  next =>
    rw [reverts, planRevert_none (written _ (Nat.le_refl _))]
    rfl
  next =>
    rw [strips, List.eq_nil_iff_forall_not_mem]
    intro strip planned
    obtain ⟨i, edit, listed, some_, _⟩ := mem_planStrips.mp planned
    exact some_ (written i (Nat.le_of_lt (List.getElem?_eq_some_iff.mp listed).1))

theorem erasure_leaves_nothing (reached : Reached digest pseudonym log)
    (notAuthor : log.author ≠ subject) (erasedActors : List UserId) :
    let after := eraseSubjectDetails digest log subject pseudonym erasedActors
    (∀ (reader : UserId) (erased : List UserId) (i : Nat) (key : K) (origin : Origin),
      originIn (replay digest after.edits after.live after.author reader erased).writers i key =
        some origin → origin.actor ≠ some subject ∧ origin.actor ≠ some pseudonym) ∧
    ∀ others : List UserId, (planErasure digest after pseudonym others).reverts = [] ∧
      (planErasure digest after pseudonym others).strips = [] := by
  intro after
  have noSubject : Unattributed digest after subject :=
    erase_unattributed notAuthor erasedActors (.inl rfl)
  have noPseudonym : Unattributed digest after pseudonym :=
    erase_unattributed notAuthor erasedActors (.inr reached.unattributed)
  have author : after.author ≠ pseudonym := by
    rw [erase_author digest pseudonym notAuthor]
    exact reached.author
  constructor
  next =>
    intro reader erased i key origin held
    have known : i ≤ after.edits.length := originIn_bound held
    have plain : after.origins digest i key = some origin.plain := by
      rw [← origin_plain reader erased known, held]
      rfl
    exact ⟨noSubject i known key origin.plain plain, noPseudonym i known key origin.plain plain⟩
  next => exact planErasure_nothing author noPseudonym

end Runs

def oneKey (value : Nat) : Doc Nat Nat := ⟨[(1, value)], List.pairwise_singleton _ _⟩

def twoKeys (first second : Nat) : Doc Nat Nat := ⟨[(1, first), (2, second)], by simp⟩

-- Member 1 creates, 2 rewrites the first key and 3 adds the second.
def twoEditors : DetailsLog Nat Nat Nat :=
  apiEdit (apiEdit (DetailsLog.created 1 1 (some (oneKey 10))) 2 (some (oneKey 20))) 3
    (some (twoKeys 20 5))

theorem twoEditors_reached : Reached id 9 twoEditors :=
  .api (.api (.start (by decide) (by simp [DetailsLog.created])) 2 _ (by decide)) 3 _ (by decide)

theorem erasure_leaves_nothing_twoEditors :
    (planErasure id twoEditors 2 []).reverts.length = 1 ∧
      (planErasure id twoEditors 2 []).strips.length = 1 ∧
      (planErasure id (eraseSubjectDetails id twoEditors 2 9 []) 9 []).reverts = [] ∧
      (planErasure id (eraseSubjectDetails id twoEditors 2 9 []) 9 []).strips = [] :=
  ⟨by decide, by decide,
    (erasure_leaves_nothing twoEditors_reached (by decide) []).2 []⟩

end MemoryCloud.Provenance
