import MemoryCloud.SessionIndex.Indexed

set_option autoImplicit false

/-!
# Whom a session acts as

A session holds the accounts that signed in on it, and a switch goes to one of them only. A change works on
the record as it was read, so the writes of two changes may each undo the other's; neither brings in an
account that did not sign in.
-/

namespace MemoryCloud.SessionIndex

section Signed

def Updates.plain (updates : Updates) : Bool :=
  updates.userId.isNone && updates.sub.isNone && updates.accounts.isNone && updates.active.isNone

def Change.plain : Change → Bool
  | .update updates => updates.plain
  | _ => true

def Signed (signIns : List (Nat × String)) (session : Nat) (container : Container) : Prop :=
  ∀ account identity, container.accounts.get? account = some identity →
    (accountId identity).getD "" = account ∧ (session, account) ∈ signIns

def PendingSigned (signIns : List (Nat × String)) (session : Nat) : Pending → Prop
  | .reading read record => read = session → Signed signIns session (toContainer record)
  | .changing changed container change => changed = session → Signed signIns session container ∧
      usable container = true ∧ change.plain = true ∧
        ∀ entry ∈ signInOf session change, entry ∈ signIns
  | .indexing _ _ | .deleting _ _ | .dropping _ _ => True

structure SignedSound (session : Nat) (state : State) : Prop where
  stored : ∀ stored, state.sessions session = some stored →
    Signed state.signIns session (toContainer stored.record)
  pending : ∀ pending ∈ state.pending, PendingSigned state.signIns session pending

variable {settings : Settings} {state next : State} {signIns more : List (Nat × String)}
  {session : Nat} {container : Container}

theorem Signed.mono (signed : Signed signIns session container) (grows : signIns ⊆ more) :
    Signed more session container := by
  intro account identity found
  obtain ⟨own, listed⟩ := signed account identity found
  exact ⟨own, grows listed⟩

theorem PendingSigned.mono {pending : Pending} (signed : PendingSigned signIns session pending)
    (grows : signIns ⊆ more) : PendingSigned more session pending := by
  cases pending with
  | reading => exact fun same => (signed same).mono grows
  | changing =>
    intro same
    obtain ⟨accounts, fine, plain, own⟩ := signed same
    exact ⟨accounts.mono grows, fine, plain, fun entry listed => grows (own entry listed)⟩
  | indexing | deleting | dropping => trivial

theorem Signed.erase (signed : Signed signIns session container) {account active : String}
    {signedInAt provenAt : Dict String Nat} :
    Signed signIns session ⟨container.accounts.erase account, active, signedInAt, provenAt⟩ := by
  intro other identity found
  exact signed other identity (Dict.get?_of_erase found)

theorem projectActive_some {identity : Identity} (projected : projectActive container = some identity) :
    container.accounts.get? container.active = some identity ∧ (accountId identity).getD "" ≠ "" := by
  simpa [projectActive, Option.filter_eq_some_iff] using projected

theorem applyChange_signed {now : Nat} {change : Change} {after : Container}
    (signed : PendingSigned signIns session (.changing session container change))
    (applied : applyChange now container change = some after) : Signed signIns session after := by
  obtain ⟨accounts, fine, plain, own⟩ := signed rfl
  cases change with
  | add identity provenAt =>
    cases applied
    intro account held found
    rw [Dict.get?_set] at found
    split at found
    next same =>
      cases found
      exact ⟨same.symm, same ▸ own _ (.head _)⟩
    next => exact accounts account held found
  | switch account =>
    simp only [applyChange] at applied
    split at applied <;> cases applied
    exact accounts
  | remove account =>
    simp only [applyChange] at applied
    split at applied
    next =>
      obtain ⟨first, _, rfl⟩ := Option.map_eq_some_iff.mp applied
      exact accounts.erase
    next =>
      cases applied
      exact accounts.erase
  | update updates =>
    -- The identity of the active account is written back as it was read.
    simp only [Change.plain, Updates.plain, Bool.and_eq_true, Option.isNone_iff_eq_none] at plain
    obtain ⟨⟨⟨userId, sub⟩, others⟩, _⟩ := plain
    obtain ⟨identity, projected⟩ := Option.isSome_iff_exists.mp fine
    have active := (projectActive_some projected).1
    cases applied
    intro account held found
    rw [active, others, Dict.get?_set] at found
    split at found
    next same =>
      have kept : updates.onIdentity identity = identity := by
        rw [Updates.onIdentity, userId, sub]
        rfl
      rw [Option.getD_some, kept] at found
      cases found
      exact same ▸ accounts container.active identity active
    next => exact accounts account held found

theorem SignedSound.same (sound : SignedSound session state) (same : SameRecords state next) :
    SignedSound session next where
  stored := by
    rw [same.sessions, same.signIns]
    exact sound.stored
  pending := by
    rw [same.pending, same.signIns]
    exact sound.pending

theorem SignedSound.write (sound : SignedSound session state) {written : Nat}
    (signed : written = session → Signed state.signIns session container) :
    SignedSound session (state.write settings written container) where
  stored stored found := by
    rw [write_stored] at found
    split at found
    next same =>
      cases found
      exact signed same.symm
    next => exact sound.stored stored found
  pending := sound.pending

theorem SignedSound.putPending (sound : SignedSound session state) (index : Nat) {pending : Pending}
    (signed : PendingSigned state.signIns session pending) :
    SignedSound session (state.putPending index pending) where
  stored := sound.stored
  pending other listed := by
    rcases List.mem_or_eq_of_mem_set listed with old | same
    next => exact sound.pending other old
    next => exact same ▸ signed

theorem SignedSound.endPending (sound : SignedSound session state) (index : Nat) :
    SignedSound session (state.endPending index) where
  stored := sound.stored
  pending other listed := sound.pending other (List.mem_of_mem_eraseIdx listed)

theorem SignedSound.addPending (sound : SignedSound session state) (pending : Pending)
    (grows : state.signIns ⊆ more) (signed : PendingSigned more session pending) :
    SignedSound session { state with pending := state.pending ++ [pending], signIns := more } where
  stored stored found := (sound.stored stored found).mono grows
  pending other listed := by
    rcases List.mem_append.mp listed with old | new
    next => exact (sound.pending other old).mono grows
    next => exact List.mem_singleton.mp new ▸ signed

end Signed

section Steps

variable {settings : Settings} {state next : State} {session : Nat}

theorem create_signed (sound : SignedSound session state) (identity : Identity)
    (provenAt : Option Nat) :
    SignedSound session (createSession settings state identity provenAt) := by
  have grows := List.subset_cons_self (state.created, (accountId identity).getD "") state.signIns
  have opened : SignedSound session { state with
      created := state.created + 1
      signIns := (state.created, (accountId identity).getD "") :: state.signIns } := {
    stored := fun stored found => (sound.stored stored found).mono grows
    pending := fun pending listed => (sound.pending pending listed).mono grows }
  refine (opened.write ?_).same queueIndex_same
  intro same account held found
  rw [Dict.get?_set, Dict.get?_empty] at found
  split at found <;> cases found
  next own => exact ⟨own.symm, own ▸ same ▸ .head _⟩

theorem writeChange_signed (sound : SignedSound session state) {changed : Nat} {after : Container}
    (signed : changed = session → Signed state.signIns session after) (index : Nat)
    (before : Container) :
    SignedSound session (writeChange settings state index changed before after) := by
  unfold writeChange
  split
  next =>
    refine SignedSound.endPending ?_ index
    exact ((sound.write signed).same queueIndex_same).same removeAll_same
  next =>
    refine SignedSound.putPending ?_ index trivial
    exact (sound.same queueIndex_same).same removeAll_same

theorem renewRead_signed (sound : SignedSound session state) {read : Nat} {record : Record}
    (signed : read = session → Signed state.signIns session (toContainer record)) (index : Nat) :
    SignedSound session (renewRead settings state index read record) := by
  unfold renewRead
  split
  next => exact sound.putPending index trivial
  next stored live =>
    split
    next => exact (sound.write signed).putPending index trivial
    next =>
      have renewed : SignedSound session (state.renew settings read stored) := {
        stored := by
          intro later found
          rw [renew_stored] at found
          split at found
          next same =>
            cases found
            exact sound.stored stored (same ▸ (session?_some.mp live).1)
          next => exact sound.stored later found
        pending := sound.pending }
      exact renewed.putPending index trivial

theorem deleteAll_signed {keys : List Nat} (sound : SignedSound session state) :
    SignedSound session (keys.foldl State.delete state) := by
  induction keys generalizing state with
  | nil => exact sound
  | cons key rest ih =>
    refine ih ⟨?_, sound.pending⟩
    intro stored found
    rw [delete_stored] at found
    split at found
    next => cases found
    next => exact sound.stored stored found

def PlainUpdates (session : Nat) (action : Action) : Prop :=
  ∀ change, action = .startChange session change → change.plain = true

theorem step_signed {action : Action} (sound : SignedSound session state)
    (plain : PlainUpdates session action) (taken : step settings state action = some next) :
    SignedSound session next := by
  cases action with
  | advance | sweep =>
    cases taken
    exact ⟨sound.stored, sound.pending⟩
  | create identity provenAt =>
    cases taken
    exact create_signed sound identity provenAt
  | read read =>
    simp only [step] at taken
    split at taken
    next => cases taken
    next stored live =>
      split at taken <;> cases taken
      refine sound.addPending (.reading read stored.record) (List.Subset.refl _) ?_
      exact fun same => sound.stored stored (same ▸ (session?_some.mp live).1)
  | renew index =>
    simp only [step] at taken
    split at taken
    next read record found =>
      cases taken
      exact renewRead_signed sound (sound.pending _ (List.mem_of_getElem? found)) index
    next => cases taken
  | indexNext index refused =>
    simp only [step] at taken
    split at taken
    next read command rest found =>
      cases taken
      split
      next => exact sound.putPending index trivial
      next =>
        have indexed : SignedSound session (state.index settings read command) :=
          sound.same index_same
        exact indexed.putPending index trivial
    next => cases taken
  | startChange changed change =>
    simp only [step] at taken
    split at taken
    next => cases taken
    next stored live =>
      split at taken <;> cases taken
      next fine =>
        have grows := List.subset_append_right (signInOf changed change) state.signIns
        refine sound.addPending (.changing changed (toContainer stored.record) change) grows ?_
        rintro rfl
        refine ⟨?_, (Bool.and_eq_true_iff.mp fine).1, plain change rfl, ?_⟩
        next => exact (sound.stored stored (session?_some.mp live).1).mono grows
        next => exact fun entry listed => List.mem_append_left _ listed
  | writeChange index =>
    simp only [step] at taken
    split at taken
    next changed container change found =>
      obtain ⟨after, applied, rfl⟩ := Option.map_eq_some_iff.mp taken
      have signed := sound.pending _ (List.mem_of_getElem? found)
      refine writeChange_signed sound ?_ index container
      rintro rfl
      exact applyChange_signed signed applied
    next => cases taken
  | startDelete deleted =>
    cases taken
    exact sound.addPending (.deleting deleted _) (List.Subset.refl _) trivial
  | delete index =>
    simp only [step] at taken
    split at taken
    next gone found _ =>
      cases taken
      have deleted : SignedSound session ([gone].foldl State.delete state) := deleteAll_signed sound
      exact deleted.putPending index trivial
    next => cases taken
  | dropNext index =>
    simp only [step] at taken
    split at taken
    next dropped id rest _ =>
      cases taken
      have removed : SignedSound session (state.removeAll [(dropped, id)]) := sound.same removeAll_same
      exact removed.putPending index trivial
    next => cases taken
  | examine index =>
    simp only [step] at taken
    split at taken
    next => cases taken
    next =>
      obtain ⟨_, _, rfl⟩ := Option.map_eq_some_iff.mp taken
      exact ⟨sound.stored, sound.pending⟩
  | finish index =>
    simp only [step] at taken
    split at taken
    next => cases taken
    next sweep _ =>
      split at taken <;> cases taken
      have cleared : SignedSound session
          ((sweep.keys.foldl State.delete state).removeAll sweep.dropped) :=
        (deleteAll_signed sound).same removeAll_same
      exact ⟨cleared.stored, cleared.pending⟩

-- Whatever changes of a session overlap, the id that the routes read of it is one that signed in on
-- it.
theorem acting_account_signed_in (settings : Settings) (begin_ state : State) (session : Nat)
    (quiet : begin_.pending = [])
    (signed : ∀ stored, begin_.sessions session = some stored →
      Signed begin_.signIns session (toContainer stored.record))
    (reached : Runs.Reaches (step settings) (fun _ action => PlainUpdates session action) begin_ state)
    (stored : Stored) (live : state.session? session = some stored) (identity : Identity)
    (projected : projectActive (toContainer stored.record) = some identity) :
    ∃ account, accountId identity = some account ∧ (session, account) ∈ state.signIns := by
  have start : SignedSound session begin_ := by
    refine ⟨signed, ?_⟩
    rw [quiet]
    exact nofun
  have sound : SignedSound session state := by
    refine reached.invariant _ start ?_
    intro _ _ _ sound plain taken
    exact step_signed sound plain taken
  obtain ⟨found, named⟩ := projectActive_some projected
  obtain ⟨own, listed⟩ := sound.stored stored (session?_some.mp live).1 _ identity found
  cases id : accountId identity with
  | none => exact absurd (by rw [id]; rfl) named
  | some account =>
    rw [id, Option.getD_some] at own
    exact ⟨account, rfl, own ▸ listed⟩

-- A session from before the containers, on which `b` signs in while `a` is asked for twice.
def crossed : List Action :=
  [.startChange 0 (.switch "a"), .startChange 0 (.add { userId := some "b" } none), .writeChange 1,
    .writeChange 0, .startChange 0 (.add { userId := some "b" } (some 3)), .writeChange 0,
    .startChange 0 (.update {}), .writeChange 0]

def flatSession : State := {
  now := 10
  sessions := fun session => if session = 0 then some ⟨.flat { sub := some "a" }, 20⟩ else none
  sets := fun _ => none
  marker := none
  created := 1
  signIns := [(0, "a")] }

def plainUpdates (session : Nat) : Action → Bool
  | .startChange changed change => changed != session || change.plain
  | _ => true

theorem plainUpdates_sound {action : Action} (checked : plainUpdates session action = true) :
    PlainUpdates session action := by
  rintro change rfl
  simpa [plainUpdates] using checked

theorem acting_account_signed_in_crossed :
    ∃ (state : State) (stored : Stored), state.session? 0 = some stored ∧
      projectActive (toContainer stored.record) = some { userId := some "b" } ∧
        (0, "b") ∈ state.signIns := by
  have seen : (Runs.run (Runs.checked (step ⟨10, 5⟩) fun _ => plainUpdates 0) flatSession crossed).map
      (fun state => (state.session? 0).map fun stored =>
        projectActive (toContainer stored.record)) = some (some (some { userId := some "b" })) := by
    decide +kernel
  obtain ⟨state, reached, view⟩ :=
    Runs.Reaches.of_run _ (Runs.allowed_of_always (fun _ _ => trivial) _ _) seen
  have guarded : Runs.Reaches (step ⟨10, 5⟩) (fun _ action => PlainUpdates 0 action) flatSession state :=
    .of_checked (fun _ _ => plainUpdates_sound) reached
  obtain ⟨stored, live, projected⟩ := Option.map_eq_some_iff.mp view
  have signed : ∀ stored, flatSession.sessions 0 = some stored →
      Signed flatSession.signIns 0 (toContainer stored.record) := by
    intro stored found account identity held
    cases found
    simp only [toContainer, Dict.get?_set, Dict.get?_empty] at held
    split at held <;> cases held
    next own => exact ⟨own.symm, own ▸ .head _⟩
  obtain ⟨account, named, own⟩ :=
    acting_account_signed_in _ flatSession state 0 rfl signed guarded stored live _ projected
  cases named
  exact ⟨state, stored, live, projected, own⟩

end Steps

end MemoryCloud.SessionIndex
