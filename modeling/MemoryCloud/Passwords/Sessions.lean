import MemoryCloud.Passwords.Links

set_option autoImplicit false

/-!
# The sessions that a password authorizes

A password write sweeps the sessions before it commits, and holds the row meanwhile: a sign-in that read
the old password passes its re-check before the sweep or not at all. The sweep of a sign-in lands only
while the fence names it.
-/

namespace MemoryCloud.Passwords

section Authorized

variable {H : Type} {state next : State H}

def Live (state : State H) (index : Nat) (signIn : SignIn H) : Prop :=
  state.signIns[index]? = some signIn ∧ passed signIn.phase = true ∧
    Session.signIn index ∈ state.sessions

structure SessionsSound (state : State H) : Prop where
  current : ∀ index signIn, Live state index signIn →
    state.account.passwordHash = some signIn.fingerprint.1 ∨ .signIn index ∈ state.spared
  read : ∀ write candidates, state.write = some write → write.candidates = some candidates →
    ∀ index signIn, Live state index signIn →
      .signIn index ∈ candidates ∨ write.keep = some (.signIn index)
  swept : ∀ write, state.write = some write → write.swept = true →
    ∀ index signIn, Live state index signIn → write.keep = some (.signIn index)

structure Fewer (state next : State H) : Prop where
  passwordHash : next.account.passwordHash = state.account.passwordHash
  write : next.write = state.write
  spared : next.spared = state.spared
  live : ∀ index signIn, Live next index signIn →
    ∃ before, Live state index before ∧ before.fingerprint = signIn.fingerprint

theorem SessionsSound.fewer (sound : SessionsSound state) (fewer : Fewer state next) :
    SessionsSound next where
  current index signIn live := by
    obtain ⟨before, there, same⟩ := fewer.live index signIn live
    rw [fewer.passwordHash, fewer.spared, ← same]
    exact sound.current index before there
  read write candidates opened listed index signIn live := by
    obtain ⟨before, there, _⟩ := fewer.live index signIn live
    exact sound.read write candidates (fewer.write ▸ opened) listed index before there
  swept write opened done index signIn live := by
    obtain ⟨before, there, _⟩ := fewer.live index signIn live
    exact sound.swept write (fewer.write ▸ opened) done index before there

theorem live_of_subset (signIns : next.signIns = state.signIns)
    (sessions : ∀ index, .signIn index ∈ next.sessions → .signIn index ∈ state.sessions)
    (index : Nat) (signIn : SignIn H) (live : Live next index signIn) : Live state index signIn :=
  ⟨signIns ▸ live.1, live.2.1, sessions index live.2.2⟩

theorem fewer_of_subset (passwordHash : next.account.passwordHash = state.account.passwordHash)
    (write : next.write = state.write) (spared : next.spared = state.spared)
    (signIns : next.signIns = state.signIns)
    (sessions : ∀ index, .signIn index ∈ next.sessions → .signIn index ∈ state.sessions) :
    Fewer state next :=
  ⟨passwordHash, write, spared, fun index signIn live =>
    ⟨signIn, live_of_subset signIns sessions index signIn live, rfl⟩⟩

theorem fewer_of_put {index : Nat} {signIn moved : SignIn H}
    (found : state.signIns[index]? = some signIn)
    (passwordHash : next.account.passwordHash = state.account.passwordHash)
    (write : next.write = state.write) (spared : next.spared = state.spared)
    (signIns : next.signIns = state.signIns.set index moved)
    (fingerprint : moved.fingerprint = signIn.fingerprint)
    (onlyPassed : passed moved.phase = true → passed signIn.phase = true)
    (sessions : ∀ other, .signIn other ∈ next.sessions →
      .signIn other ∈ state.sessions ∨ other = index ∧ passed moved.phase = false) :
    Fewer state next := by
  refine ⟨passwordHash, write, spared, ?_⟩
  rintro other signIn' ⟨there, through, alive⟩
  rw [signIns, List.getElem?_set] at there
  split at there
  next same =>
    subst same
    split at there
    next =>
      cases there
      rcases sessions _ alive with alive | ⟨_, not⟩
      next => exact ⟨signIn, ⟨found, onlyPassed through, alive⟩, fingerprint.symm⟩
      next => cases through.symm.trans not
    next => cases there
  next apart =>
    rcases sessions _ alive with alive | ⟨same, _⟩
    next => exact ⟨signIn', ⟨there, through, alive⟩, rfl⟩
    next => exact absurd same.symm apart

theorem SessionsSound.opened (sound : SessionsSound state)
    (passwordHash : next.account.passwordHash = state.account.passwordHash)
    (spared : next.spared = state.spared) (signIns : next.signIns = state.signIns)
    (sessions : next.sessions = state.sessions)
    (fresh : ∀ write, next.write = some write → write.candidates = none ∧ write.swept = false) :
    SessionsSound next where
  current index signIn live := by
    rw [passwordHash, spared]
    exact sound.current index signIn
      (live_of_subset signIns (fun _ alive => sessions ▸ alive) index signIn live)
  read write candidates opened listed := by cases (fresh write opened).1.symm.trans listed
  swept write opened done := by cases (fresh write opened).2.symm.trans done

theorem openLink_opened {settings : Settings} {purpose : Purpose} {raw : String} {passwordHash : H}
    {keep : Option Session} (sound : SessionsSound state)
    (taken : openLink settings state purpose raw passwordHash keep = some next) :
    SessionsSound next := by
  unfold openLink at taken
  split at taken
  next => cases taken
  next =>
    split at taken
    next =>
      cases taken
      exact sound
    next =>
      split at taken
      next => cases taken
      next =>
        split at taken <;> cases taken
        next => exact sound.fewer (fewer_of_subset rfl rfl rfl rfl fun _ => id)
        next => exact sound.opened rfl rfl rfl rfl fun _ found => Option.some.inj found ▸ ⟨rfl, rfl⟩

theorem openOwn_opened {passwordHash : Option H} {keep : Option Session} (sound : SessionsSound state)
    (taken : openOwn state passwordHash keep = some next) : SessionsSound next := by
  unfold openOwn at taken
  split at taken <;> cases taken
  exact sound.opened rfl rfl rfl rfl fun _ found => Option.some.inj found ▸ ⟨rfl, rfl⟩

theorem readSessions_sound (sound : SessionsSound state) {write : Write H}
    (opened : state.write = some write) :
    SessionsSound { state with write := some { write with
      candidates := some (state.sessions.filter fun session => write.keep ≠ some session) } } where
  current := sound.current
  read write' candidates found listed index signIn live := by
    cases found
    cases listed
    by_cases kept : write.keep = some (.signIn index)
    next => exact .inr kept
    next => exact .inl (List.mem_filter.mpr ⟨live.2.2, decide_eq_true kept⟩)
  swept write' found done index signIn live := by
    cases found
    exact sound.swept write opened done index signIn live

theorem deleteSessions_sound (sound : SessionsSound state) {write : Write H}
    {candidates : List Session} (opened : state.write = some write)
    (listed : write.candidates = some candidates) :
    SessionsSound { state with
      write := some { write with swept := true }
      sessions := state.sessions.filter fun session => !candidates.contains session
      ended := candidates ++ state.ended } := by
  have before : ∀ index signIn, Live { state with
      write := some { write with swept := true }
      sessions := state.sessions.filter fun session => !candidates.contains session
      ended := candidates ++ state.ended } index signIn →
        Live state index signIn ∧ write.keep = some (.signIn index) := by
    intro index signIn ⟨found, through, alive⟩
    obtain ⟨alive, spared⟩ := List.mem_filter.mp alive
    have live : Live state index signIn := ⟨found, through, alive⟩
    rcases sound.read write candidates opened listed index signIn live with deleted | kept
    next => simp [deleted] at spared
    next => exact ⟨live, kept⟩
  constructor
  next => exact fun index signIn live => sound.current index signIn (before index signIn live).1
  next =>
    intro write' candidates' found _ index signIn live
    cases found
    exact .inr (before index signIn live).2
  next =>
    intro write' found _ index signIn live
    cases found
    exact (before index signIn live).2

theorem commit_sessions (sound : SessionsSound state) {write : Write H}
    (opened : state.write = some write) (done : write.swept = true) :
    SessionsSound (commit state write) where
  current index signIn live := by
    have kept := sound.swept write opened done index signIn live
    exact .inr (List.mem_append_left _ (by simp [kept]))
  read _ _ found := nomatch found
  swept _ found := nomatch found

theorem verify_fewer {fingerprint : Fingerprint H} :
    Fewer state { state with signIns := state.signIns ++ [{ fingerprint }] } := by
  refine ⟨rfl, rfl, rfl, ?_⟩
  intro index signIn ⟨found, through, alive⟩
  rw [List.getElem?_append] at found
  split at found
  next => exact ⟨signIn, ⟨found, through, alive⟩, rfl⟩
  next =>
    rw [List.getElem?_singleton] at found
    split at found <;> cases found
    cases through

theorem recheck_sound (sound : SessionsSound state) {index : Nat} {signIn : SignIn H}
    (free : state.write = none) (same : fingerprint state.account = some signIn.fingerprint) :
    SessionsSound (state.put index { signIn with phase := .rechecked }) where
  current other signIn' live := by
    obtain ⟨found, through, alive⟩ := live
    rw [State.put, List.getElem?_set] at found
    split at found
    next =>
      split at found <;> cases found
      left
      obtain ⟨passwordHash, there, pair⟩ := Option.map_eq_some_iff.mp same
      rw [← pair]
      exact there
    next => exact sound.current other signIn' ⟨found, through, alive⟩
  read _ _ found := by cases free.symm.trans found
  swept _ found := by cases free.symm.trans found

theorem Moved.sessions {index : Nat} {signIn : SignIn H} (sound : SessionsSound state)
    (found : state.signIns[index]? = some signIn) (moved : Moved state index signIn next) :
    SessionsSound next := by
  cases moved with
  | rechecked opened free current => exact recheck_sound sound free current
  | refused =>
    exact sound.fewer (fewer_of_put found rfl rfl rfl rfl rfl nofun
      fun _ alive => .inl (List.mem_of_mem_filter alive))
  | swept candidates read fenced =>
    exact sound.fewer (fewer_of_put found rfl rfl rfl rfl rfl (fun _ => by rw [read]; rfl)
      fun _ alive => .inl (List.mem_of_mem_filter alive))
  | locked before | named before | read before | answered before =>
    exact sound.fewer (fewer_of_put found rfl rfl rfl rfl rfl (fun _ => by rw [before]; rfl)
      fun _ alive => .inl alive)

end Authorized

section Steps

variable {H : Type} [DecidableEq H] {settings : Settings} {state next : State H}

omit [DecidableEq H] in
theorem issue_fewer {request : LinkRequest} {raw : String}
    (taken : issue settings state request raw = some next) : Fewer state next := by
  unfold issue at taken
  split at taken
  next => cases taken
  next =>
    split at taken <;> cases taken
    exact fewer_of_subset rfl rfl rfl rfl fun _ => id

theorem step_sessions {action : Action H} (sound : SessionsSound state)
    (taken : step settings state action = some next) : SessionsSound next := by
  cases action with
  | advance | freeLock | expireFence =>
    cases taken
    exact sound.fewer (fewer_of_subset rfl rfl rfl rfl fun _ => id)
  | openOther =>
    cases taken
    refine sound.fewer (fewer_of_subset rfl rfl rfl rfl fun _ alive => ?_)
    exact (List.mem_cons.mp alive).resolve_left (by simp)
  | endSession =>
    cases taken
    exact sound.fewer (fewer_of_subset rfl rfl rfl rfl fun _ => List.mem_of_mem_filter)
  | verify =>
    obtain ⟨_, _, rfl⟩ := Option.map_eq_some_iff.mp taken
    exact sound.fewer verify_fewer
  | syncEmail | setGeneration | requestReset | requestSetup =>
    simp only [step] at taken
    split at taken <;> cases taken
    exact sound.fewer (fewer_of_subset rfl rfl rfl rfl fun _ => id)
  | issue index raw =>
    simp only [step] at taken
    split at taken
    next => cases taken
    next =>
      have erased : SessionsSound { state with requests := state.requests.eraseIdx index } :=
        sound.fewer (fewer_of_subset rfl rfl rfl rfl fun _ => id)
      exact erased.fewer (issue_fewer taken)
  | openLink => exact openLink_opened sound taken
  | openChange | openRemove => exact openOwn_opened sound taken
  | openReset =>
    simp only [step] at taken
    split at taken <;> cases taken
    exact sound.opened rfl rfl rfl rfl fun _ found => Option.some.inj found ▸ ⟨rfl, rfl⟩
  | readSessions =>
    obtain ⟨write, opened, rfl⟩ := Option.map_eq_some_iff.mp taken
    exact readSessions_sound sound opened
  | deleteSessions =>
    simp only [step] at taken
    split at taken
    next => cases taken
    next write opened =>
      obtain ⟨candidates, listed, rfl⟩ := Option.map_eq_some_iff.mp taken
      exact deleteSessions_sound sound opened listed
  | commit =>
    simp only [step] at taken
    split at taken
    next => cases taken
    next write opened =>
      split at taken <;> cases taken
      next done => exact commit_sessions sound opened done
  | abort =>
    simp only [step] at taken
    split at taken <;> cases taken
    exact sound.opened rfl rfl rfl rfl (by simp)
  | openSession index =>
    obtain ⟨signIn, found, moved⟩ := signInStep_some taken
    split at moved <;> cases moved
    refine sound.fewer (fewer_of_put found rfl rfl rfl rfl rfl (by simp [passed]) fun other alive => ?_)
    rcases List.mem_cons.mp alive with same | alive
    next => exact .inr ⟨Session.signIn.inj same, rfl⟩
    next => exact .inl alive
  | crash index =>
    obtain ⟨signIn, found, moved⟩ := signInStep_some taken
    split at moved <;> cases moved
    exact sound.fewer (fewer_of_put found rfl rfl rfl rfl rfl (by simp [passed]) fun _ => .inl)
  | recheck | takeLock | nameHolder | readOthers | deleteOthers | answer =>
    obtain ⟨_, _, found, moved⟩ := step_moved rfl taken
    exact moved.sessions sound found

omit [DecidableEq H] in
theorem start_sessions (account : Account H) : SessionsSound { account } where
  current _ _ live := nomatch live.1
  read _ _ opened := nomatch opened
  swept _ opened := nomatch opened

-- A session whose sign-in passed its re-check was signed in with the password the account has now,
-- or a password write kept it.
theorem live_session_authorized (account : Account H) (state : State H)
    (reached : Reached settings account state) (index : Nat) (signIn : SignIn H)
    (found : state.signIns[index]? = some signIn) (through : passed signIn.phase = true)
    (alive : .signIn index ∈ state.sessions) :
    state.account.passwordHash = some signIn.fingerprint.1 ∨ .signIn index ∈ state.spared := by
  have sound : SessionsSound state := by
    refine reached.invariant _ (start_sessions account) ?_
    intro _ _ _ sound _ taken
    exact step_sessions sound taken
  exact sound.current index signIn ⟨found, through, alive⟩

-- One sign-in changes the password from its own session; another, verified before, comes too late,
-- and a third signs in with the new one.
def changed : List (Action Nat) :=
  [.verify, .openSession 0, .recheck 0, .verify, .openChange 2 (some (.signIn 0)), .openSession 1,
    .readSessions, .deleteSessions, .commit, .recheck 1, .verify, .openSession 2, .recheck 2]

theorem live_session_authorized_changed :
    ∃ state : State Nat, Session.signIn 2 ∈ state.sessions ∧ Session.signIn 1 ∉ state.sessions ∧
      (state.account.passwordHash = some 2 ∨ Session.signIn 2 ∈ state.spared) := by
  have seen : (Runs.run (step plainSettings) { account := { email := "a", passwordHash := some 1 } }
      changed).map (fun state => (state.signIns.map fun signIn => (signIn.fingerprint, signIn.phase),
        state.sessions)) =
      some ([((1, none), .rechecked), ((1, none), .refused), ((2, none), .rechecked)],
        [.signIn 2, .signIn 0]) := by
    decide +kernel
  obtain ⟨state, reached, view⟩ :=
    Runs.Reaches.of_run _ (Runs.allowed_of_always (fun _ _ => trivial) _ _) seen
  obtain ⟨signIns, sessions⟩ := Prod.mk.inj view
  have third := congrArg (fun seen => seen[2]?) signIns
  rw [List.getElem?_map] at third
  obtain ⟨signIn, found, same⟩ := Option.map_eq_some_iff.mp third
  obtain ⟨fingerprint, phase⟩ := Prod.mk.inj same
  have alive : Session.signIn 2 ∈ state.sessions := by
    rw [sessions]
    exact .head _
  have authorized := live_session_authorized _ state reached 2 signIn found (by rw [phase]; rfl) alive
  rw [fingerprint] at authorized
  exact ⟨state, alive, by simp [sessions], authorized⟩

end Steps

end MemoryCloud.Passwords
