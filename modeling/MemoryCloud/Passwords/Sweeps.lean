import MemoryCloud.Passwords.Links

set_option autoImplicit false

/-!
# Overlapping sign-ins

The lock of the sweep may run out under its holder, so the order is kept by the fence: a sign-in names
itself there while it has the lock, and its deletes land only while no later one has.
-/

namespace MemoryCloud.Passwords

def hasTurn : Phase → Bool
  | .named | .read _ | .swept | .answered => true
  | .verified | .opened | .rechecked | .locked | .refused | .crashed _ => false

section Fence

variable {H : Type} {state next : State H} {swept : Nat → SignIn H → Prop}

def NamedAfter (signIn later : SignIn H) : Prop :=
  ∃ turn laterTurn, signIn.turn = some turn ∧ later.turn = some laterTurn ∧ turn < laterTurn

-- A sweep takes the session of a sign-in: the fence lets it through, and it named itself later.
structure Swept [DecidableEq H] (settings : Settings) (state next : State H) (index : Nat)
    (signIn : SignIn H) (other : Nat) : Prop where
  taken : step settings state (.deleteOthers other) = some next
  found : state.signIns[index]? = some signIn
  lived : .signIn index ∈ state.sessions
  gone : .signIn index ∉ next.sessions
  fenced : state.fence = some other
  later : ∃ sweeper, state.signIns[other]? = some sweeper ∧ NamedAfter signIn sweeper

-- The turns are in order, and an answered sign-in that lost its session was swept, or the session
-- ended otherwise.
structure SweepSound (swept : Nat → SignIn H → Prop) (state : State H) : Prop where
  below : ∀ (index : Nat) (signIn : SignIn H) (turn : Nat), state.signIns[index]? = some signIn →
    signIn.turn = some turn → turn < state.turns
  apart : ∀ (index other : Nat) (signIn rival : SignIn H) (turn : Nat),
    state.signIns[index]? = some signIn → state.signIns[other]? = some rival →
      signIn.turn = some turn → rival.turn = some turn → index = other
  named : ∀ (index : Nat) (signIn : SignIn H), state.signIns[index]? = some signIn →
    hasTurn signIn.phase = true → ∃ turn, signIn.turn = some turn
  latest : ∀ index, state.fence = some index → ∃ signIn turn, state.signIns[index]? = some signIn ∧
    signIn.turn = some turn ∧ turn + 1 = state.turns
  lost : ∀ (index : Nat) (signIn : SignIn H), state.signIns[index]? = some signIn →
    signIn.phase = .answered → .signIn index ∉ state.sessions →
      .signIn index ∈ state.ended ∨ swept index signIn

structure SameTurns (state next : State H) : Prop where
  turns : next.turns = state.turns
  fence : ∀ index, next.fence = some index → state.fence = some index
  before : ∀ (index : Nat) (signIn : SignIn H), next.signIns[index]? = some signIn →
    (signIn.turn = none ∧ hasTurn signIn.phase = false) ∨
      ∃ earlier, state.signIns[index]? = some earlier ∧ earlier.turn = signIn.turn ∧
        (hasTurn signIn.phase = true → hasTurn earlier.phase = true)
  after : ∀ (index : Nat) (signIn : SignIn H), state.signIns[index]? = some signIn →
    ∃ later, next.signIns[index]? = some later ∧ later.turn = signIn.turn

theorem SameTurns.back (same : SameTurns state next) {index turn : Nat} {signIn : SignIn H}
    (found : next.signIns[index]? = some signIn) (turned : signIn.turn = some turn) :
    ∃ earlier, state.signIns[index]? = some earlier ∧ earlier.turn = some turn := by
  rcases same.before index signIn found with ⟨none, _⟩ | ⟨earlier, there, turn, _⟩
  next => cases none.symm.trans turned
  next => exact ⟨earlier, there, turn.trans turned⟩

theorem SweepSound.weaken {other : Nat → SignIn H → Prop} (sound : SweepSound swept state)
    (weaker : ∀ index signIn, swept index signIn → other index signIn) : SweepSound other state :=
  { sound with
    lost := fun index signIn found answered gone =>
      (sound.lost index signIn found answered gone).imp id (weaker index signIn) }

theorem SweepSound.kept (sound : SweepSound swept state) (same : SameTurns state next)
    (lost : ∀ (index : Nat) (signIn : SignIn H), next.signIns[index]? = some signIn →
      signIn.phase = .answered → .signIn index ∉ next.sessions →
        .signIn index ∈ next.ended ∨ swept index signIn) :
    SweepSound swept next where
  below index signIn turn found turned := by
    obtain ⟨earlier, there, turned⟩ := same.back found turned
    rw [same.turns]
    exact sound.below index earlier turn there turned
  apart index other signIn rival turn found rivals turned rivaled := by
    obtain ⟨_, there, turned⟩ := same.back found turned
    obtain ⟨_, against, rivaled⟩ := same.back rivals rivaled
    exact sound.apart index other _ _ turn there against turned rivaled
  named index signIn found phase := by
    rcases same.before index signIn found with ⟨_, not⟩ | ⟨earlier, there, turn, named⟩
    next => cases not.symm.trans phase
    next =>
      obtain ⟨first, turned⟩ := sound.named index earlier there (named phase)
      exact ⟨first, turn.symm.trans turned⟩
  latest index fenced := by
    obtain ⟨signIn, turn, found, turned, last⟩ := sound.latest index (same.fence index fenced)
    obtain ⟨later, there, kept⟩ := same.after index signIn found
    exact ⟨later, turn, there, kept.trans turned, last.trans same.turns.symm⟩
  lost := lost

theorem SweepSound.outside (sound : SweepSound swept state) (turns : next.turns = state.turns)
    (fence : ∀ index, next.fence = some index → state.fence = some index)
    (signIns : next.signIns = state.signIns)
    (sessions : ∀ session ∈ state.sessions, session ∈ next.sessions ∨ session ∈ next.ended)
    (ended : ∀ session ∈ state.ended, session ∈ next.ended) : SweepSound swept next := by
  have same : SameTurns state next := {
    turns := turns
    fence := fence
    before := fun index signIn found => .inr ⟨signIn, signIns ▸ found, rfl, id⟩
    after := fun index signIn found => ⟨signIn, signIns ▸ found, rfl⟩ }
  refine sound.kept same ?_
  intro index signIn found answered gone
  by_cases alive : Session.signIn index ∈ state.sessions
  next => exact .inl ((sessions _ alive).resolve_left gone)
  next =>
    exact (sound.lost index signIn (signIns ▸ found) answered alive).imp (ended _) id

end Fence

section Put

variable {H : Type} {state next : State H} {index : Nat} {signIn moved : SignIn H}
  {swept : Nat → SignIn H → Prop}

theorem sameTurns_of_put (found : state.signIns[index]? = some signIn)
    (turns : next.turns = state.turns)
    (fence : ∀ index, next.fence = some index → state.fence = some index)
    (signIns : next.signIns = state.signIns.set index moved) (turn : moved.turn = signIn.turn)
    (named : hasTurn moved.phase = true → hasTurn signIn.phase = true) : SameTurns state next where
  turns := turns
  fence := fence
  before other signIn' there := by
    right
    rw [signIns, List.getElem?_set] at there
    split at there
    next same =>
      subst same
      split at there <;> cases there
      exact ⟨signIn, found, turn.symm, named⟩
    next => exact ⟨signIn', there, rfl, id⟩
  after other signIn' there := by
    rw [signIns, List.getElem?_set]
    split
    next same =>
      subst same
      cases found.symm.trans there
      rw [if_pos (List.getElem?_eq_some_iff.mp found).1]
      exact ⟨moved, rfl, turn⟩
    next => exact ⟨signIn', there, rfl⟩

theorem SweepSound.put (sound : SweepSound swept state) (found : state.signIns[index]? = some signIn)
    (turns : next.turns = state.turns)
    (fence : ∀ index, next.fence = some index → state.fence = some index)
    (signIns : next.signIns = state.signIns.set index moved) (turn : moved.turn = signIn.turn)
    (named : hasTurn moved.phase = true → hasTurn signIn.phase = true)
    (sessions : ∀ session ∈ state.sessions, session ∈ next.sessions ∨ session ∈ next.ended)
    (ended : ∀ session ∈ state.ended, session ∈ next.ended)
    (alive : moved.phase = .answered → .signIn index ∈ next.sessions) : SweepSound swept next := by
  have same : SameTurns state next := sameTurns_of_put found turns fence signIns turn named
  refine sound.kept same ?_
  intro other signIn' there answered gone
  rw [signIns, List.getElem?_set] at there
  split at there
  next own =>
    subst own
    split at there <;> cases there
    exact absurd (alive answered) gone
  next =>
    by_cases lived : Session.signIn other ∈ state.sessions
    next => exact .inl ((sessions _ lived).resolve_left gone)
    next =>
      exact (sound.lost other signIn' there answered lived).imp (ended _) id

-- Only the latest holder stands in the fence.
theorem SweepSound.named_after (sound : SweepSound swept state)
    (found : state.signIns[index]? = some signIn) (fenced : state.fence = some index)
    {other turn : Nat} {signIn' : SignIn H} (there : state.signIns[other]? = some signIn')
    (apart : other ≠ index) (turned : signIn'.turn = some turn) : NamedAfter signIn' signIn := by
  obtain ⟨holder, last, held, latest, top⟩ := sound.latest index fenced
  cases found.symm.trans held
  have bound := sound.below other signIn' turn there turned
  have differ : turn ≠ last := by
    rintro rfl
    exact apart (sound.apart other index signIn' signIn turn there found turned latest)
  exact ⟨turn, last, turned, latest, by omega⟩

-- Deletes land only for the latest holder, so whoever loses a session was named before it.
theorem swept_sound [DecidableEq H] {settings : Settings} (sound : SweepSound swept state)
    (found : state.signIns[index]? = some signIn)
    {candidates : List Session} (read : signIn.phase = .read candidates)
    (fenced : candidates = [] ∨ state.fence = some index)
    (recorded : ∀ other signIn', Swept settings state
      { state.put index { signIn with phase := .swept } with
        sessions := state.sessions.filter fun session => !candidates.contains session }
      other signIn' index → swept other signIn') :
    SweepSound swept { state.put index { signIn with phase := .swept } with
      sessions := state.sessions.filter fun session => !candidates.contains session } := by
  have same : SameTurns state { state.put index { signIn with phase := .swept } with
      sessions := state.sessions.filter fun session => !candidates.contains session } :=
    sameTurns_of_put found rfl (fun _ => id) rfl rfl fun _ => by rw [read]; rfl
  refine sound.kept same ?_
  intro other signIn' there answered gone
  have there : (state.signIns.set index { signIn with phase := .swept })[other]? = some signIn' :=
    there
  rw [List.getElem?_set] at there
  split at there
  next =>
    split at there <;> cases there
    cases answered
  next apart =>
    by_cases lived : Session.signIn other ∈ state.sessions
    next =>
      have deleted : Session.signIn other ∈ candidates := by
        by_contra kept
        exact gone (List.mem_filter.mpr ⟨lived, by simpa using kept⟩)
      have holds : state.fence = some index :=
        fenced.resolve_left (List.ne_nil_of_mem deleted)
      obtain ⟨turn, turned⟩ := sound.named other signIn' there (by rw [answered]; rfl)
      have later := sound.named_after found holds there (Ne.symm apart) turned
      refine .inr (recorded other signIn' ⟨?_, there, lived, gone, holds, signIn, found, later⟩)
      simp [step, signInStep, found, deleteOthers, read, holds]
    next => exact sound.lost other signIn' there answered lived

theorem named_sound (sound : SweepSound swept state) (found : state.signIns[index]? = some signIn) :
    SweepSound swept { state.put index { signIn with phase := .named, turn := some state.turns } with
      fence := some index
      turns := state.turns + 1 } := by
  have own : (state.signIns.set index { signIn with phase := .named, turn := some state.turns })[index]? =
      some { signIn with phase := .named, turn := some state.turns } := by
    rw [List.getElem?_set_self (List.getElem?_eq_some_iff.mp found).1]
  have others : ∀ (other : Nat) (signIn' : SignIn H),
      (state.signIns.set index { signIn with phase := .named, turn := some state.turns })[other]? =
        some signIn' → (other = index ∧ signIn'.turn = some state.turns ∧ signIn'.phase = .named) ∨
          (other ≠ index ∧ state.signIns[other]? = some signIn') := by
    intro other signIn' there
    by_cases same : other = index
    next =>
      subst same
      cases own.symm.trans there
      exact .inl ⟨rfl, rfl, rfl⟩
    next => exact .inr ⟨same, by rwa [List.getElem?_set_ne (Ne.symm same)] at there⟩
  constructor
  next =>
    intro other signIn' turn there turned
    rcases others other signIn' there with ⟨_, new, _⟩ | ⟨_, there⟩
    next => exact Option.some.inj (new.symm.trans turned) ▸ Nat.lt_succ_self _
    next => exact Nat.lt_succ_of_lt (sound.below other signIn' turn there turned)
  next =>
    intro first second one two turn there against turned rivaled
    rcases others first one there with ⟨rfl, new, _⟩ | ⟨_, old⟩ <;>
      rcases others second two against with ⟨rfl, newer, _⟩ | ⟨_, older⟩
    next => rfl
    next =>
      have bound := sound.below second two turn older rivaled
      cases new.symm.trans turned
      exact absurd bound (Nat.lt_irrefl _)
    next =>
      have bound := sound.below first one turn old turned
      cases newer.symm.trans rivaled
      exact absurd bound (Nat.lt_irrefl _)
    next => exact sound.apart first second one two turn old older turned rivaled
  next =>
    intro other signIn' there phase
    rcases others other signIn' there with ⟨_, new, _⟩ | ⟨_, there⟩
    next => exact ⟨_, new⟩
    next => exact sound.named other signIn' there phase
  next =>
    intro other fenced
    cases fenced
    exact ⟨_, _, own, rfl, rfl⟩
  next =>
    intro other signIn' there answered gone
    rcases others other signIn' there with ⟨_, _, phase⟩ | ⟨_, there⟩
    next => cases phase.symm.trans answered
    next => exact sound.lost other signIn' there answered gone

theorem dropped {session other : Session} (listed : other ∈ state.sessions) :
    other ∈ (state.drop session).sessions ∨ other ∈ (state.drop session).ended := by
  by_cases same : other = session
  next => exact .inr (same ▸ List.mem_cons_self)
  next => exact .inl (List.mem_filter.mpr ⟨listed, decide_eq_true same⟩)

theorem Moved.sweeps [DecidableEq H] {settings : Settings} (sound : SweepSound swept state)
    (found : state.signIns[index]? = some signIn) (moved : Moved state index signIn next)
    (recorded : ∀ other signIn' sweeper,
      Swept settings state next other signIn' sweeper → swept other signIn') :
    SweepSound swept next := by
  cases moved with
  | refused =>
    exact sound.put found rfl (fun _ => id) rfl rfl nofun (fun _ => dropped)
      (fun _ => List.mem_cons_of_mem _) nofun
  | rechecked | locked =>
    exact sound.put found rfl (fun _ => id) rfl rfl nofun (fun _ => .inl) (fun _ => id) nofun
  | read before =>
    exact sound.put found rfl (fun _ => id) rfl rfl (fun _ => by rw [before]; rfl) (fun _ => .inl)
      (fun _ => id) nofun
  | answered before alive =>
    exact sound.put found rfl (fun _ => id) rfl rfl (fun _ => by rw [before]; rfl) (fun _ => .inl)
      (fun _ => id) fun _ => alive
  | named => exact named_sound sound found
  | swept candidates read fenced =>
    exact swept_sound sound found read fenced fun other signIn' => recorded other signIn' index

end Put

section Steps

variable {H : Type} {settings : Settings} {state next : State H} {swept : Nat → SignIn H → Prop}

theorem openLink_sweeps {purpose : Purpose} {raw : String} {passwordHash : H} {keep : Option Session}
    (sound : SweepSound swept state)
    (taken : openLink settings state purpose raw passwordHash keep = some next) :
    SweepSound swept next := by
  unfold openLink at taken
  split at taken
  next => cases taken
  next =>
    split at taken
    next =>
      cases taken
      exact sound
    next =>
      split at taken
      next => cases taken
      next =>
        split at taken <;> cases taken <;>
          exact sound.outside rfl (fun _ => id) rfl (fun _ => .inl) fun _ => id

theorem issue_sweeps {request : LinkRequest} {raw : String} (sound : SweepSound swept state)
    (taken : issue settings state request raw = some next) : SweepSound swept next := by
  unfold issue at taken
  split at taken
  next => cases taken
  next =>
    split at taken <;> cases taken
    exact sound.outside rfl (fun _ => id) rfl (fun _ => .inl) fun _ => id

theorem openOwn_sweeps {passwordHash : Option H} {keep : Option Session} (sound : SweepSound swept state)
    (taken : openOwn state passwordHash keep = some next) : SweepSound swept next := by
  unfold openOwn at taken
  split at taken <;> cases taken
  exact sound.outside rfl (fun _ => id) rfl (fun _ => .inl) fun _ => id

theorem verify_sweeps {fingerprint : Fingerprint H} (sound : SweepSound swept state) :
    SweepSound swept { state with signIns := state.signIns ++ [{ fingerprint }] } := by
  have known : ∀ (index : Nat) (signIn : SignIn H),
      (state.signIns ++ [({ fingerprint } : SignIn H)])[index]? = some signIn →
        (signIn.turn = none ∧ signIn.phase = .verified) ∨ state.signIns[index]? = some signIn := by
    intro index signIn found
    rw [List.getElem?_append] at found
    split at found
    next => exact .inr found
    next =>
      rw [List.getElem?_singleton] at found
      split at found <;> cases found
      exact .inl ⟨rfl, rfl⟩
  have same : SameTurns state { state with signIns := state.signIns ++ [{ fingerprint }] } := {
    turns := rfl
    fence := fun _ => id
    before := by
      intro index signIn found
      rcases known index signIn found with ⟨turn, phase⟩ | found
      next => exact .inl ⟨turn, by rw [phase]; rfl⟩
      next => exact .inr ⟨signIn, found, rfl, id⟩
    after := by
      intro index signIn found
      refine ⟨signIn, ?_, rfl⟩
      rw [List.getElem?_append_left (List.getElem?_eq_some_iff.mp found).1]
      exact found }
  refine sound.kept same ?_
  intro index signIn found answered gone
  rcases known index signIn found with ⟨_, phase⟩ | found
  next => cases phase.symm.trans answered
  next => exact sound.lost index signIn found answered gone

variable [DecidableEq H]

theorem step_sweeps {action : Action H} (sound : SweepSound swept state)
    (taken : step settings state action = some next)
    (recorded : ∀ index signIn sweeper,
      Swept settings state next index signIn sweeper → swept index signIn) :
    SweepSound swept next := by
  cases action with
  | advance | freeLock =>
    cases taken
    exact sound.outside rfl (fun _ => id) rfl (fun _ => .inl) fun _ => id
  | expireFence =>
    cases taken
    exact sound.outside rfl (by simp) rfl (fun _ => .inl) fun _ => id
  | openOther =>
    cases taken
    exact sound.outside rfl (fun _ => id) rfl (fun _ alive => .inl (.tail _ alive)) fun _ => id
  | endSession =>
    cases taken
    exact sound.outside rfl (fun _ => id) rfl (fun _ => dropped) fun _ => List.mem_cons_of_mem _
  | verify =>
    obtain ⟨_, _, rfl⟩ := Option.map_eq_some_iff.mp taken
    exact verify_sweeps sound
  | syncEmail | setGeneration | requestReset | requestSetup | openReset | abort =>
    simp only [step] at taken
    split at taken <;> cases taken
    exact sound.outside rfl (fun _ => id) rfl (fun _ => .inl) fun _ => id
  | issue index raw =>
    simp only [step] at taken
    split at taken
    next => cases taken
    next =>
      have erased : SweepSound swept { state with requests := state.requests.eraseIdx index } :=
        sound.outside rfl (fun _ => id) rfl (fun _ => .inl) fun _ => id
      exact issue_sweeps erased taken
  | openLink => exact openLink_sweeps sound taken
  | openChange | openRemove => exact openOwn_sweeps sound taken
  | readSessions =>
    obtain ⟨write, _, rfl⟩ := Option.map_eq_some_iff.mp taken
    exact sound.outside rfl (fun _ => id) rfl (fun _ => .inl) fun _ => id
  | deleteSessions =>
    simp only [step] at taken
    split at taken
    next => cases taken
    next write _ =>
      obtain ⟨candidates, _, rfl⟩ := Option.map_eq_some_iff.mp taken
      refine sound.outside rfl (fun _ => id) rfl ?_ fun _ => List.mem_append_right _
      intro session alive
      by_cases deleted : session ∈ candidates
      next => exact .inr (List.mem_append_left _ deleted)
      next => exact .inl (List.mem_filter.mpr ⟨alive, by simpa using deleted⟩)
  | commit =>
    simp only [step] at taken
    split at taken
    next => cases taken
    next =>
      split at taken <;> cases taken
      exact sound.outside rfl (fun _ => id) rfl (fun _ => .inl) fun _ => id
  | openSession | crash =>
    obtain ⟨signIn, found, moved⟩ := signInStep_some taken
    split at moved <;> cases moved
    exact sound.put found rfl (fun _ => id) rfl rfl (by simp [hasTurn])
      (fun _ alive => .inl (by first | exact alive | exact .tail _ alive)) (fun _ => id) (by simp)
  | recheck | takeLock | nameHolder | readOthers | deleteOthers | answer =>
    obtain ⟨_, _, found, moved⟩ := step_moved rfl taken
    exact moved.sweeps sound found recorded

end Steps

section Reached

variable {H : Type} [DecidableEq H] {settings : Settings}

omit [DecidableEq H] in
theorem start_sweeps (swept : Nat → SignIn H → Prop) (account : Account H) :
    SweepSound swept { account } where
  below _ _ _ found := nomatch found
  apart _ _ _ _ _ found := nomatch found
  named _ _ found := nomatch found
  latest _ fenced := nomatch fenced
  lost _ _ found := nomatch found

def SweptBefore (settings : Settings) (account : Account H) (state : State H) (index : Nat)
    (signIn : SignIn H) : Prop :=
  ∃ before after other, Reached settings account before ∧
    Swept settings before after index signIn other ∧
      Runs.Reaches (step settings) (fun _ _ => True) after state

theorem SweptBefore.later {account : Account H} {state next : State H} {index : Nat}
    {signIn : SignIn H} {action : Action H} (swept : SweptBefore settings account state index signIn)
    (taken : step settings state action = some next) :
    SweptBefore settings account next index signIn := by
  obtain ⟨before, after, other, reached, step, onward⟩ := swept
  exact ⟨before, after, other, reached, step, onward.step trivial taken⟩

theorem reached_sweeps {account : Account H} {state : State H}
    (reached : Reached settings account state) :
    SweepSound (SweptBefore settings account state) state := by
  induction reached with
  | start => exact start_sweeps _ account
  | step reached _ taken ih =>
    have earlier := ih.weaken fun index signIn swept => swept.later taken
    exact step_sweeps earlier taken fun index signIn other swept =>
      ⟨_, _, other, reached, swept, .start⟩

-- A sign-in that was answered keeps its session from every sweep but that of a sign-in that named
-- itself in the fence later and stands there still; and a sweep whose sign-in is no longer the
-- latest deletes no session of another.
theorem answered_session_kept (account : Account H) (state : State H)
    (reached : Reached settings account state) :
    (∀ (index : Nat) signIn, state.signIns[index]? = some signIn → signIn.phase = .answered →
      .signIn index ∈ state.sessions ∨ .signIn index ∈ state.ended ∨
        ∃ before after other, Reached settings account before ∧
          Swept settings before after index signIn other ∧
            Runs.Reaches (step settings) (fun _ _ => True) after state) ∧
    ∀ (index other : Nat) signIn later next, state.signIns[index]? = some signIn →
      state.signIns[other]? = some later → NamedAfter signIn later →
        step settings state (.deleteOthers index) = some next →
          ∀ session ∈ state.sessions, session ≠ .signIn index → session ∈ next.sessions := by
  have sound := reached_sweeps reached
  constructor
  next =>
    intro index signIn found answered
    by_cases alive : Session.signIn index ∈ state.sessions
    next => exact .inl alive
    next => exact .inr (sound.lost index signIn found answered alive)
  next =>
    rintro index other signIn later next found against ⟨turn, laterTurn, own, turned, order⟩ taken
      session listed apart
    have lost : state.fence ≠ some index := by
      intro fenced
      obtain ⟨holder, last, held, latest, top⟩ := sound.latest index fenced
      cases found.symm.trans held
      cases own.symm.trans latest
      have bound := sound.below other later laterTurn against turned
      omega
    obtain ⟨_, _, moved⟩ := signInStep_some taken
    unfold deleteOthers at moved
    split at moved
    next candidates read =>
      rw [decide_eq_false lost, Bool.or_false] at moved
      split at moved <;> cases moved
      next nothing =>
        rw [List.isEmpty_iff.mp nothing]
        exact List.mem_filter.mpr ⟨listed, rfl⟩
      next => exact List.mem_filter.mpr ⟨listed, decide_eq_true apart⟩
    next => cases moved

-- The first sign-in stalls past its lease once it is named. The second answers, the third sweeps
-- the second's session, and the first still has the third's among its candidates.
def stalled : List (Action Nat) :=
  [.verify, .openSession 0, .recheck 0, .takeLock 0, .nameHolder 0, .freeLock,
    .verify, .openSession 1, .recheck 1, .takeLock 1, .nameHolder 1, .readOthers 1, .deleteOthers 1,
    .answer 1, .freeLock,
    .verify, .openSession 2, .recheck 2, .takeLock 2, .nameHolder 2, .readOthers 2, .openOther 7,
    .readOthers 0, .deleteOthers 2]

theorem answered_session_kept_stalled :
    let account : Account Nat := { email := "a", passwordHash := some 1 }
    ∃ (state next : State Nat) (signIn : SignIn Nat),
      step plainSettings state (.deleteOthers 0) = some next ∧
      state.sessions = [.other 7, .signIn 2] ∧ (∀ session ∈ state.sessions, session ∈ next.sessions) ∧
      state.signIns[1]? = some signIn ∧ signIn.phase = .answered ∧
      ∃ before after other, Reached plainSettings account before ∧
        Swept plainSettings before after 1 signIn other ∧
          Runs.Reaches (step plainSettings) (fun _ _ => True) after state := by
  intro account
  have seen : (Runs.run (step plainSettings) { account } stalled).map (fun state =>
      (state.signIns.map fun signIn => (signIn.phase, signIn.turn), state.sessions, state.ended,
        (step plainSettings state (.deleteOthers 0)).isSome)) =
      some ([(.read [.other 7, .signIn 2, .signIn 1], some 0), (.answered, some 1), (.swept, some 2)],
        [.other 7, .signIn 2], [], true) := by
    decide +kernel
  obtain ⟨state, reached, view⟩ :=
    Runs.Reaches.of_run _ (Runs.allowed_of_always (fun _ _ => trivial) _ _) seen
  simp only [Prod.mk.injEq] at view
  obtain ⟨signIns, sessions, ended, moves⟩ := view
  obtain ⟨next, taken⟩ := Option.isSome_iff_exists.mp moves
  have signIn (index : Nat) := congrArg (fun seen => seen[index]?) signIns
  simp only [List.getElem?_map] at signIn
  obtain ⟨first, stands, stalledTurn⟩ := Option.map_eq_some_iff.mp (signIn 0)
  obtain ⟨second, found, answered⟩ := Option.map_eq_some_iff.mp (signIn 1)
  obtain ⟨kept, untouched⟩ := answered_session_kept account state reached
  have swept := kept 1 second found (congrArg Prod.fst answered)
  rw [sessions, ended] at swept
  have later : NamedAfter first second :=
    ⟨0, 1, congrArg Prod.snd stalledTurn, congrArg Prod.snd answered, Nat.zero_lt_one⟩
  refine ⟨state, next, second, taken, sessions, ?_, found, congrArg Prod.fst answered, ?_⟩
  next =>
    intro session listed
    refine untouched 0 1 first second next stands found later taken session listed ?_
    rintro rfl
    simp [sessions] at listed
  next => simpa using swept

end Reached

end MemoryCloud.Passwords
