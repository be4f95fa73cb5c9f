import Mathlib.Data.List.Basic
import MemoryCloud.Passwords.Model

set_option autoImplicit false

/-!
# A link sets the password once

Whoever issues a link, consumes one or writes the password holds the account's row, so what a link finds
when it is consumed still stands at its commit.
-/

namespace MemoryCloud.Passwords

section History

def Mentions (index : Nat) : Event → Prop
  | .issued other _ | .burned other | .completed other _ _ => other = index
  | .written => False

def Outdates (token : EmailActionToken) : Event → Prop
  | .issued _ other => other.purpose = token.purpose
  | .burned _ => False
  | .completed _ _ _ | .written => True

def Stands (history : List Event) (index : Nat) (token : EmailActionToken) : Prop :=
  ∃ early late, history = early ++ .issued index token :: late ∧
    (∀ event ∈ early, ¬Mentions index event) ∧
      ∀ event ∈ late, ¬Mentions index event ∧ ¬Outdates token event

def Earned (settings : Settings) (history : List Event) (index time : Nat) (email : String) : Prop :=
  ∃ token, Stands history index token ∧ time < token.expiresAt ∧
    settings.normalizeEmail email = settings.normalizeEmail token.email

variable {history : List Event} {index : Nat} {token : EmailActionToken} {event : Event}

theorem Stands.append (stands : Stands history index token) (other : ¬Mentions index event)
    (current : ¬Outdates token event) : Stands (history ++ [event]) index token := by
  obtain ⟨early, late, rfl, before, after⟩ := stands
  refine ⟨early, late ++ [event], by simp, before, ?_⟩
  intro some listed
  rcases List.mem_append.mp listed with listed | listed
  next => exact after some listed
  next =>
    rw [List.mem_singleton.mp listed]
    exact ⟨other, current⟩

theorem stands_new (unknown : ∀ event ∈ history, ¬Mentions index event) :
    Stands (history ++ [.issued index token]) index token :=
  ⟨history, [], rfl, unknown, by simp⟩

theorem append_split {before after : List Event} {last : Event}
    (split : history ++ [last] = before ++ event :: after) :
    (before = history ∧ event = last) ∨
      ∃ rest, history = before ++ event :: rest := by
  rcases List.eq_nil_or_concat after with rfl | ⟨rest, final, rfl⟩
  next =>
    left
    obtain ⟨same, last⟩ := List.append_inj' split rfl
    exact ⟨same.symm, (List.singleton_inj.mp last).symm⟩
  next =>
    right
    rw [List.concat_eq_append, ← List.cons_append, ← List.append_assoc] at split
    exact ⟨rest, (List.append_inj' split rfl).1⟩

end History

section Tokens

variable {purposes : List Purpose} {tokens : List EmailActionToken} {index : Nat}
  {token : EmailActionToken}

theorem invalidate_unused (found : (invalidate purposes tokens)[index]? = some token)
    (unused : token.used = false) :
    tokens[index]? = some token ∧ purposes.contains token.purpose = false := by
  rw [invalidate, List.getElem?_map] at found
  obtain ⟨old, there, same⟩ := Option.map_eq_some_iff.mp found
  split at same
  next =>
    subst same
    cases unused
  next kept =>
    subst same
    exact ⟨there, Bool.eq_false_iff.mpr kept⟩

theorem length_invalidate : (invalidate purposes tokens).length = tokens.length :=
  List.length_map _

theorem every_purpose (purpose : Purpose) : passwordLinkPurposes.contains purpose = true := by
  cases purpose <;> rfl

end Tokens

section Sound

variable {H : Type} {settings : Settings} {state next : State H}

structure LinkSound (settings : Settings) (state : State H) : Prop where
  known : ∀ event ∈ state.history, ∀ index, Mentions index event → index < state.tokens.length
  standing : ∀ (index : Nat) (token : EmailActionToken), state.tokens[index]? = some token →
    token.used = false → Stands state.history index token
  linked : ∀ write index time email, state.write = some write →
    write.origin = .link index time email → ∃ token, state.tokens[index]? = some token ∧
      token.used = false ∧ time < token.expiresAt ∧
        settings.normalizeEmail email = settings.normalizeEmail token.email
  earned : ∀ before index time email after,
    state.history = before ++ .completed index time email :: after →
      Earned settings before index time email

theorem LinkSound.other (sound : LinkSound settings state) (tokens : next.tokens = state.tokens)
    (history : next.history = state.history)
    (write : ∀ write, next.write = some write →
      (∃ before, state.write = some before ∧ before.origin = write.origin) ∨
        write.origin = .owner) :
    LinkSound settings next where
  known := by
    rw [tokens, history]
    exact sound.known
  standing := by
    rw [tokens, history]
    exact sound.standing
  linked opened index time email found link := by
    rw [tokens]
    rcases write opened found with ⟨before, there, same⟩ | owner
    next => exact sound.linked before index time email there (same.trans link)
    next => cases owner.symm.trans link
  earned := by
    rw [history]
    exact sound.earned

theorem LinkSound.earned_append (sound : LinkSound settings state) {event : Event}
    (plain : ∀ index time email, event ≠ .completed index time email) :
    ∀ before index time email after,
      state.history ++ [event] = before ++ .completed index time email :: after →
        Earned settings before index time email := by
  intro before index time email after split
  rcases append_split split with ⟨_, same⟩ | ⟨rest, split⟩
  next => exact absurd same.symm (plain index time email)
  next => exact sound.earned before index time email rest split

theorem issue_sound (sound : LinkSound settings state) {request : LinkRequest} {raw : String}
    (taken : issue settings state request raw = some next) : LinkSound settings next := by
  unfold issue at taken
  split at taken
  next => cases taken
  next free =>
    split at taken
    next => cases taken
    next =>
      cases taken
      have none : state.write = none := Option.not_isSome_iff_eq_none.mp free
      constructor
      next =>
        intro event listed index named
        rw [List.length_append, length_invalidate]
        rcases List.mem_append.mp listed with listed | listed
        next => exact Nat.lt_succ_of_lt (sound.known event listed index named)
        next =>
          cases List.mem_singleton.mp listed
          have same : state.tokens.length = index := named
          simp [same]
      next =>
        intro index token found unused
        rw [List.getElem?_append] at found
        split at found
        next early =>
          obtain ⟨there, kept⟩ := invalidate_unused found unused
          refine (sound.standing index token there unused).append ?_ ?_
          next =>
            rw [length_invalidate] at early
            exact fun same => absurd early (Nat.not_lt.mpr (Nat.le_of_eq same))
          next =>
            intro same
            have same : request.purpose = token.purpose := same
            simp [same] at kept
        next late =>
          rw [length_invalidate] at found late
          rw [List.getElem?_singleton] at found
          split at found
          next first =>
            cases found
            have last : index = state.tokens.length :=
              Nat.le_antisymm (Nat.sub_eq_zero_iff_le.mp first) (Nat.not_lt.mp late)
            subst last
            exact stands_new fun event listed named =>
              absurd (sound.known event listed _ named) (Nat.lt_irrefl _)
          next => cases found
      next =>
        intro write index time email opened
        cases none.symm.trans opened
      next => exact sound.earned_append (by simp)

theorem consumable_found {purpose : Purpose} {raw : String} {index : Nat} {token : EmailActionToken}
    (found : consumable settings state purpose raw = some index)
    (there : state.tokens[index]? = some token) :
    token.used = false ∧ state.now < token.expiresAt := by
  unfold consumable at found
  split at found
  next => cases found
  next =>
    obtain ⟨bound, passed, _⟩ := List.findIdx?_eq_some_iff_getElem.mp found
    obtain ⟨_, same⟩ := List.getElem?_eq_some_iff.mp there
    rw [same] at passed
    simp only [Bool.and_eq_true, Bool.not_eq_true', decide_eq_true_eq] at passed
    exact ⟨passed.1.2, passed.2⟩

theorem openLink_sound (sound : LinkSound settings state) {purpose : Purpose} {raw : String}
    {passwordHash : H} {keep : Option Session}
    (taken : openLink settings state purpose raw passwordHash keep = some next) :
    LinkSound settings next := by
  unfold openLink at taken
  split at taken
  next => cases taken
  next free =>
    have none : state.write = none := Option.not_isSome_iff_eq_none.mp free
    split at taken
    next =>
      cases taken
      exact sound
    next index found =>
      split at taken
      next => cases taken
      next token there =>
        obtain ⟨unused, live⟩ := consumable_found found there
        split at taken <;> cases taken
        next =>
          constructor
          next =>
            intro event listed other named
            rw [useToken, List.length_modify]
            rcases List.mem_append.mp listed with listed | listed
            next => exact sound.known event listed other named
            next =>
              cases List.mem_singleton.mp listed
              have same : index = other := named
              exact same ▸ (List.getElem?_eq_some_iff.mp there).1
          next =>
            intro other kept found unused
            rw [useToken, List.getElem?_modify] at found
            obtain ⟨old, before, same⟩ := Option.map_eq_some_iff.mp found
            split at same
            next =>
              subst same
              cases unused
            next apart =>
              have same : old = kept := same
              subst same
              exact (sound.standing other old before unused).append apart id
          next =>
            intro write index time email opened
            cases none.symm.trans opened
          next => exact sound.earned_append (by simp)
        next placed =>
          refine { sound with linked := ?_ }
          rintro _ _ _ _ ⟨⟩ ⟨⟩
          refine ⟨token, there, unused, live, ?_⟩
          simp only [misplaced, Bool.or_eq_true, decide_eq_true_eq, not_or, not_not] at placed
          exact placed.1

theorem commit_sound (sound : LinkSound settings state) {write : Write H}
    (opened : state.write = some write) : LinkSound settings (commit state write) := by
  constructor
  next =>
    intro event listed index named
    rw [commit, length_invalidate]
    rcases List.mem_append.mp listed with listed | listed
    next => exact sound.known event listed index named
    next =>
      have same := List.mem_singleton.mp listed
      cases origin : write.origin with
      | owner =>
        rw [same, origin] at named
        cases named
      | link other time email =>
        rw [same, origin] at named
        obtain ⟨_, there, _⟩ := sound.linked write other time email opened origin
        have named : other = index := named
        exact named ▸ (List.getElem?_eq_some_iff.mp there).1
  next =>
    intro index token found unused
    have kept := (invalidate_unused found unused).2
    rw [every_purpose] at kept
    cases kept
  next =>
    intro other index time email still
    cases still
  next =>
    intro before index time email after split
    rcases append_split split with ⟨rfl, same⟩ | ⟨rest, split⟩
    next =>
      cases origin : write.origin with
      | owner =>
        rw [origin] at same
        cases same
      | link other moment address =>
        rw [origin] at same
        cases same
        obtain ⟨token, there, unused, live, placed⟩ := sound.linked write _ _ _ opened origin
        exact ⟨token, sound.standing _ token there unused, live, placed⟩
    next => exact sound.earned before index time email rest split

end Sound

section Steps

variable {H : Type} {settings : Settings} {state next : State H}

theorem openOwn_write {passwordHash : Option H} {keep : Option Session}
    (taken : openOwn state passwordHash keep = some next) :
    next.tokens = state.tokens ∧ next.history = state.history ∧
      ∀ write, next.write = some write → write.origin = .owner := by
  unfold openOwn at taken
  split at taken <;> cases taken
  exact ⟨rfl, rfl, by rintro _ ⟨⟩; rfl⟩

theorem signInStep_some {index : Nat} {move : SignIn H → Option (State H)}
    (taken : signInStep state index move = some next) :
    ∃ signIn, state.signIns[index]? = some signIn ∧ move signIn = some next := by
  unfold signInStep at taken
  split at taken
  next => cases taken
  next signIn found => exact ⟨signIn, found, taken⟩

structure SameLinks (state next : State H) : Prop where
  tokens : next.tokens = state.tokens
  history : next.history = state.history
  write : next.write = state.write

theorem LinkSound.same (sound : LinkSound settings state) (same : SameLinks state next) :
    LinkSound settings next :=
  sound.other same.tokens same.history fun write found =>
    .inl ⟨write, same.write ▸ found, rfl⟩

end Steps

section Moves

variable {H : Type}

-- What a sign-in's own step can do once its session is written.
inductive Moved (state : State H) (index : Nat) (signIn : SignIn H) : State H → Prop
  | refused (open_ : signIn.phase ≠ .answered) : Moved state index signIn (refuse state index signIn)
  | rechecked (opened : signIn.phase = .opened) (free : state.write = none)
      (current : fingerprint state.account = some signIn.fingerprint) :
      Moved state index signIn (state.put index { signIn with phase := .rechecked })
  | locked (rechecked : signIn.phase = .rechecked) :
      Moved state index signIn
        { state.put index { signIn with phase := .locked } with lock := some index }
  | named (locked : signIn.phase = .locked) :
      Moved state index signIn
        { state.put index { signIn with phase := .named, turn := some state.turns } with
          fence := some index
          turns := state.turns + 1 }
  | read (named : signIn.phase = .named) :
      Moved state index signIn (state.put index
        { signIn with phase := .read (state.sessions.filter (· ≠ .signIn index)) })
  | swept (candidates : List Session) (read : signIn.phase = .read candidates)
      (fenced : candidates = [] ∨ state.fence = some index) :
      Moved state index signIn
        { state.put index { signIn with phase := .swept } with
          sessions := state.sessions.filter fun session => !candidates.contains session }
  | answered (swept : signIn.phase = .swept) (alive : .signIn index ∈ state.sessions) :
      Moved state index signIn (state.put index { signIn with phase := .answered })

def moves : Action H → Bool
  | .recheck _ | .takeLock _ | .nameHolder _ | .readOthers _ | .deleteOthers _ | .answer _ => true
  | _ => false

variable {settings : Settings} {state next : State H} {index : Nat} {signIn : SignIn H}

theorem recheck_moved [DecidableEq H] (taken : recheck state index signIn = some next) :
    Moved state index signIn next := by
  unfold recheck at taken
  split at taken
  next => cases taken
  next ready =>
    simp only [Bool.or_eq_true, decide_eq_true_eq, not_or, not_not] at ready
    split at taken <;> cases taken
    next current =>
      exact .rechecked ready.2 (Option.not_isSome_iff_eq_none.mp ready.1) current
    next =>
      refine .refused ?_
      rw [ready.2]
      exact nofun

theorem takeLock_moved (taken : takeLock state index signIn = some next) :
    Moved state index signIn next := by
  unfold takeLock at taken
  split at taken
  next => cases taken
  next ready =>
    simp only [Bool.or_eq_true, decide_eq_true_eq, not_or, not_not] at ready
    split at taken <;> cases taken
    next => exact .locked ready.2
    next =>
      refine .refused ?_
      rw [ready.2]
      exact nofun

theorem nameHolder_moved (taken : nameHolder state index signIn = some next) :
    Moved state index signIn next := by
  unfold nameHolder at taken
  split at taken
  next => cases taken
  next ready =>
    have locked : signIn.phase = .locked := not_not.mp ready
    split at taken <;> cases taken
    next => exact .named locked
    next =>
      refine .refused ?_
      rw [locked]
      exact nofun

theorem deleteOthers_moved (taken : deleteOthers state index signIn = some next) :
    Moved state index signIn next := by
  unfold deleteOthers at taken
  split at taken
  next candidates read =>
    split at taken <;> cases taken
    next fenced =>
      simp only [Bool.or_eq_true, List.isEmpty_iff, decide_eq_true_eq] at fenced
      exact .swept candidates read fenced
    next =>
      refine .refused ?_
      rw [read]
      exact nofun
  next => cases taken

theorem answer_moved (taken : answer state index signIn = some next) :
    Moved state index signIn next := by
  unfold answer at taken
  split at taken
  next => cases taken
  next ready =>
    have swept : signIn.phase = .swept := not_not.mp ready
    split at taken <;> cases taken
    next alive => exact .answered swept (List.contains_iff_mem.mp alive)
    next =>
      refine .refused ?_
      rw [swept]
      exact nofun

theorem step_moved [DecidableEq H] {action : Action H} (own : moves action = true)
    (taken : step settings state action = some next) :
    ∃ index signIn, state.signIns[index]? = some signIn ∧ Moved state index signIn next := by
  cases action with
  | recheck index =>
    obtain ⟨signIn, found, taken⟩ := signInStep_some taken
    exact ⟨index, signIn, found, recheck_moved taken⟩
  | takeLock index =>
    obtain ⟨signIn, found, taken⟩ := signInStep_some taken
    exact ⟨index, signIn, found, takeLock_moved taken⟩
  | nameHolder index =>
    obtain ⟨signIn, found, taken⟩ := signInStep_some taken
    exact ⟨index, signIn, found, nameHolder_moved taken⟩
  | readOthers index =>
    obtain ⟨signIn, found, taken⟩ := signInStep_some taken
    unfold readOthers at taken
    split at taken <;> cases taken
    next named => exact ⟨index, signIn, found, .read (not_not.mp named)⟩
  | deleteOthers index =>
    obtain ⟨signIn, found, taken⟩ := signInStep_some taken
    exact ⟨index, signIn, found, deleteOthers_moved taken⟩
  | answer index =>
    obtain ⟨signIn, found, taken⟩ := signInStep_some taken
    exact ⟨index, signIn, found, answer_moved taken⟩
  | _ => cases own

theorem Moved.links (moved : Moved state index signIn next) : SameLinks state next := by
  cases moved <;> exact ⟨rfl, rfl, rfl⟩

end Moves

section Reached

variable {H : Type} [DecidableEq H] {settings : Settings} {state next : State H}

theorem step_links {action : Action H} (sound : LinkSound settings state)
    (taken : step settings state action = some next) : LinkSound settings next := by
  cases action with
  | advance | freeLock | expireFence | openOther | endSession =>
    cases taken
    exact sound.same ⟨rfl, rfl, rfl⟩
  | verify =>
    obtain ⟨_, _, rfl⟩ := Option.map_eq_some_iff.mp taken
    exact sound.same ⟨rfl, rfl, rfl⟩
  | syncEmail | setGeneration | requestReset | requestSetup =>
    simp only [step] at taken
    split at taken <;> cases taken
    exact sound.same ⟨rfl, rfl, rfl⟩
  | issue index raw =>
    simp only [step] at taken
    split at taken
    next => cases taken
    next request _ =>
      have erased : LinkSound settings { state with requests := state.requests.eraseIdx index } :=
        sound.same ⟨rfl, rfl, rfl⟩
      exact issue_sound erased taken
  | openLink => exact openLink_sound sound taken
  | openChange | openRemove =>
    obtain ⟨tokens, history, owner⟩ := openOwn_write taken
    exact sound.other tokens history fun write found => .inr (owner write found)
  | openReset =>
    simp only [step] at taken
    split at taken <;> cases taken
    exact sound.other rfl rfl fun write found => .inr (Option.some.inj found ▸ rfl)
  | readSessions =>
    obtain ⟨write, opened, rfl⟩ := Option.map_eq_some_iff.mp taken
    exact sound.other rfl rfl fun _ found => .inl ⟨write, opened, Option.some.inj found ▸ rfl⟩
  | deleteSessions =>
    simp only [step] at taken
    split at taken
    next => cases taken
    next write opened =>
      obtain ⟨candidates, _, rfl⟩ := Option.map_eq_some_iff.mp taken
      exact sound.other rfl rfl fun _ found => .inl ⟨write, opened, Option.some.inj found ▸ rfl⟩
  | commit =>
    simp only [step] at taken
    split at taken
    next => cases taken
    next write opened =>
      split at taken <;> cases taken
      exact commit_sound sound opened
  | abort =>
    simp only [step] at taken
    split at taken <;> cases taken
    exact sound.other rfl rfl fun _ found => nomatch found
  | openSession | crash =>
    obtain ⟨signIn, _, moved⟩ := signInStep_some taken
    split at moved <;> cases moved
    exact sound.same ⟨rfl, rfl, rfl⟩
  | recheck | takeLock | nameHolder | readOthers | deleteOthers | answer =>
    obtain ⟨_, _, _, moved⟩ := step_moved rfl taken
    exact sound.same moved.links

abbrev Reached (settings : Settings) (account : Account H) : State H → Prop :=
  Runs.Reaches (step settings) (fun _ _ => True) { account }

omit [DecidableEq H] in
theorem start_links (account : Account H) : LinkSound settings { account } where
  known _ listed := nomatch listed
  standing _ _ found := nomatch found
  linked _ _ _ _ opened := nomatch opened
  earned before index time email after split := by
    cases before <;> cases split

-- A link that sets a password is the newest of its purpose, unexpired, sent to the address the
-- account then has, never used, and nobody has set the password since it was sent.
theorem completed_link_earned (account : Account H) (state : State H)
    (reached : Reached settings account state) (before after : List Event) (index time : Nat)
    (email : String)
    (completed : state.history = before ++ .completed index time email :: after) :
    Earned settings before index time email := by
  have sound : LinkSound settings state := by
    refine reached.invariant _ (start_links account) ?_
    intro _ _ _ sound _ taken
    exact step_links sound taken
  exact sound.earned before index time email after completed

def plainSettings : Settings := { ttl := fun _ => 60, sha256 := id, normalizeEmail := id }

def rawToken : String := "0123456789abcdef0123456789abcdef"

def forgotten : List (Action Nat) :=
  [.requestReset, .issue 0 rawToken, .advance 5, .openLink .resetPassword rawToken 2 none,
    .readSessions, .deleteSessions, .commit]

theorem completed_link_earned_forgotten :
    ∃ before, Earned plainSettings before 0 5 "a" ∧ before.length = 1 := by
  have seen : (Runs.run (step plainSettings)
      { account := { email := "a", emailVerified := true, passwordHash := some 1 } } forgotten).map
        (fun state => state.history) =
      some ([.issued 0 ⟨.resetPassword, rawToken, "a", 60, false⟩] ++
        .completed 0 5 "a" :: []) := by
    decide +kernel
  obtain ⟨state, reached, history⟩ :=
    Runs.Reaches.of_run _ (Runs.allowed_of_always (fun _ _ => trivial) _ _) seen
  exact ⟨_, completed_link_earned _ state reached _ _ _ _ _ history, rfl⟩

end Reached

end MemoryCloud.Passwords
