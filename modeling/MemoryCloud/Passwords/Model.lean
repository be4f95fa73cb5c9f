import MemoryCloud.Shared.Runs

set_option autoImplicit false

/-!
# The password of one account

The emailed links of `services/email_action_token_service.py`, the password writes of
`services/password_account_service.py`, and the password sign-in of `api/routes/auth.py` with its session,
its re-check and its sweep of the other sessions. Every writer of the account's row holds its lock from its
first read to its commit; Redis has no transactions with it, so its calls are steps of their own.
-/

namespace MemoryCloud.Passwords

inductive Purpose where
  | resetPassword
  | setPassword
  deriving DecidableEq, Repr

structure Account (H : Type) where
  email : String
  emailVerified : Bool := false
  passwordHash : Option H := none
  mfaGeneration : Option Nat := none

structure EmailActionToken where
  purpose : Purpose
  tokenHash : String
  email : String
  expiresAt : Nat
  used : Bool := false
  deriving DecidableEq

structure Settings where
  ttl : Purpose → Nat
  sha256 : String → String
  -- `email.strip().lower()`
  normalizeEmail : String → String

-- A session in Redis: one of a password sign-in, or another one of the account.
inductive Session where
  | signIn (index : Nat)
  | other (number : Nat)
  deriving DecidableEq, Repr

structure LinkRequest where
  purpose : Purpose
  email : String

inductive Origin where
  -- A link, when it was consumed and the account's address then.
  | link (index time : Nat) (email : String)
  | owner

structure Write (H : Type) where
  origin : Origin
  passwordHash : Option H
  verifies : Bool := false
  keep : Option Session
  candidates : Option (List Session) := none
  swept : Bool := false

-- `credential_fingerprint`: digests of different credentials differ.
abbrev Fingerprint (H : Type) := H × Option Nat

inductive Phase where
  | verified
  | opened
  | rechecked
  | locked
  | named
  | read (candidates : List Session)
  | swept
  | answered
  | refused
  -- Its process died, before the re-check let it through or after.
  | crashed (rechecked : Bool)
  deriving DecidableEq

def passed : Phase → Bool
  | .rechecked | .locked | .named | .read _ | .swept | .answered => true
  | .verified | .opened | .refused => false
  | .crashed rechecked => rechecked

structure SignIn (H : Type) where
  fingerprint : Fingerprint H
  phase : Phase := .verified
  -- When it named itself the latest holder of the sweep lock.
  turn : Option Nat := none

inductive Event where
  | issued (index : Nat) (token : EmailActionToken)
  | burned (index : Nat)
  | completed (index time : Nat) (email : String)
  | written
  deriving DecidableEq

structure State (H : Type) where
  now : Nat := 0
  account : Account H
  tokens : List EmailActionToken := []
  requests : List LinkRequest := []
  write : Option (Write H) := none
  sessions : List Session := []
  signIns : List (SignIn H) := []
  lock : Option Nat := none
  fence : Option Nat := none
  turns : Nat := 0
  -- The sessions that a committed password write kept.
  spared : List Session := []
  -- The sessions that ended for another reason than a sign-in's sweep.
  ended : List Session := []
  history : List Event := []

inductive Action (H : Type) where
  | advance (elapsed : Nat)
  | syncEmail (email : String)
  | setGeneration (generation : Option Nat)
  | requestReset
  | requestSetup
  | issue (index : Nat) (raw : String)
  | openLink (purpose : Purpose) (raw : String) (passwordHash : H) (keep : Option Session)
  | openChange (passwordHash : H) (keep : Option Session)
  | openRemove (keep : Option Session)
  -- The operator's `reset_password`.
  | openReset (passwordHash : H)
  | readSessions
  | deleteSessions
  | commit
  | abort
  | verify
  | openSession (index : Nat)
  | recheck (index : Nat)
  | takeLock (index : Nat)
  | nameHolder (index : Nat)
  | readOthers (index : Nat)
  | deleteOthers (index : Nat)
  | answer (index : Nat)
  | crash (index : Nat)
  -- A release, or the end of the lease.
  | freeLock
  | expireFence
  | openOther (number : Nat)
  | endSession (session : Session)

section Links

variable {H : Type} (settings : Settings)

-- `token_urlsafe(32)` has 43 characters.
def minTokenLength : Nat := 32
def maxTokenLength : Nat := 128

def looksIssued (raw : String) : Bool :=
  minTokenLength ≤ raw.length && raw.length ≤ maxTokenLength

def invalidate (purposes : List Purpose) (tokens : List EmailActionToken) : List EmailActionToken :=
  tokens.map fun token => if purposes.contains token.purpose then { token with used := true } else token

def passwordLinkPurposes : List Purpose := [.resetPassword, .setPassword]

-- `issue`, under the account's lock. The digests of the tokens are unique.
def issue (state : State H) (request : LinkRequest) (raw : String) : Option (State H) :=
  if state.write.isSome then none
  else if state.tokens.any fun token => token.tokenHash = settings.sha256 raw then none
  else
    let token : EmailActionToken := {
      purpose := request.purpose
      tokenHash := settings.sha256 raw
      email := request.email
      expiresAt := state.now + settings.ttl request.purpose }
    some { state with
      tokens := invalidate [request.purpose] state.tokens ++ [token]
      history := state.history ++ [.issued state.tokens.length token] }

def consumable (state : State H) (purpose : Purpose) (raw : String) : Option Nat :=
  if !looksIssued raw then none
  else state.tokens.findIdx? fun token =>
    token.tokenHash = settings.sha256 raw && token.purpose = purpose && !token.used &&
      state.now < token.expiresAt

-- A link sent to another address, or for an account that has no password to reset or one already.
def misplaced (account : Account H) (token : EmailActionToken) : Bool :=
  settings.normalizeEmail account.email ≠ settings.normalizeEmail token.email ||
    account.passwordHash.isNone ≠ (token.purpose = .setPassword)

def useToken (state : State H) (index : Nat) : List EmailActionToken :=
  state.tokens.modify index fun token => { token with used := true }

-- `complete_reset` and `complete_setup` up to the sweep of the sessions.
def openLink (state : State H) (purpose : Purpose) (raw : String) (passwordHash : H)
    (keep : Option Session) : Option (State H) :=
  if state.write.isSome then none
  else match consumable settings state purpose raw with
    | none => some state
    | some index =>
      match state.tokens[index]? with
      | none => none
      | some token =>
        if misplaced settings state.account token then
          some { state with
            tokens := useToken state index
            history := state.history ++ [.burned index] }
        else
          some { state with
            write := some {
              origin := .link index state.now state.account.email
              passwordHash := some passwordHash
              verifies := purpose = .setPassword
              keep := if purpose = .resetPassword then none else keep } }

-- `change` and `remove`, once the current password is verified.
def openOwn (state : State H) (passwordHash : Option H) (keep : Option Session) : Option (State H) :=
  if state.write.isSome || state.account.passwordHash.isNone then none
  else some { state with write := some { origin := .owner, passwordHash, keep } }

def written : Origin → Event
  | .link index time email => .completed index time email
  | .owner => .written

-- The write ends: the password, and every outstanding link used.
def commit (state : State H) (write : Write H) : State H :=
  { state with
    account := { state.account with
      passwordHash := write.passwordHash
      emailVerified := state.account.emailVerified || write.verifies }
    tokens := invalidate passwordLinkPurposes state.tokens
    write := none
    spared := write.keep.toList ++ state.spared
    history := state.history ++ [written write.origin] }

end Links

section Sessions

variable {H : Type} [DecidableEq H]

def State.put (state : State H) (index : Nat) (signIn : SignIn H) : State H :=
  { state with signIns := state.signIns.set index signIn }

def State.drop (state : State H) (session : Session) : State H :=
  { state with sessions := state.sessions.filter (· ≠ session), ended := session :: state.ended }

def refuse (state : State H) (index : Nat) (signIn : SignIn H) : State H :=
  (state.put index { signIn with phase := .refused }).drop (.signIn index)

def fingerprint (account : Account H) : Option (Fingerprint H) :=
  account.passwordHash.map fun passwordHash => (passwordHash, account.mfaGeneration)

-- `_password_still_current`: its read waits for a writer of the account.
def recheck (state : State H) (index : Nat) (signIn : SignIn H) : Option (State H) :=
  if state.write.isSome || signIn.phase ≠ .opened then none
  else if fingerprint state.account = some signIn.fingerprint then
    some (state.put index { signIn with phase := .rechecked })
  else some (refuse state index signIn)

def takeLock (state : State H) (index : Nat) (signIn : SignIn H) : Option (State H) :=
  if state.lock.isSome || signIn.phase ≠ .rechecked then none
  else if state.sessions.contains (.signIn index) then
    some { state.put index { signIn with phase := .locked } with lock := some index }
  else some (refuse state index signIn)

def nameHolder (state : State H) (index : Nat) (signIn : SignIn H) : Option (State H) :=
  if signIn.phase ≠ .locked then none
  else if state.lock = some index then
    some { state.put index { signIn with phase := .named, turn := some state.turns } with
      fence := some index
      turns := state.turns + 1 }
  else some (refuse state index signIn)

def readOthers (state : State H) (index : Nat) (signIn : SignIn H) : Option (State H) :=
  if signIn.phase ≠ .named then none
  else some (state.put index
    { signIn with phase := .read (state.sessions.filter (· ≠ .signIn index)) })

-- The deletes land only while the fence names this sign-in.
def deleteOthers (state : State H) (index : Nat) (signIn : SignIn H) : Option (State H) :=
  match signIn.phase with
  | .read candidates =>
    if candidates.isEmpty || state.fence = some index then
      some { state.put index { signIn with phase := .swept } with
        sessions := state.sessions.filter fun session => !candidates.contains session }
    else some (refuse state index signIn)
  | _ => none

def answer (state : State H) (index : Nat) (signIn : SignIn H) : Option (State H) :=
  if signIn.phase ≠ .swept then none
  else if state.sessions.contains (.signIn index) then
    some (state.put index { signIn with phase := .answered })
  else some (refuse state index signIn)

def signInStep (state : State H) (index : Nat) (move : SignIn H → Option (State H)) :
    Option (State H) :=
  match state.signIns[index]? with
  | none => none
  | some signIn => move signIn

def step (settings : Settings) (state : State H) : Action H → Option (State H)
  | .advance elapsed => some { state with now := state.now + elapsed }
  | .syncEmail email =>
    if state.write.isSome then none
    else some { state with account := { state.account with email, emailVerified := true } }
  | .setGeneration mfaGeneration =>
    if state.write.isSome then none
    else some { state with account := { state.account with mfaGeneration } }
  | .requestReset =>
    if state.account.emailVerified && state.account.passwordHash.isSome then
      some { state with requests := state.requests ++ [⟨.resetPassword, state.account.email⟩] }
    else none
  | .requestSetup =>
    if state.account.passwordHash.isNone then
      some { state with requests := state.requests ++ [⟨.setPassword, state.account.email⟩] }
    else none
  | .issue index raw =>
    match state.requests[index]? with
    | none => none
    | some request =>
      issue settings { state with requests := state.requests.eraseIdx index } request raw
  | .openLink purpose raw passwordHash keep => openLink settings state purpose raw passwordHash keep
  | .openChange passwordHash keep => openOwn state (some passwordHash) keep
  | .openRemove keep => openOwn state none keep
  | .openReset passwordHash =>
    if state.write.isSome then none
    else some { state with write := some {
      origin := .owner, passwordHash := some passwordHash, keep := none } }
  | .readSessions =>
    state.write.map fun write => { state with write := some { write with
      candidates := some (state.sessions.filter fun session => write.keep ≠ some session) } }
  | .deleteSessions =>
    match state.write with
    | none => none
    | some write => write.candidates.map fun candidates => { state with
        write := some { write with swept := true }
        sessions := state.sessions.filter fun session => !candidates.contains session
        ended := candidates ++ state.ended }
  | .commit =>
    match state.write with
    | none => none
    | some write => if write.swept then some (commit state write) else none
  | .abort => if state.write.isSome then some { state with write := none } else none
  | .verify =>
    (fingerprint state.account).map fun fingerprint =>
      { state with signIns := state.signIns ++ [{ fingerprint }] }
  | .openSession index => signInStep state index fun signIn =>
    if signIn.phase = .verified then
      some { state.put index { signIn with phase := .opened } with
        sessions := .signIn index :: state.sessions }
    else none
  | .recheck index => signInStep state index (recheck state index)
  | .takeLock index => signInStep state index (takeLock state index)
  | .nameHolder index => signInStep state index (nameHolder state index)
  | .readOthers index => signInStep state index (readOthers state index)
  | .deleteOthers index => signInStep state index (deleteOthers state index)
  | .answer index => signInStep state index (answer state index)
  | .crash index => signInStep state index fun signIn =>
    if signIn.phase = .answered then none
    else some (state.put index { signIn with phase := .crashed (passed signIn.phase) })
  | .freeLock => some { state with lock := none }
  | .expireFence => some { state with fence := none }
  | .openOther number => some { state with sessions := .other number :: state.sessions }
  | .endSession session => some (state.drop session)

end Sessions

end MemoryCloud.Passwords
