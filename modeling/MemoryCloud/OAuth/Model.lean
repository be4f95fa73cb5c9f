import MemoryCloud.Shared.RowLocks
import MemoryCloud.Shared.Runs

set_option autoImplicit false

/-!
# OAuth grants of one account under concurrent transactions

The grant writers of `auth/oauth2_server.py` (consent, code exchange, refresh, device
exchange), the approval of a device code in `api/routes/oauth.py` and the statements of
`services/oauth_grant_revocation.py`. One step is one statement: it reads what is
committed, waits for the rows it locks, and its writes count from the commit on. A
statement over many rows takes its rows when it starts and looks at each of them again
once it has the lock.
-/

namespace MemoryCloud.OAuth

abbrev SessionId := Nat

-- `checkedAt` is when the session check of the consent behind the row ran.
inductive DeviceCode
  | pending
  | approved (checkedAt : Nat)
  deriving DecidableEq

structure Token where
  checkedAt : Nat
  accessRevoked : Bool
  refreshRevoked : Bool
  deriving DecidableEq

def Token.active (token : Token) : Bool := !token.accessRevoked || !token.refreshRevoked

def Token.revoke (token : Token) : Token :=
  { token with accessRevoked := true, refreshRevoked := true }

inductive Credential
  | code (id : Nat)
  | device (id : Nat)
  | refresh (token : Nat)
  deriving DecidableEq

-- The rows of one account, and the device codes no one has approved yet. `issued` lists the
-- credentials of all token pairs, `resets` when each committed revocation deleted the sessions.
structure Tables where
  codes : Nat → Option Nat := fun _ => none
  devices : Nat → Option DeviceCode := fun _ => none
  tokens : Nat → Option Token := fun _ => none
  nextCode : Nat := 0
  nextDevice : Nat := 0
  nextToken : Nat := 0
  issued : List Credential := []
  resets : List Nat := []

inductive Stage
  | started
  | locked
  | codesBegun (snapshot : List Nat)
  | codesDeleted (codes : List Nat)
  | devicesBegun (codes snapshot : List Nat)
  | devicesDeleted (codes devices : List Nat)
  | tokensBegun (codes devices snapshot : List Nat)
  | tokensWritten (codes devices tokens : List Nat)

-- A transaction at its next statement.
inductive Tx
  | closed
  | consentStarted (session : SessionId)
  | consentLocked (session : SessionId)
  | consentChecked (checkedAt : Nat)
  | approvalStarted (session : SessionId) (device : Nat)
  | approvalLocked (session : SessionId) (device : Nat)
  | approvalChecked (device checkedAt : Nat)
  | approvalWritten (device checkedAt : Nat)
  | exchangeStarted (code : Nat)
  | exchangeLocked (code checkedAt : Nat)
  | exchangeDeleted (code checkedAt : Nat)
  | pollStarted (device : Nat)
  | pollLocked (device checkedAt : Nat)
  | pollDeleted (device checkedAt : Nat)
  | refreshStarted (token : Nat)
  -- The lookup found no owner: no lock on the user.
  | refreshOwnerless (token : Nat)
  | refreshFound (token : Nat)
  | refreshOwned (token : Nat)
  | refreshLocked (owned : Bool) (token checkedAt : Nat)
  | refreshRevoked (owned : Bool) (token checkedAt : Nat)
  | revoking (deleteTokens : Bool) (sessionsDeletedAt : Option Nat) (stage : Stage)

section Locks

inductive Row
  | code (id : Nat)
  | device (id : Nat)
  | token (id : Nat)
  deriving DecidableEq

def Stage.rows : Stage → List Row
  | codesDeleted codes | devicesBegun codes _ => codes.map .code
  | devicesDeleted codes devices | tokensBegun codes devices _ =>
    codes.map .code ++ devices.map .device
  | tokensWritten codes devices tokens =>
    codes.map .code ++ devices.map .device ++ tokens.map .token
  | _ => []

def Tx.rows : Tx → List Row
  | approvalWritten device _ | pollLocked device _ | pollDeleted device _ => [.device device]
  | exchangeLocked code _ | exchangeDeleted code _ => [.code code]
  | refreshLocked _ token _ | refreshRevoked _ token _ => [.token token]
  | revoking _ _ stage => stage.rows
  | _ => []

-- `users ... FOR KEY SHARE`
def Tx.sharesOwner : Tx → Bool
  | consentLocked _ | consentChecked _ | approvalLocked _ _ | approvalChecked _ _
  | approvalWritten _ _ | refreshOwned _ => true
  | refreshLocked owned _ _ | refreshRevoked owned _ _ => owned
  | _ => false

-- `users ... FOR UPDATE`
def Tx.ownsOwner : Tx → Bool
  | revoking _ _ .started => false
  | revoking _ _ _ => true
  | _ => false

-- FOR KEY SHARE waits for FOR UPDATE, which waits for either.
def Tx.conflicts (held wanted : Tx) : Bool :=
  held.ownsOwner && (wanted.sharesOwner || wanted.ownsOwner) ||
    held.sharesOwner && wanted.ownsOwner

def Tx.clash (held wanted : Tx) : Bool :=
  RowLocks.sharing Tx.rows held wanted || held.conflicts wanted

end Locks

structure State extends Tables where
  clock : Nat := 0
  sessions : List SessionId := []
  transactions : List Tx := []

section Statements

def sessionGone : String := "The session is no longer valid."

def codeGone : String := "Invalid 'code' in request."

def deviceUsed : String := "The device code has already been used."

def authorizationPending : String := "authorization_pending"

def refreshGone : String := "invalid_grant"

-- The rows that a statement over the account sees when it starts.
def Tables.codeIds (tables : Tables) : List Nat :=
  (List.range tables.nextCode).filter fun id => (tables.codes id).isSome

def Tables.approvedIds (tables : Tables) : List Nat :=
  (List.range tables.nextDevice).filter fun id => match tables.devices id with
    | some (.approved _) => true
    | _ => false

def Tables.tokenIds (tables : Tables) (deleteTokens : Bool) : List Nat :=
  (List.range tables.nextToken).filter fun id =>
    (tables.tokens id).any fun token => deleteTokens || token.active

-- Each row of the snapshot is looked at again under its lock.
def Stage.next (tables : Tables) (deleteTokens : Bool) : Stage → Stage
  | started => .locked
  | locked => .codesBegun tables.codeIds
  | codesBegun snapshot => .codesDeleted (snapshot.filter fun id => id ∈ tables.codeIds)
  | codesDeleted codes => .devicesBegun codes tables.approvedIds
  | devicesBegun codes snapshot =>
    .devicesDeleted codes (snapshot.filter fun id => id ∈ tables.approvedIds)
  | devicesDeleted codes devices => .tokensBegun codes devices (tables.tokenIds deleteTokens)
  | tokensBegun codes devices snapshot =>
    .tokensWritten codes devices (snapshot.filter fun id => id ∈ tables.tokenIds deleteTokens)
  | tokensWritten codes devices tokens => .tokensWritten codes devices tokens

def lockCode (tables : Tables) (code : Nat) : Except String Tx :=
  match tables.codes code with
  | some checkedAt => .ok (.exchangeLocked code checkedAt)
  | none => .error codeGone

def lockDevice (tables : Tables) (device : Nat) : Except String Tx :=
  match tables.devices device with
  | some (.approved checkedAt) => .ok (.pollLocked device checkedAt)
  | some .pending => .error authorizationPending
  | none => .error deviceUsed

def lockRefresh (tables : Tables) (owned : Bool) (token : Nat) : Except String Tx :=
  match tables.tokens token with
  | some row =>
    if row.refreshRevoked then .error refreshGone
    else .ok (.refreshLocked owned token row.checkedAt)
  | none => .error refreshGone

def statement (state : State) : Tx → Except String Tx
  | .consentStarted session => .ok (.consentLocked session)
  | .consentLocked session =>
    if session ∈ state.sessions then .ok (.consentChecked state.clock) else .error sessionGone
  | .approvalStarted session device => .ok (.approvalLocked session device)
  | .approvalLocked session device =>
    if session ∈ state.sessions then .ok (.approvalChecked device state.clock)
    else .error sessionGone
  | .approvalChecked device checkedAt =>
    if state.devices device = some .pending then .ok (.approvalWritten device checkedAt)
    else .error "This code has already been authorized"
  | .exchangeStarted code => lockCode state.toTables code
  -- The delete must remove exactly the code's row.
  | .exchangeLocked code checkedAt =>
    if (state.codes code).isSome then .ok (.exchangeDeleted code checkedAt) else .error codeGone
  | .pollStarted device => lockDevice state.toTables device
  | .pollLocked device checkedAt =>
    if (state.devices device).isSome then .ok (.pollDeleted device checkedAt)
    else .error deviceUsed
  | .refreshStarted token =>
    if (state.tokens token).isSome then .ok (.refreshFound token) else .ok (.refreshOwnerless token)
  | .refreshFound token => .ok (.refreshOwned token)
  | .refreshOwnerless token => lockRefresh state.toTables false token
  | .refreshOwned token => lockRefresh state.toTables true token
  -- The update must match the unrevoked row.
  | .refreshLocked owned token checkedAt =>
    if (state.tokens token).any fun row => !row.refreshRevoked then
      .ok (.refreshRevoked owned token checkedAt)
    else .error refreshGone
  | .revoking deleteTokens deletedAt stage =>
    .ok (.revoking deleteTokens deletedAt (stage.next state.toTables deleteTokens))
  | tx => .ok tx

end Statements

section Commit

-- `save_token`: the pair is stored in the transaction that consumed its credential.
def issue (tables : Tables) (credential : Credential) (checkedAt : Nat) : Tables :=
  { tables with
    tokens := Function.update tables.tokens tables.nextToken (some ⟨checkedAt, false, false⟩)
    nextToken := tables.nextToken + 1
    issued := tables.issued ++ [credential] }

def revoked (tables : Tables) (deleteTokens : Bool) (codes devices tokens : List Nat) : Tables :=
  { tables with
    codes := fun id => if id ∈ codes then none else tables.codes id
    devices := fun id => if id ∈ devices then none else tables.devices id
    tokens := fun id => if id ∈ tokens then
      if deleteTokens then none else (tables.tokens id).map Token.revoke
      else tables.tokens id }

def commit (tables : Tables) : Tx → Option Tables
  | .consentChecked checkedAt => some { tables with
      codes := Function.update tables.codes tables.nextCode (some checkedAt)
      nextCode := tables.nextCode + 1 }
  | .approvalWritten device checkedAt => some { tables with
      devices := Function.update tables.devices device (some (.approved checkedAt)) }
  | .exchangeDeleted code checkedAt =>
    some (issue { tables with codes := Function.update tables.codes code none } (.code code)
      checkedAt)
  | .pollDeleted device checkedAt =>
    some (issue { tables with devices := Function.update tables.devices device none }
      (.device device) checkedAt)
  | .refreshRevoked _ token checkedAt =>
    some (issue { tables with
      tokens := Function.update tables.tokens token ((tables.tokens token).map Token.revoke) }
      (.refresh token) checkedAt)
  -- The sessions are deleted before the commit.
  | .revoking deleteTokens (some deletedAt) (.tokensWritten codes devices tokens) =>
    some { revoked tables deleteTokens codes devices tokens with
      resets := tables.resets ++ [deletedAt] }
  | _ => none

end Commit

inductive Request
  | consent (session : SessionId)
  | approval (session : SessionId) (device : Nat)
  | exchange (code : Nat)
  | poll (device : Nat)
  | refresh (token : Nat)
  | revocation (deleteTokens : Bool)

def Request.start (state : State) : Request → Option Tx
  | consent session => some (.consentStarted session)
  | approval session device => some (.approvalStarted session device)
  | exchange code => some (.exchangeStarted code)
  | poll device => some (.pollStarted device)
  -- A refresh token is known only from the response that follows the commit of its pair.
  | refresh token => if token < state.nextToken then some (.refreshStarted token) else none
  | revocation deleteTokens => some (.revoking deleteTokens none .started)

inductive Action
  | signIn (session : SessionId)
  | addDevice
  | start (request : Request)
  | advance (index : Nat)
  | deleteSessions (index : Nat)
  | commit (index : Nat)
  | abort (index : Nat)

def State.moved (state : State) (index : Nat) (tx : Tx) : State :=
  { state with transactions := state.transactions.set index tx, clock := state.clock + 1 }

def step (state : State) : Action → Option State
  | .signIn session => some { state with
      sessions := session :: state.sessions, clock := state.clock + 1 }
  | .addDevice => some { state with
      devices := Function.update state.devices state.nextDevice (some .pending)
      nextDevice := state.nextDevice + 1 }
  | .start request => (request.start state).map fun tx =>
      { state with transactions := state.transactions ++ [tx] }
  | .advance index =>
    (state.transactions[index]?).bind fun tx =>
      match statement state tx with
      | .ok after =>
        if RowLocks.blocked Tx.clash state.transactions index after then none
        else some (state.moved index after)
      -- The error answers the request, and its transaction rolls back.
      | .error _ => some (state.moved index .closed)
  | .deleteSessions index =>
    (state.transactions[index]?).bind fun tx =>
      match tx with
      | .revoking deleteTokens _ stage =>
        some { state.moved index (.revoking deleteTokens (some state.clock) stage) with
          sessions := [] }
      | _ => none
  | .commit index =>
    (state.transactions[index]?).bind fun tx =>
      (commit state.toTables tx).map fun tables =>
        { tables with
          clock := state.clock + 1
          sessions := state.sessions
          transactions := state.transactions.set index .closed }
  | .abort index => some (state.moved index .closed)

abbrev Reached (state : State) : Prop := Runs.Reaches step (fun _ _ => True) {} state

end MemoryCloud.OAuth
