import Mathlib.Data.List.Sort
import MemoryCloud.Shared.RowLocks
import MemoryCloud.Shared.Runs

set_option autoImplicit false

/-!
# The secret store under concurrent transactions

`put_secret`, `_reconcile_grants`, `revoke_pubkey`, `revoke_grant`, `approve_pubkey` and
`delete_secret` of `services/secret_store_service.py`, one statement a step. A statement
reads what is committed; an update waits while another transaction has written the row
and takes effect at the commit. The session compares an assignment with the value it
loaded, so an unchanged flag is not written. The audit lock only orders the last
statements before a commit, which are one step here.
-/

namespace MemoryCloud.Secrets

abbrev PubkeyId := Nat
abbrev SecretId := Nat
abbrev Fingerprint := String

inductive PubkeyStatus
  | pending | active | revoked
  deriving DecidableEq

def PubkeyStatus.text : PubkeyStatus → String
  | pending => "pending"
  | active => "active"
  | revoked => "revoked"

-- A grant row, by whether its `revoked_at` is NULL.
inductive Grant
  | active | revoked
  deriving DecidableEq

structure Secret where
  name : String
  rotationNeeded : Bool
  deriving DecidableEq

structure SecretVersion where
  versionNumber : Nat
  ciphertext : String
  recipientsSnapshot : List Fingerprint
  deriving DecidableEq

-- What is committed. Ids are handed out in turn; the versions of a secret stand in the
-- order of their numbers.
structure Tables where
  pubkeys : PubkeyId → Option PubkeyStatus := fun _ => none
  secrets : SecretId → Option Secret := fun _ => none
  versions : SecretId → List SecretVersion := fun _ => []
  grants : SecretId → PubkeyId → Option Grant := fun _ _ => none
  nextPubkey : PubkeyId := 0
  nextSecret : SecretId := 0

def Tables.latest (tables : Tables) (secret : SecretId) : List Fingerprint :=
  ((tables.versions secret).getLast?.map SecretVersion.recipientsSnapshot).getD []

def Tables.rotationNeeded (tables : Tables) (secret : SecretId) : Bool :=
  ((tables.secrets secret).map Secret.rotationNeeded).getD false

def Tables.find? (tables : Tables) (name : String) : Option (SecretId × Secret) :=
  (List.range tables.nextSecret).findSome? fun id =>
    (tables.secrets id).bind fun secret => if secret.name = name then some (id, secret) else none

structure Put where
  name : String
  ciphertext : String
  recipientsSnapshot : List Fingerprint
  grantPubkeyIds : List PubkeyId

section Check

def secretNameMaxLen : Nat := 255

def ciphertextMaxLen : Nat := 256 * 1024

def listText (items : List String) : String :=
  "[" ++ ", ".intercalate (items.map fun item => "'" ++ item ++ "'") ++ "]"

inductive PutError
  | name | noCiphertext | longCiphertext | noRecipient
  | unknown (ids : List PubkeyId)
  | notApproved (fingerprints : List Fingerprint)
  | duplicates | mismatch

def PutError.message : PutError → String
  | name => "Secret name must be 1–255 characters"
  | noCiphertext => "ciphertext is required (the server never receives plaintext)"
  | longCiphertext => "ciphertext exceeds 262144 bytes"
  | noRecipient => "At least one grant recipient is required"
  | unknown ids => "Unknown recipient pubkey(s) in this workspace: " ++ listText (ids.map toString)
  | notApproved fingerprints =>
    "Grants may only target approved (active) pubkeys; not approved: " ++
      listText (fingerprints.map fun text => String.ofList (text.toList.take 12))
  | duplicates => "recipients_snapshot contains duplicate fingerprints"
  | mismatch => "recipients_snapshot does not match the granted recipients " ++
      "(the ciphertext must be encrypted to exactly the granted pubkeys)"

variable (fingerprint : PubkeyId → Fingerprint)

-- `set(recipients_snapshot) == {p.fingerprint for p in pubkeys}`
def Put.snapshotMatches (call : Put) : Bool :=
  (call.recipientsSnapshot.all fun text => text ∈ call.grantPubkeyIds.map fingerprint) &&
    (call.grantPubkeyIds.map fingerprint).all fun text => text ∈ call.recipientsSnapshot

-- What `put_secret` checks before it takes any lock.
def Put.check (pubkeys : PubkeyId → Option PubkeyStatus) (call : Put) : Except PutError Unit :=
  let missing := call.grantPubkeyIds.filter fun id => pubkeys id = none
  let notActive := call.grantPubkeyIds.filter fun id => pubkeys id ≠ some .active
  if call.name.length = 0 ∨ secretNameMaxLen < call.name.length then .error .name
  else if call.ciphertext.length = 0 then .error .noCiphertext
  else if ciphertextMaxLen < call.ciphertext.length then .error .longCiphertext
  else if call.grantPubkeyIds = [] then .error .noRecipient
  else if missing ≠ [] then .error (.unknown missing)
  else if notActive ≠ [] then .error (.notApproved (notActive.map fingerprint))
  else if ¬ call.recipientsSnapshot.Nodup then .error .duplicates
  else if !call.snapshotMatches fingerprint then .error .mismatch
  else .ok ()

end Check

-- The secret a put has loaded, with its flag; `none` is one it creates.
abbrev Loaded := Option (SecretId × Bool)

-- A transaction at its next statement.
inductive Tx
  | closed
  | putChecked (call : Put)
  | putLocked (call : Put)
  | putLoaded (call : Put) (secret : Loaded)
  | putFlushed (call : Put) (secret : Loaded)
  | putVersioned (call : Put) (secret : Loaded) (number : Nat)
  | putRead (call : Put) (secret : Loaded) (number : Nat) (existing : PubkeyId → Option Grant)
  | putWritten (call : Put) (secret : Loaded) (number : Nat) (existing : PubkeyId → Option Grant)
      (written : List PubkeyId)
  | revokePubkeyLoaded (pubkey : PubkeyId)
  | revokePubkeyFlushed (pubkey : PubkeyId)
  | revokePubkeyRead (pubkey : PubkeyId) (affected : List SecretId)
  | revokePubkeyWritten (pubkey : PubkeyId) (affected : List SecretId)
  | revokeGrantLoaded (secret : SecretId) (pubkey : PubkeyId) (flagged : Bool)
  | revokeGrantRead (secret : SecretId) (pubkey : PubkeyId) (flagged : Bool)
  | revokeGrantWritten (secret : SecretId) (pubkey : PubkeyId) (flagged : Bool)
  | approveLoaded (pubkey : PubkeyId)
  | approveWritten (pubkey : PubkeyId)
  | deleteStarted (name : String)
  | deleteLocked (name : String)
  | deleteLoaded (name : String) (secret : SecretId)
  | deleteWritten (name : String) (secret : SecretId) (grants : List PubkeyId)

section Locks

inductive Row
  | name (name : String)
  | pubkey (id : PubkeyId)
  | secret (id : SecretId)
  | grant (secret : SecretId) (pubkey : PubkeyId)
  deriving DecidableEq

-- The flag is written only when it was loaded as set.
def clearedRow : Loaded → List Row
  | some (id, true) => [.secret id]
  | _ => []

def grantRows (secret : Loaded) (written : List PubkeyId) : List Row :=
  match secret with
  | some (id, _) => written.map (.grant id)
  | none => []

def Tx.rows : Tx → List Row
  | putLocked call | putLoaded call _ => [.name call.name]
  | putFlushed call secret | putVersioned call secret _ | putRead call secret _ _ =>
    .name call.name :: clearedRow secret
  | putWritten call secret _ _ written =>
    .name call.name :: clearedRow secret ++ grantRows secret written
  | revokePubkeyFlushed pubkey | revokePubkeyRead pubkey _ => [.pubkey pubkey]
  | revokePubkeyWritten pubkey affected =>
    .pubkey pubkey :: affected.map (fun id => .grant id pubkey) ++ affected.map .secret
  | revokeGrantWritten secret pubkey flagged =>
    .grant secret pubkey :: if flagged then [] else [.secret secret]
  | approveWritten pubkey => [.pubkey pubkey]
  | deleteLocked name | deleteLoaded name _ => [.name name]
  | deleteWritten name secret grants =>
    .name name :: .secret secret :: grants.map (.grant secret)
  | _ => []

end Locks

section Reconcile

-- What `_reconcile_grants` writes to the grant of a pubkey, if anything.
def reconciled (targets : List PubkeyId) (existing : PubkeyId → Option Grant) (pubkey : PubkeyId) :
    Option Grant :=
  if pubkey ∈ targets then
    match existing pubkey with
    | none => some .active
    | some .revoked => some .active
    | some .active => none
  else if existing pubkey = some .active then some .revoked
  else none

end Reconcile

structure State extends Tables where
  transactions : List Tx := []

section Statements

-- The first statement of each call.
def loadPubkey (tables : Tables) (pubkey : PubkeyId) : Except String PubkeyStatus :=
  match tables.pubkeys pubkey with
  | some status => .ok status
  | none => .error "Recipient pubkey not found"

def approvePubkey (tables : Tables) (pubkey : PubkeyId) : Except String Tx := do
  let status ← loadPubkey tables pubkey
  if status ≠ .pending then .error ("Pubkey is not pending (status=" ++ status.text ++ ")")
  else .ok (.approveLoaded pubkey)

def revokePubkey (tables : Tables) (pubkey : PubkeyId) : Except String Tx := do
  let status ← loadPubkey tables pubkey
  if status = .revoked then .error "Pubkey is already revoked"
  else .ok (.revokePubkeyLoaded pubkey)

def revokeGrant (tables : Tables) (name : String) (pubkey : PubkeyId) : Except String Tx :=
  match tables.find? name with
  | some (id, secret) => .ok (.revokeGrantLoaded id pubkey secret.rotationNeeded)
  | none => .error "Secret not found"

def putSecret (fingerprint : PubkeyId → Fingerprint) (tables : Tables) (call : Put) :
    Except String Tx :=
  match call.check fingerprint tables.pubkeys with
  | .ok _ => .ok (.putChecked call)
  | .error error => .error error.message

def nextVersion (tables : Tables) : Loaded → Nat
  | some (id, _) =>
    ((tables.versions id).getLast?.map SecretVersion.versionNumber).getD 0 + 1
  | none => 1

def grantsOf (tables : Tables) : Loaded → PubkeyId → Option Grant
  | some (id, _) => tables.grants id
  | none => fun _ => none

-- Every later statement up to the last one before the commit.
def statement (tables : Tables) : Tx → Except String Tx
  | .putChecked call => .ok (.putLocked call)
  | .putLocked call =>
    .ok (.putLoaded call ((tables.find? call.name).map fun found =>
      (found.1, found.2.rotationNeeded)))
  | .putLoaded call secret => .ok (.putFlushed call secret)
  | .putFlushed call secret => .ok (.putVersioned call secret (nextVersion tables secret))
  | .putVersioned call secret number =>
    .ok (.putRead call secret number (grantsOf tables secret))
  | .putRead call secret number existing =>
    .ok (.putWritten call secret number existing
      ((List.range tables.nextPubkey).filter fun pubkey =>
        (reconciled call.grantPubkeyIds existing pubkey).isSome))
  | .revokePubkeyLoaded pubkey => .ok (.revokePubkeyFlushed pubkey)
  | .revokePubkeyFlushed pubkey =>
    .ok (.revokePubkeyRead pubkey ((List.range tables.nextSecret).filter fun id =>
      tables.grants id pubkey = some .active))
  | .revokePubkeyRead pubkey affected => .ok (.revokePubkeyWritten pubkey affected)
  | .revokeGrantLoaded secret pubkey flagged =>
    if tables.grants secret pubkey = some .active then .ok (.revokeGrantRead secret pubkey flagged)
    else .error "Active grant not found"
  | .revokeGrantRead secret pubkey flagged => .ok (.revokeGrantWritten secret pubkey flagged)
  | .approveLoaded pubkey => .ok (.approveWritten pubkey)
  | .deleteStarted name => .ok (.deleteLocked name)
  | .deleteLocked name =>
    match tables.find? name with
    | some (id, _) => .ok (.deleteLoaded name id)
    | none => .error "Secret not found"
  | .deleteLoaded name secret => .ok (.deleteWritten name secret (List.range tables.nextPubkey))
  | tx => .ok tx

end Statements

section Commit

def setSecret (tables : Tables) (id : SecretId) (change : Secret → Secret) : Tables :=
  { tables with
    secrets := Function.update tables.secrets id ((tables.secrets id).map change) }

def storeVersion (tables : Tables) (call : Put) (id : SecretId) (number : Nat)
    (existing : PubkeyId → Option Grant) : Tables :=
  let version :=
    { versionNumber := number
      ciphertext := call.ciphertext
      recipientsSnapshot := call.recipientsSnapshot.dedup.insertionSort (· ≤ ·) }
  { tables with
    versions := Function.update tables.versions id (tables.versions id ++ [version])
    grants := Function.update tables.grants id fun pubkey =>
      (reconciled call.grantPubkeyIds existing pubkey).or (tables.grants id pubkey) }

-- An update finds no row that has been deleted meanwhile.
def commit (tables : Tables) : Tx → Option Tables
  | .putWritten call (some (id, flagged)) number existing _ =>
    let cleared := if flagged then
      setSecret tables id fun secret => { secret with rotationNeeded := false } else tables
    some (storeVersion cleared call id number existing)
  | .putWritten call none number existing _ =>
    let id := tables.nextSecret
    let created := { tables with
      secrets := Function.update tables.secrets id (some ⟨call.name, false⟩)
      nextSecret := id + 1 }
    some (storeVersion created call id number existing)
  | .revokePubkeyWritten pubkey affected => some { tables with
      pubkeys := Function.update tables.pubkeys pubkey
        ((tables.pubkeys pubkey).map fun _ => .revoked)
      grants := fun id other => if id ∈ affected ∧ other = pubkey then
        (tables.grants id other).map fun _ => .revoked else tables.grants id other
      secrets := fun id => if id ∈ affected then
        (tables.secrets id).map fun secret => { secret with rotationNeeded := true }
        else tables.secrets id }
  | .revokeGrantWritten secret pubkey flagged =>
    let raised := if flagged then tables else
      setSecret tables secret fun row => { row with rotationNeeded := true }
    some { raised with
      grants := fun id other => if id = secret ∧ other = pubkey then
        (tables.grants id other).map fun _ => .revoked else tables.grants id other }
  | .approveWritten pubkey => some { tables with
      pubkeys := Function.update tables.pubkeys pubkey
        ((tables.pubkeys pubkey).map fun _ => .active) }
  | .deleteWritten _ secret _ => some { tables with
      secrets := Function.update tables.secrets secret none
      versions := Function.update tables.versions secret []
      grants := Function.update tables.grants secret fun _ => none }
  | _ => none

end Commit

inductive Call
  | put (call : Put)
  | revokePubkey (pubkey : PubkeyId)
  | revokeGrant (name : String) (pubkey : PubkeyId)
  | approvePubkey (pubkey : PubkeyId)
  | deleteSecret (name : String)

-- `register_pubkey` is one statement of interest: a pending row.
inductive StoreAction
  | register
  | start (call : Call)
  | advance (index : Nat)
  | commit (index : Nat)
  | abort (index : Nat)

section Steps

variable (fingerprint : PubkeyId → Fingerprint)

def Call.start (tables : Tables) : Call → Except String Tx
  | put call => putSecret fingerprint tables call
  | revokePubkey pubkey => Secrets.revokePubkey tables pubkey
  | revokeGrant name pubkey => Secrets.revokeGrant tables name pubkey
  | approvePubkey pubkey => Secrets.approvePubkey tables pubkey
  | deleteSecret name => .ok (.deleteStarted name)

def State.moved (state : State) (index : Nat) (tx : Tx) : State :=
  { state with transactions := state.transactions.set index tx }

def storeStep (state : State) : StoreAction → Option State
  | .register => some { state with
      pubkeys := Function.update state.pubkeys state.nextPubkey (some .pending)
      nextPubkey := state.nextPubkey + 1 }
  | .start call =>
    match call.start fingerprint state.toTables with
    | .ok tx => some { state with transactions := state.transactions ++ [tx] }
    | .error _ => some state
  | .advance index =>
    (state.transactions[index]?).bind fun tx =>
      match statement state.toTables tx with
      | .ok after =>
        if RowLocks.blocked (RowLocks.sharing Tx.rows) state.transactions index after then none
        else some (state.moved index after)
      -- The error leaves the request, and its session rolls back.
      | .error _ => some (state.moved index .closed)
  | .commit index =>
    (state.transactions[index]?).bind fun tx =>
      (commit state.toTables tx).map fun tables =>
        { tables with transactions := state.transactions.set index .closed }
  | .abort index => some (state.moved index .closed)

end Steps

end MemoryCloud.Secrets
