import MemoryCloud.Changes.Cursor
import MemoryCloud.Shared.Json
import MemoryCloud.Shared.Runs

set_option autoImplicit false

/-!
# The audit chain of the secret store

`_append_audit`, `_audit_payload` and `verify_audit_chain` of
`services/secret_store_service.py`, and the two updates by which an account erasure
rewrites identities in the log. The keyed digest and the pseudonym are parameters.
-/

namespace MemoryCloud.Secrets

open MemoryCloud.Changes

inductive AuditAction
  | register | approve | put | get | revoke | delete
  deriving DecidableEq

def AuditAction.text : AuditAction → String
  | register => "register"
  | approve => "approve"
  | put => "put"
  | get => "get"
  | revoke => "revoke"
  | delete => "delete"

inductive AuditResult
  | ok | denied | error
  deriving DecidableEq

def AuditResult.text : AuditResult → String
  | ok => "ok"
  | denied => "denied"
  | error => "error"

-- What a call asks to be logged. `None` and a JSON null are both read as `null`.
structure AuditEntry where
  workspaceId : Uuid
  actorUserId : String
  action : AuditAction
  result : AuditResult
  secretId : Option Uuid
  versionId : Option Uuid
  recipientIdentity : Option String
  reqMeta : Json
  createdAt : DateTime

structure SecretAccessLog extends AuditEntry where
  id : Nat
  prevHash : String
  entryHash : String

def auditGenesisHash : String := "0000000000000000000000000000000000000000000000000000000000000000"

section Payload

def idText (id : Option Uuid) : String :=
  match id with
  | some id => String.ofList (Uuid.text id)
  | none => ""

-- `req_meta or {}`
def metaOrEmpty (reqMeta : Json) : Json := if reqMeta.truthy then reqMeta else .object []

def auditFields (prevHash : String) (entry : AuditEntry) : List Json :=
  [.string prevHash, .string (idText (some entry.workspaceId)), .string (idText entry.secretId),
    .string (idText entry.versionId), .string (entry.recipientIdentity.getD ""),
    .string entry.actorUserId, .string entry.action.text, .string entry.result.text,
    .string (String.ofList entry.createdAt.isoformat), metaOrEmpty entry.reqMeta]

def auditPayload (prevHash : String) (entry : AuditEntry) : List Char :=
  Json.dumps (.array (auditFields prevHash entry))

end Payload

section Pseudonyms

def isHexDigit (character : Char) : Bool :=
  character.isDigit || ('a' ≤ character && character ≤ 'f') || ('A' ≤ character && character ≤ 'F')

-- The pattern's `$` also matches before a newline at the end.
def pseudonymRe (text : String) : Bool :=
  (text.toList.take 64).length = 64 && (text.toList.take 64).all isHexDigit &&
    (text.toList.drop 64 = [] || text.toList.drop 64 = ['\n'])

def entryMutationIsErasureShaped (entry : AuditEntry) : Bool :=
  pseudonymRe entry.actorUserId || pseudonymRe (entry.recipientIdentity.getD "")

end Pseudonyms

-- `rows` stand in id order; `erased` notes the rows that an erasure has rewritten.
structure Log where
  rows : List SecretAccessLog := []
  nextId : Nat := 1
  erased : List Nat := []

def Log.ofWorkspace (log : Log) (workspaceId : Uuid) : List SecretAccessLog :=
  log.rows.filter fun row => decide (row.workspaceId = workspaceId)

variable (hmac : List Char → String) (pseudonym : String → String)

section Append

-- `scalar_one_or_none() or AUDIT_GENESIS_HASH`
def prevHashOf (rows : List SecretAccessLog) : String :=
  match rows.getLast? with
  | some row => if row.entryHash = "" then auditGenesisHash else row.entryHash
  | none => auditGenesisHash

def logged (log : Log) (entry : AuditEntry) : SecretAccessLog :=
  let prevHash := prevHashOf (log.ofWorkspace entry.workspaceId)
  { entry with
    id := log.nextId
    prevHash := prevHash
    entryHash := hmac (auditPayload prevHash entry) }

-- A second row with the same predecessor fails and costs an id.
def appendAudit (log : Log) (entry : AuditEntry) : Log :=
  let row := logged hmac log entry
  if row.prevHash ∈ (log.ofWorkspace entry.workspaceId).map SecretAccessLog.prevHash then
    { log with nextId := log.nextId + 1 }
  else { log with rows := log.rows ++ [row], nextId := log.nextId + 1 }

end Append

section Erase

def eraseActor (userId : String) (row : SecretAccessLog) : SecretAccessLog :=
  if row.actorUserId = userId then { row with actorUserId := pseudonym userId } else row

def eraseRecipient (userId : String) (row : SecretAccessLog) : SecretAccessLog :=
  if row.recipientIdentity = some userId then { row with recipientIdentity := some (pseudonym userId) }
  else row

def Log.rewritten (log : Log) (matched : SecretAccessLog → Bool)
    (rewrite : SecretAccessLog → SecretAccessLog) : Log :=
  { log with
    rows := log.rows.map rewrite
    erased := log.erased ++ (log.rows.filter matched).map SecretAccessLog.id }

end Erase

-- The two updates of an erasure are apart: an append may commit between them.
inductive Action
  | append (entry : AuditEntry)
  | rolledBack
  | eraseActor (userId : String)
  | eraseRecipient (userId : String)

def step (log : Log) : Action → Option Log
  | .append entry => some (appendAudit hmac log entry)
  | .rolledBack => some { log with nextId := log.nextId + 1 }
  | .eraseActor userId => some (log.rewritten (fun row => decide (row.actorUserId = userId))
      (eraseActor pseudonym userId))
  | .eraseRecipient userId =>
    some (log.rewritten (fun row => decide (row.recipientIdentity = some userId))
      (eraseRecipient pseudonym userId))

abbrev Reached (log : Log) : Prop :=
  Runs.Reaches (step hmac pseudonym) (fun _ _ => True) {} log

section Verify

inductive Reason
  | prevHashMismatch | entryHashMismatch
  deriving DecidableEq

inductive Verdict
  | valid (entries : Nat) (head : String) (erasurePseudonymized : List Nat)
  | invalid (brokenAt : Nat) (reason : Reason)
  deriving DecidableEq

def Verdict.isValid : Verdict → Bool
  | valid _ _ _ => true
  | invalid _ _ => false

def hashMatches (row : SecretAccessLog) : Bool :=
  decide (hmac (auditPayload row.prevHash row.toAuditEntry) = row.entryHash)

def walk (total : Nat) : String → List Nat → List SecretAccessLog → Verdict
  | expectedPrev, listed, [] => .valid total expectedPrev listed
  | expectedPrev, listed, row :: rest =>
    if row.prevHash ≠ expectedPrev then .invalid row.id .prevHashMismatch
    else if hashMatches hmac row then walk total row.entryHash listed rest
    else if entryMutationIsErasureShaped row.toAuditEntry then
      walk total row.entryHash (listed ++ [row.id]) rest
    else .invalid row.id .entryHashMismatch

def verifyAuditChain (log : Log) (workspaceId : Uuid) : Verdict :=
  let entries := log.ofWorkspace workspaceId
  walk hmac entries.length auditGenesisHash [] entries

end Verify

section Tamper

inductive Edit
  | workspaceId (value : Uuid)
  | secretId (value : Option Uuid)
  | versionId (value : Option Uuid)
  | action (value : AuditAction)
  | result (value : AuditResult)
  | createdAt (value : DateTime)
  | reqMeta (value : Json)
  | prevHash (value : String)
  | entryHash (value : String)

def Edit.apply (row : SecretAccessLog) : Edit → SecretAccessLog
  | workspaceId value => { row with workspaceId := value }
  | secretId value => { row with secretId := value }
  | versionId value => { row with versionId := value }
  | action value => { row with action := value }
  | result value => { row with result := value }
  | createdAt value => { row with createdAt := value }
  | reqMeta value => { row with reqMeta := value }
  | prevHash value => { row with prevHash := value }
  | entryHash value => { row with entryHash := value }

def Log.edited (log : Log) (id : Nat) (edit : Edit) : Log :=
  { log with rows := log.rows.map fun row => if row.id = id then edit.apply row else row }

def Log.removed (log : Log) (id : Nat) : Log :=
  { log with rows := log.rows.filter fun row => decide (row.id ≠ id) }

def Log.isLast (log : Log) (row : SecretAccessLog) : Prop :=
  (log.ofWorkspace row.workspaceId).getLast? = some row

end Tamper

end MemoryCloud.Secrets
