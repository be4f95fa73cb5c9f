import MemoryCloud.Secrets.Store

set_option autoImplicit false

/-!
# Grants, recipients and rotation requests

Which overlaps of a put with a revocation leave a revoked recipient without a rotation
request, and that every run without them keeps the three promises of the store.
-/

namespace MemoryCloud.Secrets

variable {fingerprint : PubkeyId → Fingerprint}

section Promises

structure Promises (fingerprint : PubkeyId → Fingerprint) (tables : Tables) : Prop where
  grantActive : ∀ secret pubkey, tables.grants secret pubkey = some .active →
    tables.pubkeys pubkey = some .active
  grantListed : ∀ secret pubkey, tables.grants secret pubkey = some .active →
    fingerprint pubkey ∈ tables.latest secret
  flagged : ∀ secret pubkey, fingerprint pubkey ∈ tables.latest secret →
    tables.pubkeys pubkey = some .revoked ∨ tables.grants secret pubkey = some .revoked →
    tables.rotationNeeded secret = true

end Promises

section Overlaps

def Tx.put? : Tx → Option Put
  | .putChecked call | .putLocked call | .putLoaded call _ | .putFlushed call _
  | .putVersioned call _ _ | .putRead call _ _ _ | .putWritten call _ _ _ _ => some call
  | _ => none

def Tx.checking? : Tx → Option Put
  | .putChecked call | .putLocked call | .putLoaded call _ | .putFlushed call _
  | .putVersioned call _ _ => some call
  | _ => none

def Tx.named? : Tx → Option (String × Loaded)
  | .putLoaded call secret | .putFlushed call secret | .putVersioned call secret _
  | .putRead call secret _ _ | .putWritten call secret _ _ _ => some (call.name, secret)
  | .deleteLoaded name secret | .deleteWritten name secret _ => some (name, some (secret, false))
  | _ => none

def Tx.reconciling? : Tx → Option (Put × Loaded × (PubkeyId → Option Grant))
  | .putRead call secret _ existing | .putWritten call secret _ existing _ =>
    some (call, secret, existing)
  | _ => none

def Tx.revoking? : Tx → Option (PubkeyId × List SecretId)
  | .revokePubkeyRead pubkey affected | .revokePubkeyWritten pubkey affected =>
    some (pubkey, affected)
  | _ => none

def Tx.leaves (tx : Tx) (pubkey : PubkeyId) (affected : List SecretId) : Prop :=
  ∃ call secret flagged existing, tx.reconciling? = some (call, some (secret, flagged), existing) ∧
    secret ∈ affected ∧ existing pubkey = some .active

def committing (fingerprint : PubkeyId → Fingerprint) (state : State) : Tx → Prop
  | .revokePubkeyWritten pubkey affected => ∀ tx ∈ state.transactions, ∀ call,
    tx.put? = some call → pubkey ∈ call.grantPubkeyIds → tx.leaves pubkey affected
  | .putWritten call secret _ _ _ => ∀ tx ∈ state.transactions, ∀ pubkey affected,
    tx.revoking? = some (pubkey, affected) → pubkey ∈ call.grantPubkeyIds →
      ∃ id flagged, secret = some (id, flagged) ∧ id ∈ affected
  -- The session loaded the flag as set, so the commit does not write it.
  | .revokeGrantWritten secret pubkey true =>
    (fingerprint pubkey ∈ state.latest secret → state.rotationNeeded secret = true) ∧
      ∀ tx ∈ state.transactions, ∀ call existing,
        tx.reconciling? = some (call, some (secret, true), existing) →
          pubkey ∉ call.grantPubkeyIds
  | _ => True

-- No commit falls between the statements of another transaction that relies on what it changes.
def Undisturbed (fingerprint : PubkeyId → Fingerprint) (state : State) : StoreAction → Prop
  | .commit index => ∀ tx, state.transactions[index]? = some tx → committing fingerprint state tx
  | _ => True

end Overlaps

section Invariant

structure Consistent (fingerprint : PubkeyId → Fingerprint) (tables : Tables) : Prop
    extends Promises fingerprint tables where
  granted : ∀ secret pubkey, fingerprint pubkey ∈ tables.latest secret →
    tables.grants secret pubkey ≠ none
  unique : ∀ left right (first second : Secret), tables.secrets left = some first →
    tables.secrets right = some second → first.name = second.name → left = right
  bounded : ∀ secret, tables.nextSecret ≤ secret → tables.secrets secret = none
  empty : ∀ secret, tables.secrets secret = none →
    tables.versions secret = [] ∧ ∀ pubkey, tables.grants secret pubkey = none
  registered : ∀ pubkey, tables.nextPubkey ≤ pubkey → tables.pubkeys pubkey = none

def Approved (tables : Tables) (call : Put) : Prop :=
  ∀ pubkey ∈ call.grantPubkeyIds, tables.pubkeys pubkey = some .active

def Matched (fingerprint : PubkeyId → Fingerprint) (call : Put) : Prop :=
  ∀ pubkey, fingerprint pubkey ∈ call.recipientsSnapshot ↔ pubkey ∈ call.grantPubkeyIds

def Named (tables : Tables) (name : String) : Loaded → Prop
  | some (id, _) => ∃ secret, tables.secrets id = some secret ∧ secret.name = name
  | none => ∀ id secret, tables.secrets id = some secret → secret.name ≠ name

-- What a put has read of a grant still stands, or was revoked under a flag that it leaves.
def Read (tables : Tables) (call : Put) (existing : PubkeyId → Option Grant) (pubkey : PubkeyId) :
    Loaded → Prop
  | some (id, flagged) =>
    tables.grants id pubkey = existing pubkey ∧
        (pubkey ∈ call.grantPubkeyIds → tables.pubkeys pubkey = some .active) ∨
      existing pubkey = some .active ∧ tables.grants id pubkey = some .revoked ∧
        (pubkey ∈ call.grantPubkeyIds → tables.rotationNeeded id = true ∧ flagged = false)
  | none => existing pubkey = none ∧
    (pubkey ∈ call.grantPubkeyIds → tables.pubkeys pubkey = some .active)

def Found (fingerprint : PubkeyId → Fingerprint) (tables : Tables) (pubkey : PubkeyId)
    (affected : List SecretId) : Prop :=
  ∀ secret, fingerprint pubkey ∈ tables.latest secret → secret ∈ affected ∨
    tables.grants secret pubkey = some .revoked ∧ tables.rotationNeeded secret = true

structure Holds (fingerprint : PubkeyId → Fingerprint) (tables : Tables) (tx : Tx) : Prop where
  approved : ∀ call, tx.checking? = some call → Approved tables call
  matched : ∀ call, tx.put? = some call → Matched fingerprint call
  named : ∀ name secret, tx.named? = some (name, secret) → Named tables name secret
  read : ∀ call secret existing, tx.reconciling? = some (call, secret, existing) →
    ∀ pubkey, Read tables call existing pubkey secret
  found : ∀ pubkey affected, tx.revoking? = some (pubkey, affected) →
    Found fingerprint tables pubkey affected

structure Invariant (fingerprint : PubkeyId → Fingerprint) (state : State) : Prop where
  consistent : Consistent fingerprint state.toTables
  holds : ∀ tx ∈ state.transactions, Holds fingerprint state.toTables tx
  exclusive : RowLocks.Exclusive (RowLocks.sharing Tx.rows) state.transactions

end Invariant

section Statements

theorem find?_some {tables : Tables} {name : String} {id : SecretId} {secret : Secret}
    (found : tables.find? name = some (id, secret)) :
    tables.secrets id = some secret ∧ secret.name = name := by
  obtain ⟨other, _, inside⟩ := List.exists_of_findSome?_eq_some found
  obtain ⟨row, stored, chosen⟩ := Option.bind_eq_some_iff.mp inside
  split at chosen
  next same =>
    cases chosen
    exact ⟨stored, same⟩
  next => cases chosen

theorem find?_none {tables : Tables} {name : String}
    (bounded : ∀ secret, tables.nextSecret ≤ secret → tables.secrets secret = none)
    (missing : tables.find? name = none) {id : SecretId} {secret : Secret}
    (stored : tables.secrets id = some secret) : secret.name ≠ name := by
  intro same
  have inside : id < tables.nextSecret := by
    by_contra outside
    rw [bounded id (Nat.le_of_not_lt outside)] at stored
    cases stored
  have absent := List.findSome?_eq_none_iff.mp missing id (List.mem_range.mpr inside)
  simp [stored, same] at absent

theorem Put.check_ok {pubkeys : PubkeyId → Option PubkeyStatus} {call : Put}
    (accepted : call.check fingerprint pubkeys = .ok ()) :
    (∀ pubkey ∈ call.grantPubkeyIds, pubkeys pubkey = some .active) ∧
      call.snapshotMatches fingerprint = true := by
  simp only [Put.check] at accepted
  split_ifs at accepted with _ _ _ _ _ approved _ matching
  refine ⟨fun pubkey listed => ?_, by simpa using matching⟩
  by_contra pending
  exact approved (List.ne_nil_of_mem (List.mem_filter.mpr ⟨listed, by simpa using pending⟩))

theorem matched_of_snapshotMatches (injective : Function.Injective fingerprint) {call : Put}
    (matching : call.snapshotMatches fingerprint = true) : Matched fingerprint call := by
  intro pubkey
  simp only [Put.snapshotMatches, Bool.and_eq_true, List.all_eq_true, decide_eq_true_eq] at matching
  constructor
  next =>
    intro listed
    obtain ⟨other, granted, same⟩ := List.mem_map.mp (matching.1 _ listed)
    rwa [← injective same]
  next =>
    intro granted
    exact matching.2 _ (List.mem_map_of_mem granted)

-- A transaction that has read nothing to rely on.
theorem holds_of_unread {tables : Tables} {tx : Tx} (checking : tx.checking? = none)
    (put : tx.put? = none) (named : tx.named? = none) (revoking : tx.revoking? = none)
    (reconciling : tx.reconciling? = none) : Holds fingerprint tables tx where
  approved _ view := by simp [checking] at view
  matched _ view := by simp [put] at view
  named _ _ view := by simp [named] at view
  read _ _ _ view := by simp [reconciling] at view
  found _ _ view := by simp [revoking] at view

theorem holds_start (injective : Function.Injective fingerprint) {tables : Tables} {call : Call}
    {tx : Tx} (started : call.start fingerprint tables = .ok tx) :
    Holds fingerprint tables tx ∧ tx.rows = [] := by
  cases call with
  | put call =>
    simp only [Call.start, putSecret] at started
    split at started
    next accepted =>
      cases started
      have checked := Put.check_ok accepted
      refine ⟨⟨?_, ?_, nofun, nofun, nofun⟩, rfl⟩
      next =>
        rintro _ ⟨⟩
        exact checked.1
      next =>
        rintro _ ⟨⟩
        exact matched_of_snapshotMatches injective checked.2
    next => cases started
  | revokePubkey pubkey =>
    cases known : tables.pubkeys pubkey with
    | none => simp [Call.start, Secrets.revokePubkey, loadPubkey, known, bind, Except.bind] at started
    | some status =>
      simp only [Call.start, Secrets.revokePubkey, loadPubkey, known, bind, Except.bind] at started
      split at started
      next => cases started
      next =>
        cases started
        exact ⟨holds_of_unread rfl rfl rfl rfl rfl, rfl⟩
  | revokeGrant name pubkey =>
    simp only [Call.start, Secrets.revokeGrant] at started
    split at started
    next =>
      cases started
      exact ⟨holds_of_unread rfl rfl rfl rfl rfl, rfl⟩
    next => cases started
  | approvePubkey pubkey =>
    cases known : tables.pubkeys pubkey with
    | none => simp [Call.start, Secrets.approvePubkey, loadPubkey, known, bind, Except.bind] at started
    | some status =>
      simp only [Call.start, Secrets.approvePubkey, loadPubkey, known, bind, Except.bind] at started
      split at started
      next => cases started
      next =>
        cases started
        exact ⟨holds_of_unread rfl rfl rfl rfl rfl, rfl⟩
  | deleteSecret name =>
    cases started
    exact ⟨holds_of_unread rfl rfl rfl rfl rfl, rfl⟩

theorem named_find? {tables : Tables} (consistent : Consistent fingerprint tables) (name : String) :
    Named tables name ((tables.find? name).map fun found =>
      (found.1, found.2.rotationNeeded)) := by
  cases found : tables.find? name with
  | none => exact fun id secret stored => find?_none consistent.bounded found stored
  | some pair => exact ⟨pair.2, find?_some found⟩

theorem read_grantsOf {tables : Tables} {call : Put} (approved : Approved tables call)
    (secret : Loaded) (pubkey : PubkeyId) :
    Read tables call (grantsOf tables secret) pubkey secret := by
  cases secret with
  | none => exact ⟨rfl, approved pubkey⟩
  | some pair => exact .inl ⟨rfl, approved pubkey⟩

theorem found_affected {tables : Tables} (consistent : Consistent fingerprint tables)
    (pubkey : PubkeyId) : Found fingerprint tables pubkey
      ((List.range tables.nextSecret).filter fun id => tables.grants id pubkey = some .active) := by
  intro secret listed
  cases known : tables.grants secret pubkey with
  | none => exact absurd known (consistent.granted secret pubkey listed)
  | some grant =>
    cases grant with
    | active =>
      refine .inl (List.mem_filter.mpr ⟨List.mem_range.mpr ?_, by simp [known]⟩)
      by_contra outside
      have gone := consistent.bounded secret (Nat.le_of_not_lt outside)
      simp [(consistent.empty secret gone).2] at known
    | revoked => exact .inr ⟨rfl, consistent.flagged secret pubkey listed (.inr known)⟩

theorem holds_statement {tables : Tables} (consistent : Consistent fingerprint tables) {tx after : Tx}
    (holds : Holds fingerprint tables tx) (taken : statement tables tx = .ok after) :
    Holds fingerprint tables after := by
  cases tx with
  | putLocked call =>
    cases taken
    refine { holds with named := ?_ }
    rintro _ _ ⟨⟩
    exact named_find? consistent call.name
  | putVersioned call secret number =>
    cases taken
    refine { holds with approved := nofun, read := ?_ }
    rintro _ _ _ ⟨⟩
    exact read_grantsOf (holds.approved call rfl) secret
  | revokePubkeyFlushed pubkey =>
    cases taken
    refine { holds with found := ?_ }
    rintro _ _ ⟨⟩
    exact found_affected consistent pubkey
  | revokeGrantLoaded secret pubkey flagged =>
    simp only [statement] at taken
    split at taken
    next =>
      cases taken
      exact holds_of_unread rfl rfl rfl rfl rfl
    next => cases taken
  | deleteLocked name =>
    simp only [statement] at taken
    split at taken
    next id secret found =>
      cases taken
      refine { holds with named := ?_ }
      rintro _ _ ⟨⟩
      exact ⟨_, find?_some found⟩
    next => cases taken
  | _ =>
    cases taken
    exact ⟨holds.approved, holds.matched, holds.named, holds.read, holds.found⟩

end Statements

end MemoryCloud.Secrets
