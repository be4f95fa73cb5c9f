import MemoryCloud.Secrets.Grants

set_option autoImplicit false

/-!
# Commits of approvals and revocations

What they leave of the tables and of the reads of the other open transactions.
-/

namespace MemoryCloud.Secrets

variable {fingerprint : PubkeyId → Fingerprint}

section Views

variable {tx : Tx}

theorem name_mem_rows {name : String} {secret : Loaded} (named : tx.named? = some (name, secret)) :
    .name name ∈ tx.rows := by
  cases tx <;> simp_all [Tx.named?, Tx.rows]

theorem reconciling_views {call : Put} {secret : Loaded} {existing : PubkeyId → Option Grant}
    (reconciling : tx.reconciling? = some (call, secret, existing)) :
    tx.put? = some call ∧ tx.named? = some (call.name, secret) ∧
      ∀ row ∈ clearedRow secret, row ∈ tx.rows := by
  cases tx <;> simp_all [Tx.reconciling?, Tx.put?, Tx.named?, Tx.rows]

theorem checking_put {call : Put} (checking : tx.checking? = some call) :
    tx.put? = some call ∧ tx.reconciling? = none := by
  cases tx <;> simp_all [Tx.checking?, Tx.put?, Tx.reconciling?]

end Views

section Approve

-- Approvals and registrations: no key stops being active, none becomes revoked.
structure Approves (before after : Tables) : Prop where
  secrets : after.secrets = before.secrets
  versions : after.versions = before.versions
  grants : after.grants = before.grants
  nextSecret : after.nextSecret = before.nextSecret
  active : ∀ pubkey, before.pubkeys pubkey = some .active → after.pubkeys pubkey = some .active
  revoked : ∀ pubkey, after.pubkeys pubkey = some .revoked → before.pubkeys pubkey = some .revoked
  registered : ∀ pubkey, after.nextPubkey ≤ pubkey → after.pubkeys pubkey = none

variable {before after : Tables}

theorem Approves.latest (approves : Approves before after) : after.latest = before.latest := by
  funext secret
  simp [Tables.latest, approves.versions]

theorem Approves.rotationNeeded (approves : Approves before after) :
    after.rotationNeeded = before.rotationNeeded := by
  funext secret
  simp [Tables.rotationNeeded, approves.secrets]

theorem Approves.consistent (approves : Approves before after)
    (consistent : Consistent fingerprint before) : Consistent fingerprint after where
  grantActive secret pubkey granted := by
    rw [approves.grants] at granted
    exact approves.active pubkey (consistent.grantActive secret pubkey granted)
  grantListed secret pubkey granted := by
    rw [approves.grants] at granted
    rw [approves.latest]
    exact consistent.grantListed secret pubkey granted
  flagged secret pubkey listed lost := by
    rw [approves.latest] at listed
    rw [approves.grants] at lost
    rw [approves.rotationNeeded]
    exact consistent.flagged secret pubkey listed (lost.imp_left (approves.revoked pubkey))
  granted secret pubkey listed := by
    rw [approves.latest] at listed
    rw [approves.grants]
    exact consistent.granted secret pubkey listed
  unique := by
    rw [approves.secrets]
    exact consistent.unique
  bounded := by
    rw [approves.secrets, approves.nextSecret]
    exact consistent.bounded
  empty := by
    rw [approves.secrets, approves.versions, approves.grants]
    exact consistent.empty
  registered := approves.registered

theorem Approves.named (approves : Approves before after) {name : String} {secret : Loaded}
    (named : Named before name secret) : Named after name secret := by
  cases secret with
  | none => simpa [Named, approves.secrets] using named
  | some pair => simpa [Named, approves.secrets] using named

theorem Approves.read (approves : Approves before after) {call : Put} {secret : Loaded}
    {existing : PubkeyId → Option Grant} {pubkey : PubkeyId}
    (read : Read before call existing pubkey secret) : Read after call existing pubkey secret := by
  cases secret with
  | none => exact ⟨read.1, fun listed => approves.active pubkey (read.2 listed)⟩
  | some pair =>
    simp only [Read, approves.grants, approves.rotationNeeded] at read ⊢
    exact read.imp_left fun kept => ⟨kept.1, fun listed => approves.active pubkey (kept.2 listed)⟩

theorem Approves.holds (approves : Approves before after) {tx : Tx}
    (holds : Holds fingerprint before tx) : Holds fingerprint after tx where
  approved call view pubkey listed := approves.active pubkey (holds.approved call view pubkey listed)
  matched := holds.matched
  named name secret view := approves.named (holds.named name secret view)
  read call secret existing view pubkey := approves.read (holds.read call secret existing view pubkey)
  found pubkey affected view := by
    have found := holds.found pubkey affected view
    simpa [Found, approves.latest, approves.grants, approves.rotationNeeded] using found

end Approve

section Revoke

-- Both revocations: some grants are revoked, some secrets flagged, no version is put.
structure Revokes (before after : Tables) : Prop where
  versions : after.versions = before.versions
  nextSecret : after.nextSecret = before.nextSecret
  nextPubkey : after.nextPubkey = before.nextPubkey
  secrets : ∀ id, after.secrets id = before.secrets id ∨
    after.secrets id = (before.secrets id).map fun secret => { secret with rotationNeeded := true }
  grants : ∀ id pubkey, after.grants id pubkey = before.grants id pubkey ∨
    before.grants id pubkey = some .active ∧ after.grants id pubkey = some .revoked

variable {before after : Tables}

theorem Revokes.latest (revokes : Revokes before after) : after.latest = before.latest := by
  funext secret
  simp [Tables.latest, revokes.versions]

theorem Revokes.rotation (revokes : Revokes before after) {secret : SecretId}
    (flagged : before.rotationNeeded secret = true) : after.rotationNeeded secret = true := by
  unfold Tables.rotationNeeded at flagged ⊢
  cases revokes.secrets secret with
  | inl same => rwa [same]
  | inr raised =>
    rw [raised]
    cases known : before.secrets secret with
    | none => simp [known] at flagged
    | some row => rfl

theorem Revokes.secret_none (revokes : Revokes before after) {id : SecretId} :
    after.secrets id = none ↔ before.secrets id = none := by
  cases revokes.secrets id with
  | inl same => rw [same]
  | inr raised => rw [raised, Option.map_eq_none_iff]

theorem Revokes.secret_some (revokes : Revokes before after) {id : SecretId} {row : Secret}
    (stored : after.secrets id = some row) : ∃ old, before.secrets id = some old ∧
      old.name = row.name := by
  cases revokes.secrets id with
  | inl same => exact ⟨row, same ▸ stored, rfl⟩
  | inr raised =>
    rw [raised, Option.map_eq_some_iff] at stored
    obtain ⟨old, known, rfl⟩ := stored
    exact ⟨old, known, rfl⟩

theorem Revokes.named (revokes : Revokes before after) {name : String} {secret : Loaded}
    (named : Named before name secret) : Named after name secret := by
  cases secret with
  | none =>
    intro id row stored
    obtain ⟨old, known, same⟩ := revokes.secret_some stored
    rw [← same]
    exact named id old known
  | some pair =>
    obtain ⟨row, stored, same⟩ := named
    cases known : after.secrets pair.1 with
    | none =>
      rw [revokes.secret_none.mp known] at stored
      cases stored
    | some after =>
      obtain ⟨old, before, names⟩ := revokes.secret_some known
      rw [stored] at before
      cases before
      exact ⟨after, known, names.symm.trans same⟩

theorem Revokes.revoked (revokes : Revokes before after) {id : SecretId} {pubkey : PubkeyId}
    (revoked : before.grants id pubkey = some .revoked) :
    after.grants id pubkey = some .revoked := by
  cases revokes.grants id pubkey with
  | inl same => rwa [same]
  | inr changed => exact changed.2

theorem Revokes.active (revokes : Revokes before after) {id : SecretId} {pubkey : PubkeyId}
    (active : after.grants id pubkey = some .active) : before.grants id pubkey = some .active := by
  cases revokes.grants id pubkey with
  | inl same => rwa [← same]
  | inr changed => exact changed.1

theorem Revokes.found (revokes : Revokes before after) {pubkey : PubkeyId}
    {affected : List SecretId} (found : Found fingerprint before pubkey affected) :
    Found fingerprint after pubkey affected := by
  intro secret listed
  rw [revokes.latest] at listed
  exact (found secret listed).imp_right fun lost =>
    ⟨revokes.revoked lost.1, revokes.rotation lost.2⟩

theorem Revokes.consistent (revokes : Revokes before after)
    (consistent : Consistent fingerprint before)
    (grantActive : ∀ secret pubkey, after.grants secret pubkey = some .active →
      after.pubkeys pubkey = some .active)
    (flagged : ∀ secret pubkey, fingerprint pubkey ∈ before.latest secret →
      after.pubkeys pubkey = some .revoked ∨ after.grants secret pubkey = some .revoked →
      after.rotationNeeded secret = true)
    (registered : ∀ pubkey, before.pubkeys pubkey = none → after.pubkeys pubkey = none) :
    Consistent fingerprint after where
  grantActive := grantActive
  grantListed secret pubkey granted := by
    rw [revokes.latest]
    exact consistent.grantListed secret pubkey (revokes.active granted)
  flagged secret pubkey listed := by
    rw [revokes.latest] at listed
    exact flagged secret pubkey listed
  granted secret pubkey listed missing := by
    rw [revokes.latest] at listed
    cases revokes.grants secret pubkey with
    | inl same => exact consistent.granted secret pubkey listed (same ▸ missing)
    | inr changed =>
      rw [changed.2] at missing
      cases missing
  unique left right first second foundLeft foundRight same := by
    obtain ⟨oldLeft, knownLeft, nameLeft⟩ := revokes.secret_some foundLeft
    obtain ⟨oldRight, knownRight, nameRight⟩ := revokes.secret_some foundRight
    exact consistent.unique left right oldLeft oldRight knownLeft knownRight
      (nameLeft.trans (same.trans nameRight.symm))
  bounded secret outside := by
    rw [revokes.nextSecret] at outside
    exact revokes.secret_none.mpr (consistent.bounded secret outside)
  empty secret missing := by
    have gone := consistent.empty secret (revokes.secret_none.mp missing)
    rw [revokes.versions]
    refine ⟨gone.1, fun pubkey => ?_⟩
    cases revokes.grants secret pubkey with
    | inl same => rw [same, gone.2 pubkey]
    | inr changed =>
      rw [gone.2 pubkey] at changed
      cases changed.1
  registered pubkey outside := by
    rw [revokes.nextPubkey] at outside
    exact registered pubkey (consistent.registered pubkey outside)

-- A put's read survives when each of its recipients keeps its key, or loses its grant under a
-- flag that the put does not clear.
theorem Revokes.read (revokes : Revokes before after) {call : Put} {secret : Loaded}
    {existing : PubkeyId → Option Grant} {pubkey : PubkeyId}
    (kept : pubkey ∈ call.grantPubkeyIds → before.pubkeys pubkey = some .active →
      after.pubkeys pubkey = some .active ∨ ∃ id flagged, secret = some (id, flagged) ∧
        existing pubkey = some .active ∧ after.grants id pubkey ≠ some .active)
    (lost : ∀ id flagged, secret = some (id, flagged) → pubkey ∈ call.grantPubkeyIds →
      before.grants id pubkey = some .active → after.grants id pubkey = some .revoked →
      after.rotationNeeded id = true ∧ flagged = false)
    (read : Read before call existing pubkey secret) : Read after call existing pubkey secret := by
  cases secret with
  | none =>
    refine ⟨read.1, fun listed => ?_⟩
    rcases kept listed (read.2 listed) with active | ⟨_, _, impossible, _⟩
    next => exact active
    next => cases impossible
  | some pair =>
    obtain ⟨id, flagged⟩ := pair
    rcases read with ⟨same, active⟩ | ⟨seen, revoked, noted⟩
    next =>
      rcases revokes.grants id pubkey with unchanged | ⟨was, is⟩
      next =>
        refine .inl ⟨unchanged.trans same, fun listed => ?_⟩
        rcases kept listed (active listed) with still | ⟨_, _, here, seen, gone⟩
        next => exact still
        next =>
          cases here
          exact absurd (unchanged.trans (same.trans seen)) gone
      next => exact .inr ⟨same.symm.trans was, is, fun listed => lost id flagged rfl listed was is⟩
    next =>
      exact .inr ⟨seen, revokes.revoked revoked, fun listed =>
        ⟨revokes.rotation (noted listed).1, (noted listed).2⟩⟩

end Revoke

section Commits

variable {state : State} {index : Nat} {tx : Tx} {after : Tables}

theorem Invariant.committed (invariant : Invariant fingerprint state)
    (consistent : Consistent fingerprint after)
    (others : ∀ (other : Nat) (found : Tx), other ≠ index →
      state.transactions[other]? = some found → Holds fingerprint after found) :
    Invariant fingerprint
      { after with transactions := state.transactions.set index .closed } where
  consistent := consistent
  holds found listed := by
    rcases RowLocks.mem_set listed with rfl | ⟨other, differ, at_⟩
    next => exact holds_of_unread rfl rfl rfl rfl rfl
    next => exact others other found differ at_
  exclusive := invariant.exclusive.set (RowLocks.sharing_symm _)
    fun _ _ _ _ => RowLocks.sharing_false.mpr fun _ _ => List.not_mem_nil

theorem Consistent.stored {tables : Tables} (consistent : Consistent fingerprint tables)
    {secret : SecretId} {text : Fingerprint} (listed : text ∈ tables.latest secret) :
    ∃ row, tables.secrets secret = some row := by
  cases known : tables.secrets secret with
  | some row => exact ⟨row, rfl⟩
  | none => simp [Tables.latest, (consistent.empty secret known).1] at listed

theorem revokes_pubkey {tables : Tables} {pubkey : PubkeyId} {affected : List SecretId}
    (taken : commit tables (.revokePubkeyWritten pubkey affected) = some after) :
    Revokes tables after := by
  cases taken
  refine ⟨rfl, rfl, rfl, fun id => ?_, fun id other => ?_⟩
  next =>
    simp only
    split
    next => exact .inr rfl
    next => exact .inl rfl
  next =>
    simp only
    split
    next =>
      cases tables.grants id other with
      | none => exact .inl rfl
      | some grant =>
        cases grant with
        | active => exact .inr ⟨rfl, rfl⟩
        | revoked => exact .inl rfl
    next => exact .inl rfl

theorem revokes_grant {tables : Tables} {secret : SecretId} {pubkey : PubkeyId} {flagged : Bool}
    (taken : commit tables (.revokeGrantWritten secret pubkey flagged) = some after) :
    Revokes tables after := by
  cases taken
  refine ⟨?_, ?_, ?_, fun id => ?_, fun id other => ?_⟩
  next => cases flagged <;> rfl
  next => cases flagged <;> rfl
  next => cases flagged <;> rfl
  next =>
    cases flagged with
    | true => exact .inl rfl
    | false =>
      by_cases same : id = secret
      next =>
        subst same
        exact .inr (by simp [setSecret])
      next => exact .inl (by simp [setSecret, same])
  next =>
    simp only
    split
    next =>
      cases tables.grants id other with
      | none => exact .inl rfl
      | some grant =>
        cases grant with
        | active => exact .inr ⟨rfl, rfl⟩
        | revoked => exact .inl rfl
    next => exact .inl rfl

theorem Invariant.revokedPubkey (invariant : Invariant fingerprint state) {pubkey : PubkeyId}
    {affected : List SecretId}
    (at_ : state.transactions[index]? = some (.revokePubkeyWritten pubkey affected))
    (undisturbed : committing fingerprint state (.revokePubkeyWritten pubkey affected))
    (taken : commit state.toTables (.revokePubkeyWritten pubkey affected) = some after) :
    Invariant fingerprint
      { after with transactions := state.transactions.set index .closed } := by
  have revokes := revokes_pubkey taken
  have consistent := invariant.consistent
  have found := (invariant.holds _ (List.mem_of_getElem? at_)).found pubkey affected rfl
  have keys : ∀ other, other ≠ pubkey → after.pubkeys other = state.pubkeys other := by
    intro other differ
    cases taken
    exact Function.update_of_ne differ _ _
  have grants : ∀ id other, other ≠ pubkey → after.grants id other = state.grants id other := by
    intro id other differ
    cases taken
    simp [differ]
  have raised : ∀ id, id ∈ affected → (∃ row, state.secrets id = some row) →
      after.rotationNeeded id = true := by
    rintro id listed ⟨row, stored⟩
    cases taken
    simp [Tables.rotationNeeded, listed, stored]
  have revoked : ∀ id, id ∈ affected → after.grants id pubkey ≠ some .active := by
    intro id listed
    cases taken
    simp only [listed, and_self, if_true]
    cases state.grants id pubkey <;> simp
  refine invariant.committed (revokes.consistent consistent ?_ ?_ ?_) ?_
  next =>
    intro secret other granted
    by_cases same : other = pubkey
    next =>
      subst same
      have active := revokes.active granted
      rcases found secret (consistent.grantListed secret other active) with listed | ⟨gone, _⟩
      next => exact absurd granted (revoked secret listed)
      next =>
        rw [active] at gone
        cases gone
    next =>
      rw [keys other same]
      exact consistent.grantActive secret other (revokes.active granted)
  next =>
    intro secret other listed lost
    by_cases same : other = pubkey
    next =>
      subst same
      rcases found secret listed with inside | ⟨_, noted⟩
      next => exact raised secret inside (consistent.stored listed)
      next => exact revokes.rotation noted
    next =>
      rw [keys other same, grants secret other same] at lost
      exact revokes.rotation (consistent.flagged secret other listed lost)
  next =>
    intro other unknown
    by_cases same : other = pubkey
    next =>
      subst same
      cases taken
      simp [unknown]
    next => rw [keys other same, unknown]
  next =>
    intro other tx differ held
    have listedTx := List.mem_of_getElem? held
    have holds := invariant.holds tx listedTx
    have apart := RowLocks.sharing_false.mp
      (invariant.exclusive index other _ tx (Ne.symm differ) at_ held)
    constructor
    case approved =>
      intro call view target granted
      have views := checking_put view
      have unrelated : target ≠ pubkey := by
        rintro rfl
        obtain ⟨_, _, _, _, reading, _⟩ := undisturbed tx listedTx call views.1 granted
        rw [views.2] at reading
        cases reading
      rw [keys target unrelated]
      exact holds.approved call view target granted
    case matched => exact holds.matched
    case named => exact fun name secret view => revokes.named (holds.named name secret view)
    case read =>
      intro call secret existing view target
      have views := reconciling_views view
      refine revokes.read ?_ ?_ (holds.read call secret existing view target)
      next =>
        intro granted active
        by_cases same : target = pubkey
        next =>
          subst same
          obtain ⟨_, id, flagged, _, reading, inside, seen⟩ :=
            undisturbed tx listedTx call views.1 granted
          rw [view] at reading
          cases reading
          exact .inr ⟨id, flagged, rfl, seen, revoked id inside⟩
        next => exact .inl (by rw [keys target same, active])
      next =>
        rintro id flagged rfl granted was is
        have changed : target = pubkey ∧ id ∈ affected := by
          by_contra unrelated
          cases taken
          simp only at is
          rw [if_neg fun both => unrelated ⟨both.2, both.1⟩, was] at is
          cases is
        obtain ⟨row, stored, _⟩ := holds.named _ _ views.2.1
        refine ⟨raised id changed.2 ⟨row, stored⟩, ?_⟩
        cases flagged with
        | false => rfl
        | true =>
          refine absurd (views.2.2 (.secret id) (by simp [clearedRow])) (apart _ ?_)
          simp [Tx.rows, changed.2]
    case found => exact fun key ids view => revokes.found (holds.found key ids view)

theorem Invariant.revokedGrant (invariant : Invariant fingerprint state) {secret : SecretId}
    {pubkey : PubkeyId} {flagged : Bool}
    (at_ : state.transactions[index]? = some (.revokeGrantWritten secret pubkey flagged))
    (undisturbed : committing fingerprint state (.revokeGrantWritten secret pubkey flagged))
    (taken : commit state.toTables (.revokeGrantWritten secret pubkey flagged) = some after) :
    Invariant fingerprint
      { after with transactions := state.transactions.set index .closed } := by
  have revokes := revokes_grant taken
  have consistent := invariant.consistent
  have keys : after.pubkeys = state.pubkeys := by
    cases taken
    cases flagged <;> rfl
  have grants : ∀ id other, ¬ (id = secret ∧ other = pubkey) →
      after.grants id other = state.grants id other := by
    intro id other differ
    cases taken
    exact if_neg differ
  have noted : fingerprint pubkey ∈ state.latest secret → after.rotationNeeded secret = true := by
    intro listed
    cases flagged with
    | true => exact revokes.rotation (undisturbed.1 listed)
    | false =>
      obtain ⟨row, stored⟩ := consistent.stored listed
      cases taken
      simp [Tables.rotationNeeded, setSecret, stored]
  refine invariant.committed (revokes.consistent consistent ?_ ?_ ?_) ?_
  next =>
    intro id other granted
    rw [keys]
    exact consistent.grantActive id other (revokes.active granted)
  next =>
    intro id other listed lost
    by_cases same : id = secret ∧ other = pubkey
    next =>
      obtain ⟨rfl, rfl⟩ := same
      exact noted listed
    next =>
      rw [keys, grants id other same] at lost
      exact revokes.rotation (consistent.flagged id other listed lost)
  next =>
    intro other unknown
    rw [keys, unknown]
  next =>
    intro other tx differ held
    have listedTx := List.mem_of_getElem? held
    have holds := invariant.holds tx listedTx
    have apart := RowLocks.sharing_false.mp
      (invariant.exclusive index other _ tx (Ne.symm differ) at_ held)
    constructor
    case approved =>
      intro call view target granted
      rw [keys]
      exact holds.approved call view target granted
    case matched => exact holds.matched
    case named => exact fun name loaded view => revokes.named (holds.named name loaded view)
    case read =>
      intro call loaded existing view target
      have views := reconciling_views view
      refine revokes.read ?_ ?_ (holds.read call loaded existing view target)
      next => exact fun _ active => .inl (by rw [keys, active])
      next =>
        rintro id cleared rfl granted was is
        have changed : id = secret ∧ target = pubkey := by
          by_contra unrelated
          rw [grants id target unrelated, was] at is
          cases is
        obtain ⟨rfl, rfl⟩ := changed
        refine ⟨noted (consistent.grantListed id target was), ?_⟩
        cases cleared with
        | false => rfl
        | true =>
          cases flagged with
          | true => exact absurd granted (undisturbed.2 tx listedTx call existing view)
          | false =>
            refine absurd (views.2.2 (.secret id) (by simp [clearedRow])) (apart _ ?_)
            simp [Tx.rows]
    case found => exact fun key ids view => revokes.found (holds.found key ids view)

theorem approves_pubkey {tables : Tables} {pubkey : PubkeyId}
    (consistent : Consistent fingerprint tables)
    (taken : commit tables (.approveWritten pubkey) = some after) : Approves tables after := by
  cases taken
  refine ⟨rfl, rfl, rfl, rfl, fun other active => ?_, fun other revoked => ?_, fun other outside => ?_⟩
  all_goals
    by_cases same : other = pubkey
    next => subst same; simp_all [consistent.registered]
    next => simp_all [Function.update_of_ne, consistent.registered]

theorem approves_register {tables : Tables} (consistent : Consistent fingerprint tables) :
    Approves tables { tables with
      pubkeys := Function.update tables.pubkeys tables.nextPubkey (some .pending)
      nextPubkey := tables.nextPubkey + 1 } := by
  have free := consistent.registered tables.nextPubkey (Nat.le_refl _)
  refine ⟨rfl, rfl, rfl, rfl, fun other active => ?_, fun other revoked => ?_, fun other outside => ?_⟩
  next =>
    have differ : other ≠ tables.nextPubkey := by
      rintro rfl
      rw [free] at active
      cases active
    simp [differ, active]
  next =>
    by_cases same : other = tables.nextPubkey
    next => simp [same] at revoked
    next => simpa [same] using revoked
  next =>
    have differ : other ≠ tables.nextPubkey := by
      rintro rfl
      exact Nat.not_succ_le_self _ outside
    simp [differ, consistent.registered other (Nat.le_of_succ_le outside)]

end Commits

end MemoryCloud.Secrets
