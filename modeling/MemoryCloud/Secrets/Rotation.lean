import Mathlib.Data.List.Dedup
import MemoryCloud.Secrets.Revocations

set_option autoImplicit false

/-!
# Every undisturbed run keeps the promises

Commits of puts and deletes, and the runs of all of them. A revocation that commits
between a put's check and its commit leaves a revoked recipient without a request.
-/

namespace MemoryCloud.Secrets

variable {fingerprint : PubkeyId → Fingerprint}

section Puts

structure Puts (before after : Tables) (call : Put) (id : SecretId) (flagged : Bool)
    (existing : PubkeyId → Option Grant) : Prop where
  pubkeys : after.pubkeys = before.pubkeys
  nextPubkey : after.nextPubkey = before.nextPubkey
  nextSecret : ∀ other, after.nextSecret ≤ other → before.nextSecret ≤ other ∧ other ≠ id
  secrets : ∀ other, other ≠ id → after.secrets other = before.secrets other
  versions : ∀ other, other ≠ id → after.versions other = before.versions other
  otherGrants : ∀ other, other ≠ id → after.grants other = before.grants other
  named : ∃ row, after.secrets id = some row ∧ row.name = call.name
  latest : ∀ text, text ∈ after.latest id ↔ text ∈ call.recipientsSnapshot
  grants : ∀ pubkey, after.grants id pubkey =
    (reconciled call.grantPubkeyIds existing pubkey).or (before.grants id pubkey)
  rotation : flagged = false → before.rotationNeeded id = true → after.rotationNeeded id = true

theorem latest_storeVersion (tables : Tables) (call : Put) (id : SecretId) (number : Nat)
    (existing : PubkeyId → Option Grant) (text : Fingerprint) :
    text ∈ (storeVersion tables call id number existing).latest id ↔
      text ∈ call.recipientsSnapshot := by
  simp [storeVersion, Tables.latest]

variable {before after : Tables} {call : Put} {number : Nat}
  {existing : PubkeyId → Option Grant} {written : List PubkeyId}

theorem puts_existing {id : SecretId} {flagged : Bool}
    (named : Named before call.name (some (id, flagged)))
    (consistent : Consistent fingerprint before)
    (taken : commit before (.putWritten call (some (id, flagged)) number existing written) =
      some after) : Puts before after call id flagged existing := by
  obtain ⟨row, stored, name⟩ := named
  have inside : ∀ other, before.nextSecret ≤ other → other ≠ id := by
    rintro other outside rfl
    rw [consistent.bounded other outside] at stored
    cases stored
  cases taken
  constructor
  case latest => exact latest_storeVersion _ call id number existing
  case nextSecret =>
    intro other outside
    cases flagged <;> exact ⟨outside, inside other outside⟩
  case named =>
    cases flagged with
    | true => exact ⟨{ row with rotationNeeded := false }, by simp [storeVersion, setSecret, stored], name⟩
    | false => exact ⟨row, by simp [storeVersion, stored], name⟩
  case rotation =>
    rintro rfl noted
    exact noted
  case grants => cases flagged <;> simp [storeVersion, setSecret]
  all_goals cases flagged <;> simp +contextual [storeVersion, setSecret]

theorem puts_created (consistent : Consistent fingerprint before)
    (taken : commit before (.putWritten call none number existing written) = some after) :
    Puts before after call before.nextSecret false existing := by
  have free := consistent.bounded before.nextSecret (Nat.le_refl _)
  cases taken
  constructor
  case latest => exact latest_storeVersion _ call _ number existing
  case nextSecret =>
    intro other outside
    refine ⟨Nat.le_of_succ_le outside, ?_⟩
    rintro rfl
    exact Nat.not_succ_le_self _ outside
  case named => exact ⟨⟨call.name, false⟩, by simp [storeVersion], rfl⟩
  case rotation =>
    intro _ noted
    simp [Tables.rotationNeeded, free] at noted
  case grants => simp [storeVersion]
  all_goals simp +contextual [storeVersion]

theorem Puts.grant {id : SecretId} {flagged : Bool}
    (puts : Puts before after call id flagged existing) {loaded : Loaded}
    (loads : loaded = some (id, flagged) ∨ loaded = none ∧ before.grants id = fun _ => none)
    {pubkey : PubkeyId} (read : Read before call existing pubkey loaded) :
    (after.grants id pubkey = some .active → pubkey ∈ call.grantPubkeyIds ∧
        before.pubkeys pubkey = some .active) ∧
      (pubkey ∈ call.grantPubkeyIds → after.grants id pubkey ≠ none ∧
        (before.pubkeys pubkey = some .revoked ∨ after.grants id pubkey = some .revoked →
          before.rotationNeeded id = true ∧ flagged = false)) := by
  rw [puts.grants]
  rcases loads with rfl | ⟨rfl, empty⟩
  next =>
    rcases read with ⟨same, active⟩ | ⟨seen, revoked, noted⟩
    next =>
      by_cases listed : pubkey ∈ call.grantPubkeyIds
      next =>
        have key := active listed
        cases known : existing pubkey with
        | none => simp [reconciled, listed, known, key]
        | some grant => cases grant <;> simp [reconciled, listed, known, key, same]
      next =>
        cases known : existing pubkey with
        | none => simp [reconciled, listed, known, same]
        | some grant => cases grant <;> simp [reconciled, listed, known, same]
    next =>
      by_cases listed : pubkey ∈ call.grantPubkeyIds
      next =>
        have flag := noted listed
        simp [reconciled, listed, seen, revoked, flag]
      next => simp [reconciled, listed, seen]
  next =>
    obtain ⟨seen, active⟩ := read
    by_cases listed : pubkey ∈ call.grantPubkeyIds
    next =>
      have key := active listed
      simp [reconciled, listed, seen, key]
    next => simp [reconciled, listed, seen, empty]

variable {id : SecretId} {flagged : Bool}

theorem Puts.latest_other (puts : Puts before after call id flagged existing) {other : SecretId}
    (differ : other ≠ id) : after.latest other = before.latest other := by
  simp [Tables.latest, puts.versions other differ]

theorem Puts.rotation_other (puts : Puts before after call id flagged existing) {other : SecretId}
    (differ : other ≠ id) : after.rotationNeeded other = before.rotationNeeded other := by
  simp [Tables.rotationNeeded, puts.secrets other differ]

theorem Puts.promises (puts : Puts before after call id flagged existing)
    (consistent : Consistent fingerprint before) (matched : Matched fingerprint call)
    {loaded : Loaded}
    (loads : loaded = some (id, flagged) ∨ loaded = none ∧ before.grants id = fun _ => none)
    (read : ∀ pubkey, Read before call existing pubkey loaded) : Promises fingerprint after := by
  have listed : ∀ pubkey, fingerprint pubkey ∈ after.latest id ↔ pubkey ∈ call.grantPubkeyIds :=
    fun pubkey => (puts.latest _).trans (matched pubkey)
  constructor
  case grantActive =>
    intro secret pubkey granted
    rw [puts.pubkeys]
    by_cases same : secret = id
    next =>
      subst same
      exact ((puts.grant loads (read pubkey)).1 granted).2
    next =>
      rw [puts.otherGrants secret same] at granted
      exact consistent.grantActive secret pubkey granted
  case grantListed =>
    intro secret pubkey granted
    by_cases same : secret = id
    next =>
      subst same
      exact (listed pubkey).mpr ((puts.grant loads (read pubkey)).1 granted).1
    next =>
      rw [puts.otherGrants secret same] at granted
      rw [puts.latest_other same]
      exact consistent.grantListed secret pubkey granted
  case flagged =>
    intro secret pubkey inside lost
    rw [puts.pubkeys] at lost
    by_cases same : secret = id
    next =>
      subst same
      have noted := ((puts.grant loads (read pubkey)).2 ((listed pubkey).mp inside)).2 lost
      exact puts.rotation noted.2 noted.1
    next =>
      rw [puts.otherGrants secret same] at lost
      rw [puts.latest_other same] at inside
      rw [puts.rotation_other same]
      exact consistent.flagged secret pubkey inside lost

theorem Puts.consistent (puts : Puts before after call id flagged existing)
    (consistent : Consistent fingerprint before) (matched : Matched fingerprint call)
    {loaded : Loaded} (named : Named before call.name loaded)
    (loads : loaded = some (id, flagged) ∨ loaded = none ∧ before.grants id = fun _ => none)
    (read : ∀ pubkey, Read before call existing pubkey loaded) : Consistent fingerprint after := by
  have holder : ∀ (other : SecretId) (row : Secret), other ≠ id →
      before.secrets other = some row → row.name ≠ call.name := by
    intro other row differ stored same
    rcases loads with rfl | ⟨rfl, _⟩
    next =>
      obtain ⟨mine, known, name⟩ := named
      exact differ (consistent.unique other id row mine stored known (same.trans name.symm))
    next => exact named other row stored same
  obtain ⟨mine, stored, name⟩ := puts.named
  constructor
  case toPromises => exact puts.promises consistent matched loads read
  case granted =>
    intro secret pubkey inside
    by_cases same : secret = id
    next =>
      subst same
      have target := (matched pubkey).mp ((puts.latest _).mp inside)
      exact ((puts.grant loads (read pubkey)).2 target).1
    next =>
      rw [puts.latest_other same] at inside
      rw [puts.otherGrants secret same]
      exact consistent.granted secret pubkey inside
  case unique =>
    intro left right first second foundLeft foundRight same
    by_cases here : left = id
    next =>
      subst here
      by_contra differ
      rw [stored] at foundLeft
      cases foundLeft
      rw [puts.secrets right (Ne.symm differ)] at foundRight
      exact holder right second (Ne.symm differ) foundRight (same.symm.trans name)
    next =>
      rw [puts.secrets left here] at foundLeft
      by_cases there : right = id
      next =>
        subst there
        rw [stored] at foundRight
        cases foundRight
        exact absurd (same.trans name) (holder left first here foundLeft)
      next =>
        rw [puts.secrets right there] at foundRight
        exact consistent.unique left right first second foundLeft foundRight same
  case bounded =>
    intro secret outside
    obtain ⟨beyond, differ⟩ := puts.nextSecret secret outside
    rw [puts.secrets secret differ]
    exact consistent.bounded secret beyond
  case empty =>
    intro secret missing
    have differ : secret ≠ id := by
      rintro rfl
      rw [stored] at missing
      cases missing
    rw [puts.secrets secret differ] at missing
    rw [puts.versions secret differ, puts.otherGrants secret differ]
    exact consistent.empty secret missing
  case registered =>
    intro pubkey outside
    rw [puts.nextPubkey] at outside
    rw [puts.pubkeys]
    exact consistent.registered pubkey outside

theorem Puts.holds (puts : Puts before after call id flagged existing)
    (matched : Matched fingerprint call) {tx : Tx} (holds : Holds fingerprint before tx)
    (apart : ∀ name secret, tx.named? = some (name, secret) → name ≠ call.name)
    (elsewhere : ∀ (row : Secret), before.secrets id = some row → row.name = call.name)
    (found : ∀ pubkey affected, tx.revoking? = some (pubkey, affected) →
      pubkey ∈ call.grantPubkeyIds → id ∈ affected) : Holds fingerprint after tx := by
  have other : ∀ name secret cleared, tx.named? = some (name, some (secret, cleared)) →
      secret ≠ id := by
    rintro name secret cleared view rfl
    obtain ⟨row, stored, same⟩ := holds.named name _ view
    exact apart name _ view (same.symm.trans (elsewhere row stored))
  constructor
  case approved =>
    intro call view pubkey granted
    rw [puts.pubkeys]
    exact holds.approved call view pubkey granted
  case matched => exact holds.matched
  case named =>
    intro name secret view
    have known := holds.named name secret view
    cases secret with
    | some pair =>
      obtain ⟨row, stored, same⟩ := known
      exact ⟨row, by rw [puts.secrets pair.1 (other name pair.1 pair.2 view), stored], same⟩
    | none =>
      intro secret row stored same
      by_cases here : secret = id
      next =>
        subst here
        obtain ⟨mine, known, name'⟩ := puts.named
        rw [known] at stored
        cases stored
        exact apart name none view (same.symm.trans name')
      next =>
        rw [puts.secrets secret here] at stored
        exact known secret row stored same
  case read =>
    intro reading secret seen view pubkey
    have views := reconciling_views view
    have read := holds.read reading secret seen view pubkey
    cases secret with
    | none => simpa [Read, puts.pubkeys] using read
    | some pair =>
      obtain ⟨secret, cleared⟩ := pair
      have differ := other _ secret cleared views.2.1
      simpa [Read, puts.pubkeys, puts.otherGrants secret differ, puts.rotation_other differ]
        using read
  case found =>
    intro pubkey affected view secret listed
    by_cases same : secret = id
    next =>
      subst same
      exact .inl (found pubkey affected view ((matched pubkey).mp ((puts.latest _).mp listed)))
    next =>
      rw [puts.latest_other same] at listed
      rw [puts.otherGrants secret same, puts.rotation_other same]
      exact holds.found pubkey affected view secret listed

theorem Invariant.put {state : State} {index : Nat} (invariant : Invariant fingerprint state)
    {secret : Loaded}
    (at_ : state.transactions[index]? = some (.putWritten call secret number existing written))
    (undisturbed : committing fingerprint state (.putWritten call secret number existing written))
    (taken : commit state.toTables (.putWritten call secret number existing written) =
      some after) :
    Invariant fingerprint
      { after with transactions := state.transactions.set index .closed } := by
  have consistent := invariant.consistent
  have mine := invariant.holds _ (List.mem_of_getElem? at_)
  have matched := mine.matched call rfl
  have named := mine.named _ _ rfl
  have read := mine.read _ _ _ rfl
  have apart : ∀ (other : Nat) (tx : Tx), other ≠ index → state.transactions[other]? = some tx →
      ∀ name loaded, tx.named? = some (name, loaded) → name ≠ call.name := by
    rintro other tx differ held name loaded view rfl
    exact RowLocks.sharing_false.mp (invariant.exclusive other index tx _ differ held at_) _
      (name_mem_rows view) (name_mem_rows rfl)
  cases secret with
  | some pair =>
    obtain ⟨id, flagged⟩ := pair
    have puts := puts_existing named consistent taken
    refine invariant.committed (puts.consistent consistent matched named (.inl rfl) read) ?_
    intro other tx differ held
    refine puts.holds matched (invariant.holds tx (List.mem_of_getElem? held))
      (apart other tx differ held) ?_ ?_
    next =>
      intro row stored
      obtain ⟨known, same, name⟩ := named
      rw [same] at stored
      cases stored
      exact name
    next =>
      intro pubkey affected view granted
      obtain ⟨_, _, same, inside⟩ :=
        undisturbed tx (List.mem_of_getElem? held) pubkey affected view granted
      cases same
      exact inside
  | none =>
    have puts := puts_created consistent taken
    have free := consistent.bounded state.nextSecret (Nat.le_refl _)
    have empty : state.grants state.nextSecret = fun _ => none :=
      funext (consistent.empty _ free).2
    refine invariant.committed (puts.consistent consistent matched named (.inr ⟨rfl, empty⟩) read) ?_
    intro other tx differ held
    refine puts.holds matched (invariant.holds tx (List.mem_of_getElem? held))
      (apart other tx differ held) ?_ ?_
    next =>
      intro row stored
      rw [free] at stored
      cases stored
    next =>
      intro pubkey affected view granted
      obtain ⟨_, _, same, _⟩ :=
        undisturbed tx (List.mem_of_getElem? held) pubkey affected view granted
      cases same

end Puts

section Deletes

structure Removes (before after : Tables) (id : SecretId) : Prop where
  pubkeys : after.pubkeys = before.pubkeys
  nextPubkey : after.nextPubkey = before.nextPubkey
  nextSecret : after.nextSecret = before.nextSecret
  gone : after.secrets id = none ∧ after.versions id = [] ∧ after.grants id = fun _ => none
  secrets : ∀ other, other ≠ id → after.secrets other = before.secrets other
  versions : ∀ other, other ≠ id → after.versions other = before.versions other
  grants : ∀ other, other ≠ id → after.grants other = before.grants other

variable {before after : Tables} {id : SecretId}

theorem removes_secret {name : String} {grants : List PubkeyId}
    (taken : commit before (.deleteWritten name id grants) = some after) :
    Removes before after id := by
  cases taken
  refine ⟨rfl, rfl, rfl, ⟨?_, ?_, ?_⟩, ?_, ?_, ?_⟩
  all_goals simp +contextual

theorem Removes.latest (removes : Removes before after id) (other : SecretId) :
    after.latest other = if other = id then [] else before.latest other := by
  by_cases same : other = id
  next => simp [same, Tables.latest, removes.gone]
  next => simp [same, Tables.latest, removes.versions other same]

theorem Removes.inside (removes : Removes before after id) {text : Fingerprint} {other : SecretId}
    (listed : text ∈ after.latest other) : other ≠ id ∧ text ∈ before.latest other := by
  rw [removes.latest] at listed
  split at listed
  next => cases listed
  next differ => exact ⟨differ, listed⟩

theorem Removes.granted (removes : Removes before after id) {other : SecretId} {pubkey : PubkeyId}
    {grant : Grant} (stored : after.grants other pubkey = some grant) :
    other ≠ id ∧ before.grants other pubkey = some grant := by
  by_cases same : other = id
  next =>
    rw [same, removes.gone.2.2] at stored
    cases stored
  next => exact ⟨same, by rw [← stored, removes.grants other same]⟩

theorem Removes.stored (removes : Removes before after id) {other : SecretId} {row : Secret}
    (stored : after.secrets other = some row) : before.secrets other = some row := by
  by_cases same : other = id
  next =>
    rw [same, removes.gone.1] at stored
    cases stored
  next => rw [← stored, removes.secrets other same]

theorem Removes.rotation (removes : Removes before after id) {other : SecretId}
    (differ : other ≠ id) : after.rotationNeeded other = before.rotationNeeded other := by
  simp [Tables.rotationNeeded, removes.secrets other differ]

theorem Removes.consistent (removes : Removes before after id)
    (consistent : Consistent fingerprint before) : Consistent fingerprint after where
  grantActive secret pubkey granted := by
    rw [removes.pubkeys]
    exact consistent.grantActive secret pubkey (removes.granted granted).2
  grantListed secret pubkey granted := by
    obtain ⟨differ, active⟩ := removes.granted granted
    rw [removes.latest, if_neg differ]
    exact consistent.grantListed secret pubkey active
  flagged secret pubkey listed lost := by
    obtain ⟨differ, inside⟩ := removes.inside listed
    rw [removes.pubkeys, removes.grants secret differ] at lost
    rw [removes.rotation differ]
    exact consistent.flagged secret pubkey inside lost
  granted secret pubkey listed := by
    obtain ⟨differ, inside⟩ := removes.inside listed
    rw [removes.grants secret differ]
    exact consistent.granted secret pubkey inside
  unique left right first second foundLeft foundRight :=
    consistent.unique left right first second (removes.stored foundLeft) (removes.stored foundRight)
  bounded secret outside := by
    rw [removes.nextSecret] at outside
    by_cases same : secret = id
    next => rw [same, removes.gone.1]
    next => rw [removes.secrets secret same, consistent.bounded secret outside]
  empty secret missing := by
    by_cases same : secret = id
    next =>
      rw [same, removes.gone.2.2]
      exact ⟨removes.gone.2.1, fun _ => rfl⟩
    next =>
      rw [removes.secrets secret same] at missing
      rw [removes.versions secret same, removes.grants secret same]
      exact consistent.empty secret missing
  registered := by
    rw [removes.pubkeys, removes.nextPubkey]
    exact consistent.registered

theorem Removes.holds (removes : Removes before after id) {name : String} {row : Secret}
    (stored : before.secrets id = some row) (title : row.name = name) {tx : Tx}
    (holds : Holds fingerprint before tx)
    (apart : ∀ other secret, tx.named? = some (other, secret) → other ≠ name) :
    Holds fingerprint after tx := by
  have elsewhere : ∀ other secret cleared, tx.named? = some (other, some (secret, cleared)) →
      secret ≠ id := by
    rintro other secret cleared view rfl
    obtain ⟨known, same, named⟩ := holds.named other _ view
    rw [stored] at same
    cases same
    exact apart other _ view (named.symm.trans title)
  constructor
  case approved =>
    intro call view pubkey granted
    rw [removes.pubkeys]
    exact holds.approved call view pubkey granted
  case matched => exact holds.matched
  case named =>
    intro other secret view
    have known := holds.named other secret view
    cases secret with
    | none => exact fun secret row found => known secret row (removes.stored found)
    | some pair =>
      obtain ⟨row, found, same⟩ := known
      exact ⟨row, by rw [removes.secrets pair.1 (elsewhere other pair.1 pair.2 view), found], same⟩
  case read =>
    intro call secret existing view pubkey
    have read := holds.read call secret existing view pubkey
    cases secret with
    | none => simpa [Read, removes.pubkeys] using read
    | some pair =>
      obtain ⟨secret, cleared⟩ := pair
      have differ := elsewhere _ secret cleared (reconciling_views view).2.1
      simpa [Read, removes.pubkeys, removes.grants secret differ, removes.rotation differ] using read
  case found =>
    intro pubkey affected view secret listed
    obtain ⟨differ, inside⟩ := removes.inside listed
    rw [removes.grants secret differ, removes.rotation differ]
    exact holds.found pubkey affected view secret inside

theorem Invariant.deleted {state : State} {index : Nat} (invariant : Invariant fingerprint state)
    {name : String} {secret : SecretId} {grants : List PubkeyId}
    (at_ : state.transactions[index]? = some (.deleteWritten name secret grants))
    (taken : commit state.toTables (.deleteWritten name secret grants) = some after) :
    Invariant fingerprint
      { after with transactions := state.transactions.set index .closed } := by
  have removes := removes_secret taken
  obtain ⟨row, stored, title⟩ :=
    (invariant.holds _ (List.mem_of_getElem? at_)).named name (some (secret, false)) rfl
  refine invariant.committed (removes.consistent invariant.consistent) ?_
  intro other tx differ held
  refine removes.holds stored title (invariant.holds tx (List.mem_of_getElem? held)) ?_
  rintro name loaded view rfl
  exact RowLocks.sharing_false.mp (invariant.exclusive other index tx _ differ held at_) _
    (name_mem_rows view) (name_mem_rows rfl)

end Deletes

section Runs

variable {state : State} {index : Nat}

theorem Invariant.commit (invariant : Invariant fingerprint state) {tx : Tx} {after : Tables}
    (at_ : state.transactions[index]? = some tx) (undisturbed : committing fingerprint state tx)
    (taken : commit state.toTables tx = some after) :
    Invariant fingerprint
      { after with transactions := state.transactions.set index .closed } := by
  cases tx with
  | putWritten call secret number existing written => exact invariant.put at_ undisturbed taken
  | revokePubkeyWritten pubkey affected => exact invariant.revokedPubkey at_ undisturbed taken
  | revokeGrantWritten secret pubkey flagged => exact invariant.revokedGrant at_ undisturbed taken
  | approveWritten pubkey =>
    have approves := approves_pubkey invariant.consistent taken
    exact invariant.committed (approves.consistent invariant.consistent) fun _ _ _ held =>
      approves.holds (invariant.holds _ (List.mem_of_getElem? held))
  | deleteWritten name secret grants => exact invariant.deleted at_ taken
  | _ => cases taken

theorem Invariant.closed (invariant : Invariant fingerprint state) (index : Nat) :
    Invariant fingerprint (state.moved index .closed) :=
  invariant.committed invariant.consistent fun _ _ _ held =>
    invariant.holds _ (List.mem_of_getElem? held)

theorem Invariant.step (injective : Function.Injective fingerprint) {action : StoreAction}
    {next : State} (invariant : Invariant fingerprint state)
    (undisturbed : Undisturbed fingerprint state action)
    (taken : storeStep fingerprint state action = some next) : Invariant fingerprint next := by
  cases action with
  | register =>
    cases taken
    have approves := approves_register invariant.consistent
    exact ⟨approves.consistent invariant.consistent,
      fun tx listed => approves.holds (invariant.holds tx listed), invariant.exclusive⟩
  | start call =>
    simp only [storeStep] at taken
    split at taken
    next tx started =>
      cases taken
      obtain ⟨holds, free⟩ := holds_start injective started
      refine ⟨invariant.consistent, fun other listed => ?_,
        invariant.exclusive.append (RowLocks.sharing_symm _)
          fun _ => RowLocks.sharing_false.mpr fun _ _ => free ▸ List.not_mem_nil⟩
      cases List.mem_append.mp listed with
      | inl old => exact invariant.holds other old
      | inr new =>
        rw [List.mem_singleton.mp new]
        exact holds
    next =>
      cases taken
      exact invariant
  | advance index =>
    obtain ⟨tx, at_, moved⟩ := Option.bind_eq_some_iff.mp taken
    have holds := invariant.holds tx (List.mem_of_getElem? at_)
    split at moved
    next after moves =>
      split at moved
      next => cases moved
      next free =>
        cases moved
        refine ⟨invariant.consistent, fun other listed => ?_,
          invariant.exclusive.set (RowLocks.sharing_symm _)
            fun _ _ differ found => RowLocks.not_blocked (Bool.not_eq_true _ ▸ free) differ found⟩
        rcases RowLocks.mem_set listed with rfl | ⟨_, _, held⟩
        next => exact holds_statement invariant.consistent holds moves
        next => exact invariant.holds other (List.mem_of_getElem? held)
    next =>
      cases moved
      exact invariant.closed index
  | commit index =>
    obtain ⟨tx, at_, moved⟩ := Option.bind_eq_some_iff.mp taken
    obtain ⟨tables, committed, rfl⟩ := Option.map_eq_some_iff.mp moved
    exact invariant.commit at_ (undisturbed tx at_) committed
  | abort index =>
    cases taken
    exact invariant.closed index

theorem invariant_empty : Invariant fingerprint {} where
  consistent := {
    grantActive := nofun
    grantListed := nofun
    flagged := by simp [Tables.latest]
    granted := by simp [Tables.latest]
    unique := nofun
    bounded := fun _ _ => rfl
    empty := fun _ _ => ⟨rfl, fun _ => rfl⟩
    registered := fun _ _ => rfl }
  holds := nofun
  exclusive := .nil

abbrev StoreReached (fingerprint : PubkeyId → Fingerprint) (guard : State → StoreAction → Prop)
    (state : State) : Prop :=
  Runs.Reaches (storeStep fingerprint) guard {} state

theorem undisturbed_runs_keep_promises (injective : Function.Injective fingerprint)
    (reached : StoreReached fingerprint (Undisturbed fingerprint) state) :
    Promises fingerprint state.toTables := by
  have invariant : Invariant fingerprint state :=
    Runs.Reaches.invariant (Invariant fingerprint) invariant_empty
      (fun _ _ _ kept undisturbed taken => kept.step injective undisturbed taken) reached
  exact invariant.consistent.toPromises

def sampleFingerprint (id : PubkeyId) : Fingerprint := String.ofList (List.replicate id 'f')

theorem sampleFingerprint_injective : Function.Injective sampleFingerprint := by
  intro left right same
  simpa [sampleFingerprint] using congrArg List.length (String.ofList_inj.mp same)

def samplePut : Put :=
  { name := "cloudflare/api-token", ciphertext := "age-encryption.org/v1"
    recipientsSnapshot := [sampleFingerprint 0], grantPubkeyIds := [0] }

def Tx.isClosed : Tx → Bool
  | .closed => true
  | _ => false

def alone (state : State) : StoreAction → Bool
  | .commit index => ((List.range state.transactions.length).all fun other =>
      other = index || (state.transactions.getD other .closed).isClosed) &&
    match state.transactions.getD index .closed with
    | .revokeGrantWritten _ _ _ => false
    | _ => true
  | _ => true

theorem undisturbed_of_alone (state : State) (action : StoreAction)
    (passed : alone state action = true) : Undisturbed fingerprint state action := by
  cases action with
  | commit index =>
    intro tx at_
    simp only [alone, Bool.and_eq_true, List.all_eq_true, List.mem_range, Bool.or_eq_true,
      decide_eq_true_eq, List.getD, at_, Option.getD_some] at passed
    obtain ⟨others, kind⟩ := passed
    have unrelated : ∀ other ∈ state.transactions, other = tx ∨ other = .closed := by
      intro other listed
      obtain ⟨position, held⟩ := List.mem_iff_getElem?.mp listed
      obtain ⟨bound, _⟩ := List.getElem?_eq_some_iff.mp held
      rcases others position bound with rfl | closed
      next =>
        rw [at_] at held
        exact .inl (Option.some.inj held).symm
      next =>
        rw [held] at closed
        cases other <;> first | exact .inr rfl | cases closed
    cases tx with
    | putWritten call secret number existing written =>
      intro other listed pubkey affected view
      rcases unrelated other listed with rfl | rfl <;> cases view
    | revokePubkeyWritten pubkey affected =>
      intro other listed call view
      rcases unrelated other listed with rfl | rfl <;> cases view
    | revokeGrantWritten secret pubkey flagged => cases kind
    | _ => trivial
  | _ => trivial

def inTurn : List StoreAction :=
  [.register, .start (.approvePubkey 0), .advance 0, .commit 0,
    .start (.put samplePut), .advance 1, .advance 1, .advance 1, .advance 1, .advance 1,
    .advance 1, .commit 1,
    .start (.revokePubkey 0), .advance 2, .advance 2, .advance 2, .commit 2]

theorem undisturbed_runs_keep_promises_in_turn :
    ∃ state, StoreReached sampleFingerprint (Undisturbed sampleFingerprint) state ∧
      state.pubkeys 0 = some .revoked ∧ sampleFingerprint 0 ∈ state.latest 0 ∧
      state.rotationNeeded 0 = true := by
  have seen : (Runs.run (Runs.checked (storeStep sampleFingerprint) alone) {} inTurn).map
      (fun state => (state.pubkeys 0, state.latest 0)) =
        some (some .revoked, [sampleFingerprint 0]) := by decide +kernel
  obtain ⟨state, reached, view⟩ :=
    Runs.Reaches.of_run _ (Runs.allowed_of_always (fun _ _ => trivial) _ _) seen
  have guarded : StoreReached sampleFingerprint (Undisturbed sampleFingerprint) state :=
    .of_checked undisturbed_of_alone reached
  simp only [Prod.mk.injEq] at view
  have listed : sampleFingerprint 0 ∈ state.latest 0 := by simp [view.2]
  have promises := undisturbed_runs_keep_promises sampleFingerprint_injective guarded
  exact ⟨state, guarded, view.1, listed, promises.flagged 0 0 listed (.inl view.1)⟩

-- The revocation falls between the put's check of its recipients and its commit.
def overlapped : List StoreAction :=
  [.register, .start (.approvePubkey 0), .advance 0, .commit 0,
    .start (.put samplePut), .start (.revokePubkey 0), .advance 2, .advance 2, .advance 2,
    .commit 2, .advance 1, .advance 1, .advance 1, .advance 1, .advance 1, .advance 1, .commit 1]

theorem revoked_recipient_without_rotation :
    ∃ state, StoreReached sampleFingerprint (fun _ _ => True) state ∧
      state.pubkeys 0 = some .revoked ∧ state.grants 0 0 = some .active ∧
      sampleFingerprint 0 ∈ state.latest 0 ∧ state.rotationNeeded 0 = false ∧
      ¬ Promises sampleFingerprint state.toTables := by
  have seen : (Runs.run (storeStep sampleFingerprint) {} overlapped).map (fun state =>
      (state.pubkeys 0, state.grants 0 0, state.latest 0, state.rotationNeeded 0)) =
        some (some .revoked, some .active, [sampleFingerprint 0], false) := by decide +kernel
  obtain ⟨state, reached, view⟩ :=
    Runs.Reaches.of_run _ (Runs.allowed_of_always (fun _ _ => trivial) _ _) seen
  simp only [Prod.mk.injEq] at view
  obtain ⟨revoked, active, latest, flag⟩ := view
  refine ⟨state, reached, revoked, active, by simp [latest], flag, fun promises => ?_⟩
  have key := promises.grantActive 0 0 active
  rw [revoked] at key
  cases key

end Runs

end MemoryCloud.Secrets
