import MemoryCloud.OAuth.Model

set_option autoImplicit false

/-!
# One token pair per credential, none past a revocation

A transaction that shares the owner's row excludes every revocation that is past its first
statement. From then on the codes and the approved device codes of the account only become
fewer, and once the revocation holds the rows that are left, no exchange can add a token.
-/

namespace MemoryCloud.OAuth

section Invariant

def Consumed (tables : Tables) : Credential → Prop
  | .code id => id < tables.nextCode ∧ tables.codes id = none
  | .device id => id < tables.nextDevice ∧ tables.devices id = none
  | .refresh id => id < tables.nextToken ∧
    ∀ row, tables.tokens id = some row → row.refreshRevoked = true

structure Sound (tables : Tables) : Prop where
  codes : ∀ id checkedAt, tables.codes id = some checkedAt → id < tables.nextCode
  devices : ∀ id row, tables.devices id = some row → id < tables.nextDevice
  tokens : ∀ id row, tables.tokens id = some row → id < tables.nextToken
  consumed : ∀ credential ∈ tables.issued, Consumed tables credential
  once : tables.issued.Nodup

structure Fresh (tables : Tables) (deletedAt : Nat) : Prop where
  codes : ∀ id checkedAt, tables.codes id = some checkedAt → deletedAt < checkedAt
  devices : ∀ id checkedAt, tables.devices id = some (.approved checkedAt) → deletedAt < checkedAt
  tokens : ∀ id row, tables.tokens id = some row → row.active = true → deletedAt < row.checkedAt

def Stage.codes? : Stage → Option (List Nat)
  | codesBegun codes | codesDeleted codes | devicesBegun codes _ | devicesDeleted codes _
  | tokensBegun codes _ _ | tokensWritten codes _ _ => some codes
  | _ => none

def Stage.devices? : Stage → Option (List Nat)
  | devicesBegun _ devices | devicesDeleted _ devices | tokensBegun _ devices _
  | tokensWritten _ devices _ => some devices
  | _ => none

def Stage.tokens? : Stage → Option (List Nat)
  | tokensBegun _ _ tokens | tokensWritten _ _ tokens => some tokens
  | _ => none

structure Stage.Covers (tables : Tables) (stage : Stage) : Prop where
  codes : ∀ ids, stage.codes? = some ids →
    ∀ id checkedAt, tables.codes id = some checkedAt → id ∈ ids
  devices : ∀ ids, stage.devices? = some ids →
    ∀ id checkedAt, tables.devices id = some (.approved checkedAt) → id ∈ ids
  tokens : ∀ ids, stage.tokens? = some ids →
    ∀ id row, tables.tokens id = some row → row.active = true → id ∈ ids

def Refreshable (tables : Tables) (token checkedAt : Nat) : Prop :=
  ∃ row, tables.tokens token = some row ∧ row.refreshRevoked = false ∧ row.checkedAt = checkedAt

def Holds (tables : Tables) (clock : Nat) : Tx → Prop
  | .consentChecked checkedAt | .approvalChecked _ checkedAt =>
    ∀ deletedAt ∈ tables.resets, deletedAt < checkedAt
  | .approvalWritten device checkedAt =>
    tables.devices device = some .pending ∧ ∀ deletedAt ∈ tables.resets, deletedAt < checkedAt
  | .exchangeLocked code checkedAt | .exchangeDeleted code checkedAt =>
    tables.codes code = some checkedAt
  | .pollLocked device checkedAt | .pollDeleted device checkedAt =>
    tables.devices device = some (.approved checkedAt)
  | .refreshStarted token | .refreshFound token | .refreshOwned token => token < tables.nextToken
  | .refreshOwnerless token => token < tables.nextToken ∧ tables.tokens token = none
  | .refreshLocked owned token checkedAt | .refreshRevoked owned token checkedAt =>
    owned = true ∧ Refreshable tables token checkedAt
  | .revoking _ deletedAt stage =>
    (∀ at_, deletedAt = some at_ → at_ < clock) ∧ stage.Covers tables
  | _ => True

structure Invariant (state : State) : Prop where
  sound : Sound state.toTables
  fresh : ∀ deletedAt ∈ state.resets, Fresh state.toTables deletedAt
  past : ∀ deletedAt ∈ state.resets, deletedAt < state.clock
  holds : ∀ tx ∈ state.transactions, Holds state.toTables state.clock tx
  exclusive : RowLocks.Exclusive Tx.clash state.transactions

end Invariant

section Locks

theorem Tx.clash_symm (left right : Tx) : left.clash right = right.clash left := by
  have owners : left.conflicts right = right.conflicts left := by
    unfold Tx.conflicts
    cases left.ownsOwner <;> cases right.ownsOwner <;> cases left.sharesOwner <;>
      cases right.sharesOwner <;> rfl
  rw [Tx.clash, Tx.clash, owners, RowLocks.sharing_symm]

theorem Tx.apart {left right : Tx} (free : left.clash right = false) :
    ∀ row ∈ left.rows, row ∉ right.rows :=
  RowLocks.sharing_false.mp (Bool.or_eq_false_iff.mp free).1

theorem Tx.not_owning {left right : Tx} (free : left.clash right = false)
    (shares : left.sharesOwner = true) : right.ownsOwner = false := by
  have owners := (Bool.or_eq_false_iff.mp free).2
  simpa [Tx.conflicts, shares] using (Bool.or_eq_false_iff.mp owners).2

theorem Tx.alone {left right : Tx} (free : left.clash right = false)
    (owns : left.ownsOwner = true) : right.sharesOwner = false ∧ right.ownsOwner = false := by
  have owners := (Bool.or_eq_false_iff.mp free).2
  simpa [Tx.conflicts, owns] using (Bool.or_eq_false_iff.mp owners).1

theorem Tx.clash_idle {tx : Tx} (rows : tx.rows = []) (shares : tx.sharesOwner = false)
    (owns : tx.ownsOwner = false) (held : Tx) : held.clash tx = false := by
  simp [Tx.clash, RowLocks.sharing, Tx.conflicts, rows, shares, owns]

theorem clash_revoking (held : Tx) (deleteTokens : Bool) (left right : Option Nat)
    (stage : Stage) :
    held.clash (.revoking deleteTokens left stage) =
      held.clash (.revoking deleteTokens right stage) := by
  cases stage <;> rfl

theorem ownsOwner_of_codes {stage : Stage} {ids : List Nat} (listed : stage.codes? = some ids)
    (deleteTokens : Bool) (deletedAt : Option Nat) :
    (Tx.revoking deleteTokens deletedAt stage).ownsOwner = true := by
  cases stage <;> first | rfl | cases listed

theorem ownsOwner_of_devices {stage : Stage} {ids : List Nat}
    (listed : stage.devices? = some ids) (deleteTokens : Bool) (deletedAt : Option Nat) :
    (Tx.revoking deleteTokens deletedAt stage).ownsOwner = true := by
  cases stage <;> first | rfl | cases listed

theorem ownsOwner_of_tokens {stage : Stage} {ids : List Nat} (listed : stage.tokens? = some ids)
    (deleteTokens : Bool) (deletedAt : Option Nat) :
    (Tx.revoking deleteTokens deletedAt stage).ownsOwner = true := by
  cases stage <;> first | rfl | cases listed

-- A revocation at its token statement holds every code and device row it lists.
theorem rows_of_tokens {stage : Stage} {tokens : List Nat}
    (listed : stage.tokens? = some tokens) :
    ∃ codes devices, stage.codes? = some codes ∧ stage.devices? = some devices ∧
      (∀ id ∈ codes, Row.code id ∈ stage.rows) ∧ ∀ id ∈ devices, Row.device id ∈ stage.rows := by
  cases stage with
  | tokensBegun | tokensWritten =>
    exact ⟨_, _, rfl, rfl, by simp [Stage.rows], by simp [Stage.rows]⟩
  | _ => cases listed

end Locks

section Frame

structure Spares (tables after : Tables) (tx : Tx) : Prop where
  code : ∀ id checkedAt, Row.code id ∈ tx.rows → tables.codes id = some checkedAt →
    after.codes id = some checkedAt
  device : ∀ id row, Row.device id ∈ tx.rows → tables.devices id = some row →
    after.devices id = some row
  token : ∀ id row, Row.token id ∈ tx.rows → tables.tokens id = some row →
    after.tokens id = some row
  later : tables.nextToken ≤ after.nextToken
  gone : ∀ id, id < tables.nextToken → tables.tokens id = none → after.tokens id = none
  resets : tx.sharesOwner = true → after.resets = tables.resets
  fewerCodes : tx.ownsOwner = true → ∀ id checkedAt, after.codes id = some checkedAt →
    tables.codes id = some checkedAt
  fewerDevices : tx.ownsOwner = true → ∀ id checkedAt,
    after.devices id = some (.approved checkedAt) → tables.devices id = some (.approved checkedAt)
  fewerTokens : ∀ deleteTokens deletedAt stage ids, tx = .revoking deleteTokens deletedAt stage →
    stage.tokens? = some ids → ∀ id row, after.tokens id = some row → row.active = true →
    tables.tokens id = some row

variable {tables after : Tables} {clock later : Nat} {tx : Tx}

theorem Spares.covers {deleteTokens : Bool} {deletedAt : Option Nat} {stage : Stage}
    (spares : Spares tables after (.revoking deleteTokens deletedAt stage))
    (covers : stage.Covers tables) : stage.Covers after where
  codes ids listed id checkedAt present :=
    covers.codes ids listed id checkedAt
      (spares.fewerCodes (ownsOwner_of_codes listed _ _) id checkedAt present)
  devices ids listed id checkedAt present :=
    covers.devices ids listed id checkedAt
      (spares.fewerDevices (ownsOwner_of_devices listed _ _) id checkedAt present)
  tokens ids listed id row present active :=
    covers.tokens ids listed id row
      (spares.fewerTokens _ _ _ ids rfl listed id row present active) active

theorem Holds.spared (spares : Spares tables after tx) (passed : clock ≤ later)
    (holds : Holds tables clock tx) : Holds after later tx := by
  have refreshable : ∀ token checkedAt, Row.token token ∈ tx.rows →
      Refreshable tables token checkedAt → Refreshable after token checkedAt :=
    fun token _ listed ⟨row, found, same⟩ => ⟨row, spares.token token row listed found, same⟩
  cases tx with
  | consentChecked | approvalChecked =>
    intro deletedAt listed
    exact holds deletedAt (spares.resets rfl ▸ listed)
  | approvalWritten device checkedAt =>
    refine ⟨spares.device _ _ (List.mem_singleton_self _) holds.1, fun deletedAt listed => ?_⟩
    exact holds.2 deletedAt (spares.resets rfl ▸ listed)
  | exchangeLocked | exchangeDeleted => exact spares.code _ _ (List.mem_singleton_self _) holds
  | pollLocked | pollDeleted => exact spares.device _ _ (List.mem_singleton_self _) holds
  | refreshStarted | refreshFound | refreshOwned => exact Nat.lt_of_lt_of_le holds spares.later
  | refreshOwnerless token =>
    exact ⟨Nat.lt_of_lt_of_le holds.1 spares.later, spares.gone token holds.1 holds.2⟩
  | refreshLocked | refreshRevoked =>
    exact ⟨holds.1, refreshable _ _ (List.mem_singleton_self _) holds.2⟩
  | revoking deleteTokens deletedAt stage =>
    exact ⟨fun at_ set => Nat.lt_of_lt_of_le (holds.1 at_ set) passed, spares.covers holds.2⟩
  | _ => trivial

theorem Spares.refl (tables : Tables) (tx : Tx) : Spares tables tables tx where
  code _ _ _ found := found
  device _ _ _ found := found
  token _ _ _ found := found
  later := Nat.le_refl _
  gone _ _ missing := missing
  resets _ := rfl
  fewerCodes _ _ _ found := found
  fewerDevices _ _ _ found := found
  fewerTokens _ _ _ _ _ _ _ _ found _ := found

end Frame

section Statements

variable {state : State} {tx after : Tx}

theorem mem_codeIds {tables : Tables} (sound : Sound tables) {id checkedAt : Nat}
    (present : tables.codes id = some checkedAt) : id ∈ tables.codeIds := by
  simp [Tables.codeIds, present, sound.codes id checkedAt present]

theorem mem_approvedIds {tables : Tables} (sound : Sound tables) {id checkedAt : Nat}
    (present : tables.devices id = some (.approved checkedAt)) : id ∈ tables.approvedIds := by
  simp [Tables.approvedIds, present, sound.devices id _ present]

theorem mem_tokenIds {tables : Tables} (sound : Sound tables) {id : Nat} {row : Token}
    (deleteTokens : Bool) (present : tables.tokens id = some row) (active : row.active = true) :
    id ∈ tables.tokenIds deleteTokens := by
  simp [Tables.tokenIds, present, active, sound.tokens id row present]

theorem Stage.Covers.next {tables : Tables} {stage : Stage} (sound : Sound tables)
    (covers : stage.Covers tables) (deleteTokens : Bool) :
    (stage.next tables deleteTokens).Covers tables := by
  have codes : ∀ ids, stage.codes? = some ids → ∀ id checkedAt,
      tables.codes id = some checkedAt → id ∈ ids.filter fun id => id ∈ tables.codeIds :=
    fun ids listed id checkedAt present => List.mem_filter.mpr
      ⟨covers.codes ids listed id checkedAt present, by simp [mem_codeIds sound present]⟩
  have devices : ∀ ids, stage.devices? = some ids → ∀ id checkedAt,
      tables.devices id = some (.approved checkedAt) →
        id ∈ ids.filter fun id => id ∈ tables.approvedIds :=
    fun ids listed id checkedAt present => List.mem_filter.mpr
      ⟨covers.devices ids listed id checkedAt present, by simp [mem_approvedIds sound present]⟩
  have tokens : ∀ ids, stage.tokens? = some ids → ∀ id row, tables.tokens id = some row →
      row.active = true → id ∈ ids.filter fun id => id ∈ tables.tokenIds deleteTokens :=
    fun ids listed id row present active => List.mem_filter.mpr
      ⟨covers.tokens ids listed id row present active,
        by simp [mem_tokenIds sound deleteTokens present active]⟩
  cases stage with
  | started => exact ⟨nofun, nofun, nofun⟩
  | locked => exact ⟨by rintro _ ⟨⟩ _ _; exact mem_codeIds sound, nofun, nofun⟩
  | codesBegun snapshot => exact ⟨by rintro _ ⟨⟩; exact codes _ rfl, nofun, nofun⟩
  | codesDeleted => exact ⟨covers.codes, by rintro _ ⟨⟩ _ _; exact mem_approvedIds sound, nofun⟩
  | devicesBegun => exact ⟨covers.codes, by rintro _ ⟨⟩; exact devices _ rfl, nofun⟩
  | devicesDeleted =>
    exact ⟨covers.codes, covers.devices, by rintro _ ⟨⟩ _ _; exact mem_tokenIds sound _⟩
  | tokensBegun =>
    exact ⟨covers.codes, covers.devices, by rintro _ ⟨⟩; exact tokens _ rfl⟩
  | tokensWritten => exact covers

theorem holds_lockRefresh {tables : Tables} {clock token : Nat} {owned : Bool}
    (shared : tables.tokens token = none ∨ owned = true)
    (taken : lockRefresh tables owned token = .ok after) : Holds tables clock after := by
  unfold lockRefresh at taken
  split at taken
  next row found =>
    split at taken
    next => cases taken
    next unrevoked =>
      cases taken
      refine ⟨shared.resolve_left ?_, row, found, by simpa using unrevoked, rfl⟩
      simp [found]
  next => cases taken

theorem holds_statement (invariant : Invariant state)
    (holds : Holds state.toTables state.clock tx) (taken : statement state tx = .ok after) :
    Holds state.toTables (state.clock + 1) after := by
  have checked : ∀ deletedAt ∈ state.resets, deletedAt < state.clock := invariant.past
  cases tx with
  | consentStarted | approvalStarted =>
    cases taken
    trivial
  | consentLocked session | approvalLocked session =>
    simp only [statement] at taken
    split at taken
    next =>
      cases taken
      exact checked
    next => cases taken
  | approvalChecked device checkedAt =>
    simp only [statement] at taken
    split at taken
    next pending =>
      cases taken
      exact ⟨pending, holds⟩
    next => cases taken
  | exchangeStarted code =>
    simp only [statement, lockCode] at taken
    split at taken
    next checkedAt found =>
      cases taken
      exact found
    next => cases taken
  | pollStarted device =>
    simp only [statement, lockDevice] at taken
    split at taken
    next checkedAt found =>
      cases taken
      exact found
    next => cases taken
    next => cases taken
  | exchangeLocked code checkedAt | pollLocked device checkedAt =>
    simp only [statement] at taken
    split at taken
    next =>
      cases taken
      exact holds
    next => cases taken
  | refreshStarted token =>
    simp only [statement] at taken
    split at taken
    next =>
      cases taken
      exact holds
    next missing =>
      cases taken
      exact ⟨holds, by simpa using missing⟩
  | refreshFound token =>
    cases taken
    exact holds
  | refreshOwnerless token => exact holds_lockRefresh (.inl holds.2) taken
  | refreshOwned token => exact holds_lockRefresh (.inr rfl) taken
  | refreshLocked owned token checkedAt =>
    simp only [statement] at taken
    split at taken
    next =>
      cases taken
      exact holds
    next => cases taken
  | revoking deleteTokens deletedAt stage =>
    cases taken
    exact ⟨fun at_ set => Nat.lt_succ_of_lt (holds.1 at_ set),
      holds.2.next invariant.sound deleteTokens⟩
  | closed =>
    cases taken
    trivial
  | consentChecked | approvalWritten | exchangeDeleted | pollDeleted | refreshRevoked =>
    cases taken
    exact holds

end Statements

section Commits

variable {tables after : Tables} {clock : Nat}

theorem Token.revoke_inactive (token : Token) : token.revoke.active = false := rfl

structure Fewer (tables after : Tables) : Prop where
  codes : ∀ id checkedAt, after.codes id = some checkedAt → tables.codes id = some checkedAt
  devices : ∀ id row, after.devices id = some row → tables.devices id = some row
  tokens : ∀ id row, after.tokens id = some row → ∃ old, tables.tokens id = some old ∧
    (row = old ∨ row = old.revoke)
  nextCode : after.nextCode = tables.nextCode
  nextDevice : after.nextDevice = tables.nextDevice
  nextToken : after.nextToken = tables.nextToken
  issued : after.issued = tables.issued

theorem Fewer.consumed (fewer : Fewer tables after) {credential : Credential}
    (consumed : Consumed tables credential) : Consumed after credential := by
  cases credential with
  | code id =>
    refine ⟨fewer.nextCode ▸ consumed.1, Option.eq_none_iff_forall_ne_some.mpr ?_⟩
    intro checkedAt present
    simpa [consumed.2] using fewer.codes id checkedAt present
  | device id =>
    refine ⟨fewer.nextDevice ▸ consumed.1, Option.eq_none_iff_forall_ne_some.mpr ?_⟩
    intro row present
    simpa [consumed.2] using fewer.devices id row present
  | refresh id =>
    refine ⟨fewer.nextToken ▸ consumed.1, fun row present => ?_⟩
    obtain ⟨old, found, rfl | rfl⟩ := fewer.tokens id row present
    next => exact consumed.2 row found
    next => rfl

theorem Fewer.sound (fewer : Fewer tables after) (sound : Sound tables) : Sound after where
  codes id checkedAt present :=
    fewer.nextCode ▸ sound.codes id checkedAt (fewer.codes id checkedAt present)
  devices id row present := fewer.nextDevice ▸ sound.devices id row (fewer.devices id row present)
  tokens id row present := by
    obtain ⟨old, found, _⟩ := fewer.tokens id row present
    exact fewer.nextToken ▸ sound.tokens id old found
  consumed credential listed := fewer.consumed (sound.consumed credential (fewer.issued ▸ listed))
  once := fewer.issued ▸ sound.once

theorem Fewer.fresh (fewer : Fewer tables after) {deletedAt : Nat} (fresh : Fresh tables deletedAt) :
    Fresh after deletedAt where
  codes id checkedAt present := fresh.codes id checkedAt (fewer.codes id checkedAt present)
  devices id checkedAt present := fresh.devices id checkedAt (fewer.devices id _ present)
  tokens id row present active := by
    obtain ⟨old, found, rfl | rfl⟩ := fewer.tokens id row present
    next => exact fresh.tokens id row found active
    next => cases active

theorem update_none {A : Type} {table : Nat → Option A} {key id : Nat} {value : A}
    (present : Function.update table key none id = some value) : table id = some value := by
  by_cases same : id = key
  next => simp [same] at present
  next => rwa [Function.update_of_ne same] at present

theorem update_some {A : Type} {table : Nat → Option A} {key id : Nat} {new value : A}
    (present : Function.update table key (some new) id = some value) :
    id = key ∧ value = new ∨ table id = some value := by
  by_cases same : id = key
  next =>
    subst same
    rw [Function.update_self] at present
    cases present
    exact .inl ⟨rfl, rfl⟩
  next => exact .inr (by rwa [Function.update_of_ne same] at present)

theorem fewer_code (tables : Tables) (code : Nat) :
    Fewer tables { tables with codes := Function.update tables.codes code none } where
  codes _ _ present := update_none present
  devices _ _ present := present
  tokens _ row present := ⟨row, present, .inl rfl⟩
  nextCode := rfl
  nextDevice := rfl
  nextToken := rfl
  issued := rfl

theorem fewer_device (tables : Tables) (device : Nat) :
    Fewer tables { tables with devices := Function.update tables.devices device none } where
  codes _ _ present := present
  devices _ _ present := update_none present
  tokens _ row present := ⟨row, present, .inl rfl⟩
  nextCode := rfl
  nextDevice := rfl
  nextToken := rfl
  issued := rfl

theorem fewer_token (tables : Tables) (token : Nat) :
    Fewer tables { tables with
      tokens := Function.update tables.tokens token ((tables.tokens token).map Token.revoke) } where
  codes _ _ present := present
  devices _ _ present := present
  tokens id row present := by
    by_cases same : id = token
    next =>
      subst same
      simp only [Function.update_self, Option.map_eq_some_iff] at present
      obtain ⟨old, found, rfl⟩ := present
      exact ⟨old, found, .inr rfl⟩
    next => exact ⟨row, by simpa [Function.update_of_ne same] using present, .inl rfl⟩
  nextCode := rfl
  nextDevice := rfl
  nextToken := rfl
  issued := rfl

theorem fewer_revoked (tables : Tables) (deleteTokens : Bool) (codes devices tokens : List Nat) :
    Fewer tables (revoked tables deleteTokens codes devices tokens) where
  codes id checkedAt present := by
    simp only [revoked] at present
    split at present
    next => cases present
    next => exact present
  devices id row present := by
    simp only [revoked] at present
    split at present
    next => cases present
    next => exact present
  tokens id row present := by
    simp only [revoked] at present
    split at present
    next =>
      split at present
      next => cases present
      next =>
        obtain ⟨old, found, rfl⟩ := Option.map_eq_some_iff.mp present
        exact ⟨old, found, .inr rfl⟩
    next => exact ⟨row, present, .inl rfl⟩
  nextCode := rfl
  nextDevice := rfl
  nextToken := rfl
  issued := rfl

theorem issue_tokens {credential : Credential} {checkedAt id : Nat} {row : Token}
    (present : (issue tables credential checkedAt).tokens id = some row) :
    id = tables.nextToken ∧ row = ⟨checkedAt, false, false⟩ ∨ tables.tokens id = some row :=
  update_some present

theorem issue_tokens_of_lt {credential : Credential} {checkedAt id : Nat}
    (known : id < tables.nextToken) :
    (issue tables credential checkedAt).tokens id = tables.tokens id :=
  Function.update_of_ne (Nat.ne_of_lt known) _ _

theorem Consumed.issue {credential other : Credential} {checkedAt : Nat}
    (consumed : Consumed tables other) : Consumed (issue tables credential checkedAt) other := by
  cases other with
  | code | device => exact consumed
  | refresh id =>
    refine ⟨Nat.lt_succ_of_lt consumed.1, fun row present => consumed.2 row ?_⟩
    rwa [issue_tokens_of_lt consumed.1] at present

theorem Sound.issue (sound : Sound tables) {credential : Credential} {checkedAt : Nat}
    (unused : credential ∉ tables.issued) (consumed : Consumed tables credential) :
    Sound (issue tables credential checkedAt) where
  codes := sound.codes
  devices := sound.devices
  tokens id row present := by
    rcases issue_tokens present with ⟨rfl, _⟩ | old
    next => exact Nat.lt_succ_self _
    next => exact Nat.lt_succ_of_lt (sound.tokens id row old)
  consumed other listed := by
    rcases List.mem_append.mp listed with old | new
    next => exact (sound.consumed other old).issue
    next => exact (List.mem_singleton.mp new ▸ consumed).issue
  once := List.nodup_append.mpr ⟨sound.once, List.pairwise_singleton _ _, fun _ old _ new same =>
    unused (List.mem_singleton.mp new ▸ same ▸ old)⟩

theorem Fresh.issue {deletedAt : Nat} (fresh : Fresh tables deletedAt) (credential : Credential)
    {checkedAt : Nat} (after : deletedAt < checkedAt) :
    Fresh (issue tables credential checkedAt) deletedAt where
  codes := fresh.codes
  devices := fresh.devices
  tokens id row present active := by
    rcases issue_tokens present with ⟨_, rfl⟩ | old
    next => exact after
    next => exact fresh.tokens id row old active

structure Commits (tables after : Tables) (clock : Nat) (tx : Tx) : Prop where
  sound : Sound after
  fresh : ∀ deletedAt ∈ after.resets, Fresh after deletedAt
  past : ∀ deletedAt ∈ after.resets, deletedAt < clock
  spares : ∀ other, tx.clash other = false → Holds tables clock other →
    Spares tables after other

variable (sound : Sound tables) (fresh : ∀ deletedAt ∈ tables.resets, Fresh tables deletedAt)
  (past : ∀ deletedAt ∈ tables.resets, deletedAt < clock)

include sound fresh past

theorem commits_consent {checkedAt : Nat}
    (holds : Holds tables clock (.consentChecked checkedAt)) :
    Commits tables { tables with
      codes := Function.update tables.codes tables.nextCode (some checkedAt)
      nextCode := tables.nextCode + 1 } clock (.consentChecked checkedAt) where
  sound := by
    refine ⟨fun id value present => ?_, sound.devices, sound.tokens, fun credential listed => ?_,
      sound.once⟩
    next =>
      rcases update_some present with ⟨rfl, _⟩ | old
      next => exact Nat.lt_succ_self _
      next => exact Nat.lt_succ_of_lt (sound.codes id value old)
    next =>
      have consumed := sound.consumed credential listed
      cases credential with
      | code id =>
        exact ⟨Nat.lt_succ_of_lt consumed.1,
          (Function.update_of_ne (Nat.ne_of_lt consumed.1) _ _).trans consumed.2⟩
      | device | refresh => exact consumed
  fresh deletedAt listed := by
    refine ⟨fun id value present => ?_, (fresh deletedAt listed).devices,
      (fresh deletedAt listed).tokens⟩
    rcases update_some present with ⟨_, rfl⟩ | old
    next => exact holds deletedAt listed
    next => exact (fresh deletedAt listed).codes id value old
  past := past
  spares other free _ := by
    have unowned := Tx.not_owning free rfl
    exact { Spares.refl tables other with
      code := fun id value _ present =>
        (Function.update_of_ne (Nat.ne_of_lt (sound.codes id value present)) _ _).trans present
      fewerCodes := fun owns => by simp [unowned] at owns
      fewerTokens := fun _ _ _ _ _ _ _ _ present _ => present }

theorem commits_approval {device checkedAt : Nat}
    (holds : Holds tables clock (.approvalWritten device checkedAt)) :
    Commits tables { tables with
      devices := Function.update tables.devices device (some (.approved checkedAt)) } clock
      (.approvalWritten device checkedAt) where
  sound := by
    refine ⟨sound.codes, fun id row present => ?_, sound.tokens, fun credential listed => ?_,
      sound.once⟩
    next =>
      rcases update_some present with ⟨rfl, _⟩ | old
      next => exact sound.devices id _ holds.1
      next => exact sound.devices id row old
    next =>
      have consumed := sound.consumed credential listed
      cases credential with
      | device id =>
        refine ⟨consumed.1, (Function.update_of_ne ?_ _ _).trans consumed.2⟩
        rintro rfl
        simpa [consumed.2] using holds.1
      | code | refresh => exact consumed
  fresh deletedAt listed := by
    refine ⟨(fresh deletedAt listed).codes, fun id value present => ?_,
      (fresh deletedAt listed).tokens⟩
    rcases update_some present with ⟨_, same⟩ | old
    next =>
      cases same
      exact holds.2 deletedAt listed
    next => exact (fresh deletedAt listed).devices id value old
  past := past
  spares other free _ := by
    have unowned := Tx.not_owning free rfl
    exact { Spares.refl tables other with
      device := fun id row held present => by
        refine (Function.update_of_ne ?_ _ _).trans present
        rintro rfl
        exact Tx.apart free _ (List.mem_singleton_self _) held
      fewerDevices := fun owns => by simp [unowned] at owns
      fewerTokens := fun _ _ _ _ _ _ _ _ present _ => present }

omit fresh past in
theorem Spares.issue {between : Tables} {other : Tx} (spares : Spares tables between other)
    (same : between.nextToken = tables.nextToken)
    (early : ∀ deleteTokens deletedAt stage ids, other = .revoking deleteTokens deletedAt stage →
      stage.tokens? ≠ some ids) (credential : Credential) (checkedAt : Nat) :
    Spares tables (issue between credential checkedAt) other where
  code := spares.code
  device := spares.device
  token id row held present := by
    rw [issue_tokens_of_lt (same ▸ sound.tokens id row present)]
    exact spares.token id row held present
  later := Nat.le_succ_of_le spares.later
  gone id known missing := by
    rw [issue_tokens_of_lt (same ▸ known)]
    exact spares.gone id known missing
  resets := spares.resets
  fewerCodes := spares.fewerCodes
  fewerDevices := spares.fewerDevices
  fewerTokens deleteTokens deletedAt stage ids found listed :=
    absurd listed (early deleteTokens deletedAt stage ids found)

theorem commits_exchange {code checkedAt : Nat}
    (holds : Holds tables clock (.exchangeDeleted code checkedAt)) :
    Commits tables
      (issue { tables with codes := Function.update tables.codes code none } (.code code)
        checkedAt) clock (.exchangeDeleted code checkedAt) where
  sound := by
    refine ((fewer_code tables code).sound sound).issue (fun listed => ?_)
      ⟨sound.codes code checkedAt holds, Function.update_self _ _ _⟩
    cases (sound.consumed _ listed).2.symm.trans holds
  fresh deletedAt listed :=
    ((fewer_code tables code).fresh (fresh deletedAt listed)).issue _
      ((fresh deletedAt listed).codes code checkedAt holds)
  past := past
  spares other free read := by
    have deleted : Spares tables
        { tables with codes := Function.update tables.codes code none } other :=
      { Spares.refl tables other with
        code := fun id value held present => by
          refine (Function.update_of_ne ?_ _ _).trans present
          rintro rfl
          exact Tx.apart free _ (List.mem_singleton_self _) held
        fewerCodes := fun _ => (fewer_code tables code).codes
        fewerTokens := fun _ _ _ _ _ _ _ _ present _ => present }
    refine deleted.issue sound rfl ?_ _ _
    -- A revocation at its token statement holds the code that this exchange has locked.
    rintro deleteTokens deletedAt stage ids rfl listed
    obtain ⟨codes, _, known, _, locked, _⟩ := rows_of_tokens listed
    exact Tx.apart free _ (List.mem_singleton_self _)
      (locked code (read.2.codes codes known code checkedAt holds))

theorem commits_poll {device checkedAt : Nat}
    (holds : Holds tables clock (.pollDeleted device checkedAt)) :
    Commits tables
      (issue { tables with devices := Function.update tables.devices device none }
        (.device device) checkedAt) clock (.pollDeleted device checkedAt) where
  sound := by
    refine ((fewer_device tables device).sound sound).issue (fun listed => ?_)
      ⟨sound.devices device _ holds, Function.update_self _ _ _⟩
    cases (sound.consumed _ listed).2.symm.trans holds
  fresh deletedAt listed :=
    ((fewer_device tables device).fresh (fresh deletedAt listed)).issue _
      ((fresh deletedAt listed).devices device checkedAt holds)
  past := past
  spares other free read := by
    have deleted : Spares tables
        { tables with devices := Function.update tables.devices device none } other :=
      { Spares.refl tables other with
        device := fun id row held present => by
          refine (Function.update_of_ne ?_ _ _).trans present
          rintro rfl
          exact Tx.apart free _ (List.mem_singleton_self _) held
        fewerDevices := fun _ id value => (fewer_device tables device).devices id _
        fewerTokens := fun _ _ _ _ _ _ _ _ present _ => present }
    refine deleted.issue sound rfl ?_ _ _
    rintro deleteTokens deletedAt stage ids rfl listed
    obtain ⟨_, devices, _, known, _, locked⟩ := rows_of_tokens listed
    exact Tx.apart free _ (List.mem_singleton_self _)
      (locked device (read.2.devices devices known device checkedAt holds))

theorem commits_refresh {owned : Bool} {token checkedAt : Nat}
    (holds : Holds tables clock (.refreshRevoked owned token checkedAt)) :
    Commits tables
      (issue { tables with
        tokens := Function.update tables.tokens token ((tables.tokens token).map Token.revoke) }
        (.refresh token) checkedAt) clock (.refreshRevoked owned token checkedAt) := by
  obtain ⟨rfl, row, found, unrevoked, rfl⟩ := holds
  have fewer := fewer_token tables token
  constructor
  case sound =>
    refine (fewer.sound sound).issue (fun listed => ?_) ⟨sound.tokens token row found, ?_⟩
    next => simp [(sound.consumed _ listed).2 row found] at unrevoked
    next =>
      intro after present
      simp only [Function.update_self, found, Option.map_some, Option.some_inj] at present
      rw [← present]
      rfl
  case fresh =>
    intro deletedAt listed
    refine (fewer.fresh (fresh deletedAt listed)).issue _ ?_
    exact (fresh deletedAt listed).tokens token row found (by simp [Token.active, unrevoked])
  case past => exact past
  case spares =>
    intro other free _
    have early : ∀ deleteTokens deletedAt stage ids,
        other = .revoking deleteTokens deletedAt stage → stage.tokens? ≠ some ids := by
      rintro deleteTokens deletedAt stage ids rfl listed
      have owns := ownsOwner_of_tokens listed deleteTokens deletedAt
      simp [Tx.not_owning free rfl] at owns
    have rotated : Spares tables { tables with
        tokens := Function.update tables.tokens token ((tables.tokens token).map Token.revoke) }
        other :=
      { Spares.refl tables other with
        token := fun id value held present => by
          refine (Function.update_of_ne ?_ _ _).trans present
          rintro rfl
          exact Tx.apart free _ (List.mem_singleton_self _) held
        gone := fun id _ missing => by
          refine (Function.update_of_ne ?_ _ _).trans missing
          rintro rfl
          cases missing.symm.trans found
        fewerTokens := fun _ _ _ ids same listed => absurd listed (early _ _ _ ids same) }
    exact rotated.issue sound rfl early _ _

omit fresh in
-- Nothing that was there when the revocation commits outlives it.
theorem commits_revocation {deleteTokens : Bool} {deletedAt : Nat} {codes devices tokens : List Nat}
    (holds : Holds tables clock
      (.revoking deleteTokens (some deletedAt) (.tokensWritten codes devices tokens))) :
    Commits tables
      { revoked tables deleteTokens codes devices tokens with
        resets := tables.resets ++ [deletedAt] } clock
      (.revoking deleteTokens (some deletedAt) (.tokensWritten codes devices tokens)) := by
  obtain ⟨set, covers⟩ := holds
  have fewer := fewer_revoked tables deleteTokens codes devices tokens
  have sounder := fewer.sound sound
  constructor
  case sound => exact ⟨sounder.codes, sounder.devices, sounder.tokens, sounder.consumed, sounder.once⟩
  case fresh =>
    intro at_ _
    refine ⟨fun id value present => ?_, fun id value present => ?_, fun id row present active => ?_⟩
    next =>
      have listed := covers.codes codes rfl id value (fewer.codes id value present)
      simp [revoked, listed] at present
    next =>
      have listed := covers.devices devices rfl id value (fewer.devices id _ present)
      simp [revoked, listed] at present
    next =>
      obtain ⟨old, found, rfl | rfl⟩ := fewer.tokens id row present
      next =>
        have listed := covers.tokens tokens rfl id row found active
        simp only [revoked, listed, if_true, found, Option.map_some] at present
        split at present
        next => cases present
        next =>
          rw [← Option.some_inj.mp present, Token.revoke_inactive] at active
          cases active
      next => cases active
  case past =>
    intro at_ listed
    rcases List.mem_append.mp listed with old | new
    next => exact past at_ old
    next => exact set at_ (congrArg some (List.mem_singleton.mp new).symm)
  case spares =>
    intro other free _
    obtain ⟨unshared, unowned⟩ := Tx.alone free rfl
    have apart := Tx.apart free
    simp only [Tx.rows, Stage.rows, List.mem_append, List.mem_map] at apart
    exact {
      code := fun id value held present => by
        have spared : id ∉ codes := fun listed => apart _ (.inl (.inl ⟨id, listed, rfl⟩)) held
        simpa [revoked, spared] using present
      device := fun id row held present => by
        have spared : id ∉ devices := fun listed => apart _ (.inl (.inr ⟨id, listed, rfl⟩)) held
        simpa [revoked, spared] using present
      token := fun id row held present => by
        have spared : id ∉ tokens := fun listed => apart _ (.inr ⟨id, listed, rfl⟩) held
        simpa [revoked, spared] using present
      later := Nat.le_refl _
      gone := fun id _ missing => by simp [revoked, missing]
      resets := fun shares => by simp [unshared] at shares
      fewerCodes := fun owns => by simp [unowned] at owns
      fewerDevices := fun owns => by simp [unowned] at owns
      fewerTokens := fun _ _ _ _ same listed => by
        subst same
        simp [ownsOwner_of_tokens listed] at unowned }

theorem commits_commit {tx : Tx} (holds : Holds tables clock tx)
    (taken : commit tables tx = some after) : Commits tables after clock tx := by
  cases tx with
  | consentChecked =>
    cases taken
    exact commits_consent sound fresh past holds
  | approvalWritten =>
    cases taken
    exact commits_approval sound fresh past holds
  | exchangeDeleted =>
    cases taken
    exact commits_exchange sound fresh past holds
  | pollDeleted =>
    cases taken
    exact commits_poll sound fresh past holds
  | refreshRevoked =>
    cases taken
    exact commits_refresh sound fresh past holds
  | revoking deleteTokens deletedAt stage =>
    cases deletedAt with
    | none => cases taken
    | some deletedAt =>
      cases stage with
      | tokensWritten =>
        cases taken
        exact commits_revocation sound past holds
      | _ => cases taken
  | _ => cases taken

end Commits

section Runs

variable {state : State} {index : Nat}

theorem holds_later {tables : Tables} {clock : Nat} {tx : Tx} (holds : Holds tables clock tx) :
    Holds tables (clock + 1) tx :=
  holds.spared (.refl tables tx) (Nat.le_succ clock)

theorem Invariant.moved (invariant : Invariant state) {tx : Tx}
    (holds : Holds state.toTables (state.clock + 1) tx)
    (free : ∀ (other : Nat) (held : Tx), other ≠ index →
      state.transactions[other]? = some held → held.clash tx = false) :
    Invariant (state.moved index tx) where
  sound := invariant.sound
  fresh := invariant.fresh
  past deletedAt listed := Nat.lt_succ_of_lt (invariant.past deletedAt listed)
  holds other listed := by
    rcases RowLocks.mem_set listed with rfl | ⟨_, _, found⟩
    next => exact holds
    next => exact holds_later (invariant.holds other (List.mem_of_getElem? found))
  exclusive := invariant.exclusive.set Tx.clash_symm free

theorem Invariant.closed (invariant : Invariant state) (index : Nat) :
    Invariant (state.moved index .closed) :=
  invariant.moved trivial fun _ held _ _ => Tx.clash_idle rfl rfl rfl held

theorem Invariant.start (invariant : Invariant state) {request : Request} {tx : Tx}
    (started : request.start state = some tx) :
    Invariant { state with transactions := state.transactions ++ [tx] } := by
  have begun : Holds state.toTables state.clock tx ∧ ∀ held : Tx, held.clash tx = false := by
    cases request with
    | refresh token =>
      simp only [Request.start] at started
      split at started
      next known =>
        cases started
        exact ⟨known, Tx.clash_idle rfl rfl rfl⟩
      next => cases started
    | revocation deleteTokens =>
      cases started
      exact ⟨⟨nofun, nofun, nofun, nofun⟩, Tx.clash_idle rfl rfl rfl⟩
    | _ =>
      cases started
      exact ⟨trivial, Tx.clash_idle rfl rfl rfl⟩
  refine ⟨invariant.sound, invariant.fresh, invariant.past, fun other listed => ?_,
    invariant.exclusive.append Tx.clash_symm begun.2⟩
  rcases List.mem_append.mp listed with old | new
  next => exact invariant.holds other old
  next => exact List.mem_singleton.mp new ▸ begun.1

theorem Invariant.commit (invariant : Invariant state) {tx : Tx} {after : Tables}
    (found : state.transactions[index]? = some tx)
    (taken : commit state.toTables tx = some after) :
    Invariant { after with
      clock := state.clock + 1
      sessions := state.sessions
      transactions := state.transactions.set index .closed } := by
  have holds := invariant.holds tx (List.mem_of_getElem? found)
  have commits := commits_commit invariant.sound invariant.fresh invariant.past holds taken
  refine ⟨commits.sound, commits.fresh, fun at_ listed => Nat.lt_succ_of_lt (commits.past at_ listed),
    fun other listed => ?_,
    invariant.exclusive.set Tx.clash_symm fun _ held _ _ => Tx.clash_idle rfl rfl rfl held⟩
  rcases RowLocks.mem_set listed with rfl | ⟨place, differ, held⟩
  next => trivial
  next =>
    have read := invariant.holds other (List.mem_of_getElem? held)
    have free := invariant.exclusive index place tx other (Ne.symm differ) found held
    exact read.spared (commits.spares other free read) (Nat.le_succ _)

theorem Invariant.addDevice (invariant : Invariant state) :
    Invariant { state with
      devices := Function.update state.devices state.nextDevice (some .pending)
      nextDevice := state.nextDevice + 1 } := by
  have sound := invariant.sound
  have unapproved : ∀ id checkedAt,
      Function.update state.devices state.nextDevice (some .pending) id
        = some (.approved checkedAt) → state.devices id = some (.approved checkedAt) := by
    intro id checkedAt present
    rcases update_some present with ⟨_, same⟩ | old
    next => cases same
    next => exact old
  refine ⟨⟨sound.codes, fun id row present => ?_, sound.tokens, fun credential listed => ?_,
    sound.once⟩, fun deletedAt listed => ?_, invariant.past, fun tx listed => ?_,
    invariant.exclusive⟩
  next =>
    rcases update_some present with ⟨rfl, _⟩ | old
    next => exact Nat.lt_succ_self _
    next => exact Nat.lt_succ_of_lt (sound.devices id row old)
  next =>
    have consumed := sound.consumed credential listed
    cases credential with
    | device id =>
      exact ⟨Nat.lt_succ_of_lt consumed.1,
        (Function.update_of_ne (Nat.ne_of_lt consumed.1) _ _).trans consumed.2⟩
    | code | refresh => exact consumed
  next =>
    have fresh := invariant.fresh deletedAt listed
    exact ⟨fresh.codes, fun id value present => fresh.devices id value (unapproved id value present),
      fresh.tokens⟩
  next =>
    refine (invariant.holds tx listed).spared { Spares.refl state.toTables tx with
      device := fun id row _ present => ?_
      fewerDevices := fun _ => unapproved
      fewerTokens := fun _ _ _ _ _ _ _ _ present _ => present } (Nat.le_refl _)
    exact (Function.update_of_ne (Nat.ne_of_lt (sound.devices id row present)) _ _).trans present

theorem Invariant.step {action : Action} {next : State} (invariant : Invariant state)
    (taken : step state action = some next) : Invariant next := by
  cases action with
  | signIn session =>
    cases taken
    exact ⟨invariant.sound, invariant.fresh,
      fun at_ listed => Nat.lt_succ_of_lt (invariant.past at_ listed),
      fun tx listed => holds_later (invariant.holds tx listed), invariant.exclusive⟩
  | addDevice =>
    cases taken
    exact invariant.addDevice
  | start request =>
    obtain ⟨tx, started, rfl⟩ := Option.map_eq_some_iff.mp taken
    exact invariant.start started
  | advance index =>
    obtain ⟨tx, found, moved⟩ := Option.bind_eq_some_iff.mp taken
    split at moved
    next after moves =>
      split at moved
      next => cases moved
      next free =>
        cases moved
        exact invariant.moved
          (holds_statement invariant (invariant.holds tx (List.mem_of_getElem? found)) moves)
          fun _ _ differ held => RowLocks.not_blocked (Bool.not_eq_true _ ▸ free) differ held
    next =>
      cases moved
      exact invariant.closed index
  | deleteSessions index =>
    obtain ⟨tx, found, moved⟩ := Option.bind_eq_some_iff.mp taken
    split at moved
    next deleteTokens deletedAt stage =>
      cases moved
      have holds := invariant.holds _ (List.mem_of_getElem? found)
      have timed : Holds state.toTables (state.clock + 1)
          (.revoking deleteTokens (some state.clock) stage) :=
        ⟨fun at_ set => Option.some_inj.mp set ▸ Nat.lt_succ_self _, holds.2⟩
      have after := invariant.moved timed fun other held differ kept => by
        rw [clash_revoking held deleteTokens _ deletedAt]
        exact invariant.exclusive other index held _ differ kept found
      exact ⟨after.sound, after.fresh, after.past, after.holds, after.exclusive⟩
    next => cases moved
  | commit index =>
    obtain ⟨tx, found, moved⟩ := Option.bind_eq_some_iff.mp taken
    obtain ⟨tables, committed, rfl⟩ := Option.map_eq_some_iff.mp moved
    exact invariant.commit found committed
  | abort index =>
    cases taken
    exact invariant.closed index

theorem invariant_empty : Invariant {} where
  sound := ⟨nofun, nofun, nofun, nofun, .nil⟩
  fresh := nofun
  past := nofun
  holds := nofun
  exclusive := .nil

theorem Invariant.reached (reached : Reached state) : Invariant state :=
  reached.invariant Invariant invariant_empty fun _ _ _ invariant _ taken => invariant.step taken

theorem grants_once_and_fresh_after_resets (state : State) (reached : Reached state) :
    state.issued.Nodup ∧ ∀ deletedAt ∈ state.resets, Fresh state.toTables deletedAt :=
  ⟨(Invariant.reached reached).sound.once, (Invariant.reached reached).fresh⟩

def statements (index count : Nat) : List Action := List.replicate count (.advance index)

-- The revocation waits for an exchange under way, whose token it then revokes; the refresh of
-- that token comes too late. A consent of a new session is exchanged and refreshed after it.
def resetRun : List Action :=
  List.flatten [[.signIn 1, .start (.consent 1)], statements 0 2, [.commit 0, .start (.exchange 0)],
    statements 1 2, [.start (.revocation false)], statements 2 2, [.commit 1], statements 2 2,
    [.start (.refresh 0), .advance 3, .deleteSessions 2], statements 2 3, [.commit 2],
    statements 3 3, [.signIn 2, .start (.consent 2)], statements 4 2,
    [.commit 4, .start (.exchange 1)], statements 5 2, [.commit 5, .start (.refresh 1)],
    statements 6 4, [.commit 6]]

theorem grants_once_and_fresh_after_resets_interleaved : ∃ state, Reached state ∧
    (state.issued, state.resets, state.tokens 0, state.tokens 2) =
      ([.code 0, .code 1, .refresh 1], [12], some ⟨2, true, true⟩, some ⟨22, false, false⟩) ∧
    state.issued.Nodup ∧ ∀ deletedAt ∈ state.resets, Fresh state.toTables deletedAt := by
  have seen : (Runs.run step {} resetRun).map
      (fun state => (state.issued, state.resets, state.tokens 0, state.tokens 2)) =
        some ([.code 0, .code 1, .refresh 1], [12], some ⟨2, true, true⟩,
          some ⟨22, false, false⟩) := by decide +kernel
  obtain ⟨state, reached, view⟩ :=
    Runs.Reaches.of_run _ (Runs.allowed_of_always (fun _ _ => trivial) _ _) seen
  exact ⟨state, reached, view, grants_once_and_fresh_after_resets state reached⟩

end Runs

end MemoryCloud.OAuth
