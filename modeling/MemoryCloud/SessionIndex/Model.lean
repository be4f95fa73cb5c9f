import Mathlib.Data.List.Dedup
import Mathlib.Logic.Function.Basic
import MemoryCloud.Shared.Dict
import MemoryCloud.Shared.Runs

set_option autoImplicit false

/-!
# Browser sessions and their index

The session records of `auth/session.py` in Redis, each with the accounts signed in on it, and the set that
lists for every account id the sessions that hold it. A read or a change of a record is several Redis calls;
a transaction is one step, and every other call is a step of its own.
-/

namespace MemoryCloud.SessionIndex

-- The ids of a signed-in account; the rest of its identity is only shown.
structure Identity where
  userId : Option String := none
  sub : Option String := none
  deriving DecidableEq

-- `_account_id`: an empty `user_id` is none.
def accountId (identity : Identity) : Option String :=
  match identity.userId with
  | some id => if id = "" then identity.sub else some id
  | none => identity.sub

-- The times of the sign-ins and of the proofs stand beside the accounts.
structure Container where
  accounts : Dict String Identity
  active : String
  signedInAt : Dict String Nat := .empty
  provenAt : Dict String Nat := .empty

-- A record of the time before the containers is flat.
inductive Record where
  | flat (identity : Identity)
  | container (container : Container)

def toContainer : Record → Container
  | .flat identity =>
    let id := (accountId identity).getD ""
    { accounts := Dict.empty.set id identity, active := id }
  | .container container => container

def Record.isFlat : Record → Bool
  | .flat _ => true
  | .container _ => false

-- `project_active`: the identity that the routes read.
def projectActive (container : Container) : Option Identity :=
  (container.accounts.get? container.active).filter fun identity =>
    (accountId identity).getD "" ≠ ""

def usable (container : Container) : Bool := (projectActive container).isSome

def Identity.names (identity : Identity) (user : String) : Bool :=
  identity.userId = some user || identity.sub = some user

def sessionOwnsUser (container : Container) (user : String) : Bool :=
  container.accounts.keys.contains user ||
    container.accounts.values.any fun identity => identity.names user

def indexIds (container : Container) : List String :=
  ((container.accounts.keys ++ container.accounts.values.flatMap fun identity =>
    identity.userId.toList ++ identity.sub.toList).filter (· ≠ "")).dedup

def recordBelongs : Record → String → Bool
  | .flat identity, user => accountId identity = some user
  | .container container, user => sessionOwnsUser container user

-- What the keys of an update say of the accounts: two of an identity, two of the envelope.
structure Updates where
  userId : Option (Option String) := none
  sub : Option (Option String) := none
  accounts : Option (Dict String Identity) := none
  active : Option String := none

def Updates.onIdentity (updates : Updates) (identity : Identity) : Identity where
  userId := updates.userId.getD identity.userId
  sub := updates.sub.getD identity.sub

inductive Change where
  | add (identity : Identity) (provenAt : Option Nat)
  | switch (account : String)
  | remove (account : String)
  | update (updates : Updates)

-- An account without an id is not added.
def Change.admissible : Change → Bool
  | .add identity _ => (accountId identity).getD "" ≠ ""
  | _ => true

-- The later proof of an account is kept.
def prove (proven : Dict String Nat) (account : String) : Option Nat → Dict String Nat
  | none => proven
  | some time =>
    match proven.get? account with
    | some earlier => if time < earlier then proven else proven.set account time
    | none => proven.set account time

def applyChange (now : Nat) (container : Container) : Change → Option Container
  | .add identity provenAt =>
    let id := (accountId identity).getD ""
    some {
      accounts := container.accounts.set id identity
      active := id
      signedInAt := container.signedInAt.set id now
      provenAt := prove container.provenAt id provenAt }
  | .switch account =>
    if container.accounts.keys.contains account then some { container with active := account }
    else none
  | .remove account =>
    let accounts := container.accounts.erase account
    let removed : Container := {
      accounts
      active := container.active
      signedInAt := container.signedInAt.erase account
      provenAt := container.provenAt.erase account }
    if container.active = account then
      accounts.keys.head?.map fun first => { removed with active := first }
    else some removed
  | .update updates =>
    let identity := (container.accounts.get? container.active).getD {}
    some { container with
      accounts := (updates.accounts.getD container.accounts).set container.active
        (updates.onIdentity identity)
      active := updates.active.getD container.active }

structure Settings where
  ttl : Nat
  -- `_LEGACY_SCAN_MARGIN_SECONDS`
  margin : Nat

structure Stored where
  record : Record
  expiresAt : Nat

structure IndexSet where
  members : List Nat
  -- A set that `SADD` has just created has no time to live yet.
  expiresAt : Option Nat

inductive IndexCommand where
  | sadd (id : String)
  | expire (id : String)

inductive Pending where
  | reading (session : Nat) (record : Record)
  | indexing (session : Nat) (commands : List IndexCommand)
  | changing (session : Nat) (container : Container) (change : Change)
  | deleting (session : Nat) (found : Option Record)
  | dropping (session : Nat) (ids : List String)

structure Sweep where
  user : String
  keep : Option Nat
  todo : List Nat
  keys : List Nat := []
  stale : List Nat := []
  others : List (Nat × String) := []
  finished : Bool := false
  -- The sessions that have held the user ever since the sweep began.
  held : List Nat

structure State where
  now : Nat
  sessions : Nat → Option Stored
  sets : String → Option IndexSet
  -- `session_index:since`
  marker : Option Nat
  -- The session ids handed out so far are those below.
  created : Nat
  pending : List Pending := []
  sweeps : List Sweep := []
  -- The sessions renewed since they were last indexed under the id.
  unindexed : List (Nat × String) := []
  -- Which account signed in on which session.
  signIns : List (Nat × String) := []

section Redis

variable (settings : Settings) (state : State)

def State.session? (session : Nat) : Option Stored :=
  (state.sessions session).filter fun stored => state.now < stored.expiresAt

def State.indexSet? (user : String) : Option IndexSet :=
  (state.sets user).filter fun listed => listed.expiresAt.all (state.now < ·)

def State.members (user : String) : List Nat := (state.indexSet? user).elim [] IndexSet.members

def State.sadd (session : Nat) (user : String) : State :=
  { state with sets := Function.update state.sets user (some {
      members := (state.members user).insert session
      expiresAt := (state.indexSet? user).bind IndexSet.expiresAt }) }

-- `EXPIRE` of an index set, which does nothing to a missing one.
def State.expire (session : Nat) (user : String) : State :=
  match state.indexSet? user with
  | none => state
  | some listed =>
    { state with
      sets := Function.update state.sets user
        (some { listed with expiresAt := some (state.now + settings.ttl) })
      unindexed :=
        if session ∈ listed.members then state.unindexed.filter (· ≠ (session, user))
        else state.unindexed }

def State.index (session : Nat) : IndexCommand → State
  | .sadd user => state.sadd session user
  | .expire user => state.expire settings session user

def IndexSet.without (listed : IndexSet) (session : Nat) : Option IndexSet :=
  let rest := listed.members.filter (· ≠ session)
  if rest.isEmpty then none else some { listed with members := rest }

-- `SREM`, which deletes a set with its last member.
def State.remove (session : Nat) (user : String) : State :=
  { state with
    sets := Function.update state.sets user ((state.sets user).bind (·.without session)) }

def indexCommands (ids : List String) : List IndexCommand :=
  ids.flatMap fun id => [.sadd id, .expire id]

def State.indexAll (session : Nat) (commands : List IndexCommand) : State :=
  commands.foldl (fun state command => state.index settings session command) state

def State.queueIndex (session : Nat) (ids : List String) : State :=
  state.indexAll settings session (indexCommands ids)

def State.removeAll (entries : List (Nat × String)) : State :=
  entries.foldl (fun state entry => state.remove entry.1 entry.2) state

def State.dropIndex (session : Nat) (ids : List String) : State :=
  state.removeAll (ids.map fun id => (session, id))

def forget (session : Nat) (container : Container) (sweep : Sweep) : Sweep :=
  if sessionOwnsUser container sweep.user then sweep
  else { sweep with held := sweep.held.filter (· ≠ session) }

def renewed (session : Nat) (container : Container) : List (Nat × String) :=
  (indexIds container).map fun id => (session, id)

-- `SETEX` or `SET XX`
def State.write (session : Nat) (container : Container) : State :=
  { state with
    sessions := Function.update state.sessions session
      (some ⟨.container container, state.now + settings.ttl⟩)
    sweeps := state.sweeps.map (forget session container)
    unindexed := renewed session container ++ state.unindexed }

-- `EXPIRE` of a record
def State.renew (session : Nat) (stored : Stored) : State :=
  { state with
    sessions := Function.update state.sessions session
      (some ⟨stored.record, state.now + settings.ttl⟩)
    unindexed := renewed session (toContainer stored.record) ++ state.unindexed }

-- `DEL`
def State.delete (session : Nat) : State :=
  { state with sessions := Function.update state.sessions session none }

def State.putPending (index : Nat) (pending : Pending) : State :=
  { state with pending := state.pending.set index pending }

def State.endPending (index : Nat) : State :=
  { state with pending := state.pending.eraseIdx index }

end Redis

inductive Action where
  | advance (elapsed : Nat)
  | create (identity : Identity) (provenAt : Option Nat)
  | read (session : Nat)
  | renew (index : Nat)
  -- The next index command of a read, which Redis may refuse.
  | indexNext (index : Nat) (refused : Bool)
  | startChange (session : Nat) (change : Change)
  | writeChange (index : Nat)
  | startDelete (session : Nat)
  | delete (index : Nat)
  | dropNext (index : Nat)
  | sweep (user : String) (keep : Option Nat)
  -- The candidates come in any order.
  | examine (index session : Nat)
  | finish (index : Nat)

section Steps

variable (settings : Settings) (state : State)

def createSession (identity : Identity) (provenAt : Option Nat) : State :=
  let id := (accountId identity).getD ""
  let container : Container := {
    accounts := Dict.empty.set id identity
    active := id
    signedInAt := Dict.empty.set id state.now
    provenAt := prove .empty id provenAt }
  let opened := { state with
    created := state.created + 1
    signIns := (state.created, id) :: state.signIns }
  (opened.write settings state.created container).queueIndex settings state.created
    (indexIds container)

-- The first command of `get_session`'s pipeline.
def renewRead (index session : Nat) (record : Record) : State :=
  let container := toContainer record
  let next := match state.session? session with
    | none => state
    | some stored =>
      if record.isFlat then state.write settings session container
      else state.renew settings session stored
  next.putPending index (.indexing session (indexCommands (indexIds container)))

-- `_write_existing`, as one transaction.
def writeChange (index session : Nat) (before after : Container) : State :=
  let dropped := (indexIds before).filter fun id => !(indexIds after).contains id
  match state.session? session with
  | some _ =>
    (((state.write settings session after).queueIndex settings session (indexIds after)).dropIndex
      session dropped).endPending index
  | none =>
    ((state.queueIndex settings session (indexIds after)).dropIndex session dropped).putPending index
      (.dropping session (indexIds after ++ dropped))

def signInOf (session : Nat) : Change → List (Nat × String)
  | .add identity _ => [(session, (accountId identity).getD "")]
  | _ => []

def scanNeeded (since : Nat) : Bool := state.now < since + settings.ttl + settings.margin

def liveSessions : List Nat :=
  (List.range state.created).filter fun session => (state.session? session).isSome

def holds (user : String) (session : Nat) : Bool :=
  (state.session? session).any fun stored => recordBelongs stored.record user

def beginSweep (user : String) (keep : Option Nat) : State :=
  let since := state.marker.getD state.now
  let candidates := (state.members user ++
    if scanNeeded settings state since then liveSessions state else []).dedup
  { state with
    marker := some since
    sweeps := state.sweeps ++ [{
      user
      keep
      todo := candidates.filter fun session => keep ≠ some session
      held := (List.range state.created).filter fun session =>
        holds state user session && keep ≠ some session && !state.unindexed.contains (session, user) }] }

def examine (sweep : Sweep) (session : Nat) : Option Sweep :=
  if session ∉ sweep.todo then none
  else
    let rest := sweep.todo.filter (· ≠ session)
    match state.session? session with
    | none => some { sweep with todo := rest, stale := session :: sweep.stale }
    | some stored =>
      if recordBelongs stored.record sweep.user then
        some { sweep with
          todo := rest
          keys := session :: sweep.keys
          others := ((indexIds (toContainer stored.record)).filter (· ≠ sweep.user)).map
            (fun id => (session, id)) ++ sweep.others }
      else some { sweep with todo := rest }

def Sweep.dropped (sweep : Sweep) : List (Nat × String) :=
  (sweep.stale ++ sweep.keys).map (fun session => (session, sweep.user)) ++ sweep.others

-- The sweep's transaction.
def finishSweep (index : Nat) (sweep : Sweep) : State :=
  let cleared := (sweep.keys.foldl State.delete state).removeAll sweep.dropped
  { cleared with sweeps := cleared.sweeps.set index { sweep with finished := true } }

def step : Action → Option State
  | .advance elapsed => some { state with now := state.now + elapsed }
  | .create identity provenAt => some (createSession settings state identity provenAt)
  | .read session =>
    match state.session? session with
    | none => none
    | some stored =>
      if usable (toContainer stored.record) then
        some { state with pending := state.pending ++ [.reading session stored.record] }
      else none
  | .renew index =>
    match state.pending[index]? with
    | some (.reading session record) => some (renewRead settings state index session record)
    | _ => none
  | .indexNext index refused =>
    match state.pending[index]? with
    | some (.indexing session (command :: rest)) =>
      let next := if refused then state else state.index settings session command
      some (next.putPending index (.indexing session rest))
    | _ => none
  | .startChange session change =>
    match state.session? session with
    | none => none
    | some stored =>
      let container := toContainer stored.record
      if usable container && change.admissible then
        some { state with
          pending := state.pending ++ [.changing session container change]
          signIns := signInOf session change ++ state.signIns }
      else none
  | .writeChange index =>
    match state.pending[index]? with
    | some (.changing session container change) =>
      (applyChange state.now container change).map (writeChange settings state index session container)
    | _ => none
  | .startDelete session =>
    some { state with pending := state.pending ++
      [.deleting session ((state.session? session).map (·.record))] }
  | .delete index =>
    match state.pending[index]? with
    | some (.deleting session found) =>
      let ids := found.elim [] fun record => indexIds (toContainer record)
      some ((state.delete session).putPending index (.dropping session ids))
    | _ => none
  | .dropNext index =>
    match state.pending[index]? with
    | some (.dropping session (id :: rest)) =>
      some ((state.remove session id).putPending index (.dropping session rest))
    | _ => none
  | .sweep user keep => some (beginSweep settings state user keep)
  | .examine index session =>
    match state.sweeps[index]? with
    | none => none
    | some sweep => (examine state sweep session).map fun examined =>
        { state with sweeps := state.sweeps.set index examined }
  | .finish index =>
    match state.sweeps[index]? with
    | none => none
    | some sweep =>
      if sweep.todo.isEmpty && !sweep.finished then some (finishSweep state index sweep) else none

end Steps

end MemoryCloud.SessionIndex
