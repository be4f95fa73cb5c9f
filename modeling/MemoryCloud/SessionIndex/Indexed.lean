import MemoryCloud.SessionIndex.Model

set_option autoImplicit false

/-!
# Every session stands in the index

Every live session stands in the set of each account it holds, and the set lives at least as long as the
session. The exceptions are a session that was renewed and not indexed since, and one from before the index,
which the scan finds until it has expired.
-/

namespace MemoryCloud.SessionIndex

variable {settings : Settings} {start : Nat} {state next : State}

theorem session?_some {session : Nat} {stored : Stored} :
    state.session? session = some stored ↔
      state.sessions session = some stored ∧ state.now < stored.expiresAt := by
  simp [State.session?, Option.filter_eq_some_iff]

def Listed (state : State) (session : Nat) (id : String) (expiresAt : Nat) : Prop :=
  ∃ listed, state.sets id = some listed ∧ session ∈ listed.members ∧
    ∀ last, listed.expiresAt = some last → expiresAt ≤ last

theorem indexSet?_some {user : String} {listed : IndexSet} :
    state.indexSet? user = some listed ↔ state.sets user = some listed ∧
      ∀ last, listed.expiresAt = some last → state.now < last := by
  cases ends : listed.expiresAt <;> simp [State.indexSet?, Option.filter_eq_some_iff, ends]

theorem mem_members {session : Nat} {user : String} :
    session ∈ state.members user ↔
      ∃ listed, state.indexSet? user = some listed ∧ session ∈ listed.members := by
  unfold State.members
  cases state.indexSet? user <;> simp

theorem indexSet?_of_listed {session : Nat} {id : String} {expiresAt : Nat}
    (listed : Listed state session id expiresAt) (alive : state.now < expiresAt) :
    ∃ set, state.indexSet? id = some set ∧ session ∈ set.members ∧
      ∀ last, set.expiresAt = some last → expiresAt ≤ last := by
  obtain ⟨set, found, member, lasts⟩ := listed
  refine ⟨set, indexSet?_some.mpr ⟨found, ?_⟩, member, lasts⟩
  exact fun last ends => Nat.lt_of_lt_of_le alive (lasts last ends)

theorem members_of_listed {session : Nat} {id : String} {expiresAt : Nat}
    (listed : Listed state session id expiresAt) (alive : state.now < expiresAt) :
    session ∈ state.members id := by
  obtain ⟨set, found, member, _⟩ := indexSet?_of_listed listed alive
  exact mem_members.mpr ⟨set, found, member⟩

structure IndexSound (settings : Settings) (start : Nat) (state : State) : Prop where
  known : ∀ session stored, state.sessions session = some stored → session < state.created
  bounded : ∀ session stored, state.sessions session = some stored →
    stored.expiresAt ≤ state.now + settings.ttl
  capped : ∀ user listed last, state.sets user = some listed → listed.expiresAt = some last →
    last ≤ state.now + settings.ttl
  members : ∀ user listed, state.sets user = some listed →
    ∀ session ∈ listed.members, session < state.created
  marked : ∀ since, state.marker = some since → start ≤ since + settings.margin
  later : start ≤ state.now
  indexed : ∀ session stored id, state.session? session = some stored →
    id ∈ indexIds (toContainer stored.record) →
      Listed state session id stored.expiresAt ∨ (session, id) ∈ state.unindexed ∨
        stored.expiresAt ≤ start + settings.ttl

section Ids

theorem mem_indexIds {container : Container} {user : String} (named : user ≠ "")
    (owned : sessionOwnsUser container user = true) : user ∈ indexIds container := by
  simp only [sessionOwnsUser, Bool.or_eq_true, List.contains_iff_mem, List.any_eq_true,
    Identity.names, decide_eq_true_eq] at owned
  refine List.mem_dedup.mpr (List.mem_filter.mpr ⟨?_, decide_eq_true named⟩)
  rw [List.mem_append, List.mem_flatMap]
  rcases owned with key | ⟨identity, listed, own | own⟩
  next => exact .inl key
  next => exact .inr ⟨identity, listed, by simp [own]⟩
  next => exact .inr ⟨identity, listed, by simp [own]⟩

theorem toContainer_owns {record : Record} {user : String}
    (belongs : recordBelongs record user = true) : sessionOwnsUser (toContainer record) user = true := by
  cases record with
  | container container => exact belongs
  | flat identity =>
    have named : accountId identity = some user := of_decide_eq_true belongs
    rw [sessionOwnsUser, toContainer, Dict.keys_set, named]
    simp

end Ids

section Primitives

variable {session : Nat} {id : String} {stored : Stored} {container : Container}

theorem members_known (sound : IndexSound settings start state) {user : String}
    (member : session ∈ state.members user) : session < state.created := by
  obtain ⟨listed, found, inside⟩ := mem_members.mp member
  exact sound.members user listed (indexSet?_some.mp found).1 session inside

theorem sadd_set (user : String) :
    (state.sadd session id).sets user =
      if user = id then some {
        members := (state.members id).insert session
        expiresAt := (state.indexSet? id).bind IndexSet.expiresAt }
      else state.sets user :=
  Function.update_apply _ _ _ _

theorem remove_set (user : String) :
    (state.remove session id).sets user =
      if user = id then (state.sets id).bind (·.without session) else state.sets user :=
  Function.update_apply _ _ _ _

theorem without_some {listed rest : IndexSet} (left : listed.without session = some rest) :
    rest.expiresAt = listed.expiresAt ∧
      ∀ other, other ∈ rest.members ↔ other ∈ listed.members ∧ other ≠ session := by
  simp only [IndexSet.without] at left
  split at left <;> cases left
  exact ⟨rfl, fun other => by simp⟩

theorem without_of_mem {listed : IndexSet} {other : Nat} (member : other ∈ listed.members)
    (apart : other ≠ session) :
    ∃ rest, listed.without session = some rest := by
  have kept : other ∈ listed.members.filter (· ≠ session) :=
    List.mem_filter.mpr ⟨member, decide_eq_true apart⟩
  simp only [IndexSet.without]
  split
  next empty =>
    rw [List.isEmpty_iff.mp empty] at kept
    cases kept
  next => exact ⟨_, rfl⟩

theorem delete_stored (other : Nat) :
    (state.delete session).sessions other = if other = session then none else state.sessions other :=
  Function.update_apply _ _ _ _

theorem sadd_sound (sound : IndexSound settings start state) (known : session < state.created) :
    IndexSound settings start (state.sadd session id) where
  known := sound.known
  bounded := sound.bounded
  marked := sound.marked
  later := sound.later
  capped user listed last found ends := by
    rw [sadd_set] at found
    split at found
    next =>
      cases found
      obtain ⟨before, there, same⟩ := Option.bind_eq_some_iff.mp ends
      exact sound.capped id before last (indexSet?_some.mp there).1 same
    next => exact sound.capped user listed last found ends
  members user listed found other member := by
    rw [sadd_set] at found
    split at found
    next =>
      cases found
      rcases List.mem_insert_iff.mp member with same | member
      next => exact same ▸ known
      next =>
        have before : other < state.created := members_known sound member
        exact before
    next => exact sound.members user listed found other member
  indexed other stored user live named := by
    obtain ⟨there, alive⟩ := session?_some.mp live
    refine (sound.indexed other stored user live named).imp ?_ fun rest => rest
    intro listed
    rw [Listed, sadd_set]
    by_cases same : user = id
    next =>
      subst same
      obtain ⟨before, found, _, lasts⟩ := indexSet?_of_listed listed alive
      have kept : other ∈ (state.members user).insert session :=
        List.mem_insert_of_mem (members_of_listed listed alive)
      rw [if_pos rfl, found]
      exact ⟨_, rfl, kept, lasts⟩
    next =>
      rw [if_neg same]
      exact listed

theorem expire_sound (sound : IndexSound settings start state) :
    IndexSound settings start (state.expire settings session id) := by
  unfold State.expire
  split
  next => exact sound
  next listed found =>
    have there := (indexSet?_some.mp found).1
    have smaller : ∀ entry, entry ∈ state.unindexed →
        (entry ≠ (session, id) ∨ session ∉ listed.members) →
        entry ∈ if session ∈ listed.members then state.unindexed.filter (· ≠ (session, id))
          else state.unindexed := by
      intro entry missed spare
      split
      next inside =>
        exact List.mem_filter.mpr ⟨missed, decide_eq_true (spare.resolve_right (not_not_intro inside))⟩
      next => exact missed
    exact {
      known := sound.known
      bounded := sound.bounded
      marked := sound.marked
      later := sound.later
      capped := by
        intro user changed last here ends
        simp only [Function.update_apply] at here
        split at here
        next =>
          cases here
          cases ends
          exact Nat.le_refl _
        next => exact sound.capped user changed last here ends
      members := by
        intro user changed here other member
        simp only [Function.update_apply] at here
        split at here
        next =>
          cases here
          exact sound.members id listed there other member
        next => exact sound.members user changed here other member
      indexed := by
        intro other stored user live named
        obtain ⟨held, alive⟩ := session?_some.mp live
        simp only [Listed, Function.update_apply]
        by_cases same : user = id
        next =>
          subst same
          rw [if_pos rfl]
          -- Every member of the set is covered now: no session lives longer than from here on.
          by_cases inside : other ∈ listed.members
          next =>
            refine .inl ⟨_, rfl, inside, ?_⟩
            intro last ends
            cases ends
            exact sound.bounded other stored held
          next =>
            rcases sound.indexed other stored user live named with before | missed | early
            next =>
              obtain ⟨set, here, member, _⟩ := indexSet?_of_listed before alive
              cases found.symm.trans here
              exact absurd member inside
            next =>
              refine .inr (.inl (smaller _ missed ?_))
              by_cases own : other = session
              next => exact .inr (own ▸ inside)
              next => exact .inl fun same => own (Prod.mk.inj same).1
            next => exact .inr (.inr early)
        next =>
          rw [if_neg same]
          rcases sound.indexed other stored user live named with before | missed | early
          next => exact .inl before
          next => exact .inr (.inl (smaller _ missed (.inl fun own => same (Prod.mk.inj own).2)))
          next => exact .inr (.inr early) }

theorem index_sound (sound : IndexSound settings start state) (known : session < state.created)
    (command : IndexCommand) :
    IndexSound settings start (state.index settings session command) := by
  cases command with
  | sadd user => exact sadd_sound sound known
  | expire user => exact expire_sound sound

theorem remove_sound (sound : IndexSound settings start state)
    (spare : ∀ stored, state.session? session = some stored →
      id ∉ indexIds (toContainer stored.record)) :
    IndexSound settings start (state.remove session id) where
  known := sound.known
  bounded := sound.bounded
  marked := sound.marked
  later := sound.later
  capped user listed last found ends := by
    rw [remove_set] at found
    split at found
    next =>
      obtain ⟨before, there, left⟩ := Option.bind_eq_some_iff.mp found
      exact sound.capped id before last there ((without_some left).1 ▸ ends)
    next => exact sound.capped user listed last found ends
  members user listed found other member := by
    rw [remove_set] at found
    split at found
    next =>
      obtain ⟨before, there, left⟩ := Option.bind_eq_some_iff.mp found
      exact sound.members id before there other (((without_some left).2 other).mp member).1
    next => exact sound.members user listed found other member
  indexed other stored user live named := by
    refine (sound.indexed other stored user live named).imp ?_ fun rest => rest
    intro ⟨listed, found, member, lasts⟩
    rw [Listed, remove_set]
    by_cases same : user = id
    next =>
      subst same
      have apart : other ≠ session := by
        rintro rfl
        exact spare stored live named
      obtain ⟨rest, left⟩ := without_of_mem member apart
      obtain ⟨expiry, members⟩ := without_some left
      rw [if_pos rfl, found, Option.bind_some, left]
      exact ⟨rest, rfl, (members other).mpr ⟨member, apart⟩, expiry ▸ lasts⟩
    next =>
      rw [if_neg same]
      exact ⟨listed, found, member, lasts⟩

theorem put_stored {record : Record} {sweeps : List Sweep} {unindexed : List (Nat × String)}
    (other : Nat) : State.sessions { state with
      sessions := Function.update state.sessions session (some ⟨record, state.now + settings.ttl⟩)
      sweeps := sweeps
      unindexed := unindexed } other =
      if other = session then some ⟨record, state.now + settings.ttl⟩ else state.sessions other :=
  Function.update_apply _ _ _ _

theorem write_stored (other : Nat) :
    (state.write settings session container).sessions other =
      if other = session then some ⟨.container container, state.now + settings.ttl⟩
      else state.sessions other :=
  put_stored other

theorem renew_stored (other : Nat) :
    (state.renew settings session stored).sessions other =
      if other = session then some ⟨stored.record, state.now + settings.ttl⟩
      else state.sessions other :=
  put_stored other

-- A record that is written or renewed counts as unindexed.
theorem stored_sound (sound : IndexSound settings start state) (known : session < state.created)
    {record : Record} {sweeps : List Sweep} :
    IndexSound settings start { state with
      sessions := Function.update state.sessions session (some ⟨record, state.now + settings.ttl⟩)
      sweeps := sweeps
      unindexed := renewed session (toContainer record) ++ state.unindexed } where
  known other stored found := by
    rw [put_stored] at found
    split at found
    next same => exact same ▸ known
    next => exact sound.known other stored found
  bounded other stored found := by
    rw [put_stored] at found
    split at found
    next =>
      cases found
      exact Nat.le_refl _
    next => exact sound.bounded other stored found
  capped := sound.capped
  members := sound.members
  marked := sound.marked
  later := sound.later
  indexed other stored user live named := by
    obtain ⟨found, alive⟩ := session?_some.mp live
    rw [put_stored] at found
    split at found
    next same =>
      cases found
      exact .inr (.inl (List.mem_append_left _ (List.mem_map.mpr ⟨user, named, by rw [same]⟩)))
    next =>
      rcases sound.indexed other stored user (session?_some.mpr ⟨found, alive⟩) named with
        listed | missed | early
      next => exact .inl listed
      next => exact .inr (.inl (List.mem_append_right _ missed))
      next => exact .inr (.inr early)

theorem delete_sound (sound : IndexSound settings start state) :
    IndexSound settings start (state.delete session) := by
  have before : ∀ other stored, (state.delete session).sessions other = some stored →
      state.sessions other = some stored := by
    intro other stored found
    rw [delete_stored] at found
    split at found
    next => cases found
    next => exact found
  exact {
    known := fun other stored found => sound.known other stored (before other stored found)
    bounded := fun other stored found => sound.bounded other stored (before other stored found)
    capped := sound.capped
    members := sound.members
    marked := sound.marked
    later := sound.later
    indexed := fun other stored user live named => by
      obtain ⟨found, alive⟩ := session?_some.mp live
      exact sound.indexed other stored user
        (session?_some.mpr ⟨before other stored found, alive⟩) named }

theorem advance_sound (sound : IndexSound settings start state) (elapsed : Nat) :
    IndexSound settings start { state with now := state.now + elapsed } where
  known := sound.known
  bounded other stored found := by
    have bound := sound.bounded other stored found
    show stored.expiresAt ≤ state.now + elapsed + settings.ttl
    omega
  capped user listed last found ends := by
    have bound := sound.capped user listed last found ends
    show last ≤ state.now + elapsed + settings.ttl
    omega
  members := sound.members
  marked := sound.marked
  later := Nat.le_add_right_of_le sound.later
  indexed other stored user live named := by
    obtain ⟨found, alive⟩ := session?_some.mp live
    exact sound.indexed other stored user
      (session?_some.mpr ⟨found, Nat.lt_of_le_of_lt (Nat.le_add_right _ _) alive⟩) named

structure SameIndex (state next : State) : Prop where
  now : next.now = state.now
  sessions : next.sessions = state.sessions
  sets : next.sets = state.sets
  marker : next.marker = state.marker
  created : state.created ≤ next.created
  unindexed : next.unindexed = state.unindexed

theorem IndexSound.same (sound : IndexSound settings start state) (same : SameIndex state next) :
    IndexSound settings start next where
  known other stored found :=
    Nat.lt_of_lt_of_le (sound.known other stored (same.sessions ▸ found)) same.created
  bounded other stored found := same.now ▸ sound.bounded other stored (same.sessions ▸ found)
  capped user listed last found ends :=
    same.now ▸ sound.capped user listed last (same.sets ▸ found) ends
  members user listed found session member :=
    Nat.lt_of_lt_of_le (sound.members user listed (same.sets ▸ found) session member) same.created
  marked since found := sound.marked since (same.marker ▸ found)
  later := same.now ▸ sound.later
  indexed other stored user live named := by
    obtain ⟨found, alive⟩ := session?_some.mp live
    rw [Listed, same.sets, same.unindexed]
    exact sound.indexed other stored user
      (session?_some.mpr ⟨same.sessions ▸ found, same.now ▸ alive⟩) named

end Primitives

section Folds

variable {session : Nat} {ids : List String}

structure SameRecords (state next : State) : Prop where
  now : next.now = state.now
  sessions : next.sessions = state.sessions
  created : next.created = state.created
  pending : next.pending = state.pending
  sweeps : next.sweeps = state.sweeps
  signIns : next.signIns = state.signIns

theorem SameRecords.session? (same : SameRecords state next) (session : Nat) :
    next.session? session = state.session? session := by
  rw [State.session?, State.session?, same.now, same.sessions]

theorem SameRecords.trans {middle : State} (first : SameRecords state middle)
    (second : SameRecords middle next) : SameRecords state next where
  now := second.now.trans first.now
  sessions := second.sessions.trans first.sessions
  created := second.created.trans first.created
  pending := second.pending.trans first.pending
  sweeps := second.sweeps.trans first.sweeps
  signIns := second.signIns.trans first.signIns

theorem index_same {command : IndexCommand} :
    SameRecords state (state.index settings session command) := by
  cases command with
  | sadd user => exact ⟨rfl, rfl, rfl, rfl, rfl, rfl⟩
  | expire user =>
    simp only [State.index, State.expire]
    split <;> exact ⟨rfl, rfl, rfl, rfl, rfl, rfl⟩

theorem indexAll_same {commands : List IndexCommand} :
    SameRecords state (state.indexAll settings session commands) := by
  induction commands generalizing state with
  | nil => exact ⟨rfl, rfl, rfl, rfl, rfl, rfl⟩
  | cons command rest ih => exact index_same.trans ih

theorem queueIndex_same : SameRecords state (state.queueIndex settings session ids) := indexAll_same

theorem indexAll_sound {commands : List IndexCommand} (sound : IndexSound settings start state)
    (known : session < state.created) :
    IndexSound settings start (state.indexAll settings session commands) := by
  induction commands generalizing state with
  | nil => exact sound
  | cons command rest ih =>
    refine ih (index_sound sound known command) ?_
    rw [index_same.created]
    exact known

theorem removeAll_same {entries : List (Nat × String)} :
    SameRecords state (state.removeAll entries) := by
  induction entries generalizing state with
  | nil => exact ⟨rfl, rfl, rfl, rfl, rfl, rfl⟩
  | cons entry rest ih =>
    have first : SameRecords state (state.remove entry.1 entry.2) := ⟨rfl, rfl, rfl, rfl, rfl, rfl⟩
    exact first.trans ih

theorem removeAll_sound {entries : List (Nat × String)} (sound : IndexSound settings start state)
    (spare : ∀ entry ∈ entries, ∀ stored, state.session? entry.1 = some stored →
      entry.2 ∉ indexIds (toContainer stored.record)) :
    IndexSound settings start (state.removeAll entries) := by
  induction entries generalizing state with
  | nil => exact sound
  | cons entry rest ih =>
    refine ih (remove_sound sound (spare entry (.head _))) ?_
    exact fun other listed => spare other (.tail _ listed)

end Folds

end MemoryCloud.SessionIndex
