import MemoryCloud.SessionIndex.Indexed

set_option autoImplicit false

/-!
# A sweep misses no session

Nothing brings a record back once it is gone: every write but that of a new session leaves a missing record
missing. What a sweep has found gone may therefore leave the index, and what it deletes stays deleted.
-/

namespace MemoryCloud.SessionIndex

variable {settings : Settings} {start : Nat} {state next : State}

section Tracked

def Dead (state : State) (session : Nat) : Prop :=
  session < state.created ∧ state.session? session = none

def PendingSound (state : State) : Pending → Prop
  | .reading session _ | .indexing session _ | .changing session _ _ | .deleting session (some _) =>
    session < state.created
  | .dropping session ids => ids ≠ [] → Dead state session
  | .deleting _ none => True

structure SweepSound (state : State) (sweep : Sweep) : Prop where
  known : ∀ session, session ∈ sweep.held ∨ session ∈ sweep.keys ∨ session ∈ sweep.todo →
    session < state.created
  stale : ∀ session ∈ sweep.stale, Dead state session
  others : ∀ entry ∈ sweep.others, entry.1 ∈ sweep.keys
  belongs : ∀ session ∈ sweep.held, ∀ stored, state.session? session = some stored →
    recordBelongs stored.record sweep.user = true
  listed : sweep.finished = false → ∀ session ∈ sweep.held,
    Dead state session ∨ session ∈ sweep.todo ∨ session ∈ sweep.keys
  done : sweep.finished = true → ∀ session ∈ sweep.held, Dead state session

structure Tracked (state : State) : Prop where
  pending : ∀ pending ∈ state.pending, PendingSound state pending
  sweeps : ∀ sweep ∈ state.sweeps, SweepSound state sweep

structure Persists (state next : State) : Prop where
  created : state.created ≤ next.created
  dead : ∀ session, Dead state session → Dead next session
  records : ∀ session stored, session < state.created → next.session? session = some stored →
    ∃ before, state.session? session = some before ∧ before.record = stored.record

theorem PendingSound.mono (persists : Persists state next) {pending : Pending}
    (sound : PendingSound state pending) : PendingSound next pending := by
  cases pending with
  | reading | indexing | changing => exact Nat.lt_of_lt_of_le sound persists.created
  | deleting session found =>
    cases found with
    | none => trivial
    | some => exact Nat.lt_of_lt_of_le sound persists.created
  | dropping => exact fun some => persists.dead _ (sound some)

theorem SweepSound.mono (persists : Persists state next) {sweep : Sweep}
    (sound : SweepSound state sweep) : SweepSound next sweep where
  known session member := Nat.lt_of_lt_of_le (sound.known session member) persists.created
  stale session member := persists.dead session (sound.stale session member)
  others := sound.others
  belongs session member stored live := by
    obtain ⟨before, there, same⟩ :=
      persists.records session stored (sound.known session (.inl member)) live
    exact same ▸ sound.belongs session member before there
  listed open_ session member :=
    (sound.listed open_ session member).imp (persists.dead session) id
  done finished session member := persists.dead session (sound.done finished session member)

theorem persists_of_eq (now : next.now = state.now) (sessions : next.sessions = state.sessions)
    (created : next.created = state.created) : Persists state next := by
  have same : ∀ session, next.session? session = state.session? session := by
    intro session
    rw [State.session?, State.session?, now, sessions]
  exact {
    created := Nat.le_of_eq created.symm
    dead := fun session gone => ⟨created ▸ gone.1, (same session).trans gone.2⟩
    records := fun session stored _ live => ⟨stored, same session ▸ live, rfl⟩ }

theorem Tracked.mono (tracked : Tracked state) (persists : Persists state next)
    (pending : next.pending = state.pending) (sweeps : next.sweeps = state.sweeps) :
    Tracked next where
  pending other listed := (tracked.pending other (pending ▸ listed)).mono persists
  sweeps sweep listed := (tracked.sweeps sweep (sweeps ▸ listed)).mono persists

theorem Tracked.same (tracked : Tracked state) (same : SameRecords state next) : Tracked next :=
  tracked.mono (persists_of_eq same.now same.sessions same.created) same.pending same.sweeps

theorem putPending_tracked (tracked : Tracked state) (index : Nat) {pending : Pending}
    (sound : PendingSound state pending) : Tracked (state.putPending index pending) := by
  have persists : Persists state (state.putPending index pending) := persists_of_eq rfl rfl rfl
  constructor
  next =>
    intro other listed
    rcases List.mem_or_eq_of_mem_set listed with old | same
    next => exact (tracked.pending other old).mono persists
    next => exact same ▸ sound.mono persists
  next => exact fun sweep listed => (tracked.sweeps sweep listed).mono persists

theorem addPending_tracked (tracked : Tracked state) {pending : Pending}
    (sound : PendingSound state pending) (signIns : List (Nat × String)) :
    Tracked { state with pending := state.pending ++ [pending], signIns := signIns } := by
  have persists : Persists state
      { state with pending := state.pending ++ [pending], signIns := signIns } :=
    persists_of_eq rfl rfl rfl
  constructor
  next =>
    intro other listed
    rcases List.mem_append.mp listed with old | new
    next => exact (tracked.pending other old).mono persists
    next => exact List.mem_singleton.mp new ▸ sound.mono persists
  next => exact fun sweep listed => (tracked.sweeps sweep listed).mono persists

theorem advance_persists (elapsed : Nat) :
    Persists state { state with now := state.now + elapsed } where
  created := Nat.le_refl _
  dead session gone := by
    refine ⟨gone.1, Option.eq_none_iff_forall_ne_some.mpr fun stored live => ?_⟩
    obtain ⟨found, alive⟩ := session?_some.mp live
    have before : state.session? session = some stored :=
      session?_some.mpr ⟨found, Nat.lt_of_le_of_lt (Nat.le_add_right _ _) alive⟩
    cases gone.2.symm.trans before
  records session stored _ live := by
    obtain ⟨found, alive⟩ := session?_some.mp live
    exact ⟨stored, session?_some.mpr ⟨found, Nat.lt_of_le_of_lt (Nat.le_add_right _ _) alive⟩, rfl⟩

theorem delete_persists (session : Nat) : Persists state (state.delete session) := by
  have before : ∀ other stored, (state.delete session).session? other = some stored →
      state.session? other = some stored := by
    intro other stored live
    obtain ⟨found, alive⟩ := session?_some.mp live
    rw [delete_stored] at found
    split at found
    next => cases found
    next => exact session?_some.mpr ⟨found, alive⟩
  constructor
  next => exact Nat.le_refl _
  next =>
    intro other gone
    refine ⟨gone.1, Option.eq_none_iff_forall_ne_some.mpr fun stored live => ?_⟩
    cases gone.2.symm.trans (before other stored live)
  next => exact fun other stored _ live => ⟨stored, before other stored live, rfl⟩

theorem delete_dead {session : Nat} (known : session < state.created) :
    Dead (state.delete session) session := by
  refine ⟨known, ?_⟩
  rw [State.session?, delete_stored, if_pos rfl]
  rfl

theorem renew_persists {session : Nat} {stored : Stored} (live : state.session? session = some stored) :
    Persists state (state.renew settings session stored) := by
  have before : ∀ other later, (state.renew settings session stored).session? other = some later →
      ∃ earlier, state.session? other = some earlier ∧ earlier.record = later.record := by
    intro other later found
    obtain ⟨found, alive⟩ := session?_some.mp found
    rw [renew_stored] at found
    split at found
    next same =>
      cases found
      exact ⟨stored, same ▸ live, rfl⟩
    next => exact ⟨later, session?_some.mpr ⟨found, alive⟩, rfl⟩
  constructor
  next => exact Nat.le_refl _
  next =>
    intro other gone
    refine ⟨gone.1, Option.eq_none_iff_forall_ne_some.mpr fun later live => ?_⟩
    obtain ⟨_, found, _⟩ := before other later live
    cases gone.2.symm.trans found
  next => exact fun other later _ live => before other later live

theorem write_dead {session : Nat} {container : Container} (free : ¬Dead state session) (other : Nat)
    (gone : Dead state other) : Dead (state.write settings session container) other := by
  refine ⟨gone.1, ?_⟩
  have apart : other ≠ session := fun same => free (same ▸ gone)
  rw [State.session?, write_stored, if_neg apart]
  exact gone.2

-- A write under an id that is not gone: a sweep forgets the session if it no longer holds the user.
theorem write_tracked (tracked : Tracked state) {session : Nat} {container : Container}
    (free : ¬Dead state session) : Tracked (state.write settings session container) := by
  have dead : ∀ other, Dead state other → Dead (state.write settings session container) other :=
    write_dead free
  constructor
  next =>
    intro pending listed
    have sound := tracked.pending pending listed
    cases pending with
    | reading | indexing | changing => exact sound
    | deleting session found => cases found <;> exact sound
    | dropping => exact fun some => dead _ (sound some)
  next =>
    intro sweep listed
    obtain ⟨before, there, rfl⟩ := List.mem_map.mp listed
    have sound := tracked.sweeps before there
    have held : ∀ other ∈ (forget session container before).held, other ∈ before.held ∧
        (other = session → sessionOwnsUser container before.user = true) := by
      intro other member
      unfold forget at member
      split at member
      next owned => exact ⟨member, fun _ => owned⟩
      next =>
        obtain ⟨member, apart⟩ := List.mem_filter.mp member
        exact ⟨member, fun same => absurd same (of_decide_eq_true apart)⟩
    have same : (forget session container before).keys = before.keys ∧
        (forget session container before).stale = before.stale ∧
        (forget session container before).others = before.others ∧
        (forget session container before).todo = before.todo ∧
        (forget session container before).finished = before.finished ∧
        (forget session container before).user = before.user := by
      unfold forget
      split <;> exact ⟨rfl, rfl, rfl, rfl, rfl, rfl⟩
    obtain ⟨keys, stale, others, todo, finished, user⟩ := same
    constructor
    next =>
      intro other member
      rw [keys, todo] at member
      exact sound.known other (member.imp (fun member => (held other member).1) id)
    next =>
      rw [stale]
      exact fun other member => dead other (sound.stale other member)
    next =>
      rw [others, keys]
      exact sound.others
    next =>
      intro other member stored live
      obtain ⟨member, owned⟩ := held other member
      obtain ⟨found, alive⟩ := session?_some.mp live
      rw [write_stored] at found
      rw [user]
      split at found
      next own =>
        cases found
        exact owned own
      next => exact sound.belongs other member stored (session?_some.mpr ⟨found, alive⟩)
    next =>
      rw [finished, todo, keys]
      intro open_ other member
      exact (sound.listed open_ other (held other member).1).imp (dead other) id
    next =>
      rw [finished]
      exact fun closed other member => dead other (sound.done closed other (held other member).1)

end Tracked

section Steps

structure Sound (settings : Settings) (start : Nat) (state : State) : Prop where
  index : IndexSound settings start state
  tracked : Tracked state

theorem Sound.putPending (sound : Sound settings start state) (index : Nat) {pending : Pending}
    (fine : PendingSound state pending) : Sound settings start (state.putPending index pending) where
  index := sound.index.same ⟨rfl, rfl, rfl, rfl, Nat.le_refl _, rfl⟩
  tracked := putPending_tracked sound.tracked index fine

theorem Sound.addPending (sound : Sound settings start state) (pending : Pending)
    (fine : PendingSound state pending) (signIns : List (Nat × String)) :
    Sound settings start
      { state with pending := state.pending ++ [pending], signIns := signIns } where
  index := sound.index.same ⟨rfl, rfl, rfl, rfl, Nat.le_refl _, rfl⟩
  tracked := addPending_tracked sound.tracked fine signIns

theorem Sound.endPending (sound : Sound settings start state) (index : Nat) :
    Sound settings start (state.endPending index) where
  index := sound.index.same ⟨rfl, rfl, rfl, rfl, Nat.le_refl _, rfl⟩
  tracked := by
    have persists : Persists state (state.endPending index) := persists_of_eq rfl rfl rfl
    constructor
    next =>
      intro pending listed
      exact (sound.tracked.pending pending (List.mem_of_mem_eraseIdx listed)).mono persists
    next => exact fun sweep listed => (sound.tracked.sweeps sweep listed).mono persists

theorem Sound.indexed (sound : Sound settings start state) {session : Nat}
    (known : session < state.created) (command : IndexCommand) :
    Sound settings start (state.index settings session command) where
  index := index_sound sound.index known command
  tracked := sound.tracked.same index_same

theorem Sound.queueIndex (sound : Sound settings start state) {session : Nat}
    (known : session < state.created) (ids : List String) :
    Sound settings start (state.queueIndex settings session ids) where
  index := indexAll_sound sound.index known
  tracked := sound.tracked.same queueIndex_same

theorem Sound.removeAll (sound : Sound settings start state) {entries : List (Nat × String)}
    (spare : ∀ entry ∈ entries, ∀ stored, state.session? entry.1 = some stored →
      entry.2 ∉ indexIds (toContainer stored.record)) :
    Sound settings start (state.removeAll entries) where
  index := removeAll_sound sound.index spare
  tracked := sound.tracked.same removeAll_same

theorem Sound.write (sound : Sound settings start state) {session : Nat} {container : Container}
    {stored : Stored} (live : state.session? session = some stored) :
    Sound settings start (state.write settings session container) where
  index := @stored_sound _ _ _ _ sound.index
    (sound.index.known session stored (session?_some.mp live).1) (.container container) _
  tracked := write_tracked sound.tracked fun gone => by cases gone.2.symm.trans live

theorem create_sound (sound : Sound settings start state) (identity : Identity)
    (provenAt : Option Nat) : Sound settings start (createSession settings state identity provenAt) := by
  refine Sound.queueIndex ⟨?_, ?_⟩ (Nat.lt_succ_self _) _
  next =>
    refine stored_sound (sound.index.same ?_) (Nat.lt_succ_self _)
    exact ⟨rfl, rfl, rfl, rfl, Nat.le_succ _, rfl⟩
  next =>
    -- The id is handed out with the write, so nobody takes it for a session that is gone.
    have written : ∀ container, Tracked (state.write settings state.created container) :=
      fun container => write_tracked sound.tracked fun gone => Nat.lt_irrefl _ gone.1
    refine (written _).mono ⟨Nat.le_succ _, ?_, ?_⟩ rfl rfl
    next => exact fun session gone => ⟨Nat.lt_succ_of_lt gone.1, gone.2⟩
    next => exact fun session stored _ live => ⟨stored, live, rfl⟩

theorem renewRead_sound (sound : Sound settings start state) {session : Nat}
    (known : session < state.created) (index : Nat) (record : Record) :
    Sound settings start (renewRead settings state index session record) := by
  unfold renewRead
  split
  next => exact sound.putPending index known
  next stored live =>
    split
    next => exact (sound.write live).putPending index known
    next =>
      have renewed : Sound settings start (state.renew settings session stored) :=
        ⟨stored_sound sound.index known, sound.tracked.mono (renew_persists live) rfl rfl⟩
      exact renewed.putPending index known

theorem writeChange_sound (sound : Sound settings start state) {session : Nat}
    (known : session < state.created) (index : Nat) (before after : Container) :
    Sound settings start (writeChange settings state index session before after) := by
  unfold writeChange
  split
  next stored live =>
    refine Sound.endPending ?_ index
    refine Sound.removeAll ((sound.write live).queueIndex known _) ?_
    intro entry listed later found
    obtain ⟨id, dropped, rfl⟩ := List.mem_map.mp listed
    rw [queueIndex_same.session?] at found
    obtain ⟨found, _⟩ := session?_some.mp found
    rw [write_stored, if_pos rfl] at found
    cases found
    simpa [toContainer] using (List.mem_filter.mp dropped).2
  next gone =>
    refine Sound.putPending ?_ index ?_
    next =>
      refine Sound.removeAll (sound.queueIndex known _) ?_
      intro entry listed later found
      obtain ⟨id, _, rfl⟩ := List.mem_map.mp listed
      rw [queueIndex_same.session?] at found
      cases gone.symm.trans found
    next =>
      intro _
      refine ⟨?_, ?_⟩
      next =>
        rw [State.dropIndex, removeAll_same.created, queueIndex_same.created]
        exact known
      next =>
        rw [State.dropIndex, removeAll_same.session?, queueIndex_same.session?]
        exact gone

theorem mem_candidates (sound : IndexSound settings start state) {user : String} (named : user ≠ "")
    {session : Nat} (holding : holds state user session = true)
    (indexed : (session, user) ∉ state.unindexed) :
    session ∈ state.members user ++
      if scanNeeded settings state (state.marker.getD state.now) then liveSessions state else [] := by
  rw [holds, Option.any_eq_true] at holding
  obtain ⟨stored, live, belongs⟩ := holding
  obtain ⟨found, alive⟩ := session?_some.mp live
  have answers := mem_indexIds named (toContainer_owns belongs)
  rcases sound.indexed session stored user live answers with listed | missed | early
  next => exact List.mem_append_left _ (members_of_listed listed alive)
  next => exact absurd missed indexed
  next =>
    have since : start ≤ state.marker.getD state.now + settings.margin := by
      cases marker : state.marker with
      | none => exact Nat.le_add_right_of_le sound.later
      | some since => exact sound.marked since marker
    have needed : scanNeeded settings state (state.marker.getD state.now) = true :=
      decide_eq_true (by omega)
    rw [if_pos needed]
    refine List.mem_append_right _ (List.mem_filter.mpr ⟨?_, by rw [live]; rfl⟩)
    exact List.mem_range.mpr (sound.known session stored found)

theorem beginSweep_sound (sound : Sound settings start state) {user : String} (named : user ≠ "")
    (keep : Option Nat) : Sound settings start (beginSweep settings state user keep) := by
  have persists : Persists state (beginSweep settings state user keep) := persists_of_eq rfl rfl rfl
  constructor
  next =>
    refine { sound.index with marked := ?_ }
    intro since found
    cases found
    cases marker : state.marker with
    | none => exact Nat.le_add_right_of_le sound.index.later
    | some since => exact sound.index.marked since marker
  next =>
    constructor
    next => exact fun pending listed => (sound.tracked.pending pending listed).mono persists
    next =>
      intro sweep listed
      rcases List.mem_append.mp listed with old | new
      next => exact (sound.tracked.sweeps sweep old).mono persists
      next =>
        cases List.mem_singleton.mp new
        constructor
        next =>
          intro session member
          rcases member with member | member | member
          next => exact List.mem_range.mp (List.mem_filter.mp member).1
          next => cases member
          next =>
            rcases List.mem_append.mp (List.mem_dedup.mp (List.mem_filter.mp member).1) with
              member | member
            next =>
              have before : session < state.created := members_known sound.index member
              exact before
            next =>
              split at member
              next => exact List.mem_range.mp (List.mem_filter.mp member).1
              next => cases member
        next => exact nofun
        next => exact nofun
        next =>
          intro session member stored live
          have holding := (List.mem_filter.mp member).2
          simp only [Bool.and_eq_true, holds, Option.any_eq_true] at holding
          obtain ⟨⟨⟨before, there, belongs⟩, _⟩, _⟩ := holding
          cases there.symm.trans live
          exact belongs
        next =>
          intro _ session member
          have holding := (List.mem_filter.mp member).2
          simp only [Bool.and_eq_true, Bool.not_eq_true', decide_eq_true_eq] at holding
          obtain ⟨⟨holding, spared⟩, indexed⟩ := holding
          refine .inr (.inl (List.mem_filter.mpr ⟨?_, decide_eq_true spared⟩))
          exact List.mem_dedup.mpr
            (mem_candidates sound.index named holding (by simpa using indexed))
        next => exact nofun

theorem setSweep_sound (sound : Sound settings start state) (index : Nat) {sweep : Sweep}
    (fine : SweepSound state sweep) :
    Sound settings start { state with sweeps := state.sweeps.set index sweep } where
  index := sound.index.same ⟨rfl, rfl, rfl, rfl, Nat.le_refl _, rfl⟩
  tracked := by
    have persists : Persists state { state with sweeps := state.sweeps.set index sweep } :=
      persists_of_eq rfl rfl rfl
    constructor
    next => exact fun pending listed => (sound.tracked.pending pending listed).mono persists
    next =>
      intro other listed
      rcases List.mem_or_eq_of_mem_set listed with old | same
      next => exact (sound.tracked.sweeps other old).mono persists
      next => exact same ▸ fine.mono persists

theorem SweepSound.passed {sweep : Sweep} (sound : SweepSound state sweep) {session : Nat}
    (spare : Dead state session ∨ session ∉ sweep.held ∨ session ∈ sweep.keys) :
    SweepSound state { sweep with todo := sweep.todo.filter (· ≠ session) } where
  known other member :=
    sound.known other (member.imp id (Or.imp id List.mem_of_mem_filter))
  stale := sound.stale
  others := sound.others
  belongs := sound.belongs
  done := sound.done
  listed open_ other member := by
    rcases sound.listed open_ other member with gone | waiting | taken
    next => exact .inl gone
    next =>
      by_cases same : other = session
      next =>
        subst same
        rcases spare with gone | absent | taken
        next => exact .inl gone
        next => exact absurd member absent
        next => exact .inr (.inr taken)
      next => exact .inr (.inl (List.mem_filter.mpr ⟨waiting, decide_eq_true same⟩))
    next => exact .inr (.inr taken)

theorem examine_sound {sweep examined : Sweep} {session : Nat} (fine : SweepSound state sweep)
    (taken : examine state sweep session = some examined) : SweepSound state examined := by
  simp only [examine] at taken
  split at taken
  next => cases taken
  next waiting =>
    have known : session < state.created := fine.known session (.inr (.inr (not_not.mp waiting)))
    split at taken
    next gone =>
      cases taken
      have passed := fine.passed (.inl ⟨known, gone⟩)
      refine { passed with stale := ?_ }
      intro other member
      rcases List.mem_cons.mp member with same | member
      next => exact same ▸ ⟨known, gone⟩
      next => exact fine.stale other member
    next stored live =>
      split at taken <;> cases taken
      next =>
        have more : SweepSound state { sweep with
            keys := session :: sweep.keys
            others := ((indexIds (toContainer stored.record)).filter (· ≠ sweep.user)).map
              (fun id => (session, id)) ++ sweep.others } := {
          fine with
          known := by
            intro other member
            rcases member with member | member | member
            next => exact fine.known other (.inl member)
            next =>
              rcases List.mem_cons.mp member with same | member
              next => exact same ▸ known
              next => exact fine.known other (.inr (.inl member))
            next => exact fine.known other (.inr (.inr member))
          others := by
            intro entry listed
            rcases List.mem_append.mp listed with new | old
            next =>
              obtain ⟨_, _, rfl⟩ := List.mem_map.mp new
              exact .head _
            next => exact .tail _ (fine.others entry old)
          listed := fun open_ other member =>
            (fine.listed open_ other member).imp id (Or.imp id (.tail _)) }
        exact more.passed (.inr (.inr (.head _)))
      next foreign =>
        refine fine.passed (.inr (.inl fun member => foreign ?_))
        exact fine.belongs session member stored live

theorem Persists.trans {middle : State} (first : Persists state middle)
    (second : Persists middle next) : Persists state next where
  created := Nat.le_trans first.created second.created
  dead session gone := second.dead session (first.dead session gone)
  records session stored known live := by
    obtain ⟨there, found, same⟩ :=
      second.records session stored (Nat.lt_of_lt_of_le known first.created) live
    obtain ⟨before, earlier, kept⟩ := first.records session there known found
    exact ⟨before, earlier, kept.trans same⟩

theorem deleteAll_sound {keys : List Nat} (sound : Sound settings start state)
    (known : ∀ session ∈ keys, session < state.created) :
    Sound settings start (keys.foldl State.delete state) ∧
      Persists state (keys.foldl State.delete state) ∧
        ∀ session ∈ keys, Dead (keys.foldl State.delete state) session := by
  induction keys generalizing state with
  | nil => exact ⟨sound, persists_of_eq rfl rfl rfl, nofun⟩
  | cons session rest ih =>
    have persists : Persists state (state.delete session) := delete_persists session
    have deleted : Sound settings start (state.delete session) :=
      ⟨delete_sound sound.index, sound.tracked.mono persists rfl rfl⟩
    obtain ⟨kept, later, gone⟩ := ih deleted fun other listed => known other (.tail _ listed)
    refine ⟨kept, persists.trans later, ?_⟩
    intro other listed
    rcases List.mem_cons.mp listed with same | listed
    next =>
      rw [same]
      exact later.dead session (delete_dead (known session (.head _)))
    next => exact gone other listed

theorem finish_sound (sound : Sound settings start state) {sweep : Sweep} (index : Nat)
    (fine : SweepSound state sweep) (examined : sweep.todo = []) (unfinished : sweep.finished = false) :
    Sound settings start (finishSweep state index sweep) := by
  obtain ⟨deleted, persists, gone⟩ :=
    deleteAll_sound sound fun session listed => fine.known session (.inr (.inl listed))
  have cleared : Sound settings start
      ((sweep.keys.foldl State.delete state).removeAll sweep.dropped) := by
    refine deleted.removeAll ?_
    intro entry listed stored live
    have dead : Dead (sweep.keys.foldl State.delete state) entry.1 := by
      rcases List.mem_append.mp listed with own | other
      next =>
        obtain ⟨session, taken, rfl⟩ := List.mem_map.mp own
        rcases List.mem_append.mp taken with stale | key
        next => exact persists.dead session (fine.stale session stale)
        next => exact gone session key
      next => exact gone entry.1 (fine.others entry other)
    cases dead.2.symm.trans live
  have same : SameRecords (sweep.keys.foldl State.delete state)
      ((sweep.keys.foldl State.delete state).removeAll sweep.dropped) := removeAll_same
  have after := persists_of_eq same.now same.sessions same.created
  refine setSweep_sound cleared index ?_
  refine { fine.mono (persists.trans after) with listed := nofun, done := ?_ }
  intro _ session member
  rcases fine.listed unfinished session member with dead | waiting | key
  next => exact after.dead session (persists.dead session dead)
  next =>
    rw [examined] at waiting
    cases waiting
  next => exact after.dead session (gone session key)

end Steps

section Reached

def Action.named : Action → Bool
  | .sweep user _ => user ≠ ""
  | _ => true

theorem step_sound {action : Action} (sound : Sound settings start state) (named : action.named = true)
    (taken : step settings state action = some next) : Sound settings start next := by
  cases action with
  | advance elapsed =>
    cases taken
    exact ⟨advance_sound sound.index elapsed,
      sound.tracked.mono (advance_persists elapsed) rfl rfl⟩
  | create identity provenAt =>
    cases taken
    exact create_sound sound identity provenAt
  | read session =>
    simp only [step] at taken
    split at taken
    next => cases taken
    next stored live =>
      split at taken <;> cases taken
      have known := sound.index.known session stored (session?_some.mp live).1
      exact sound.addPending (.reading session stored.record) known _
  | renew index =>
    simp only [step] at taken
    split at taken
    next session record found =>
      cases taken
      have known := sound.tracked.pending _ (List.mem_of_getElem? found)
      exact renewRead_sound sound known index record
    next => cases taken
  | indexNext index refused =>
    simp only [step] at taken
    split at taken
    next session command rest found =>
      cases taken
      have known : session < state.created := sound.tracked.pending _ (List.mem_of_getElem? found)
      split
      next => exact sound.putPending index known
      next =>
        refine (sound.indexed known command).putPending index ?_
        rw [PendingSound, index_same.created]
        exact known
    next => cases taken
  | startChange session change =>
    simp only [step] at taken
    split at taken
    next => cases taken
    next stored live =>
      split at taken <;> cases taken
      have known := sound.index.known session stored (session?_some.mp live).1
      exact sound.addPending (.changing session (toContainer stored.record) change) known _
  | writeChange index =>
    simp only [step] at taken
    split at taken
    next session container change found =>
      obtain ⟨after, _, rfl⟩ := Option.map_eq_some_iff.mp taken
      have known := sound.tracked.pending _ (List.mem_of_getElem? found)
      exact writeChange_sound sound known index container after
    next => cases taken
  | startDelete session =>
    cases taken
    refine sound.addPending _ ?_ _
    cases live : state.session? session with
    | none => trivial
    | some stored => exact sound.index.known session stored (session?_some.mp live).1
  | delete index =>
    simp only [step] at taken
    split at taken
    next session found there =>
      cases taken
      have known := sound.tracked.pending _ (List.mem_of_getElem? there)
      have deleted : Sound settings start (state.delete session) :=
        ⟨delete_sound sound.index, sound.tracked.mono (delete_persists session) rfl rfl⟩
      refine deleted.putPending index fun some => ?_
      cases found with
      | none => exact absurd rfl some
      | some => exact delete_dead known
    next => cases taken
  | dropNext index =>
    simp only [step] at taken
    split at taken
    next session id rest found =>
      cases taken
      have dead : Dead state session := sound.tracked.pending _ (List.mem_of_getElem? found) nofun
      have removed : Sound settings start (state.removeAll [(session, id)]) := by
        refine sound.removeAll ?_
        intro entry listed stored live
        cases List.mem_singleton.mp listed
        cases dead.2.symm.trans live
      exact removed.putPending index fun _ => dead
    next => cases taken
  | sweep user keep =>
    cases taken
    exact beginSweep_sound sound (of_decide_eq_true named) keep
  | examine index session =>
    simp only [step] at taken
    split at taken
    next => cases taken
    next sweep found =>
      obtain ⟨examined, moved, rfl⟩ := Option.map_eq_some_iff.mp taken
      have fine := sound.tracked.sweeps sweep (List.mem_of_getElem? found)
      exact setSweep_sound sound index (examine_sound fine moved)
  | finish index =>
    simp only [step] at taken
    split at taken
    next => cases taken
    next sweep found =>
      split at taken <;> cases taken
      next ready =>
        simp only [Bool.and_eq_true, List.isEmpty_iff, Bool.not_eq_true'] at ready
        exact finish_sound sound index (sound.tracked.sweeps sweep (List.mem_of_getElem? found))
          ready.1 ready.2

-- What stands when the last process of the release before the index has stopped.
structure Start (settings : Settings) (state : State) : Prop where
  known : ∀ session stored, state.sessions session = some stored → session < state.created
  bounded : ∀ session stored, state.sessions session = some stored →
    stored.expiresAt ≤ state.now + settings.ttl
  capped : ∀ user listed last, state.sets user = some listed → listed.expiresAt = some last →
    last ≤ state.now + settings.ttl
  members : ∀ user listed, state.sets user = some listed →
    ∀ session ∈ listed.members, session < state.created
  marked : ∀ since, state.marker = some since → state.now ≤ since + settings.margin
  pending : state.pending = []
  sweeps : state.sweeps = []

theorem start_sound (fresh : Start settings state) : Sound settings state.now state where
  index := {
    known := fresh.known
    bounded := fresh.bounded
    capped := fresh.capped
    members := fresh.members
    marked := fresh.marked
    later := Nat.le_refl _
    indexed := fun session stored _ live _ =>
      .inr (.inr (fresh.bounded session stored (session?_some.mp live).1)) }
  tracked := {
    pending := by
      rw [fresh.pending]
      exact nofun
    sweeps := by
      rw [fresh.sweeps]
      exact nofun }

abbrev Reached (settings : Settings) (begin_ : State) : State → Prop :=
  Runs.Reaches (step settings) (fun _ action => action.named = true) begin_

theorem putPending_dead {session : Nat} (index : Nat) (pending : Pending) (gone : Dead state session) :
    Dead (state.putPending index pending) session := gone

theorem SameRecords.dead (same : SameRecords state next) {session : Nat} (gone : Dead state session) :
    Dead next session :=
  ⟨same.created ▸ gone.1, (same.session? session).trans gone.2⟩

theorem renewRead_dead {session : Nat} (index read : Nat) (record : Record)
    (gone : Dead state session) : Dead (renewRead settings state index read record) session := by
  unfold renewRead
  split
  next => exact putPending_dead index _ gone
  next stored live =>
    refine putPending_dead index _ ?_
    split
    next => exact write_dead (fun dead => by cases dead.2.symm.trans live) session gone
    next => exact (renew_persists live).dead session gone

theorem writeChange_dead {session : Nat} (index changed : Nat) (before after : Container)
    (gone : Dead state session) :
    Dead (writeChange settings state index changed before after) session := by
  unfold writeChange
  split
  next stored live =>
    have written : Dead (state.write settings changed after) session :=
      write_dead (fun dead => by cases dead.2.symm.trans live) session gone
    exact removeAll_same.dead (queueIndex_same.dead written)
  next => exact putPending_dead index _ (removeAll_same.dead (queueIndex_same.dead gone))

theorem finishSweep_dead {session : Nat} (index : Nat) (sweep : Sweep) (gone : Dead state session) :
    Dead (finishSweep state index sweep) session := by
  have deleted : ∀ (keys : List Nat) (state : State), Dead state session →
      Dead (keys.foldl State.delete state) session := by
    intro keys
    induction keys with
    | nil => exact fun _ gone => gone
    | cons key rest ih => exact fun state gone => ih _ ((delete_persists key).dead session gone)
  exact removeAll_same.dead (deleted sweep.keys state gone)

-- Only a new session is written where there is no record, and its id is new.
theorem step_dead {action : Action} {session : Nat} (gone : Dead state session)
    (taken : step settings state action = some next) : Dead next session := by
  cases action with
  | advance elapsed =>
    cases taken
    exact (advance_persists elapsed).dead session gone
  | create identity provenAt =>
    cases taken
    have written : ∀ container, Dead (state.write settings state.created container) session :=
      fun container => write_dead (fun dead => Nat.lt_irrefl _ dead.1) session gone
    refine queueIndex_same.dead ⟨Nat.lt_succ_of_lt gone.1, ?_⟩
    exact (written _).2
  | read | startChange =>
    simp only [step] at taken
    split at taken
    next => cases taken
    next =>
      split at taken <;> cases taken
      exact gone
  | renew index =>
    simp only [step] at taken
    split at taken <;> cases taken
    exact renewRead_dead index _ _ gone
  | indexNext index refused =>
    simp only [step] at taken
    split at taken <;> cases taken
    refine putPending_dead index _ ?_
    split
    next => exact gone
    next => exact index_same.dead gone
  | writeChange index =>
    simp only [step] at taken
    split at taken
    next =>
      obtain ⟨after, _, rfl⟩ := Option.map_eq_some_iff.mp taken
      exact writeChange_dead index _ _ after gone
    next => cases taken
  | startDelete | sweep =>
    cases taken
    exact gone
  | delete index =>
    simp only [step] at taken
    split at taken <;> cases taken
    exact putPending_dead index _ ((delete_persists _).dead session gone)
  | dropNext index =>
    simp only [step] at taken
    split at taken <;> cases taken
    exact gone
  | examine index =>
    simp only [step] at taken
    split at taken
    next => cases taken
    next =>
      obtain ⟨_, _, rfl⟩ := Option.map_eq_some_iff.mp taken
      exact gone
  | finish index =>
    simp only [step] at taken
    split at taken
    next => cases taken
    next sweep _ =>
      split at taken <;> cases taken
      exact finishSweep_dead index sweep gone

-- When a sweep has finished, no session lives that has held its user ever since the sweep began:
-- that session was spared, or a read had renewed it and not yet indexed it. And no later step
-- brings back a record that is gone.
theorem finished_sweep_leaves_none (settings : Settings) (begin_ state : State)
    (fresh : Start settings begin_) (reached : Reached settings begin_ state) :
    (∀ sweep ∈ state.sweeps, sweep.finished = true → ∀ session ∈ sweep.held,
      state.session? session = none) ∧
    ∀ session, session < state.created → state.session? session = none →
      ∀ later, Reached settings state later → later.session? session = none := by
  constructor
  next =>
    intro sweep listed finished session held
    have sound : Sound settings begin_.now state := by
      refine reached.invariant _ (start_sound fresh) ?_
      intro _ _ _ sound named taken
      exact step_sound sound named taken
    exact ((sound.tracked.sweeps sweep listed).done finished session held).2
  next =>
    intro session known gone later further
    have dead : Dead later session := by
      refine further.invariant (Dead · session) ⟨known, gone⟩ ?_
      intro _ _ _ dead _ taken
      exact step_dead dead taken
    exact dead.2

def week : Settings := { ttl := 604800, margin := 86400 }

def upgraded : State := {
  now := 1000000
  sessions := fun session =>
    if session = 0 then some ⟨.flat { sub := some "a" }, 1500000⟩ else none
  sets := fun _ => none
  marker := none
  created := 1 }

theorem upgraded_start : Start week upgraded where
  known session stored found := by
    simp only [upgraded] at found
    split at found
    next first => exact first ▸ Nat.zero_lt_one
    next => cases found
  bounded session stored found := by
    simp only [upgraded] at found
    split at found <;> cases found
    decide
  capped _ _ _ found := nomatch found
  members _ _ found := nomatch found
  marked _ found := nomatch found
  pending := rfl
  sweeps := rfl

-- `a` signs in beside `b`, and signs out everywhere else while that session switches back to `b`.
def signedOut : List Action :=
  [.create { userId := some "b", sub := some "b" } none, .create { userId := some "a" } (some 7),
    .startChange 1 (.add { userId := some "a" } none), .writeChange 0, .advance 60, .read 1, .renew 0,
    .indexNext 0 true, .indexNext 0 false, .indexNext 0 false, .indexNext 0 false,
    .startChange 1 (.switch "b"), .sweep "a" (some 2), .examine 0 1, .examine 0 0, .finish 0]

theorem finished_sweep_leaves_none_signedOut :
    ∃ state later : State,
      (state.sweeps.map fun sweep => (sweep.held, sweep.finished)) = [([0, 1], true)] ∧
      state.session? 0 = none ∧ state.session? 1 = none ∧
      step week state (.writeChange 1) = some later ∧ later.session? 1 = none := by
  have seen : (Runs.run (Runs.checked (step week) fun _ action => action.named) upgraded signedOut).map
      (fun state => (state.sweeps.map (fun sweep => (sweep.held, sweep.finished)),
        state.created, (step week state (.writeChange 1)).isSome)) =
        some ([([0, 1], true)], 3, true) := by
    decide +kernel
  obtain ⟨state, reached, view⟩ :=
    Runs.Reaches.of_run _ (Runs.allowed_of_always (fun _ _ => trivial) _ _) seen
  have guarded : Reached week upgraded state := .of_checked (fun _ _ => id) reached
  simp only [Prod.mk.injEq] at view
  obtain ⟨view, created, taken⟩ := view
  obtain ⟨later, taken⟩ := Option.isSome_iff_exists.mp taken
  obtain ⟨sweep, listed, same⟩ := List.map_eq_singleton_iff.mp view
  obtain ⟨held, finished⟩ := Prod.mk.inj same
  obtain ⟨swept, kept⟩ := finished_sweep_leaves_none week upgraded state upgraded_start guarded
  have gone := swept sweep (by rw [listed]; exact .head _) finished
  have second := gone 1 (by simp [held])
  have after := kept 1 (by rw [created]; decide) second later (.step .start rfl taken)
  exact ⟨state, later, view, gone 0 (by simp [held]), second, taken, after⟩

end Reached

end MemoryCloud.SessionIndex
