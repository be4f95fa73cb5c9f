import MemoryCloud.Shared.Runs
import MemoryCloud.Identity.Sets

set_option autoImplicit false

/-!
# Linked accounts are one owner

The departures and the hand-over over the link sets, and what holds in every
state that the calls reach.
-/

namespace MemoryCloud.Identity

open Access Labels
open Bindings (ContextId)

section Departures

variable {state after : State} {request : Request} {userId otherUserId departing : UserId}
  {answer : Finset UserId}

theorem takeOut_cases
    (taken : takeOut state request departing (setRows state.db departing) = .ok (after, answer)) :
    ∃ between removed, removeFromSet state departing (setRows state.db departing) =
        some (between, removed) ∧
      after.db = between.db ∧ after.nextGroup = between.nextGroup ∧
      after.auditLogs = state.auditLogs ++ audits state request .identityUnlinked [departing]
        (remainingUsers state.db departing) ∧
      answer = (remainingUsers state.db departing).toFinset := by
  have former : ((setRows state.db departing).map (·.userId)).filter
      (fun user => decide (user ≠ departing)) = remainingUsers state.db departing := by
    rw [List.filter_map]
    rfl
  unfold takeOut at taken
  dsimp only at taken
  split at taken
  next => cases taken
  next between removed left =>
    rw [former] at taken
    cases taken
    refine ⟨between, removed, left, rfl, rfl, ?_, rfl⟩
    rw [audits_eq]
    simp [inOrder]

theorem Valid.congr {other : State} (valid : Valid state)
    (links : other.db.identityLinks = state.db.identityLinks)
    (next : state.nextGroup ≤ other.nextGroup) : Valid other := by
  have labels : groupOf other.db = groupOf state.db := by
    funext user
    rw [groupOf, groupOf, links]
  have members : membersOf other.db = membersOf state.db := by
    funext group
    rw [membersOf, membersOf, links]
  constructor
  · intro user group labelled
    rw [members]
    exact valid.sizes user group (labels ▸ labelled)
  · intro user group labelled
    exact Nat.lt_of_lt_of_le (valid.fresh user group (labels ▸ labelled)) next

theorem Valid.takeOut (valid : Valid state)
    (taken : takeOut state request departing (setRows state.db departing) = .ok (after, answer)) :
    Valid after := by
  obtain ⟨between, removed, left, rows, next, -, -⟩ := takeOut_cases taken
  exact (valid.removeFromSet left).congr (by rw [rows]) (by rw [next])

theorem takeOut_answer
    (taken : takeOut state request departing (setRows state.db departing) = .ok (after, answer)) :
    (∀ user, user ∈ answer ↔
        user ≠ departing ∧ linkedUserIds after.db user ≠ linkedUserIds state.db user) ∧
      Told state request .identityUnlinked after := by
  obtain ⟨between, removed, left, rows, -, logs, rfl⟩ := takeOut_cases taken
  have changed := (left_of_removeFromSet left).changed_iff
  rw [← rows] at changed
  have member : ∀ user, user ∈ remainingUsers state.db departing ↔
      user ≠ departing ∧ Together (groupOf state.db) departing user := by
    intro user
    rw [mem_remainingUsers]
    refine and_congr_right fun different => ⟨.inr, ?_⟩
    rintro (same | shared)
    · exact absurd same.symm different
    · exact shared
  constructor
  · intro user
    rw [linkedUserIds_ne_iff, List.mem_toFinset, member]
    refine and_congr_right fun different => ?_
    constructor
    · intro together
      exact ⟨departing, (changed user departing).mpr ⟨different, together.symm, .inr rfl⟩⟩
    · rintro ⟨other, differs⟩
      obtain ⟨-, together, same | same⟩ := (changed user other).mp differs
      · exact absurd same different
      · exact same ▸ together.symm
  · refine told_of_audits (List.nodup_singleton departing) (remainingUsers_nodup _ _) ?_
      (fun a b => ?_) logs
    · intro user listed
      rw [List.mem_singleton.mp listed, member]
      exact fun both => both.1 rfl
    · rw [isSameOwner_ne_iff, changed, member, member, List.mem_singleton, List.mem_singleton]
      constructor
      · rintro ⟨different, together, rfl | rfl⟩
        · exact .inl ⟨rfl, different.symm, together⟩
        · exact .inr ⟨⟨different, together.symm⟩, rfl⟩
      · rintro (⟨rfl, different, together⟩ | ⟨⟨different, together⟩, rfl⟩)
        · exact ⟨different.symm, together, .inl rfl⟩
        · exact ⟨different, together.symm, .inr rfl⟩

theorem unlink_takeOut (unlinked : unlink state request userId otherUserId = .ok (after, answer)) :
    takeOut state request otherUserId (setRows state.db otherUserId) = .ok (after, answer) := by
  unfold unlink at unlinked
  dsimp only at unlinked
  split at unlinked
  next => cases unlinked
  next =>
    split at unlinked
    next => cases unlinked
    next present =>
      rw [not_or, not_not, mem_setUsers] at present
      obtain ⟨group, first, second⟩ := present.1
      rwa [setRows_congr (first.trans second.symm)] at unlinked

theorem leave_takeOut (left : leave state request userId = .ok (after, answer)) :
    takeOut state request userId (setRows state.db userId) = .ok (after, answer) := by
  unfold leave at left
  dsimp only at left
  split at left
  next => cases left
  next =>
    split at left
    next => cases left
    next => exact left

end Departures

section HandOver

variable {state after : State} {user : UserId} {report : HandOver}

def takenOver (state : State) (others : List UserId) (context : Context) : Option UserId :=
  if context.isPrivate ∧ context.deletedAt = none then takeover state others context else none

theorem takenOver_nil (context : Context) : takenOver state [] context = none := by
  simp [takenOver, takeover]

theorem privateContextTakeovers_cons (context : Context) (rest : List Context)
    {others : List UserId} (linked : others ≠ []) :
    privateContextTakeovers state (context :: rest) others =
      match takenOver state others context with
      | none => privateContextTakeovers state rest others
      | some account => (context.id, account) :: privateContextTakeovers state rest others := by
  rw [privateContextTakeovers, privateContextTakeovers, if_neg linked, if_neg linked]
  unfold takenOver
  by_cases candidate : context.isPrivate = true ∧ context.deletedAt = none
  · rw [List.filter_cons_of_pos (by simpa using candidate), if_pos candidate, List.filterMap_cons]
    cases takeover state others context <;> rfl
  · rw [List.filter_cons_of_neg (by simpa using candidate), if_neg candidate]

theorem lookup_takeovers {context : Context} {contexts : List Context} (others : List UserId)
    (unique : ∀ other ∈ contexts, other.id = context.id → other = context) :
    (privateContextTakeovers state contexts others).lookup context.id =
      if context ∈ contexts then takenOver state others context else none := by
  by_cases linked : others = []
  · subst linked
    simp [privateContextTakeovers, takenOver_nil]
  · induction contexts with
    | nil => simp [privateContextTakeovers]
    | cons head rest ih =>
      have rested := ih fun other listed => unique other (List.mem_cons_of_mem _ listed)
      rw [privateContextTakeovers_cons head rest linked]
      by_cases same : head = context
      · subst same
        cases account : takenOver state others head with
        | none => simpa [account] using rested
        | some account => simp
      · have different : context.id ≠ head.id := fun equal =>
          same (unique head List.mem_cons_self equal.symm)
        have apart : (context.id == head.id) = false := beq_false_of_ne different
        cases takenOver state others head with
        | none => simpa [Ne.symm same] using rested
        | some account => simpa [List.lookup_cons, apart, Ne.symm same] using rested

def Created (state : State) (user : UserId) (contexts : List Context) : Prop :=
  ∀ context, context ∈ contexts ↔ context ∈ state.db.contexts ∧ context.createdBy = some user

theorem lookup_created {contexts : List Context} (created : Created state user contexts)
    (others : List UserId) {context : Context} (listed : context ∈ state.db.contexts) :
    (privateContextTakeovers state contexts others).lookup context.id =
      if context.createdBy = some user then takenOver state others context else none := by
  rw [lookup_takeovers others fun other inside same => ?_]
  · simp [created context, listed]
  · exact List.inj_on_of_nodup_map state.db.contextIds ((created other).mp inside).1 listed same

def reassigned (takeovers : List (ContextId × UserId)) (context : Context) : Context :=
  { context with createdBy := (takeovers.lookup context.id).or context.createdBy }

theorem handOver_cases (handed : handOverPrivateContexts state user = some (after, report)) :
    ∃ moved : State, moved.db.identityLinks = state.db.identityLinks ∧
      moved.nextGroup = state.nextGroup ∧
      (∃ created, Created state user created ∧ moved.db.contexts = state.db.contexts.map
        (newCreator (privateContextTakeovers state created (linkSet state user)) user)) ∧
      (after = moved ∨ ∃ removed,
        removeFromSet moved user (setRows moved.db user) = some (after, removed)) := by
  unfold handOverPrivateContexts at handed
  dsimp only at handed
  have created : Created state user ((state.db.contexts.filter fun context =>
      context.createdBy = some user).insertionSort fun first second => first.id ≤ second.id) := by
    intro context
    rw [(List.perm_insertionSort _ _).mem_iff, List.mem_filter, decide_eq_true_eq]
  split at handed
  next =>
    cases handed
    refine ⟨_, ?_, ?_, ?_, .inl rfl⟩
    · rfl
    · rfl
    · exact ⟨_, created, rfl⟩
  next =>
    obtain ⟨⟨left, removed⟩, taken, same⟩ := Option.map_eq_some_iff.mp handed
    cases same
    refine ⟨_, ?_, ?_, ?_, .inr ⟨removed, taken⟩⟩
    · rfl
    · rfl
    · exact ⟨_, created, rfl⟩

theorem removeFromSet_isSome (rows : List IdentityLink) :
    (removeFromSet state user rows).isSome := by
  have stored : ∀ links : List IdentityLink, links.Sublist state.db.identityLinks →
      (withLinks state.db links).isSome := by
    intro links fewer
    rw [withLinks, dif_pos (state.db.linkedUsers.sublist (fewer.map _))]
    rfl
  unfold removeFromSet
  dsimp only
  split
  next =>
    rw [Option.isSome_map]
    exact stored _ (List.filter_sublist.trans List.filter_sublist)
  next =>
    rw [Option.isSome_map]
    exact stored _ List.filter_sublist

theorem handOver_isSome (state : State) (user : UserId) :
    (handOverPrivateContexts state user).isSome := by
  unfold handOverPrivateContexts
  dsimp only
  split
  next => rfl
  next =>
    rw [Option.isSome_map]
    exact removeFromSet_isSome _

theorem handOver_creators (handed : handOverPrivateContexts state user = some (after, report))
    {contexts : List Context} (created : Created state user contexts) :
    after.db.contexts =
      state.db.contexts.map (reassigned (predictPrivateContextTakeovers state user contexts)) := by
  obtain ⟨moved, -, -, ⟨listed, same, creators⟩, taken⟩ := handOver_cases handed
  have kept : after.db.contexts = moved.db.contexts := by
    rcases taken with rfl | ⟨removed, taken⟩
    · rfl
    · exact (removeFromSet_cases taken).1
  rw [kept, creators]
  refine List.map_congr_left fun context inside => ?_
  rw [reassigned, predictPrivateContextTakeovers, lookup_created created _ inside, newCreator,
    lookup_created same _ inside]
  by_cases own : context.createdBy = some user
  · rw [if_pos own, if_pos own]
    cases takenOver state (linkSet state user) context <;> rfl
  · rw [if_neg own, if_neg own, Option.none_or]

theorem Valid.handOver (valid : Valid state)
    (handed : handOverPrivateContexts state user = some (after, report)) : Valid after := by
  obtain ⟨moved, links, next, -, taken⟩ := handOver_cases handed
  have kept : Valid moved := valid.congr links (Nat.le_of_eq next.symm)
  rcases taken with rfl | ⟨removed, taken⟩
  · exact kept
  · exact kept.removeFromSet taken

end HandOver

section Runs

theorem ok_of_toOption {ε α : Type} {result : Except ε α} {value : α}
    (some_value : result.toOption = some value) : result = .ok value := by
  cases result with
  | error => cases some_value
  | ok => exact congrArg Except.ok (Option.some.inj some_value)

theorem Valid.step {state after : State} {action : Action} (valid : Valid state)
    (taken : step state action = some after) : Valid after := by
  unfold Identity.step at taken
  split at taken
  next request userId otherUserId =>
    obtain ⟨⟨next, answer⟩, linked, rfl⟩ := Option.map_eq_some_iff.mp taken
    exact valid.link (ok_of_toOption linked)
  next request userId otherUserId =>
    obtain ⟨⟨next, answer⟩, unlinked, rfl⟩ := Option.map_eq_some_iff.mp taken
    exact valid.takeOut (unlink_takeOut (ok_of_toOption unlinked))
  next request userId =>
    obtain ⟨⟨next, answer⟩, left, rfl⟩ := Option.map_eq_some_iff.mp taken
    exact valid.takeOut (leave_takeOut (ok_of_toOption left))
  next userId =>
    obtain ⟨⟨next, report⟩, handed, rfl⟩ := Option.map_eq_some_iff.mp taken
    exact valid.handOver handed
  next db linkedBy users memories connectorContexts =>
    split at taken
    next same =>
      cases taken
      exact valid.congr same (Nat.le_refl _)
    next => cases taken

theorem reached_valid {start state : State} (unlinked : start.db.identityLinks = [])
    (reached : Runs.Reaches step (fun _ _ => True) start state) : Valid state := by
  refine reached.invariant Valid ?_ fun before action after valid _ taken => valid.step taken
  constructor <;> simp [groupOf, unlinked]

-- The link sets, and the three spellings of ownership on them.
structure OneOwner (db : Db) : Prop where
  oneSet : ∀ first ∈ db.identityLinks, ∀ second ∈ db.identityLinks,
    first.userId = second.userId → first = second
  sizes : ∀ link ∈ db.identityLinks, 2 ≤ (membersOf db link.groupId).toFinset.card ∧
    (membersOf db link.groupId).toFinset.card ≤ maxLinkedIdentities
  equivalence : Equivalence fun a b => isSameOwner db a (some b) = true
  agreesOwnedBy : ∀ a b, (ownedBy db (some b) a).Keeps ↔ isSameOwner db a (some b) = true
  agreesLinkedUserIds : ∀ a b, b ∈ linkedUserIds db a ↔ isSameOwner db a (some b) = true

theorem Valid.oneOwner {state : State} (valid : Valid state) : OneOwner state.db where
  oneSet first inFirst second inSecond same :=
    List.inj_on_of_nodup_map state.db.linkedUsers inFirst inSecond same
  sizes link listed := valid.sizes link.userId link.groupId (groupOf_eq_some_iff.mpr listed)
  equivalence := by
    simp only [isSameOwner_iff]
    exact together_equivalence _
  agreesOwnedBy a b := ownedBy_keeps (some b) a
  agreesLinkedUserIds a b := by rw [mem_linkedUserIds, isSameOwner_iff]

theorem linked_accounts_are_one_owner {start state : State}
    (unlinked : start.db.identityLinks = [])
    (reached : Runs.Reaches step (fun _ _ => True) start state) :
    OneOwner state.db ∧
    (∀ request userId otherUserId after answer,
      link state request userId otherUserId = .ok (after, answer) →
        (∀ user, user ∈ answer ↔ linkedUserIds after.db user ≠ linkedUserIds state.db user) ∧
        Told state request .identityLinked after) ∧
    (∀ request userId otherUserId after answer,
      unlink state request userId otherUserId = .ok (after, answer) →
        (∀ user, user ∈ answer ↔ user ≠ otherUserId ∧
          linkedUserIds after.db user ≠ linkedUserIds state.db user) ∧
        Told state request .identityUnlinked after) ∧
    (∀ request userId after answer, leave state request userId = .ok (after, answer) →
        (∀ user, user ∈ answer ↔ user ≠ userId ∧
          linkedUserIds after.db user ≠ linkedUserIds state.db user) ∧
        Told state request .identityUnlinked after) ∧
    (∀ user contexts, Created state user contexts →
      ∃ after report, handOverPrivateContexts state user = some (after, report) ∧
        after.db.contexts = state.db.contexts.map
          (reassigned (predictPrivateContextTakeovers state user contexts))) := by
  have valid := reached_valid unlinked reached
  refine ⟨valid.oneOwner, ?_, ?_, ?_, ?_⟩
  · intro request userId otherUserId after answer linked
    exact link_answer valid linked
  · intro request userId otherUserId after answer cut
    exact takeOut_answer (unlink_takeOut cut)
  · intro request userId after answer left
    exact takeOut_answer (leave_takeOut left)
  · intro user contexts created
    obtain ⟨⟨after, report⟩, handed⟩ := Option.isSome_iff_exists.mp (handOver_isSome state user)
    exact ⟨after, report, handed, handOver_creators handed created⟩

def fourAccounts : State where
  db := emptyDb
  linkedBy := fun _ => none
  users := [1, 2, 3, 4].map fun id => { userId := id, email := none }
  memories := []
  connectorContexts := []
  auditLogs := []
  nextGroup := 0

def browser : Request where
  digest := toString
  ipAddress := none
  userAgent := none

-- Two sets become one of four, and an account that made none of the links leaves it.
theorem linked_accounts_are_one_owner_after_leave :
    ∃ state, Runs.Reaches step (fun _ _ => True) fourAccounts state ∧
      state.db.identityLinks = [⟨0, 1⟩, ⟨0, 2⟩, ⟨0, 3⟩] ∧ state.auditLogs.length = 18 ∧
      OneOwner state.db ∧
      ∀ request userId otherUserId after answer,
        unlink state request userId otherUserId = .ok (after, answer) →
          (∀ user, user ∈ answer ↔ user ≠ otherUserId ∧
            linkedUserIds after.db user ≠ linkedUserIds state.db user) ∧
          Told state request .identityUnlinked after := by
  have seen : (Runs.run step fourAccounts
      [.link browser 1 2, .link browser 3 4, .link browser 1 3, .leave browser 4]).map
        (fun state => (state.db.identityLinks, state.auditLogs.length)) =
      some ([⟨0, 1⟩, ⟨0, 2⟩, ⟨0, 3⟩], 18) := by
    decide +kernel
  obtain ⟨state, reached, same⟩ :=
    Runs.Reaches.of_run _ (Runs.allowed_of_always (fun _ _ => trivial) _ _) seen
  have result := linked_accounts_are_one_owner rfl reached
  exact ⟨state, reached, congrArg Prod.fst same, congrArg Prod.snd same, result.1, result.2.2.1⟩

end Runs

end MemoryCloud.Identity
