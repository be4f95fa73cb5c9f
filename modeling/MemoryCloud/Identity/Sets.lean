import Mathlib.Data.Finset.Card
import MemoryCloud.Shared.Labels
import MemoryCloud.Shared.Ranking
import MemoryCloud.Access.Gates
import MemoryCloud.Identity.Model

set_option autoImplicit false

/-!
# Link sets

The rows of `identity_links` are read as a label of the accounts: the group of
an account's one row. The spellings of ownership are the relation of sharing a
label; a link merges two sets, a departure takes one account out of its set.
-/

namespace MemoryCloud.Identity

open Access Labels
open Bindings (ContextId)

section Reads

variable {db : Db} {a b user : UserId} {group : Nat}

theorem groupOf_eq_some_iff : groupOf db user = some group ↔
    (⟨group, user⟩ : IdentityLink) ∈ db.identityLinks := by
  rw [groupOf, Option.map_eq_some_iff]
  constructor
  · rintro ⟨link, first, rfl⟩
    obtain ⟨listed, rfl⟩ := (Ranking.find?_eq_some_iff db.linkedUsers).mp first
    exact listed
  · intro listed
    exact ⟨_, (Ranking.find?_eq_some_iff db.linkedUsers).mpr ⟨listed, rfl⟩, rfl⟩

theorem mem_linkedIdsSubquery : b ∈ linkedIdsSubquery db a ↔
    ∃ group, groupOf db a = some group ∧ groupOf db b = some group := by
  simp only [linkedIdsSubquery, List.mem_map, List.mem_filter, decide_eq_true_eq,
    groupOf_eq_some_iff]
  constructor
  · rintro ⟨other, ⟨listed, mine, ⟨first, rfl⟩, same⟩, rfl⟩
    exact ⟨other.groupId, same ▸ first, listed⟩
  · rintro ⟨group, first, second⟩
    exact ⟨⟨group, b⟩, ⟨second, ⟨group, a⟩, ⟨first, rfl⟩, rfl⟩, rfl⟩

theorem isSameOwner_iff : isSameOwner db a (some b) = true ↔ Together (groupOf db) a b := by
  rw [← ownedBy_keeps, ownedBy, SqlLogic.or_keeps, SqlLogic.eq_keeps, SqlLogic.isIn_keeps]
  simp [Together, mem_linkedIdsSubquery, eq_comm]

theorem isSameOwner_ne_iff {after : Db} :
    isSameOwner db a (some b) ≠ isSameOwner after a (some b) ↔
      ¬ (Together (groupOf after) a b ↔ Together (groupOf db) a b) := by
  rw [← isSameOwner_iff, ← isSameOwner_iff, ne_comm, Ne, Bool.eq_iff_iff]

theorem mem_linkedUserIds : b ∈ linkedUserIds db a ↔ Together (groupOf db) a b := by
  simp only [linkedUserIds, Finset.mem_insert, List.mem_toFinset, List.mem_map, List.mem_filter,
    decide_eq_true_eq, ownedBy_keeps, isSameOwner_iff]
  constructor
  · rintro (rfl | ⟨link, ⟨_, together⟩, rfl⟩)
    · exact .inl rfl
    · exact together
  · rintro (rfl | ⟨group, first, second⟩)
    · exact .inl rfl
    · exact .inr ⟨⟨group, b⟩, ⟨groupOf_eq_some_iff.mp second, .inr ⟨group, first, second⟩⟩, rfl⟩

theorem linkedUserIds_ne_iff {after : Db} :
    linkedUserIds after a ≠ linkedUserIds db a ↔
      ∃ b, ¬ (Together (groupOf after) a b ↔ Together (groupOf db) a b) := by
  simp only [Ne, Finset.ext_iff, mem_linkedUserIds, not_forall]

theorem mem_membersOf : user ∈ membersOf db group ↔ groupOf db user = some group := by
  simp only [membersOf, List.mem_map, List.mem_filter, decide_eq_true_eq, groupOf_eq_some_iff]
  constructor
  · rintro ⟨link, ⟨listed, rfl⟩, rfl⟩
    exact listed
  · intro listed
    exact ⟨_, ⟨listed, rfl⟩, rfl⟩

theorem membersOf_nodup (db : Db) (group : Nat) : (membersOf db group).Nodup :=
  db.linkedUsers.sublist (List.filter_sublist.map _)

theorem membersOf_congr {after : Db}
    (same : ∀ account, groupOf after account = some group ↔ groupOf db account = some group) :
    (membersOf after group).toFinset = (membersOf db group).toFinset := by
  ext account
  rw [List.mem_toFinset, List.mem_toFinset, mem_membersOf, mem_membersOf, same]

theorem mem_setRows {row : IdentityLink} : row ∈ setRows db user ↔
    row ∈ db.identityLinks ∧ groupOf db user = some row.groupId := by
  simp only [setRows, List.mem_filter, decide_eq_true_eq, mem_linkedIdsSubquery]
  refine and_congr_right fun listed => ?_
  have own : groupOf db row.userId = some row.groupId := groupOf_eq_some_iff.mpr listed
  constructor
  · rintro ⟨group, first, second⟩
    cases own.symm.trans second
    exact first
  · intro first
    exact ⟨row.groupId, first, own⟩

theorem mem_setUsers : b ∈ (setRows db user).map (·.userId) ↔
    ∃ group, groupOf db user = some group ∧ groupOf db b = some group := by
  simp only [List.mem_map, mem_setRows]
  constructor
  · rintro ⟨row, ⟨listed, first⟩, rfl⟩
    exact ⟨row.groupId, first, groupOf_eq_some_iff.mpr listed⟩
  · rintro ⟨group, first, second⟩
    exact ⟨⟨group, b⟩, ⟨groupOf_eq_some_iff.mp second, first⟩, rfl⟩

theorem setUsers_nodup (db : Db) (user : UserId) : ((setRows db user).map (·.userId)).Nodup :=
  db.linkedUsers.sublist (List.filter_sublist.map _)

theorem setRows_congr (same : groupOf db a = groupOf db b) : setRows db a = setRows db b := by
  unfold setRows
  refine List.filter_congr fun row _ => ?_
  simp [mem_linkedIdsSubquery, same]

theorem withLinks_eq_some {links : List IdentityLink} {after : Db}
    (stored : withLinks db links = some after) :
    after.identityLinks = links ∧ after.contexts = db.contexts := by
  unfold withLinks at stored
  split at stored
  next =>
    cases stored
    exact ⟨rfl, rfl⟩
  next => cases stored

variable {state : State}

theorem mem_side : b ∈ side state a ↔ Together (groupOf state.db) a b := by
  unfold side
  split
  next alone =>
    simp [Together, alone, eq_comm]
  next group labelled =>
    rw [mem_membersOf]
    constructor
    · intro second
      exact .inr ⟨group, labelled, second⟩
    · rintro (rfl | ⟨group', first, second⟩)
      · exact labelled
      · cases labelled.symm.trans first
        exact second

theorem side_nodup (state : State) (a : UserId) : (side state a).Nodup := by
  unfold side
  split
  next => exact List.nodup_singleton a
  next group _ => exact membersOf_nodup state.db group

end Reads

structure Valid (state : State) : Prop where
  sizes : ∀ user group, groupOf state.db user = some group →
    2 ≤ (membersOf state.db group).toFinset.card ∧
      (membersOf state.db group).toFinset.card ≤ maxLinkedIdentities
  fresh : ∀ user group, groupOf state.db user = some group → group < state.nextGroup

section Trails

variable (state : State) (request : Request) (action : AuditAction)

def audits (first second : List UserId) : List AuditLog :=
  (bothWays (inOrder first) (inOrder second)).flatMap fun pair =>
    audit state request action pair.1 pair.2

theorem audits_eq (first second : List UserId) :
    audits state request action first second = (inOrder first).flatMap fun a =>
      (inOrder second).flatMap fun b => auditBoth state request action a b := by
  simp [audits, bothWays, auditBoth, List.flatMap_assoc]

-- One row, on the first account's trail, for each ordered pair of accounts that became or stopped
-- being linked. An account that is gone has no trail.
def Told (after : State) : Prop :=
  ∃ pairs : List (User × UserId), (pairs.map fun pair => (pair.1.userId, pair.2)).Nodup ∧
    (∀ user target, (user, target) ∈ pairs ↔ exists? state user.userId = some user ∧
      isSameOwner state.db user.userId (some target) ≠
        isSameOwner after.db user.userId (some target)) ∧
    after.auditLogs = state.auditLogs ++
      pairs.map fun pair => auditRow request action pair.1 pair.2

variable {state request action}

theorem exists_userId {id : UserId} {user : User} (found : exists? state id = some user) :
    user.userId = id := by
  simpa using List.find?_some found

def onTrail (state : State) (pair : UserId × UserId) : Option (User × UserId) :=
  (exists? state pair.1).map fun user => (user, pair.2)

theorem onTrail_keys (pairs : List (UserId × UserId)) :
    ((pairs.filterMap (onTrail state)).map fun pair => (pair.1.userId, pair.2)) =
      pairs.filter fun pair => (exists? state pair.1).isSome := by
  induction pairs with
  | nil => rfl
  | cons pair rest ih =>
    cases found : exists? state pair.1 with
    | none => simpa [onTrail, found] using ih
    | some user => simpa [onTrail, found, exists_userId found] using ih

theorem mem_onTrail {pairs : List (UserId × UserId)} {user : User} {target : UserId} :
    (user, target) ∈ pairs.filterMap (onTrail state) ↔
      (user.userId, target) ∈ pairs ∧ exists? state user.userId = some user := by
  simp only [List.mem_filterMap, onTrail, Option.map_eq_some_iff, Prod.mk.injEq]
  constructor
  · rintro ⟨⟨actor, other⟩, listed, found, one, rfl, rfl⟩
    rw [exists_userId one]
    exact ⟨listed, one⟩
  · rintro ⟨listed, one⟩
    exact ⟨_, listed, user, one, rfl, rfl⟩

theorem onTrail_rows (pairs : List (UserId × UserId)) :
    (pairs.flatMap fun pair => audit state request action pair.1 pair.2) =
      (pairs.filterMap (onTrail state)).map fun pair => auditRow request action pair.1 pair.2 := by
  induction pairs with
  | nil => rfl
  | cons pair rest ih =>
    cases found : exists? state pair.1 with
    | none => simpa [onTrail, audit, found] using ih
    | some user => simpa [onTrail, audit, found] using ih

theorem told_of_audits {after : State} {first second : List UserId} (distinct : first.Nodup)
    (distinct' : second.Nodup) (apart : ∀ a ∈ first, a ∉ second)
    (changed : ∀ a b, isSameOwner state.db a (some b) ≠ isSameOwner after.db a (some b) ↔
      (a ∈ first ∧ b ∈ second) ∨ (a ∈ second ∧ b ∈ first))
    (logs : after.auditLogs = state.auditLogs ++ audits state request action first second) :
    Told state request action after := by
  have sorted : ∀ accounts : List UserId, (inOrder accounts).Perm accounts := fun accounts =>
    List.perm_insertionSort _ accounts
  have ordered : (bothWays (inOrder first) (inOrder second)).Nodup := by
    refine nodup_bothWays ((sorted first).nodup_iff.mpr distinct)
      ((sorted second).nodup_iff.mpr distinct') ?_
    intro a inFirst inSecond
    exact apart a ((sorted first).mem_iff.mp inFirst) ((sorted second).mem_iff.mp inSecond)
  refine ⟨(bothWays (inOrder first) (inOrder second)).filterMap (onTrail state), ?_, ?_, ?_⟩
  · rw [onTrail_keys]
    exact ordered.filter _
  · intro user target
    rw [mem_onTrail, mem_bothWays, (sorted first).mem_iff, (sorted second).mem_iff,
      (sorted first).mem_iff, (sorted second).mem_iff, changed, and_comm]
  · rw [logs, audits, onTrail_rows]

end Trails

section Link

variable {state : State} {request : Request} {userId otherUserId : UserId}

def InEither (db : Db) (userId otherUserId user : UserId) : Prop :=
  Together (groupOf db) userId user ∨ Together (groupOf db) otherUserId user

def mergedGroup (state : State) (userId otherUserId : UserId) : Nat :=
  ((groupOf state.db userId).or (groupOf state.db otherUserId)).getD state.nextGroup

theorem together_of_some {a b : UserId} {group : Nat} {db : Db} (labelled : groupOf db a = some group) :
    Together (groupOf db) a b ↔ groupOf db b = some group := by
  constructor
  · rintro (rfl | ⟨group', first, second⟩)
    · exact labelled
    · cases labelled.symm.trans first
      exact second
  · intro second
    exact .inr ⟨group, labelled, second⟩

theorem together_of_none {a b : UserId} {db : Db} (alone : groupOf db a = none) :
    Together (groupOf db) a b ↔ a = b := by
  simp [Together, alone]

theorem relabelled_mem {db : Db} {group groupId old : Nat} {user : UserId} :
    (⟨groupId, user⟩ : IdentityLink) ∈ (db.identityLinks.map fun link =>
        if link.groupId = old then { link with groupId := group } else link) ↔
      (groupOf db user = some old ∧ groupId = group) ∨
        (groupOf db user = some groupId ∧ groupId ≠ old) := by
  simp only [List.mem_map, groupOf_eq_some_iff]
  constructor
  · rintro ⟨link, listed, same⟩
    split at same
    next theirs =>
      cases same
      exact .inl ⟨theirs ▸ listed, rfl⟩
    next others =>
      subst same
      exact .inr ⟨listed, others⟩
  · rintro (⟨listed, rfl⟩ | ⟨listed, others⟩)
    · exact ⟨_, listed, if_pos rfl⟩
    · exact ⟨_, listed, if_neg others⟩

-- By the cases of `mine or theirs or uuid4()`: two sets, one set and a single account, or two
-- single accounts.
theorem mem_mergedLinks {groupId : Nat} {user : UserId} :
    (⟨groupId, user⟩ : IdentityLink) ∈
        mergedLinks state userId otherUserId (mergedGroup state userId otherUserId) ↔
      (InEither state.db userId otherUserId user ∧ groupId = mergedGroup state userId otherUserId) ∨
      (¬ InEither state.db userId otherUserId user ∧ groupOf state.db user = some groupId) := by
  unfold mergedLinks mergedGroup InEither
  cases mine : groupOf state.db userId with
  | none =>
    cases theirs : groupOf state.db otherUserId with
    | none =>
      simp only [together_of_none mine, together_of_none theirs, List.mem_append, List.filter_cons,
        mine, theirs, Option.isNone_none, if_true, List.filter_nil, List.map_cons, List.map_nil,
        List.mem_cons, IdentityLink.mk.injEq, List.not_mem_nil, or_false, ← groupOf_eq_some_iff]
      grind
    | some other =>
      simp only [together_of_none mine, together_of_some theirs, List.mem_append, List.filter_cons,
        mine, theirs, Option.isNone_none, Option.isNone_some, Bool.false_eq_true, if_false, if_true,
        List.filter_nil, List.map_cons, List.map_nil, List.mem_cons, IdentityLink.mk.injEq,
        List.not_mem_nil, or_false, ← groupOf_eq_some_iff]
      grind
  | some own =>
    cases theirs : groupOf state.db otherUserId with
    | none =>
      simp only [together_of_some mine, together_of_none theirs, List.mem_append, List.filter_cons,
        mine, theirs, Option.isNone_none, Option.isNone_some, Bool.false_eq_true, if_false, if_true,
        List.filter_nil, List.map_cons, List.map_nil, List.mem_cons, IdentityLink.mk.injEq,
        List.not_mem_nil, or_false, ← groupOf_eq_some_iff]
      grind
    | some other =>
      simp only [together_of_some mine, together_of_some theirs, List.mem_append, List.filter_cons,
        mine, theirs, Option.isNone_some, Bool.false_eq_true, if_false, List.filter_nil,
        List.map_nil, List.not_mem_nil, or_false, relabelled_mem]
      grind

theorem mergedGroup_own (valid : Valid state) {user : UserId}
    (outside : ¬ InEither state.db userId otherUserId user) :
    groupOf state.db user ≠ some (mergedGroup state userId otherUserId) := by
  intro labelled
  unfold mergedGroup at labelled
  unfold InEither at outside
  cases mine : groupOf state.db userId with
  | some own =>
    rw [mine, Option.some_or, Option.getD_some] at labelled
    exact outside (.inl (.inr ⟨own, mine, labelled⟩))
  | none =>
    cases theirs : groupOf state.db otherUserId with
    | some other =>
      rw [mine, theirs, Option.none_or, Option.getD_some] at labelled
      exact outside (.inr (.inr ⟨other, theirs, labelled⟩))
    | none =>
      rw [mine, theirs, Option.none_or, Option.getD_none] at labelled
      exact Nat.lt_irrefl _ (valid.fresh user _ labelled)

theorem mergedGroup_le (valid : Valid state) :
    mergedGroup state userId otherUserId ≤ state.nextGroup := by
  unfold mergedGroup
  cases mine : groupOf state.db userId with
  | some own => exact Nat.le_of_lt (valid.fresh _ own mine)
  | none =>
    cases theirs : groupOf state.db otherUserId with
    | some other => exact Nat.le_of_lt (valid.fresh _ other theirs)
    | none => exact Nat.le_refl _

theorem merged_of_withLinks (valid : Valid state) {db : Db}
    (stored : withLinks state.db (mergedLinks state userId otherUserId
      (mergedGroup state userId otherUserId)) = some db) :
    Merged (groupOf state.db) (groupOf db) userId otherUserId
      (mergedGroup state userId otherUserId) where
  inside a either := by
    rw [groupOf_eq_some_iff, (withLinks_eq_some stored).1, mem_mergedLinks]
    exact .inl ⟨either, rfl⟩
  outside a neither := by
    refine Option.ext fun groupId => ?_
    rw [groupOf_eq_some_iff, (withLinks_eq_some stored).1, mem_mergedLinks]
    constructor
    · rintro (⟨either, -⟩ | ⟨-, same⟩)
      · exact absurd either neither
      · exact same
    · intro same
      exact .inr ⟨neither, same⟩
  own a neither := mergedGroup_own valid neither

theorem link_cases {after : State} {answer : Finset UserId}
    (linked : link state request userId otherUserId = .ok (after, answer)) :
    (after = state ∧ answer = ∅) ∨
    (¬ Together (groupOf state.db) userId otherUserId ∧
      (side state userId).length + (side state otherUserId).length ≤ maxLinkedIdentities ∧
      ∃ db, withLinks state.db (mergedLinks state userId otherUserId
          (mergedGroup state userId otherUserId)) = some db ∧
        after.db = db ∧ after.nextGroup = state.nextGroup + 1 ∧
        after.auditLogs = state.auditLogs ++
          audits state request .identityLinked (side state userId) (side state otherUserId) ∧
        answer = (side state userId ++ side state otherUserId).toFinset) := by
  unfold link at linked
  dsimp only at linked
  split at linked
  next => cases linked
  next different =>
    split at linked
    next => cases linked
    next =>
      split at linked
      next =>
        cases linked
        exact .inl ⟨rfl, rfl⟩
      next apart =>
        split at linked
        next => cases linked
        next small =>
          split at linked
          next => cases linked
          next db stored =>
            cases linked
            refine .inr ⟨?_, Nat.le_of_not_lt small, db, stored, rfl, rfl, ?_, rfl⟩
            swap
            · rw [audits_eq]
            rintro (same | ⟨group, first, second⟩)
            · exact different same
            · exact apart ⟨by simp [first], first.trans second.symm⟩

theorem sides_disjoint (apart : ¬ Together (groupOf state.db) userId otherUserId) :
    ∀ a ∈ side state userId, a ∉ side state otherUserId := by
  intro a mine theirs
  exact apart ((mem_side.mp mine).trans (mem_side.mp theirs).symm)

theorem mergedMembers {db : Db}
    (merged : Merged (groupOf state.db) (groupOf db) userId otherUserId
      (mergedGroup state userId otherUserId)) :
    (membersOf db (mergedGroup state userId otherUserId)).toFinset =
      (side state userId ++ side state otherUserId).toFinset := by
  ext user
  simp only [List.mem_toFinset, mem_membersOf, List.mem_append, mem_side]
  exact merged.set_iff

theorem Valid.link (valid : Valid state) {after : State} {answer : Finset UserId}
    (linked : link state request userId otherUserId = .ok (after, answer)) : Valid after := by
  rcases link_cases linked with ⟨rfl, -⟩ | ⟨apart, small, db, stored, rfl, next, -, -⟩
  · exact valid
  · have merged := merged_of_withLinks valid stored
    constructor
    · intro user group labelled
      by_cases same : group = mergedGroup state userId otherUserId
      · subst same
        rw [mergedMembers merged, List.toFinset_card_of_nodup, List.length_append]
        · have mine : 0 < (side state userId).length :=
            List.length_pos_of_mem (mem_side.mpr (.inl rfl))
          have theirs : 0 < (side state otherUserId).length :=
            List.length_pos_of_mem (mem_side.mpr (.inl rfl))
          exact ⟨by omega, small⟩
        · exact (side_nodup state userId).append (side_nodup state otherUserId)
            (sides_disjoint apart)
      · rw [membersOf_congr fun other => merged.other_iff labelled same]
        exact valid.sizes user group ((merged.other_iff labelled same).mp labelled)
    · intro user group labelled
      rw [next]
      by_cases same : group = mergedGroup state userId otherUserId
      · exact same ▸ Nat.lt_succ_of_le (mergedGroup_le valid)
      · have before := (merged.other_iff labelled same).mp labelled
        exact Nat.lt_succ_of_lt (valid.fresh user group before)

theorem link_answer (valid : Valid state) {after : State} {answer : Finset UserId}
    (linked : link state request userId otherUserId = .ok (after, answer)) :
    (∀ user, user ∈ answer ↔ linkedUserIds after.db user ≠ linkedUserIds state.db user) ∧
      Told state request .identityLinked after := by
  rcases link_cases linked with ⟨rfl, rfl⟩ | ⟨apart, small, db, stored, rfl, next, logs, rfl⟩
  · refine ⟨fun user => by simp, ?_⟩
    exact told_of_audits List.nodup_nil List.nodup_nil (by simp) (by simp)
      (by simp [audits, bothWays, inOrder])
  · have merged := merged_of_withLinks valid stored
    have changed := merged.changed_iff apart
    constructor
    · intro user
      rw [linkedUserIds_ne_iff, List.mem_toFinset, List.mem_append, mem_side, mem_side]
      constructor
      · rintro (mine | theirs)
        · exact ⟨otherUserId, (changed user otherUserId).mpr (.inl ⟨mine, .inl rfl⟩)⟩
        · exact ⟨userId, (changed user userId).mpr (.inr ⟨theirs, .inl rfl⟩)⟩
      · rintro ⟨other, differs⟩
        rcases (changed user other).mp differs with ⟨mine, -⟩ | ⟨theirs, -⟩
        · exact .inl mine
        · exact .inr theirs
    · refine told_of_audits (side_nodup state userId) (side_nodup state otherUserId)
        (sides_disjoint apart) (fun a b => ?_) logs
      rw [isSameOwner_ne_iff, changed, mem_side, mem_side, mem_side, mem_side]

end Link

section Leave

variable {state after : State} {request : Request} {user : UserId} {removed : Nat}

def remainingUsers (db : Db) (user : UserId) : List UserId :=
  ((setRows db user).filter fun row => decide (row.userId ≠ user)).map (·.userId)

theorem mem_remainingUsers {db : Db} {other : UserId} : other ∈ remainingUsers db user ↔
    other ≠ user ∧ ∃ group, groupOf db user = some group ∧ groupOf db other = some group := by
  rw [← mem_setUsers]
  simp only [remainingUsers, List.mem_map, List.mem_filter, decide_eq_true_eq]
  constructor
  · rintro ⟨row, ⟨listed, different⟩, rfl⟩
    exact ⟨different, row, listed, rfl⟩
  · rintro ⟨different, row, listed, rfl⟩
    exact ⟨row, ⟨listed, different⟩, rfl⟩

theorem remainingUsers_nodup (db : Db) (user : UserId) : (remainingUsers db user).Nodup :=
  (setUsers_nodup db user).sublist (List.filter_sublist.map _)

-- A set left with one account goes with the account that leaves it.
theorem removeFromSet_cases
    (taken : removeFromSet state user (setRows state.db user) = some (after, removed)) :
    after.db.contexts = state.db.contexts ∧ after.nextGroup = state.nextGroup ∧
      ∀ other group, groupOf after.db other = some group ↔
        groupOf state.db other = some group ∧ other ≠ user ∧
          ((remainingUsers state.db user).length ≤ 1 → groupOf state.db user ≠ some group) := by
  unfold removeFromSet at taken
  dsimp only at taken
  split at taken
  next few =>
    obtain ⟨db, stored, same⟩ := Option.map_eq_some_iff.mp taken
    cases same
    obtain ⟨links, contexts⟩ := withLinks_eq_some stored
    refine ⟨contexts, rfl, fun other group => ?_⟩
    have alone : (remainingUsers state.db user).length ≤ 1 := by
      rwa [remainingUsers, List.length_map]
    have remaining := @mem_remainingUsers user state.db other
    rw [remainingUsers] at remaining
    rw [groupOf_eq_some_iff, links]
    simp only [List.mem_filter, remaining, decide_eq_true_eq, ← groupOf_eq_some_iff, alone,
      true_imp_iff]
    grind
  next many =>
    obtain ⟨db, stored, same⟩ := Option.map_eq_some_iff.mp taken
    cases same
    obtain ⟨links, contexts⟩ := withLinks_eq_some stored
    refine ⟨contexts, rfl, fun other group => ?_⟩
    have several : ¬ (remainingUsers state.db user).length ≤ 1 := by
      rwa [remainingUsers, List.length_map]
    rw [groupOf_eq_some_iff, links]
    simp only [List.mem_filter, decide_eq_true_eq, ← groupOf_eq_some_iff, several,
      false_imp_iff, and_true]

theorem left_of_removeFromSet
    (taken : removeFromSet state user (setRows state.db user) = some (after, removed)) :
    Left (groupOf state.db) (groupOf after.db) user := by
  obtain ⟨-, -, labels⟩ := removeFromSet_cases taken
  refine ⟨?_, fun a => ?_, ?_⟩
  · refine Option.eq_none_iff_forall_not_mem.mpr fun group labelled => ?_
    exact ((labels user group).mp labelled).2.1 rfl
  · cases labelled : groupOf after.db a with
    | none => exact .inl rfl
    | some group => exact .inr ((labels a group).mp labelled).1.symm
  · rintro a b different notA notB (same | ⟨group, first, second⟩)
    · exact absurd same different
    · rw [first]
      refine (labels a group).mpr ⟨first, notA, fun few own => ?_⟩
      have inA : a ∈ remainingUsers state.db user :=
        mem_remainingUsers.mpr ⟨notA, group, own, first⟩
      have inB : b ∈ remainingUsers state.db user :=
        mem_remainingUsers.mpr ⟨notB, group, own, second⟩
      have two : [a, b].Subperm (remainingUsers state.db user) :=
        List.subperm_of_subset (by simp [different]) (by simp [inA, inB])
      exact absurd (Nat.le_trans two.length_le few) (by simp)

theorem Valid.removeFromSet (valid : Valid state)
    (taken : removeFromSet state user (setRows state.db user) = some (after, removed)) :
    Valid after := by
  obtain ⟨-, next, labels⟩ := removeFromSet_cases taken
  constructor
  · intro other group labelled
    obtain ⟨before, different, several⟩ := (labels other group).mp labelled
    have sizes := valid.sizes other group before
    by_cases own : groupOf state.db user = some group
    · have members : (membersOf after.db group).toFinset =
          (remainingUsers state.db user).toFinset := by
        ext account
        rw [List.mem_toFinset, List.mem_toFinset, mem_membersOf, mem_remainingUsers, labels]
        grind
      have fewer : (remainingUsers state.db user).toFinset ⊆
          (membersOf state.db group).toFinset := by
        intro account
        rw [List.mem_toFinset, List.mem_toFinset, mem_membersOf, mem_remainingUsers]
        grind
      rw [members]
      refine ⟨?_, Nat.le_trans (Finset.card_le_card fewer) sizes.2⟩
      rw [List.toFinset_card_of_nodup (remainingUsers_nodup _ _)]
      exact Nat.lt_of_not_le fun few => several few own
    · rw [membersOf_congr fun account => ?_]
      · exact sizes
      · rw [labels]
        exact ⟨And.left, fun listed => ⟨listed, fun same => own (same ▸ listed), fun _ => own⟩⟩
  · intro other group labelled
    exact next ▸ valid.fresh other group ((labels other group).mp labelled).1

end Leave

end MemoryCloud.Identity
