import MemoryCloud.Dedup.Model

set_option autoImplicit false

namespace MemoryCloud.Dedup

inductive Chain (merges : List Decision) : MemoryId → MemoryId → Prop
  | last {winner loser : MemoryId} : (winner, loser) ∈ merges → Chain merges loser winner
  | step {winner loser final : MemoryId} :
      (winner, loser) ∈ merges → Chain merges winner final → Chain merges loser final

def Live (state : State) (id : MemoryId) : Prop :=
  ∃ flags, state.flags id = some flags ∧ flags.deleted = false

def Deleted (state : State) (id : MemoryId) : Prop :=
  ∃ flags, state.flags id = some flags ∧ flags.deleted = true

def SoftDeleted (state : State) (id : MemoryId) : Prop := ∃ winner, (winner, id) ∈ state.merges

structure Survives (state : State) (loser final : MemoryId) : Prop where
  chain : Chain state.merges loser final
  different : final ≠ loser
  live : Live state final
  tags : ∀ tag ∈ state.tags loser, tag ∈ state.tags final

structure Safe (state : State) : Prop where
  distinct : ∀ merge ∈ state.merges, merge.1 ≠ merge.2
  held : ∀ merge ∈ state.merges, merge.2 ∈ state.locked
  gone : ∀ merge ∈ state.merges, Deleted state merge.2
  kept : ∀ merge ∈ state.merges, ∃ final ∈ state.locked, Survives state merge.2 final

theorem Chain.mono {merges more : List Decision} (sub : merges ⊆ more) {loser final : MemoryId}
    (chain : Chain merges loser final) : Chain more loser final := by
  induction chain with
  | last listed => exact .last (sub listed)
  | step listed _ ih => exact .step (sub listed) ih

theorem Chain.extend {merges : List Decision} {loser middle final : MemoryId}
    (chain : Chain merges loser middle) (next : (final, middle) ∈ merges) :
    Chain merges loser final := by
  induction chain with
  | last listed => exact .step listed (.last next)
  | step listed _ ih => exact .step listed (ih next)

theorem Live.not_deleted {state : State} {id : MemoryId} (live : Live state id) :
    ¬Deleted state id := by
  intro ⟨flags, found, deleted⟩
  obtain ⟨flags', found', alive⟩ := live
  have same : flags = flags' := Option.some.inj (found.symm.trans found')
  rw [same, alive] at deleted
  cases deleted

structure SameRows (before after : State) : Prop where
  flags : after.flags = before.flags
  tags : after.tags = before.tags
  locked : after.locked = before.locked
  merges : after.merges = before.merges

theorem SameRows.refl (state : State) : SameRows state state := ⟨rfl, rfl, rfl, rfl⟩

theorem SameRows.trans {first second third : State} (one : SameRows first second)
    (two : SameRows second third) : SameRows first third :=
  ⟨two.flags.trans one.flags, two.tags.trans one.tags, two.locked.trans one.locked,
    two.merges.trans one.merges⟩

theorem Safe.lockedRows {before after : State} (safe : Safe before)
    (sameMerges : after.merges = before.merges) (sameTags : after.tags = before.tags)
    (lockedFlags : ∀ id ∈ before.locked, after.flags id = before.flags id)
    (moreLocks : ∀ id ∈ before.locked, id ∈ after.locked) : Safe after := by
  refine ⟨?_, ?_, ?_, ?_⟩
  all_goals rw [sameMerges]
  · exact safe.distinct
  · exact fun merge listed => moreLocks _ (safe.held merge listed)
  · intro merge listed
    obtain ⟨flags, found, deleted⟩ := safe.gone merge listed
    exact ⟨flags, (lockedFlags _ (safe.held merge listed)).trans found, deleted⟩
  · intro merge listed
    obtain ⟨final, isHeld, survives⟩ := safe.kept merge listed
    obtain ⟨flags, found, alive⟩ := survives.live
    refine ⟨final, moreLocks _ isHeld, ?_, survives.different,
      ⟨flags, (lockedFlags _ isHeld).trans found, alive⟩, ?_⟩
    · rw [sameMerges]
      exact survives.chain
    · rw [sameTags]
      exact survives.tags

theorem Safe.sameRows {before after : State} (safe : Safe before) (same : SameRows before after) :
    Safe after :=
  safe.lockedRows same.merges same.tags (fun _ _ => congrFun same.flags _)
    fun _ listed => same.locked ▸ listed

section Executing

variable {state : State}

theorem disturb_safe (safe : Safe state) (change : Disturbance) : Safe (disturb state change) :=
  safe.lockedRows rfl rfl (fun _ listed => if_pos listed) fun _ listed => listed

theorem lockRows_safe (safe : Safe state) (ids : List MemoryId) : Safe (lockRows state ids) :=
  safe.lockedRows rfl rfl (fun _ _ => rfl) fun _ listed => List.mem_append_right _ listed

theorem not_refused_live {id : MemoryId} (accepted : refused (state.flags id) = false) :
    Live state id := by
  cases found : state.flags id with
  | none => simp [refused, found] at accepted
  | some flags =>
    simp only [found, refused, Bool.or_eq_false_iff] at accepted
    exact ⟨flags, found, accepted.1.1.1⟩

theorem executeMerge_live (winner : MemoryId) {loser id : MemoryId} (live : Live state id)
    (other : id ≠ loser) : Live (executeMerge state winner loser) id := by
  obtain ⟨flags, found, alive⟩ := live
  exact ⟨flags, by simp [executeMerge, other, found], alive⟩

theorem executeMerge_tags_of_ne {winner loser id : MemoryId} (other : id ≠ winner) :
    (executeMerge state winner loser).tags id = state.tags id := by
  simp [executeMerge, other]

theorem executeMerge_tags_grow {winner loser id : MemoryId} {tag : String}
    (listed : tag ∈ state.tags id) : tag ∈ (executeMerge state winner loser).tags id := by
  by_cases same : id = winner
  next =>
    rw [same] at listed
    simp [executeMerge, same, mergeTags, listed]
  next => rwa [executeMerge_tags_of_ne same]

theorem executeMerge_tags_winner {winner loser : MemoryId} {tag : String}
    (listed : tag ∈ state.tags loser) : tag ∈ (executeMerge state winner loser).tags winner := by
  by_cases held : tag ∈ state.tags winner
  next => exact executeMerge_tags_grow held
  next => simp [executeMerge, mergeTags, listed, held]

theorem executeMerge_safe (safe : Safe state) {winner loser : MemoryId} (different : winner ≠ loser)
    (winnerLive : Live state winner) (loserLive : Live state loser)
    (winnerHeld : winner ∈ state.locked) (loserHeld : loser ∈ state.locked) :
    Safe (executeMerge state winner loser) := by
  have newMerge : (winner, loser) ∈ (executeMerge state winner loser).merges :=
    List.mem_append_right _ (List.mem_singleton_self _)
  have oldMerges : state.merges ⊆ (executeMerge state winner loser).merges :=
    List.subset_append_left _ _
  have winnerStays := executeMerge_live winner winnerLive different
  refine ⟨?_, ?_, ?_, ?_⟩
  · intro merge listed
    cases List.mem_append.mp listed with
    | inl old => exact safe.distinct merge old
    | inr new => rw [List.mem_singleton.mp new]; exact different
  · intro merge listed
    cases List.mem_append.mp listed with
    | inl old => exact safe.held merge old
    | inr new => rw [List.mem_singleton.mp new]; exact loserHeld
  · intro merge listed
    by_cases same : merge.2 = loser
    next =>
      obtain ⟨flags, found, _⟩ := loserLive
      refine ⟨{ flags with deleted := true }, ?_, rfl⟩
      simp [executeMerge, same, found]
    next =>
      cases List.mem_append.mp listed with
      | inl old =>
        obtain ⟨flags, found, deleted⟩ := safe.gone merge old
        exact ⟨flags, by simp [executeMerge, same, found], deleted⟩
      | inr new => exact absurd (congrArg Prod.snd (List.mem_singleton.mp new)) same
  · intro merge listed
    cases List.mem_append.mp listed with
    | inr new =>
      rw [List.mem_singleton.mp new]
      refine ⟨winner, winnerHeld, .last newMerge, different, winnerStays, ?_⟩
      intro tag tagged
      rw [executeMerge_tags_of_ne different.symm] at tagged
      exact executeMerge_tags_winner tagged
    | inl old =>
      obtain ⟨final, finalHeld, survives⟩ := safe.kept merge old
      have gone := safe.gone merge old
      have notWinner : merge.2 ≠ winner := fun same => winnerLive.not_deleted (same ▸ gone)
      by_cases ended : final = loser
      next =>
        -- the chain ended in the new loser: it now goes on to the new winner
        rw [ended] at survives
        refine ⟨winner, winnerHeld, (survives.chain.mono oldMerges).extend newMerge,
          notWinner.symm, winnerStays, ?_⟩
        intro tag tagged
        rw [executeMerge_tags_of_ne notWinner] at tagged
        exact executeMerge_tags_winner (survives.tags tag tagged)
      next =>
        refine ⟨final, finalHeld, survives.chain.mono oldMerges, survives.different,
          executeMerge_live winner survives.live ended, ?_⟩
        intro tag tagged
        rw [executeMerge_tags_of_ne notWinner] at tagged
        exact executeMerge_tags_grow (survives.tags tag tagged)

structure Job.Sound (job : Job) : Prop where
  winner : ∀ memory, job.winner = some memory → memory.id = job.winnerId
  loser : ∀ memory, job.loser = some memory → memory.id = job.loserId
  different : job.winnerId ≠ job.loserId

theorem executeJob_cases (config : Config) (state : State) {job : Job} (sound : job.Sound) :
    (∃ locked, SameRows (lockRows state locked) (executeJob config state job)) ∨
    (∃ merged, merged = lockRows state [job.winnerId, job.loserId] ∧
      pinnedOrGoneSinceFetch merged job.winnerId job.loserId = false ∧
      SameRows (executeMerge merged job.winnerId job.loserId) (executeJob config state job)) := by
  cases winnerFound : job.winner with
  | none =>
    refine .inl ⟨[], ?_⟩
    simp only [executeJob, winnerFound]
    exact ⟨rfl, rfl, rfl, rfl⟩
  | some winner =>
    cases loserFound : job.loser with
    | none =>
      refine .inl ⟨[], ?_⟩
      simp only [executeJob, winnerFound, loserFound]
      exact ⟨rfl, rfl, rfl, rfl⟩
    | some loser =>
      have winnerId := sound.winner winner winnerFound
      have loserId := sound.loser loser loserFound
      simp only [executeJob, winnerFound, loserFound, winnerId, loserId]
      cases check : pinnedOrGoneSinceFetch (lockRows state [job.winnerId, job.loserId])
          job.winnerId job.loserId with
      | true => exact .inl ⟨[job.winnerId, job.loserId], ⟨rfl, rfl, rfl, rfl⟩⟩
      | false =>
        cases shadow : config.shadowMode with
        | true => exact .inl ⟨[job.winnerId, job.loserId], ⟨rfl, rfl, rfl, rfl⟩⟩
        | false => exact .inr ⟨_, rfl, check, ⟨rfl, rfl, rfl, rfl⟩⟩

theorem executeJob_safe (config : Config) (safe : Safe state) {job : Job} (sound : job.Sound) :
    Safe (executeJob config state job) := by
  cases executeJob_cases config state sound with
  | inl kept =>
    obtain ⟨locked, same⟩ := kept
    exact (lockRows_safe safe locked).sameRows same
  | inr merges =>
    obtain ⟨merged, rfl, accepted, same⟩ := merges
    rw [pinnedOrGoneSinceFetch, Bool.or_eq_false_iff] at accepted
    have winnerLive := not_refused_live accepted.1
    have loserLive := not_refused_live accepted.2
    have winnerHeld : job.winnerId ∈ (lockRows state [job.winnerId, job.loserId]).locked := by
      obtain ⟨flags, found, _⟩ := winnerLive
      have present : (state.flags job.winnerId).isSome := Option.isSome_iff_exists.mpr ⟨flags, found⟩
      simp [lockRows, present]
    have loserHeld : job.loserId ∈ (lockRows state [job.winnerId, job.loserId]).locked := by
      obtain ⟨flags, found, _⟩ := loserLive
      have present : (state.flags job.loserId).isSome := Option.isSome_iff_exists.mpr ⟨flags, found⟩
      simp [lockRows, present]
    exact (executeMerge_safe (lockRows_safe safe _) sound.different winnerLive loserLive winnerHeld
      loserHeld).sameRows same

theorem executeJob_merges (config : Config) (state : State) {job : Job} (sound : job.Sound) :
    ∀ merge ∈ (executeJob config state job).merges,
      merge ∈ state.merges ∨ merge = (job.winnerId, job.loserId) := by
  intro merge listed
  cases executeJob_cases config state sound with
  | inl kept =>
    obtain ⟨locked, same⟩ := kept
    rw [same.merges] at listed
    exact .inl listed
  | inr merges =>
    obtain ⟨merged, rfl, _, same⟩ := merges
    rw [same.merges] at listed
    cases List.mem_append.mp listed with
    | inl old => exact .inl old
    | inr new => exact .inr (List.mem_singleton.mp new)

theorem executeMergeJobs_merges (config : Config) (disturbances : Nat → Disturbance) (state : State)
    {jobs : List Job} (sound : ∀ job ∈ jobs, job.Sound) :
    ∀ merge ∈ (executeMergeJobs config disturbances state jobs).merges,
      merge ∈ state.merges ∨ ∃ job ∈ jobs, merge = (job.winnerId, job.loserId) := by
  induction jobs generalizing state disturbances with
  | nil => exact fun _ listed => .inl listed
  | cons job rest ih =>
    intro merge listed
    have later := ih (fun turn => disturbances (turn + 1))
      (executeJob config (disturb state (disturbances 0)) job)
      (fun other present => sound other (by simp [present])) merge listed
    cases later with
    | inl here =>
      cases executeJob_merges config _ (sound job (by simp)) merge here with
      | inl old => exact .inl old
      | inr new => exact .inr ⟨job, by simp, new⟩
    | inr deeper =>
      obtain ⟨other, present, same⟩ := deeper
      exact .inr ⟨other, by simp [present], same⟩

theorem executeMergeJobs_safe (config : Config) (disturbances : Nat → Disturbance)
    (safe : Safe state) {jobs : List Job} (sound : ∀ job ∈ jobs, job.Sound) :
    Safe (executeMergeJobs config disturbances state jobs) := by
  induction jobs generalizing state disturbances with
  | nil => exact safe
  | cons job rest ih =>
    apply ih
    next => exact executeJob_safe config (disturb_safe safe _) (sound job (by simp))
    next => exact fun other listed => sound other (by simp [listed])

end Executing

end MemoryCloud.Dedup
