import MemoryCloud.Chunks.Model

set_option autoImplicit false

/-!
# The chunk policies agree

A live context is active exactly when it is stored on, its store keeps chunk
points, and it ranks below the plan's limit. The status and the filter of a
recall both decide that; the report of a plan change leaves the store out.
-/

namespace MemoryCloud.Chunks

section Claims

def Database.withPlan (db : Database) (workspaceId : WorkspaceId) (planName : Option String) :
    Database :=
  { db with
    workspaces := db.workspaces.map (fun workspace =>
      if workspace.id = workspaceId then { workspace with planName } else workspace)
    workspaceIds := by
      rw [List.map_map]
      have same : (Workspace.id ∘ fun workspace : Workspace =>
          if workspace.id = workspaceId then { workspace with planName } else workspace) =
            Workspace.id := by
        funext workspace
        dsimp only [Function.comp]
        split <;> rfl
      rw [same]
      exact db.workspaceIds }

def Live (context : Context) (workspace : Workspace) : Prop :=
  context.workspaceId = workspace.id ∧ context.deletedAt = none

instance (context : Context) (workspace : Workspace) : Decidable (Live context workspace) :=
  inferInstanceAs (Decidable (_ ∧ _))

structure PoliciesAgree (deployment : Deployment) (db : Database) (workspace : Workspace)
    (oldPlan newPlan : Option String) : Prop where
  sameContexts : ∀ context ∈ db.contexts, Live context workspace → ∀ includeUsage wanted,
    context.id ∈ wanted →
      ((contentChunksStatus deployment db context.id none includeUsage).effective = true ↔
        context.id ∈ contentChunksEffectiveIds deployment db wanted)
  withinLimit : ∀ includeUsage, (db.contexts.filter (fun context => decide (Live context workspace) &&
      (contentChunksStatus deployment db context.id none includeUsage).effective)).length ≤
    deployment.contentChunkContextLimit workspace.planName
  losing : ∀ id includeUsage,
    id ∈ contextsLosingContentChunks deployment db workspace.id oldPlan newPlan ↔
      ∃ context ∈ db.contexts, context.id = id ∧ Live context workspace ∧
        (contentChunksStatus deployment (db.withPlan workspace.id oldPlan) id none
          includeUsage).effective = true ∧
        (contentChunksStatus deployment (db.withPlan workspace.id newPlan) id none
          includeUsage).effective = false
  losingOnce : (contextsLosingContentChunks deployment db workspace.id oldPlan newPlan).Nodup

end Claims

section Rows

variable {db : Database} {workspace : Workspace} {context : Context}

theorem context?_eq_some {id : ContextId} :
    db.context? id = some context ↔ context ∈ db.contexts ∧ context.id = id :=
  Ranking.find?_eq_some_iff db.contextIds

theorem workspace?_eq_some {id : WorkspaceId} :
    db.workspace? id = some workspace ↔ workspace ∈ db.workspaces ∧ workspace.id = id :=
  Ranking.find?_eq_some_iff db.workspaceIds

theorem config?_eq_some {config : ContextSearchConfig} {id : ContextId} :
    db.config? id = some config ↔ config ∈ db.configs ∧ config.contextId = id :=
  Ranking.find?_eq_some_iff db.configIds

theorem mem_enabledLive {config : ContextSearchConfig} :
    config ∈ db.enabledLive workspace.id ↔
      config ∈ db.configs ∧ config.contentChunksEnabled = true ∧
        ∃ context ∈ db.contexts, context.id = config.contextId ∧ Live context workspace := by
  rw [Database.enabledLive, List.mem_filter, Bool.and_eq_true, Option.any_eq_true]
  refine and_congr_right fun _ => and_congr_right fun _ => ?_
  constructor
  next =>
    rintro ⟨context, found, live⟩
    obtain ⟨present, same⟩ := context?_eq_some.mp found
    simp only [Bool.and_eq_true, beq_iff_eq, Option.isNone_iff_eq_none] at live
    exact ⟨context, present, same, live⟩
  next =>
    rintro ⟨context, present, same, live⟩
    refine ⟨context, context?_eq_some.mpr ⟨present, same⟩, ?_⟩
    simpa [Live] using live

theorem enabledLive_contextIds (db : Database) (workspaceId : WorkspaceId) :
    ((db.enabledLive workspaceId).map (·.contextId)).Nodup :=
  db.configIds.sublist (List.filter_sublist.map _)

theorem enabledLive_keys (db : Database) (workspaceId : WorkspaceId) :
    ((db.enabledLive workspaceId).map rankKey).Nodup := by
  refine List.Nodup.of_map (fun key => (ofLex key).2) ?_
  rw [List.map_map]
  exact enabledLive_contextIds db workspaceId

end Rows

section Active

-- What both predicates decide for a live context.
def Active (deployment : Deployment) (db : Database) (workspaceId : WorkspaceId)
    (planName : Option String) (contextId : ContextId) : Prop :=
  deployment.chunkPointsSupported = true ∧ ∃ config ∈ db.enabledLive workspaceId,
    config.contextId = contextId ∧
      Ranking.earlier rankKey (db.enabledLive workspaceId) config <
        deployment.contentChunkContextLimit planName

variable {deployment : Deployment} {db : Database} {workspace : Workspace} {context : Context}

theorem feature_of_limit {planName : Option String} {rank : Nat}
    (below : rank < deployment.contentChunkContextLimit planName) :
    deployment.planAllowsContentChunks planName = true := by
  by_contra missing
  rw [Deployment.contentChunkContextLimit, if_neg missing] at below
  omega

theorem usageQuery_eq {config : ContextSearchConfig} (joined : workspace ∈ db.workspaces)
    (present : context ∈ db.contexts) (owned : context.workspaceId = workspace.id)
    (found : db.config? context.id = some config) :
    usageQuery db context.id = some {
      workspaceId := workspace.id
      planName := workspace.planName
      inUse := (db.enabledLive workspace.id).length
      earlier := Ranking.earlier rankKey (db.enabledLive workspace.id) config } := by
  have same := (config?_eq_some.mp found).2
  have context? : db.context? config.contextId = some context :=
    context?_eq_some.mpr ⟨present, same.symm⟩
  have workspace? : db.workspace? workspace.id = some workspace :=
    workspace?_eq_some.mpr ⟨joined, rfl⟩
  simp only [usageQuery, found, context?, workspace?, owned]

theorem status_effective_iff (gated : deployment.gated = true) (joined : workspace ∈ db.workspaces)
    (present : context ∈ db.contexts) (live : Live context workspace) (includeUsage : Bool) :
    (contentChunksStatus deployment db context.id none includeUsage).effective = true ↔
      Active deployment db workspace.id workspace.planName context.id := by
  cases found : db.config? context.id with
  | none =>
    have off : storedFlag db context.id = false := by rw [storedFlag, found]
    constructor
    next => cases includeUsage <;> simp [contentChunksStatus, Status.effective, Status.hasPoints, off]
    next =>
      rintro ⟨_, config, counted, same, _⟩
      have listed := (mem_enabledLive.mp counted).1
      rw [config?_eq_some.mpr ⟨listed, same⟩] at found
      cases found
  | some config =>
    obtain ⟨listed, same⟩ := config?_eq_some.mp found
    have flag : storedFlag db context.id = config.contentChunksEnabled := by rw [storedFlag, found]
    have unique : ∀ other ∈ db.enabledLive workspace.id, other.contextId = context.id →
        other = config := by
      intro other counted sameId
      have again := config?_eq_some.mpr ⟨(mem_enabledLive.mp counted).1, sameId⟩
      exact Option.some.inj (again.symm.trans found)
    cases on : config.contentChunksEnabled with
    | false =>
      constructor
      next =>
        cases includeUsage <;>
          simp [contentChunksStatus, Status.effective, Status.hasPoints, flag, on]
      next =>
        rintro ⟨_, other, counted, sameId, _⟩
        rw [unique other counted sameId] at counted
        simp [(mem_enabledLive.mp counted).2.1] at on
    | true =>
      have counted : config ∈ db.enabledLive workspace.id :=
        mem_enabledLive.mpr ⟨listed, on, context, present, same.symm, live⟩
      have usage := usageQuery_eq joined present live.1 found
      simp only [contentChunksStatus, Option.getD_none, flag, on, gated, Bool.and_true,
        Bool.not_true, Bool.and_false, Bool.false_eq_true, if_false, if_true, usage,
        Option.bind_some, Option.map_some, Status.effective, Status.hasPoints, Bool.true_and]
      cases supported : deployment.chunkPointsSupported with
      | false => simp [Active, supported]
      | true =>
        simp only [Bool.not_true, Bool.false_eq_true, if_false, Bool.and_eq_true, decide_eq_true_eq]
        constructor
        next => exact fun both => ⟨supported, config, counted, same, both.2⟩
        next =>
          rintro ⟨_, other, otherCounted, sameId, below⟩
          rw [unique other otherCounted sameId] at below
          exact ⟨feature_of_limit below, below⟩

theorem mem_rankedRows (joined : workspace ∈ db.workspaces) {row : RankedRow} :
    row ∈ rankedRows db workspace.id ↔ ∃ config ∈ db.enabledLive workspace.id,
      row = { contextId := config.contextId, planName := workspace.planName
              rank := 1 + Ranking.earlier rankKey (db.enabledLive workspace.id) config } := by
  have found : db.workspace? workspace.id = some workspace :=
    workspace?_eq_some.mpr ⟨joined, rfl⟩
  simp only [rankedRows, found, List.mem_map, Prod.exists,
    Ranking.mem_zipIdx_ranked (enabledLive_keys db workspace.id)]
  constructor
  next =>
    rintro ⟨config, rank, ⟨counted, rfl⟩, rfl⟩
    exact ⟨config, counted, rfl⟩
  next =>
    rintro ⟨config, counted, rfl⟩
    exact ⟨config, _, ⟨counted, rfl⟩, rfl⟩

theorem mem_effectiveIds_iff (gated : deployment.gated = true) (joined : workspace ∈ db.workspaces)
    (present : context ∈ db.contexts) (live : Live context workspace) {wanted : List ContextId}
    (queried : context.id ∈ wanted) :
    context.id ∈ contentChunksEffectiveIds deployment db wanted ↔
      Active deployment db workspace.id workspace.planName context.id := by
  have nonempty : wanted.isEmpty = false := by
    cases wanted with
    | nil => cases queried
    | cons => rfl
  have partition : workspace.id ∈
      ((db.contexts.filter (fun context => wanted.contains context.id)).map (·.workspaceId)).dedup := by
    rw [List.mem_dedup, List.mem_map]
    exact ⟨context, List.mem_filter.mpr ⟨present, by simpa using queried⟩, live.1⟩
  cases supported : deployment.chunkPointsSupported with
  | false => simp [contentChunksEffectiveIds, Active, supported]
  | true =>
    simp only [contentChunksEffectiveIds, nonempty, supported, gated, Bool.not_true, Bool.or_self,
      Bool.false_eq_true, if_false, List.mem_toFinset, List.mem_map, List.mem_filter,
      List.mem_flatMap, decide_eq_true_eq]
    constructor
    next =>
      rintro ⟨row, ⟨⟨⟨otherId, _, ranked⟩, _⟩, within⟩, same⟩
      -- The partition of the row is the workspace of its context, so it is this one.
      cases found : db.workspace? otherId with
      | none => simp [rankedRows, found] at ranked
      | some other =>
        obtain ⟨otherJoined, rfl⟩ := workspace?_eq_some.mp found
        obtain ⟨config, counted, rfl⟩ := (mem_rankedRows otherJoined).mp ranked
        obtain ⟨_, _, owner, owns, sameOwner, ownerLive⟩ := mem_enabledLive.mp counted
        have ofOwner : owner = context := by
          have first := context?_eq_some.mpr ⟨owns, sameOwner.trans same⟩
          exact Option.some.inj (first.symm.trans (context?_eq_some.mpr ⟨present, rfl⟩))
        subst ofOwner
        have sameWorkspace : other = workspace := by
          have again := workspace?_eq_some.mpr ⟨joined, ownerLive.1.symm.trans live.1 |>.symm⟩
          exact Option.some.inj (found.symm.trans again)
        subst sameWorkspace
        exact ⟨supported, config, counted, same, by dsimp only at within; omega⟩
    next =>
      rintro ⟨_, config, counted, same, below⟩
      refine ⟨_, ⟨⟨⟨workspace.id, partition, (mem_rankedRows joined).mpr ⟨config, counted, rfl⟩⟩, ?_⟩,
        ?_⟩, same⟩
      next => simpa [same] using queried
      next => dsimp only; omega

theorem withinLimit_of_gated (gated : deployment.gated = true) (joined : workspace ∈ db.workspaces)
    (includeUsage : Bool) :
    (db.contexts.filter (fun context => decide (Live context workspace) &&
      (contentChunksStatus deployment db context.id none includeUsage).effective)).length ≤
        deployment.contentChunkContextLimit workspace.planName := by
  generalize chosen : db.contexts.filter (fun context => decide (Live context workspace) &&
    (contentChunksStatus deployment db context.id none includeUsage).effective) = active
  have ids : (active.map (·.id)).Nodup := by
    rw [← chosen]
    exact db.contextIds.sublist (List.filter_sublist.map _)
  have inside : active.map (·.id) ⊆ ((db.enabledLive workspace.id).filter (fun config => decide
      (Ranking.earlier rankKey (db.enabledLive workspace.id) config <
        deployment.contentChunkContextLimit workspace.planName))).map (·.contextId) := by
    intro id listed
    obtain ⟨context, kept, rfl⟩ := List.mem_map.mp listed
    rw [← chosen, List.mem_filter, Bool.and_eq_true, decide_eq_true_eq] at kept
    obtain ⟨present, live, effective⟩ := kept
    obtain ⟨_, config, counted, same, below⟩ :=
      (status_effective_iff gated joined present live includeUsage).mp effective
    exact List.mem_map.mpr ⟨config, List.mem_filter.mpr ⟨counted, by simpa using below⟩, same⟩
  calc active.length = (active.map (·.id)).length := (List.length_map _).symm
    _ ≤ _ := (List.subperm_of_subset ids inside).length_le
    _ = _ := List.length_map _
    _ ≤ _ := Ranking.first_ranked_length (enabledLive_keys db workspace.id) _

end Active

section Losing

variable {deployment : Deployment} {db : Database} {workspace : Workspace} {context : Context}
variable {oldPlan newPlan : Option String}

theorem withPlan_joined (joined : workspace ∈ db.workspaces) (planName : Option String) :
    { workspace with planName } ∈ (db.withPlan workspace.id planName).workspaces := by
  refine List.mem_map.mpr ⟨workspace, joined, ?_⟩
  rw [if_pos rfl]

theorem withPlan_effective_iff (gated : deployment.gated = true) (joined : workspace ∈ db.workspaces)
    (present : context ∈ db.contexts) (live : Live context workspace) (planName : Option String)
    (includeUsage : Bool) :
    (contentChunksStatus deployment (db.withPlan workspace.id planName) context.id none
      includeUsage).effective = true ↔ Active deployment db workspace.id planName context.id :=
  status_effective_iff gated (withPlan_joined joined planName) present live includeUsage

theorem mem_losing_iff (gated : deployment.gated = true) {id : ContextId} :
    id ∈ contextsLosingContentChunks deployment db workspace.id oldPlan newPlan ↔
      ∃ config ∈ db.enabledLive workspace.id, config.contextId = id ∧
        deployment.contentChunkContextLimit newPlan ≤
          Ranking.earlier rankKey (db.enabledLive workspace.id) config ∧
        Ranking.earlier rankKey (db.enabledLive workspace.id) config <
          deployment.contentChunkContextLimit oldPlan := by
  simp only [contextsLosingContentChunks, gated, Bool.not_true, Bool.false_eq_true, if_false]
  split
  next grows =>
    constructor
    next => exact fun none => absurd none List.not_mem_nil
    next =>
      rintro ⟨config, _, _, above, below⟩
      omega
  next shrinks =>
    rw [List.mem_map]
    constructor
    next =>
      rintro ⟨config, sliced, same⟩
      obtain ⟨counted, above, below⟩ :=
        (Ranking.mem_slice_ranked (enabledLive_keys db workspace.id) config _ _).mp sliced
      exact ⟨config, counted, same, above, by omega⟩
    next =>
      rintro ⟨config, counted, same, above, below⟩
      exact ⟨config, (Ranking.mem_slice_ranked (enabledLive_keys db workspace.id) config _ _).mpr
        ⟨counted, above, by omega⟩, same⟩

theorem losing_nodup : (contextsLosingContentChunks deployment db workspace.id oldPlan newPlan).Nodup := by
  unfold contextsLosingContentChunks
  split
  next => exact List.nodup_nil
  next =>
    dsimp only
    split
    next => exact List.nodup_nil
    next =>
      have ids : ((Ranking.ranked rankKey (db.enabledLive workspace.id)).map (·.contextId)).Nodup :=
        ((Ranking.ranked_perm _).map _).nodup_iff.mpr (enabledLive_contextIds db workspace.id)
      exact ids.sublist (((List.take_sublist _ _).trans (List.drop_sublist _ _)).map _)

theorem active_of_supported (supported : deployment.chunkPointsSupported = true)
    {config : ContextSearchConfig} (counted : config ∈ db.enabledLive workspace.id)
    (planName : Option String) :
    Active deployment db workspace.id planName config.contextId ↔
      Ranking.earlier rankKey (db.enabledLive workspace.id) config <
        deployment.contentChunkContextLimit planName := by
  constructor
  next =>
    rintro ⟨_, other, otherCounted, same, below⟩
    have one : other = config :=
      List.inj_on_of_nodup_map (enabledLive_contextIds db workspace.id) otherCounted counted same
    rwa [one] at below
  next => exact fun below => ⟨supported, config, counted, rfl, below⟩

theorem losing_exact_iff (gated : deployment.gated = true) (joined : workspace ∈ db.workspaces) :
    (∀ id includeUsage,
      id ∈ contextsLosingContentChunks deployment db workspace.id oldPlan newPlan ↔
        ∃ context ∈ db.contexts, context.id = id ∧ Live context workspace ∧
          (contentChunksStatus deployment (db.withPlan workspace.id oldPlan) id none
            includeUsage).effective = true ∧
          (contentChunksStatus deployment (db.withPlan workspace.id newPlan) id none
            includeUsage).effective = false) ↔
      deployment.chunkPointsSupported = true ∨
        deployment.contentChunkContextLimit oldPlan ≤ deployment.contentChunkContextLimit newPlan ∨
        (db.enabledLive workspace.id).length ≤ deployment.contentChunkContextLimit newPlan := by
  have owed : ∀ id includeUsage, (∃ context ∈ db.contexts, context.id = id ∧ Live context workspace ∧
      (contentChunksStatus deployment (db.withPlan workspace.id oldPlan) id none
        includeUsage).effective = true ∧
      (contentChunksStatus deployment (db.withPlan workspace.id newPlan) id none
        includeUsage).effective = false) ↔
      Active deployment db workspace.id oldPlan id ∧
        ¬ Active deployment db workspace.id newPlan id := by
    intro id includeUsage
    constructor
    next =>
      rintro ⟨context, present, rfl, live, before, after⟩
      rw [withPlan_effective_iff gated joined present live] at before
      rw [← Bool.not_eq_true, withPlan_effective_iff gated joined present live] at after
      exact ⟨before, after⟩
    next =>
      rintro ⟨before, after⟩
      have activeBefore := before
      obtain ⟨_, config, counted, rfl, _⟩ := activeBefore
      obtain ⟨_, _, context, present, same, live⟩ := mem_enabledLive.mp counted
      rw [← same] at before after ⊢
      refine ⟨context, present, rfl, live, ?_, ?_⟩
      next => exact (withPlan_effective_iff gated joined present live oldPlan includeUsage).mpr before
      next =>
        rw [← Bool.not_eq_true, withPlan_effective_iff gated joined present live]
        exact after
  simp only [owed, mem_losing_iff gated]
  constructor
  next =>
    intro exactly
    by_contra none
    simp only [not_or, not_le] at none
    obtain ⟨unsupported, shrinks, beyond⟩ := none
    -- The context ranked at the new limit is reported, and no context is active.
    obtain ⟨config, counted, place⟩ :=
      Ranking.exists_earlier_eq (enabledLive_keys db workspace.id) beyond
    have reported := (exactly config.contextId true).mp ⟨config, counted, rfl, place.ge, by omega⟩
    exact unsupported reported.1.1
  next =>
    rintro (supported | grows | few) id _
    next =>
      constructor
      next =>
        rintro ⟨config, counted, rfl, above, below⟩
        rw [active_of_supported supported counted, active_of_supported supported counted]
        exact ⟨below, by omega⟩
      next =>
        rintro ⟨⟨_, config, counted, rfl, below⟩, after⟩
        rw [active_of_supported supported counted] at after
        exact ⟨config, counted, rfl, by omega, below⟩
    next =>
      constructor
      next =>
        rintro ⟨config, _, _, above, below⟩
        omega
      next =>
        rintro ⟨⟨supported, config, counted, same, below⟩, after⟩
        exact absurd ⟨supported, config, counted, same, by omega⟩ after
    next =>
      constructor
      next =>
        rintro ⟨config, counted, _, above, _⟩
        have within := Ranking.earlier_lt_length rankKey counted
        omega
      next =>
        rintro ⟨⟨supported, config, counted, same, below⟩, after⟩
        have within := Ranking.earlier_lt_length rankKey counted
        exact absurd ⟨supported, config, counted, same, by omega⟩ after

end Losing

-- The three policies agree exactly when the store keeps chunk points or the plan change takes no
-- place from a context with the flag on.
theorem chunk_policies_agree_iff (deployment : Deployment) (gated : deployment.gated = true)
    (db : Database) (workspace : Workspace) (joined : workspace ∈ db.workspaces)
    (oldPlan newPlan : Option String) :
    PoliciesAgree deployment db workspace oldPlan newPlan ↔
      deployment.chunkPointsSupported = true ∨
        deployment.contentChunkContextLimit oldPlan ≤ deployment.contentChunkContextLimit newPlan ∨
        (db.enabledLive workspace.id).length ≤ deployment.contentChunkContextLimit newPlan := by
  constructor
  next => exact fun agree => (losing_exact_iff gated joined).mp agree.losing
  next =>
    intro condition
    constructor
    next =>
      intro context present live includeUsage wanted queried
      rw [status_effective_iff gated joined present live,
        mem_effectiveIds_iff gated joined present live queried]
    next => exact withinLimit_of_gated gated joined
    next => exact (losing_exact_iff gated joined).mpr condition
    next => exact losing_nodup

def planTiers (planName : String) : Option PlanTier :=
  if planName = "free" then some { features := [], maxContentChunkContexts := 0 }
  else if planName = "basic" then
    some { features := ["content_chunks"], maxContentChunkContexts := 1 }
  else if planName = "pro" then
    some { features := ["content_chunks"], maxContentChunkContexts := 5 }
  else if planName = "promax" then
    some { features := ["content_chunks"], maxContentChunkContexts := 20 }
  else none

-- Two contexts turned on at the same time, one without a stamp, and a deleted one.
def sampleDatabase : Database :=
  { workspaces := [{ id := 1, planName := some "pro" }]
    contexts :=
      [{ id := 4, workspaceId := 1, deletedAt := none },
        { id := 5, workspaceId := 1, deletedAt := none },
        { id := 6, workspaceId := 1, deletedAt := none },
        { id := 7, workspaceId := 1, deletedAt := some 90 }]
    configs :=
      [{ contextId := 4, contentChunksEnabled := true, contentChunksEnabledAt := none },
        { contextId := 5, contentChunksEnabled := true, contentChunksEnabledAt := some 80 },
        { contextId := 6, contentChunksEnabled := true, contentChunksEnabledAt := some 80 },
        { contextId := 7, contentChunksEnabled := true, contentChunksEnabledAt := some 70 }]
    workspaceIds := by decide
    contextIds := by decide
    configIds := by decide }

theorem chunk_policies_agree_iff_downgrade :
    PoliciesAgree { planTiers, gated := true, chunkPointsSupported := true } sampleDatabase
      { id := 1, planName := some "pro" } (some "pro") (some "basic") :=
  (chunk_policies_agree_iff { planTiers, gated := true, chunkPointsSupported := true } rfl
    sampleDatabase { id := 1, planName := some "pro" } (by simp [sampleDatabase]) (some "pro")
    (some "basic")).mpr (.inl rfl)

-- On a store without chunk points the move to the basic plan reports two contexts.
theorem chunk_report_ignores_store :
    ¬ PoliciesAgree { planTiers, gated := true, chunkPointsSupported := false } sampleDatabase
      { id := 1, planName := some "pro" } (some "pro") (some "basic") := by
  intro agree
  have reported : 6 ∈ contextsLosingContentChunks
      { planTiers, gated := true, chunkPointsSupported := false } sampleDatabase 1 (some "pro")
        (some "basic") := by
    decide +kernel
  obtain ⟨_, _, _, _, before, _⟩ := (agree.losing 6 true).mp reported
  revert before
  decide +kernel

end MemoryCloud.Chunks
