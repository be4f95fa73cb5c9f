import Mathlib.Data.List.Pairwise
import MemoryCloud.Dedup.Execute
import MemoryCloud.Dedup.Judge

set_option autoImplicit false

namespace MemoryCloud.Dedup

section Planning

variable (config : Config) (fetched : List Memory)

theorem backfill_sameRows (state : State) (a b : MemoryId) :
    SameRows state (backfill config state a b) := by
  unfold backfill
  split
  next => exact .refl _
  next =>
    split
    next => exact .refl _
    next => exact ⟨rfl, rfl, rfl, rfl⟩

theorem pairKey_self {a b id : MemoryId} (same : pairKey a b = (id, id)) : a = id ∧ b = id := by
  unfold pairKey at same
  split at same
  next =>
    simp only [Prod.mk.injEq] at same
    exact same
  next =>
    simp only [Prod.mk.injEq] at same
    exact same.symm

-- A backfilled score of a memory with itself is its direct one.
theorem backfill_self (state : State) (a b id : MemoryId) :
    similarity config (backfill config state a b) id id = similarity config state id id := by
  have own : pairKey id id = (id, id) := by simp [pairKey]
  unfold backfill
  split
  next => rfl
  next missing =>
    split
    next => rfl
    next score found =>
      by_cases same : (id, id) = pairKey a b
      next =>
        obtain ⟨rfl, rfl⟩ := pairKey_self same.symm
        simp [similarity, missing, found]
      next => simp [similarity, own, same]

theorem backfillClusterScores_keeps (state : State) (members : List Memory) :
    SameRows state (backfillClusterScores config state members) ∧
      ∀ id, similarity config (backfillClusterScores config state members) id id =
        similarity config state id id := by
  induction members generalizing state with
  | nil => exact ⟨.refl _, fun _ => rfl⟩
  | cons memory rest ih =>
    let fill := fun (state : State) (other : Memory) =>
      if pairKey memory.id other.id ∈ config.settled then state
      else backfill config state memory.id other.id
    have one (others : List Memory) (state : State) : SameRows state (others.foldl fill state) ∧
        ∀ id, similarity config (others.foldl fill state) id id = similarity config state id id := by
      induction others generalizing state with
      | nil => exact ⟨.refl _, fun _ => rfl⟩
      | cons other later ih =>
        have next := ih (fill state other)
        by_cases settled : pairKey memory.id other.id ∈ config.settled
        next =>
          have same : fill state other = state := if_pos settled
          rw [List.foldl_cons]
          rwa [same] at next ⊢
        next =>
          have filled : fill state other = backfill config state memory.id other.id :=
            if_neg settled
          rw [List.foldl_cons]
          rw [filled] at next ⊢
          exact ⟨(backfill_sameRows config state _ _).trans next.1,
            fun id => (next.2 id).trans (backfill_self config state _ _ id)⟩
    have first := one rest state
    have later := ih (rest.foldl fill state)
    exact ⟨first.1.trans later.1, fun id => (later.2 id).trans (first.2 id)⟩

theorem mergeGate_self {before after : State} (same : SameRows before after)
    (scores : ∀ id, similarity config after id id = similarity config before id id)
    (id : MemoryId) :
    mergeGate config after fetched id id = mergeGate config before fetched id id := by
  simp only [mergeGate, scores, same.tags]

structure Planned (start : State) (decisions : List Decision) (planned : State × List Job) :
    Prop where
  same : SameRows start planned.1
  scores : ∀ id, similarity config planned.1 id id = similarity config start id id
  jobs : ∀ job ∈ planned.2, (job.winnerId, job.loserId) ∈ decisions ∧
    (∀ memory, job.winner = some memory → memory.id = job.winnerId) ∧
    (∀ memory, job.loser = some memory → memory.id = job.loserId) ∧
    (job.winnerId = job.loserId → mergeGate config start fetched job.winnerId job.winnerId = .passed)

theorem findMemory_id {memories : List Memory} {id : MemoryId} {memory : Memory}
    (found : findMemory memories id = some memory) : memory.id = id := by
  simpa using List.find?_some found

variable {config fetched}

theorem planMerge_planned {start : State} {decisions : List Decision} {planned : State × List Job}
    (soFar : Planned config fetched start decisions planned) (decision : Decision) :
    Planned config fetched start (decisions ++ [decision])
      (planMerge config fetched planned decision) := by
  obtain ⟨state, jobs⟩ := planned
  obtain ⟨winner, loser⟩ := decision
  have older : ∀ job ∈ jobs, (job.winnerId, job.loserId) ∈ decisions ++ [(winner, loser)] ∧
      (∀ memory, job.winner = some memory → memory.id = job.winnerId) ∧
      (∀ memory, job.loser = some memory → memory.id = job.loserId) ∧
      (job.winnerId = job.loserId →
        mergeGate config start fetched job.winnerId job.winnerId = .passed) :=
    fun job listed => ⟨List.mem_append_left _ (soFar.jobs job listed).1, (soFar.jobs job listed).2⟩
  have filled : SameRows start (backfill config state winner loser) :=
    soFar.same.trans (backfill_sameRows config state winner loser)
  have filledScores : ∀ id, similarity config (backfill config state winner loser) id id =
      similarity config start id id :=
    fun id => (backfill_self config state winner loser id).trans (soFar.scores id)
  cases gate : mergeGate config state fetched winner loser with
  | settled =>
    simp only [planMerge, gate, if_true]
    exact ⟨⟨soFar.same.1, soFar.same.2, soFar.same.3, soFar.same.4⟩, soFar.scores, older⟩
  | unverifiable =>
    simp only [planMerge, gate, reduceCtorEq, if_false]
    exact ⟨⟨filled.1, filled.2, filled.3, filled.4⟩, filledScores, older⟩
  | guarded =>
    simp only [planMerge, gate, reduceCtorEq, if_false]
    exact ⟨⟨filled.1, filled.2, filled.3, filled.4⟩, filledScores, older⟩
  | exempt =>
    simp only [planMerge, gate, reduceCtorEq, if_false]
    exact ⟨⟨filled.1, filled.2, filled.3, filled.4⟩, filledScores, older⟩
  | passed =>
    simp only [planMerge, gate, reduceCtorEq, if_false]
    refine ⟨⟨filled.1, filled.2, filled.3, filled.4⟩, filledScores, ?_⟩
    intro job listed
    cases List.mem_append.mp listed with
    | inl old => exact older job old
    | inr new =>
      rw [List.mem_singleton.mp new]
      refine ⟨by simp, fun _ => findMemory_id, fun _ => findMemory_id, ?_⟩
      intro same
      simp only at same ⊢
      rw [← same, mergeGate_self config fetched soFar.same soFar.scores] at gate
      exact gate

theorem planClusterMerges_planned (start : State) (decisions : List Decision) :
    Planned config fetched start decisions (planClusterMerges config fetched start decisions) := by
  have grows (earlier later : List Decision) (planned : State × List Job)
      (soFar : Planned config fetched start earlier planned) :
      Planned config fetched start (earlier ++ later)
        (later.foldl (planMerge config fetched) planned) := by
    induction later generalizing earlier planned with
    | nil => rwa [List.append_nil]
    | cons decision rest ih =>
      have next := ih (earlier ++ [decision]) _ (planMerge_planned soFar decision)
      rwa [List.append_assoc] at next
  exact grows [] decisions (start, []) ⟨.refl _, fun _ => rfl, by simp⟩

end Planning

section Phase

variable (config : Config) (fetched : List Memory)

-- No judgment of the turn's answer names one member as both of its pair and as its winner, unless
-- the gates keep that pair from being merged.
def Turn.Clean (state : State) (turn : Turn) : Prop :=
  ∀ response judgments, turn.judge = .llm response → judgmentsOf response = .ok judgments →
    ∀ judgment ∈ judgments, ∀ id, NamesItself turn.cluster.labels judgment id →
      mergeGate config state fetched id id ≠ .passed

def CleanRun : State → List Turn → Prop
  | _, [] => True
  | state, turn :: rest =>
      turn.Clean config fetched state ∧ CleanRun (runTurn config fetched state turn) rest

variable {config fetched}

theorem judgeCluster_self {state : State} {turn : Turn} (clean : turn.Clean config fetched state)
    {scores : Scores} {decision : Decision}
    (listed : decision ∈ judgeCluster turn.cluster scores turn.judge)
    (self : decision.1 = decision.2) :
    mergeGate config state fetched decision.1 decision.1 ≠ .passed := by
  cases judged : turn.judge with
  | llm response =>
    rw [judged] at listed
    obtain ⟨judgments, found, judgment, among, made, read, same⟩ := judgeCluster_llm listed
    have madeSelf : made.1 = made.2 ∧ decision.1 = made.1 := by
      cases same with
      | inl kept => rw [kept] at self ⊢; exact ⟨self, rfl⟩
      | inr flipped => rw [flipped] at self ⊢; exact ⟨self.symm, self⟩
    rw [madeSelf.2]
    exact clean response judgments judged found judgment among _ (readJudgment_self read madeSelf.1)
  | failed => rw [judged] at listed; cases listed
  | rules =>
    rw [judged] at listed
    exact absurd self (ruleBasedJudge_members turn.cluster.distinct scores decision listed).1

variable (config fetched) in
theorem runTurn_jobs (state : State) (turn : Turn) :
    ∃ planned jobs, SameRows state planned ∧
      runTurn config fetched state turn =
        executeMergeJobs config turn.disturbances planned jobs ∧
      (∀ job ∈ jobs, job.winnerId ∈ turn.cluster.members.map (·.id) ∧
        job.loserId ∈ turn.cluster.members.map (·.id)) ∧
      (turn.Clean config fetched state → ∀ job ∈ jobs, job.Sound) := by
  let filled := backfillClusterScores config state turn.cluster.members
  let decisions := judgeCluster turn.cluster filled.scores turn.judge
  have backfilled := backfillClusterScores_keeps config state turn.cluster.members
  have planned : Planned config fetched filled decisions
      (planClusterMerges config fetched filled decisions) := planClusterMerges_planned filled decisions
  refine ⟨(planClusterMerges config fetched filled decisions).1,
    (planClusterMerges config fetched filled decisions).2, backfilled.1.trans planned.same, rfl,
    fun job listed => judgeCluster_members (planned.jobs job listed).1, ?_⟩
  intro clean job listed
  obtain ⟨made, winner, loser, gate⟩ := planned.jobs job listed
  refine ⟨winner, loser, ?_⟩
  intro self
  have passed := gate self
  rw [mergeGate_self config fetched backfilled.1 backfilled.2] at passed
  exact judgeCluster_self clean made self passed

theorem runTurn_safe {state : State} (safe : Safe state) {turn : Turn}
    (clean : turn.Clean config fetched state) : Safe (runTurn config fetched state turn) := by
  obtain ⟨planned, jobs, same, answer, _, sound⟩ := runTurn_jobs config fetched state turn
  rw [answer]
  exact executeMergeJobs_safe config turn.disturbances (safe.sameRows same) (sound clean)

theorem runPhase_safe {state : State} (safe : Safe state) {turns : List Turn}
    (clean : CleanRun config fetched state turns) : Safe (runPhase config fetched state turns) := by
  induction turns generalizing state with
  | nil => exact safe
  | cons turn rest ih => exact ih (runTurn_safe safe clean.1) clean.2

def Cluster.ids (cluster : Cluster) : List MemoryId := cluster.members.map (·.id)

theorem runPhase_merges {state : State} {turns : List Turn}
    (clean : CleanRun config fetched state turns) :
    ∀ merge ∈ (runPhase config fetched state turns).merges, merge ∈ state.merges ∨
      ∃ turn ∈ turns, merge.1 ∈ turn.cluster.ids ∧ merge.2 ∈ turn.cluster.ids := by
  induction turns generalizing state with
  | nil => exact fun _ listed => .inl listed
  | cons turn rest ih =>
    intro merge listed
    cases ih clean.2 merge listed with
    | inr later =>
      obtain ⟨other, present, members⟩ := later
      exact .inr ⟨other, by simp [present], members⟩
    | inl here =>
      obtain ⟨planned, jobs, same, answer, members, sound⟩ :=
        runTurn_jobs config fetched state turn
      rw [answer] at here
      cases executeMergeJobs_merges config turn.disturbances planned (sound clean.1) merge here with
      | inl old => exact .inl (same.merges ▸ old)
      | inr made =>
        obtain ⟨job, present, rfl⟩ := made
        exact .inr ⟨turn, by simp, members job present⟩

theorem Chain.stays {merges : List Decision} {ids : List MemoryId}
    (closed : ∀ merge ∈ merges, merge.2 ∈ ids → merge.1 ∈ ids) {loser final : MemoryId}
    (chain : Chain merges loser final) (inside : loser ∈ ids) : final ∈ ids := by
  induction chain with
  | last listed => exact closed _ listed inside
  | step listed _ ih => exact ih (closed _ listed inside)

theorem merge_phase_keeps (start : State) (fresh : start.merges = []) (turns : List Turn)
    (clean : CleanRun config fetched start turns) :
    let final := runPhase config fetched start turns
    (∀ merge ∈ final.merges, merge.1 ≠ merge.2) ∧
    (∀ loser, SoftDeleted final loser → ∃ winner, Survives final loser winner) ∧
    ((turns.map fun turn => turn.cluster.ids).Pairwise List.Disjoint →
      ∀ turn ∈ turns, (∃ member ∈ turn.cluster.ids, SoftDeleted final member) →
        ∃ member ∈ turn.cluster.ids, Live final member) := by
  intro final
  have initial : Safe start := by
    refine ⟨?_, ?_, ?_, ?_⟩
    all_goals simp [fresh]
  have safe : Safe final := runPhase_safe initial clean
  have survives : ∀ loser, SoftDeleted final loser → ∃ winner, Survives final loser winner := by
    intro loser ⟨winner, merged⟩
    obtain ⟨last, _, survives⟩ := safe.kept _ merged
    exact ⟨last, survives⟩
  refine ⟨safe.distinct, survives, ?_⟩
  intro disjoint turn listed ⟨loser, inside, deleted⟩
  obtain ⟨winner, survivor⟩ := survives loser deleted
  refine ⟨winner, survivor.chain.stays ?_ inside, survivor.live⟩
  intro merge merged member
  cases runPhase_merges clean merge merged with
  | inl old => rw [fresh] at old; cases old
  | inr made =>
    obtain ⟨other, present, winnerInside, loserInside⟩ := made
    -- the clusters of the run share no member, so the merge was one of this cluster
    by_cases same : other.cluster.ids = turn.cluster.ids
    next => rwa [same] at winnerInside
    next =>
      have apart : List.Disjoint other.cluster.ids turn.cluster.ids := by
        have symmetric : Std.Symm (List.Disjoint (α := MemoryId)) :=
          ⟨fun _ _ apart _ right left => apart left right⟩
        exact disjoint.forall (List.mem_map_of_mem present) (List.mem_map_of_mem listed) same
      exact absurd member (apart loserInside)

end Phase

section SelfPair

def selfMemory (id : MemoryId) : Memory :=
  { id := id, sourceType := none, importance := 1, createdAt := some 0, updatedAt := none }

def selfCluster : Cluster := { members := [selfMemory 1, selfMemory 2], distinct := by decide }

def mergeAnswer (first second winner : String) : Json :=
  .obj [("judgments", .arr [.obj [("pair", .arr [.str first, .str second]),
    ("winner", .str winner), ("verdict", .str "merge")]])]

-- Similar memories; the cosine of a vector with itself is one.
def selfConfig : Config :=
  { threshold := 9 / 10, shadowMode := false, exemptTags := [], settled := []
    direct := fun _ _ => some 1 }

def selfStart : State :=
  { flags := fun _ => some ⟨false, false, false, false⟩, tags := fun _ => [], scores := fun _ => none }

def selfTurn (answer : Json) : Turn :=
  { cluster := selfCluster, judge := .llm answer
    disturbances := fun _ _ => some ⟨false, false, false, false⟩ }

theorem pairAnswer_clean :
    CleanRun selfConfig selfCluster.members selfStart [selfTurn (mergeAnswer "A" "B" "A")] := by
  refine ⟨?_, trivial⟩
  intro response judgments judged found judgment listed id names
  obtain rfl : mergeAnswer "A" "B" "A" = response := Judge.llm.inj judged
  obtain rfl := Except.ok.inj found
  obtain ⟨label, pair, _, _, _, pairFound, items⟩ := names
  rw [List.mem_singleton.mp listed] at pairFound
  obtain rfl := Option.some.inj (Except.ok.inj pairFound)
  have both := Except.ok.inj items
  simp only [Prod.mk.injEq, Json.str.injEq] at both
  have different : "A" ≠ "B" := by decide
  exact absurd (both.1.trans both.2.symm) different

theorem merge_phase_keeps_pair :
    SoftDeleted (runPhase selfConfig selfCluster.members selfStart [selfTurn (mergeAnswer "A" "B" "A")])
        2 ∧
      ∃ winner, Survives (runPhase selfConfig selfCluster.members selfStart
        [selfTurn (mergeAnswer "A" "B" "A")]) 2 winner := by
  have deleted : SoftDeleted (runPhase selfConfig selfCluster.members selfStart
      [selfTurn (mergeAnswer "A" "B" "A")]) 2 := ⟨1, by decide +kernel⟩
  exact ⟨deleted, (merge_phase_keeps selfStart rfl _ pairAnswer_clean).2.1 2 deleted⟩

theorem merge_phase_loses_self :
    ¬∀ (config : Config) (fetched : List Memory) (start : State) (turns : List Turn),
      start.merges = [] → ∀ loser, SoftDeleted (runPhase config fetched start turns) loser →
        ∃ winner, Survives (runPhase config fetched start turns) loser winner := by
  intro kept
  have merges : (runPhase selfConfig selfCluster.members selfStart
      [selfTurn (mergeAnswer "A" "A" "A")]).merges = [(1, 1)] := by decide +kernel
  obtain ⟨winner, survives⟩ := kept selfConfig selfCluster.members selfStart
    [selfTurn (mergeAnswer "A" "A" "A")] rfl 1 ⟨1, by rw [merges]; exact List.mem_singleton_self _⟩
  have inside : winner ∈ [1] := by
    refine survives.chain.stays ?_ (List.mem_singleton_self _)
    rw [merges]
    simp
  exact survives.different (List.mem_singleton.mp inside)

end SelfPair

end MemoryCloud.Dedup
