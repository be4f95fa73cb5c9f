import Mathlib.Data.List.Basic
import Mathlib.Data.Rat.Defs
import Mathlib.Algebra.Order.Ring.Rat

set_option autoImplicit false

/-!
# The dedup phase of Sleep

`services/sleep/dedup_merge.py`, from the judge's answer to the executed merges.
Other sessions may pin, forget, restore or remove any row that the phase has not
locked. The audit rows and the edges of a merge are left out.
-/

namespace MemoryCloud.Dedup

abbrev MemoryId := Nat
-- Microseconds.
abbrev Time := Nat

structure Memory where
  id : MemoryId
  sourceType : Option String
  importance : ℚ
  createdAt : Option Time
  updatedAt : Option Time

-- A value as `json.loads` returns it; the keys of an object are distinct.
inductive Json where
  | null
  | bool (value : Bool)
  | int (value : Int)
  | float (value : ℚ)
  | str (value : String)
  | arr (items : List Json)
  | obj (entries : List (String × Json))

-- Any exception of the parser: the caller counts a failed answer and merges nothing.
abbrev Parsed := Except Unit

def Json.lookup : Json → String → Parsed (Option Json)
  | .obj entries, key => .ok (entries.lookup key)
  | _, _ => .error ()

def Json.items : Json → Parsed (List Json)
  | .arr items => .ok items
  | .str text => .ok (text.toList.map fun character => .str (String.singleton character))
  | .obj entries => .ok (entries.map fun entry => .str entry.1)
  | _ => .error ()

def Json.length (value : Json) : Parsed Nat := value.items.map List.length

-- `pair[0]`, `pair[1]` of a value of length two; an object has no integer keys.
def Json.pairItems : Json → Parsed (Json × Json)
  | .obj _ => .error ()
  | value => do
      match ← value.items with
      | [first, second] => .ok (first, second)
      | _ => .error ()

abbrev Labels := List (String × MemoryId)

-- `label in label_to_id`: hashing a list or an object raises.
def known (labels : Labels) : Json → Parsed (Option MemoryId)
  | .str label => .ok (labels.lookup label)
  | .arr _ => .error ()
  | .obj _ => .error ()
  | _ => .ok none

def isText (value : Option Json) (text : String) : Bool :=
  match value with
  | some (.str other) => decide (other = text)
  | _ => false

-- `float(confidence)` of an integer that rounds to 2^1024 or more raises.
def confidenceRaises : Option Json → Bool
  | some (.int value) => decide (2 ^ 1024 - 2 ^ 970 ≤ value.natAbs)
  | _ => false

abbrev Decision := MemoryId × MemoryId

def pairKey (a b : MemoryId) : MemoryId × MemoryId := if a ≤ b then (a, b) else (b, a)

-- The decision of one judgment, winner first; `none` when the judgment is skipped. A winner outside
-- the pair takes the second of the pair as its loser.
def readJudgment (labels : Labels) (judgment : Json) : Parsed (Option Decision) := do
  let verdict ← judgment.lookup "verdict"
  if !isText verdict "merge" then return none
  let winnerLabel := (← judgment.lookup "winner").getD .null
  let pair := (← judgment.lookup "pair").getD (.arr [])
  if (← pair.length) ≠ 2 then return none
  let (first, second) ← pair.pairItems
  match ← known labels first with
  | none => return none
  | some firstId =>
      match ← known labels second with
      | none => return none
      | some secondId =>
          match ← known labels winnerLabel with
          | none => return none
          | some winnerId =>
              match second, winnerLabel with
              | .str secondLabel, .str label =>
                  return some (winnerId, if secondLabel = label then firstId else secondId)
              | _, _ => return none

def collectJudgments (labels : Labels) :
    List Json → List (MemoryId × MemoryId) → List Decision → Parsed (List Decision)
  | [], _, decisions => .ok decisions
  | judgment :: rest, seen, decisions => do
      match ← readJudgment labels judgment with
      | none => collectJudgments labels rest seen decisions
      | some decision =>
          let canonical := pairKey decision.1 decision.2
          if canonical ∈ seen then collectJudgments labels rest seen decisions
          else if confidenceRaises (← judgment.lookup "confidence") then .error ()
          else collectJudgments labels rest (canonical :: seen) (decisions ++ [decision])

def judgmentsOf (response : Json) : Parsed (List Json) := do
  match ← response.lookup "judgments" with
  | none => .ok []
  | some judgments => judgments.items

def parseDedupResponse (response : Json) (labels : Labels) : Parsed (List Decision) := do
  collectJudgments labels (← judgmentsOf response) [] []

def recencyKey (memory : Memory) : Option Time :=
  match memory.createdAt, memory.updatedAt with
  | some created, some updated => some (max created updated)
  | some created, none => some created
  | none, updated => updated

def isNewer (candidate other : Memory) : Bool :=
  match recencyKey candidate, recencyKey other with
  | some mine, some theirs => decide (theirs < mine)
  | _, _ => false

def isUserAuthored (memory : Memory) : Bool := decide (memory.sourceType = some "manual")

def recencyMinute (memory : Memory) : Option Nat := (recencyKey memory).map (· / 60000000)

def findMemory (memories : List Memory) (id : MemoryId) : Option Memory :=
  memories.find? fun memory => decide (memory.id = id)

def newerByMinute (candidate other : Memory) : Bool :=
  match recencyMinute candidate, recencyMinute other with
  | some mine, some theirs => decide (theirs < mine)
  | _, _ => false

def enforceWinner (cluster : List Memory) (decision : Decision) : Decision :=
  match findMemory cluster decision.1, findMemory cluster decision.2 with
  | some winner, some loser =>
      if newerByMinute loser winner then (decision.2, decision.1)
      else if recencyMinute winner = recencyMinute loser && isUserAuthored loser &&
          !isUserAuthored winner then
        (decision.2, decision.1)
      else decision
  | _, _ => decision

def enforceWinnerRules (decisions : List Decision) (cluster : List Memory) : List Decision :=
  decisions.map (enforceWinner cluster)

abbrev Scores := MemoryId × MemoryId → Option ℚ

def autoMergeThreshold : ℚ := 98 / 100

def ruleDecision (scores : Scores) (a b : Memory) : Option Decision :=
  if (scores (pairKey a.id b.id)).getD 0 ≥ autoMergeThreshold then
    if a.importance > b.importance then some (a.id, b.id)
    else if b.importance > a.importance then some (b.id, a.id)
    else if isNewer b a then some (b.id, a.id)
    else some (a.id, b.id)
  else none

def ruleBasedJudge : List Memory → Scores → List Decision
  | [], _ => []
  | memory :: rest, scores => rest.filterMap (ruleDecision scores memory) ++ ruleBasedJudge rest scores

structure Flags where
  deleted : Bool
  pinned : Bool
  toolTriggered : Bool
  timeMemory : Bool
  deriving DecidableEq, Repr

structure MergeTally where
  merged : Nat := 0
  guarded : Nat := 0
  rescued : Nat := 0
  unverifiable : Nat := 0
  settledSkipped : Nat := 0
  skippedPinned : Nat := 0
  skippedExempt : Nat := 0

structure Config where
  threshold : ℚ
  shadowMode : Bool
  exemptTags : List String
  settled : List (MemoryId × MemoryId)
  -- Cosines of the summary vectors of this run; `none` without a vector.
  direct : MemoryId → MemoryId → Option ℚ

-- `flags id = none`: the row is gone. `merges` are the ones that deleted their loser.
structure State where
  flags : MemoryId → Option Flags
  tags : MemoryId → List String
  locked : List MemoryId := []
  scores : Scores
  backfilled : List (MemoryId × MemoryId) := []
  tally : MergeTally := {}
  merges : List Decision := []

def backfill (config : Config) (state : State) (a b : MemoryId) : State :=
  match state.scores (pairKey a b) with
  | some _ => state
  | none =>
      match config.direct a b with
      | none => state
      | some similarity =>
          { state with
            scores := fun key => if key = pairKey a b then some similarity else state.scores key
            backfilled := pairKey a b :: state.backfilled }

def backfillClusterScores (config : Config) : State → List Memory → State
  | state, [] => state
  | state, memory :: rest =>
      let filled := rest.foldl
        (fun state other =>
          if pairKey memory.id other.id ∈ config.settled then state
          else backfill config state memory.id other.id) state
      backfillClusterScores config filled rest

inductive Gate where
  | settled
  | unverifiable
  | guarded
  | exempt
  | passed
  deriving DecidableEq, Repr

def similarity (config : Config) (state : State) (a b : MemoryId) : Option ℚ :=
  (state.scores (pairKey a b)).or (config.direct a b)

def mergeGate (config : Config) (state : State) (fetched : List Memory) (winner loser : MemoryId) :
    Gate :=
  if pairKey winner loser ∈ config.settled then .settled
  else
    match similarity config state winner loser with
    | none => .unverifiable
    | some score =>
        if score < config.threshold then .guarded
        else if (findMemory fetched loser).isSome &&
            (state.tags loser).any fun tag => decide (tag ∈ config.exemptTags) then
          .exempt
        else .passed

structure Job where
  winnerId : MemoryId
  loserId : MemoryId
  winner : Option Memory
  loser : Option Memory

def planMerge (config : Config) (fetched : List Memory) (planned : State × List Job)
    (decision : Decision) : State × List Job :=
  let (state, jobs) := planned
  let (winner, loser) := decision
  let gate := mergeGate config state fetched winner loser
  let state := if gate = .settled then state else backfill config state winner loser
  match gate with
  | .settled =>
      ({ state with tally := { state.tally with settledSkipped := state.tally.settledSkipped + 1 } },
        jobs)
  | .unverifiable =>
      ({ state with tally := { state.tally with unverifiable := state.tally.unverifiable + 1 } },
        jobs)
  | .guarded =>
      ({ state with tally := { state.tally with guarded := state.tally.guarded + 1 } }, jobs)
  | .exempt =>
      ({ state with tally := { state.tally with skippedExempt := state.tally.skippedExempt + 1 } },
        jobs)
  | .passed =>
      let rescued := if pairKey winner loser ∈ state.backfilled then 1 else 0
      ({ state with tally := { state.tally with rescued := state.tally.rescued + rescued } },
        jobs ++ [⟨winner, loser, findMemory fetched winner, findMemory fetched loser⟩])

def planClusterMerges (config : Config) (fetched : List Memory) (state : State)
    (decisions : List Decision) : State × List Job :=
  decisions.foldl (planMerge config fetched) (state, [])

-- What another session made of the rows; a locked row waits for the phase to end.
abbrev Disturbance := MemoryId → Option Flags

def disturb (state : State) (change : Disturbance) : State :=
  { state with flags := fun id => if id ∈ state.locked then state.flags id else change id }

def refused : Option Flags → Bool
  | none => true
  | some flags => flags.deleted || flags.pinned || flags.toolTriggered || flags.timeMemory

-- `SELECT ... FOR UPDATE` locks the rows that are still there.
def lockRows (state : State) (ids : List MemoryId) : State :=
  { state with locked := ids.filter (fun id => (state.flags id).isSome) ++ state.locked }

def pinnedOrGoneSinceFetch (state : State) (winner loser : MemoryId) : Bool :=
  refused (state.flags winner) || refused (state.flags loser)

def mergeTags (winner loser : List String) : List String :=
  winner ++ loser.filter fun tag => decide (tag ∉ winner)

-- Soft-deletes the loser and folds its tags into the winner, in this order of writes.
def executeMerge (state : State) (winner loser : MemoryId) : State :=
  { state with
    tags := fun id =>
      if id = winner then mergeTags (state.tags winner) (state.tags loser) else state.tags id
    flags := fun id =>
      if id = loser then (state.flags id).map fun flags => { flags with deleted := true }
      else state.flags id
    merges := state.merges ++ [(winner, loser)] }

-- A shadow merge writes a `supersedes` edge and leaves both rows as they are.
def executeJob (config : Config) (state : State) (job : Job) : State :=
  match job.winner, job.loser with
  | some winner, some loser =>
      let locked := lockRows state [winner.id, loser.id]
      if pinnedOrGoneSinceFetch locked winner.id loser.id then
        { locked with
          tally := { locked.tally with skippedPinned := locked.tally.skippedPinned + 1 } }
      else
        let merged := if config.shadowMode then locked else executeMerge locked winner.id loser.id
        { merged with tally := { merged.tally with merged := merged.tally.merged + 1 } }
  | _, _ =>
      { state with tally := { state.tally with skippedPinned := state.tally.skippedPinned + 1 } }

def executeMergeJobs (config : Config) (disturbances : Nat → Disturbance) :
    State → List Job → State
  | state, [] => state
  | state, job :: rest =>
      executeMergeJobs config (fun turn => disturbances (turn + 1))
        (executeJob config (disturb state (disturbances 0)) job) rest

structure Cluster where
  members : List Memory
  distinct : (members.map (·.id)).Nodup

inductive Judge where
  -- Any answer of the model, also one that is no object.
  | llm (response : Json)
  | failed
  | rules

def asciiUppercase : List String := "ABCDEFGHIJKLMNOPQRSTUVWXYZ".toList.map String.singleton

def Cluster.labels (cluster : Cluster) : Labels :=
  asciiUppercase.zip (cluster.members.map (·.id))

def judgeCluster (cluster : Cluster) (scores : Scores) : Judge → List Decision
  | .llm response =>
      match parseDedupResponse response cluster.labels with
      | .ok decisions => enforceWinnerRules decisions cluster.members
      | .error _ => []
  | .failed => []
  | .rules => ruleBasedJudge cluster.members scores

structure Turn where
  cluster : Cluster
  judge : Judge
  disturbances : Nat → Disturbance

def runTurn (config : Config) (fetched : List Memory) (state : State) (turn : Turn) : State :=
  let filled := backfillClusterScores config state turn.cluster.members
  let decisions := judgeCluster turn.cluster filled.scores turn.judge
  let (planned, jobs) := planClusterMerges config fetched filled decisions
  executeMergeJobs config turn.disturbances planned jobs

def runPhase (config : Config) (fetched : List Memory) (state : State) (turns : List Turn) : State :=
  turns.foldl (runTurn config fetched) state

end MemoryCloud.Dedup
