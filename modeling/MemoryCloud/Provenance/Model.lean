import Mathlib.Data.List.Dedup
import MemoryCloud.Shared.Doc
import MemoryCloud.Versions.Model

set_option autoImplicit false

/-!
# Who wrote which key

`services/details_provenance.py` and the writes of `services/erasure_details.py` that
carry out its plan. `digest` is the sha256 of a key; the values of `details` are
compared by the equality of `J`. The trigger window of a time memory is left out.
-/

namespace MemoryCloud.Provenance

open Versions

variable {K J G : Type} [LinearOrder K]

-- `details` is an object or NULL.
abbrev Details (K J : Type) [LinearOrder K] := Option (Doc K J)

structure DetailsEdit (K J G : Type) [LinearOrder K] where
  memoryId : MemoryId
  version : Nat
  id : Nat
  actorUserId : UserId
  writer : RevisionWriter
  details : Details K J
  erased : Bool := false
  erasedKeys : List G := []
  restoredFrom : Option Nat := none
  detailsChanged : Bool := true
  restoredFromByKey : Option (List (G × Nat)) := none
  deriving DecidableEq

-- A state of the log; `none` is UNKNOWN, a prior that was stripped whole.
abbrev State (K J : Type) [LinearOrder K] := Option (Details K J)

def DetailsEdit.state (edit : DetailsEdit K J G) : State K J :=
  if edit.erased then none else some edit.details

def DetailsEdit.putBack (edit : DetailsEdit K J G) : Bool :=
  decide (edit.writer = .erasure) || decide (edit.writer = .rollback)

structure Origin where
  actor : Option UserId
  version : Nat
  state : Nat
  ambiguous : Bool := false
  deriving DecidableEq, Repr

abbrev Writers (K : Type) [LinearOrder K] := Option (Doc K Origin)

-- `_keys`: none for NULL.
def keysOf (state : State K J) : Doc K J :=
  match state with
  | some (some doc) => doc
  | _ => Doc.empty

def without (keys : List K) (doc : Doc K J) : Doc K J :=
  doc.filter fun key _ => decide (key ∉ keys)

def stateAt (states : List (State K J)) (i : Nat) : State K J := (states[i]?).join

def writersAt (writers : List (Writers K)) (i : Nat) : Writers K := (writers[i]?).join

def bisectLeft (versions : List Nat) (version : Nat) : Nat :=
  (versions.takeWhile fun other => decide (other < version)).length

-- `_pre`: the state right below the first edit at or above the version.
def pre (versions : List Nat) (restoredFrom i : Nat) : Nat := min (bisectLeft versions restoredFrom) i

section Replay

variable [DecidableEq J] [DecidableEq G]

-- A map that is there is never replaced by the scalar; its entries are checked when read.
def restoredFrom (edit : DetailsEdit K J G) (keyDigest : G) : Option Nat :=
  match edit.restoredFromByKey with
  | some versions =>
      (versions.lookup keyDigest).filter fun version =>
        decide (1 ≤ version) && decide (version < edit.version)
  | none => edit.restoredFrom

def holds (state : State K J) (key : K) (value : J) : Bool :=
  decide ((keysOf state).get? key = some value)

-- The stripped states at `i` and right below, from `edits[i - 1]` down.
def mayHoldSubjects (states : List (State K J)) (edits : List (DetailsEdit K J G))
    (subject : UserId) : Nat → Bool
  | 0 => false
  | j + 1 =>
      match stateAt states (j + 1), edits[j]? with
      | none, some producer =>
          if producer.actorUserId = subject then true
          else if producer.putBack && (edits.take j).any fun edit =>
              decide (edit.actorUserId = subject) && !edit.putBack then true
          else mayHoldSubjects states edits subject j
      | _, _ => false

def lastKnown (states : List (State K J)) : Nat → Option Nat
  | 0 => if (stateAt states 0).isSome then some 0 else none
  | i + 1 => if (stateAt states (i + 1)).isSome then some (i + 1) else lastKnown states i

def fromState (states : List (State K J)) (writers : List (Writers K)) (key : K) (value : J)
    (j : Nat) : Option Origin :=
  if holds (stateAt states j) key value then
    (writersAt writers j).bind fun mapping => mapping.get? key
  else none

-- `look` is `from_state` for the key and its value.
def attributeKey (look : Nat → Option Origin) (edit : DetailsEdit K J G) (i : Nat)
    (last pre : Option Nat) (carriedFirst ambiguous : Bool) : Origin :=
  if !edit.putBack then
    (last.bind look).getD ⟨some edit.actorUserId, edit.version, i + 1, ambiguous⟩
  else
    let order := if carriedFirst then [last, pre] else [pre, last]
    match order.findSome? fun j => j.bind look with
    | some found => found
    | none =>
        -- the newest earlier state that holds the value
        match (List.range (i + 1)).reverse.findSome? look with
        | some found => found
        | none => ⟨none, edit.version, i + 1, false⟩

structure Replay (K J G : Type) [LinearOrder K] where
  edits : List (DetailsEdit K J G)
  states : List (State K J)
  writers : List (Writers K)
  stripped : List (List G)
  versions : List Nat

variable (digest : K → G)

-- The state a put-back's value of the key came from, where its row tells.
def preOf (edits : List (DetailsEdit K J G)) (edit : DetailsEdit K J G) (i : Nat) (key : K) :
    Option Nat :=
  let from_ := if edit.putBack then restoredFrom edit (digest key) else none
  from_.map fun version => pre (edits.map (·.version)) version i

def writersAfter (edits : List (DetailsEdit K J G)) (states : List (State K J)) (subject : UserId)
    (erased : List UserId) (writers : List (Writers K)) (i : Nat) : Writers K :=
  match edits[i]?, stateAt states (i + 1) with
  | some edit, some after =>
      let beforeKnown := (stateAt states i).isSome
      let carriedFirst := decide (edit.writer = .erasure) && beforeKnown
      let ambiguous := !edit.putBack && !beforeKnown && decide (edit.actorUserId ∉ erased) &&
        mayHoldSubjects states edits subject i
      some ((keysOf (some after)).map fun key value =>
        attributeKey (fromState states writers key value) edit i (lastKnown states i)
          (preOf digest edits edit i key) carriedFirst ambiguous)
  | _, _ => none

def replayUpTo (edits : List (DetailsEdit K J G)) (states : List (State K J)) (author : UserId)
    (subject : UserId) (erased : List UserId) : Nat → List (Writers K)
  | 0 =>
      [(stateAt states 0).map fun state =>
        (keysOf (some state)).map fun _ _ => ⟨some author, 1, 0, false⟩]
  | i + 1 =>
      let writers := replayUpTo edits states author subject erased i
      writers ++ [writersAfter digest edits states subject erased writers i]

def replay (edits : List (DetailsEdit K J G)) (live : Details K J) (author subject : UserId)
    (erased : List UserId) : Replay K J G :=
  let states := edits.map DetailsEdit.state ++ [some live]
  { edits := edits
    states := states
    writers := replayUpTo digest edits states author subject erased edits.length
    stripped := edits.map (·.erasedKeys) ++ [[]]
    versions := edits.map (·.version) }

end Replay

structure KeyRevert (K J : Type) where
  key : K
  target : Option J
  unavailable : Bool
  fromVersion : Nat
  deriving DecidableEq

-- `present`: there is a value to put back.
def KeyRevert.present (revert : KeyRevert K J) : Bool := revert.target.isSome

structure MemoryRevert (K J G : Type) [LinearOrder K] where
  memoryId : MemoryId
  reverts : List (KeyRevert K J)
  fromVersion : Nat
  result : Details K J
  prior : Doc K J
  erasedKeys : List G
  deriving DecidableEq

structure PriorStrip (K : Type) where
  rowId : Nat
  keys : List K
  deriving DecidableEq

section Plan

variable [DecidableEq J] [DecidableEq G]

def versionAt (edits : List (DetailsEdit K J G)) (j : Nat) : Nat :=
  ((edits[j]?).map (·.version)).getD 0

def strippedAt (run : Replay K J G) (j : Nat) : List G := (run.stripped[j]?).getD []

def erasedWrote (run : Replay K J G) (erased : List UserId) : Nat → Bool
  | 0 => false
  | j + 1 =>
      match run.edits[j]? with
      | some edit => !edit.putBack && decide (edit.actorUserId ∈ erased)
      | none => false

def belowStripped (run : Replay K J G) (j : Nat) (key : K) (keyDigest : G) : Nat :=
  match run.edits[j - 1]? with
  | none => j - 1
  | some producer =>
      match restoredFrom producer keyDigest with
      | none => j - 1
      | some version =>
          if !producer.putBack then j - 1
          -- a legacy erasure row names no keys: its prior tells what it carried
          else if decide (producer.writer = .erasure) && producer.restoredFromByKey.isNone &&
              ((stateAt run.states (j - 1)).isNone ||
                ((keysOf (stateAt run.states (j - 1))).get? key).isSome ||
                decide (keyDigest ∈ strippedAt run (j - 1))) then j - 1
          else pre run.versions version (j - 1)

def wroteErased (origin : Origin) (erased : List UserId) : Bool :=
  match origin.actor with
  | some actor => decide (actor ∈ erased)
  | none => false

-- `_revert` from state `j` down; each turn goes strictly lower, so `j + 1` turns are enough.
def revertFrom (run : Replay K J G) (erased : List UserId) (key : K) (keyDigest : G) :
    Nat → Nat → Option (KeyRevert K J × Nat)
  | 0, _ => none
  | turns + 1, j =>
      match stateAt run.states j with
      | none =>
          if erasedWrote run erased j then revertFrom run erased key keyDigest turns (j - 1)
          else some (⟨key, none, true, versionAt run.edits j⟩, j)
      | some _ =>
          let value := (keysOf (stateAt run.states j)).get? key
          match (writersAt run.writers j).bind fun mapping => mapping.get? key with
          | some below =>
              if wroteErased below erased then
                if below.state = 0 then some (⟨key, none, false, versionAt run.edits j⟩, j)
                else revertFrom run erased key keyDigest turns (below.state - 1)
              else some (⟨key, value, false, versionAt run.edits j⟩, j)
          | none =>
              if decide (j ≥ 1) && decide (keyDigest ∈ strippedAt run j) then
                revertFrom run erased key keyDigest turns (belowStripped run j key keyDigest)
              else some (⟨key, value, false, versionAt run.edits j⟩, j)

def revert (run : Replay K J G) (erased : List UserId) (key : K) (keyDigest : G)
    (origin : Origin) : Option (KeyRevert K J × Nat) :=
  revertFrom run erased key keyDigest origin.state (origin.state - 1)

def writtenBy (subject : UserId) (writers : Writers K) : List K :=
  match writers with
  | some mapping => (mapping.filter fun _ origin => decide (origin.actor = some subject)).keys
  | none => []

def planStrips (run : Replay K J G) (subject : UserId) : List (PriorStrip K) :=
  run.edits.zipIdx.filterMap fun (edit, i) =>
    let keys := writtenBy subject (writersAt run.writers i)
    if keys.isEmpty then none else some ⟨edit.id, keys⟩

def lower (a b : KeyRevert K J × Nat) : Bool :=
  decide (a.1.fromVersion < b.1.fromVersion) ||
    (decide (a.1.fromVersion = b.1.fromVersion) && decide (a.2 < b.2))

def keepLower (least : Option (KeyRevert K J × Nat)) (next : KeyRevert K J × Nat) :
    Option (KeyRevert K J × Nat) :=
  match least with
  | none => some next
  | some least => if lower next least then some next else some least

-- `min(walked, key=...)`: the first of the lowest.
def lowest (walked : List (KeyRevert K J × Nat)) : Option (KeyRevert K J × Nat) :=
  walked.foldl keepLower none

def applyReverts (live : Doc K J) (reverts : List (KeyRevert K J)) : Doc K J :=
  live.filterMap fun key value =>
    match reverts.find? fun revert => decide (revert.key = key) with
    | some revert => revert.target
    | none => some value

variable (digest : K → G)

def walks (run : Replay K J G) (subject : UserId) (erased : List UserId) :
    List (KeyRevert K J × Nat) :=
  let liveWriters := writersAt run.writers run.edits.length
  (writtenBy subject liveWriters).filterMap fun key =>
    (liveWriters.bind fun mapping => mapping.get? key).bind
      (revert run erased key (digest key))

def planRevert (memoryId : MemoryId) (run : Replay K J G) (live : Details K J) (subject : UserId)
    (erased : List UserId) : Option (MemoryRevert K J G) :=
  let mine := writtenBy subject (writersAt run.writers run.edits.length)
  let walked := walks digest run subject erased
  match lowest walked with
  | none => none
  | some (least, below) =>
      let reverts := walked.map (·.1)
      let result := applyReverts (keysOf (some live)) reverts
      let nothing := decide (result.entries = []) &&
        (least.unavailable || decide (stateAt run.states below = some none))
      some
        { memoryId := memoryId
          reverts := reverts
          fromVersion := least.fromVersion
          result := if nothing then none else some result
          prior := without mine (keysOf (some live))
          erasedKeys := mine.map digest }

def ambiguousKeys (run : Replay K J G) : Nat :=
  match writersAt run.writers run.edits.length with
  | some mapping => (mapping.entries.filter fun entry => entry.2.ambiguous).length
  | none => 0

structure DetailsErasurePlan (K J G : Type) [LinearOrder K] where
  reverts : List (MemoryRevert K J G)
  strips : List (PriorStrip K)
  keysAmbiguous : Nat
  memoryIds : List MemoryId

def planMemory (memoryId : MemoryId) (edits : List (DetailsEdit K J G)) (live : Details K J)
    (author subject : UserId) (erased : List UserId) : DetailsErasurePlan K J G :=
  let run := replay digest edits live author subject erased
  { reverts := (planRevert digest memoryId run live subject erased).toList
    strips := planStrips run subject
    keysAmbiguous := ambiguousKeys run
    memoryIds := [memoryId] }

def DetailsErasurePlan.append (a b : DetailsErasurePlan K J G) : DetailsErasurePlan K J G :=
  ⟨a.reverts ++ b.reverts, a.strips ++ b.strips, a.keysAmbiguous + b.keysAmbiguous,
    a.memoryIds ++ b.memoryIds⟩

def editOrder (a b : DetailsEdit K J G) : Prop :=
  a.version < b.version ∨ (a.version = b.version ∧ a.id ≤ b.id)

instance (a b : DetailsEdit K J G) : Decidable (editOrder a b) :=
  inferInstanceAs (Decidable (_ ∨ _))

def stripOrder (a b : PriorStrip K) : Prop := a.rowId ≤ b.rowId

instance (a b : PriorStrip K) : Decidable (stripOrder a b) :=
  inferInstanceAs (Decidable (_ ≤ _))

-- A memory that is gone, or that the subject authored, is passed over.
def addMemory (changed : List (DetailsEdit K J G))
    (live : MemoryId → Option (Details K J × UserId)) (subject : UserId)
    (erasedActors : List UserId) (plan : DetailsErasurePlan K J G) (id : MemoryId) :
    DetailsErasurePlan K J G :=
  match live id with
  | none => plan
  | some (details, author) =>
      if author = subject then plan
      else
        let edits := (changed.filter fun row => decide (row.memoryId = id)).insertionSort editOrder
        plan.append (planMemory digest id edits details author subject (subject :: erasedActors))

def planDetailsErasure (rows : List (DetailsEdit K J G))
    (live : MemoryId → Option (Details K J × UserId)) (subject : UserId)
    (erasedActors : List UserId) : DetailsErasurePlan K J G :=
  let changed := rows.filter (·.detailsChanged)
  let ids := (changed.map (·.memoryId)).dedup.insertionSort (· ≤ ·)
  let plan := ids.foldl (addMemory digest changed live subject erasedActors) ⟨[], [], 0, []⟩
  { plan with strips := plan.strips.insertionSort stripOrder }

end Plan

structure DetailsLog (K J G : Type) [LinearOrder K] where
  memoryId : MemoryId
  author : UserId
  edits : List (DetailsEdit K J G)
  live : Details K J
  version : Nat
  nextId : Nat
  own : ∀ edit ∈ edits, edit.memoryId = memoryId ∧ edit.detailsChanged = true
  ascending : edits.Pairwise fun a b => a.version < b.version
  bounded : ∀ edit ∈ edits, 1 ≤ edit.version ∧ edit.version ≤ version
  numbered : edits.Pairwise fun a b => a.id < b.id
  below : ∀ edit ∈ edits, edit.id < nextId

def DetailsLog.created (memoryId : MemoryId) (author : UserId) (details : Details K J) :
    DetailsLog K J G :=
  { memoryId := memoryId, author := author, edits := [], live := details, version := 1, nextId := 1
    own := by simp, ascending := List.Pairwise.nil, bounded := by simp
    numbered := List.Pairwise.nil, below := by simp }

-- The next revision; `edit` brings everything but its place in the log.
def DetailsLog.record (log : DetailsLog K J G) (edit : DetailsEdit K J G) (live : Details K J) :
    DetailsLog K J G :=
  let row := { edit with
    memoryId := log.memoryId, version := log.version + 1, id := log.nextId, detailsChanged := true }
  { log with
    edits := log.edits ++ [row]
    live := live
    version := log.version + 1
    nextId := log.nextId + 1
    own := by
      intro other listed
      rcases List.mem_append.mp listed with old | new
      next => exact log.own other old
      next => rw [List.mem_singleton.mp new]; exact ⟨rfl, rfl⟩
    ascending := by
      rw [List.pairwise_append]
      refine ⟨log.ascending, List.pairwise_singleton _ _, ?_⟩
      intro old listed new is
      rw [List.mem_singleton.mp is]
      exact Nat.lt_succ_of_le (log.bounded old listed).2
    bounded := by
      intro other listed
      rcases List.mem_append.mp listed with old | new
      next => exact ⟨(log.bounded other old).1, Nat.le_succ_of_le (log.bounded other old).2⟩
      next => rw [List.mem_singleton.mp new]; exact ⟨Nat.le_add_left _ _, Nat.le_refl _⟩
    numbered := by
      rw [List.pairwise_append]
      refine ⟨log.numbered, List.pairwise_singleton _ _, ?_⟩
      intro old listed new is
      rw [List.mem_singleton.mp is]
      exact log.below old listed
    below := by
      intro other listed
      rcases List.mem_append.mp listed with old | new
      next => exact Nat.lt_succ_of_lt (log.below other old)
      next => rw [List.mem_singleton.mp new]; exact Nat.lt_succ_self _ }

-- Rewrites the rows without moving them.
def DetailsLog.rewrite (log : DetailsLog K J G) (change : DetailsEdit K J G → DetailsEdit K J G)
    (memoryId : ∀ edit, (change edit).memoryId = edit.memoryId)
    (changed : ∀ edit, (change edit).detailsChanged = edit.detailsChanged)
    (version : ∀ edit, (change edit).version = edit.version)
    (id : ∀ edit, (change edit).id = edit.id) : DetailsLog K J G :=
  { log with
    edits := log.edits.map change
    own := by
      intro edit listed
      obtain ⟨old, present, rfl⟩ := List.mem_map.mp listed
      rw [memoryId, changed]
      exact log.own old present
    ascending := by
      rw [List.pairwise_map]
      exact log.ascending.imp fun order => by rw [version, version]; exact order
    bounded := by
      intro edit listed
      obtain ⟨old, present, rfl⟩ := List.mem_map.mp listed
      rw [version]
      exact log.bounded old present
    numbered := by
      rw [List.pairwise_map]
      exact log.numbered.imp fun order => by rw [id, id]; exact order
    below := by
      intro edit listed
      obtain ⟨old, present, rfl⟩ := List.mem_map.mp listed
      rw [id]
      exact log.below old present }

section Steps

variable [DecidableEq J] [DecidableEq G] (digest : K → G)

def DetailsLog.states (log : DetailsLog K J G) : List (State K J) :=
  log.edits.map DetailsEdit.state ++ [some log.live]

-- An `api` edit; one that leaves `details` equal writes no row here.
def apiEdit (log : DetailsLog K J G) (actor : UserId) (details : Details K J) :
    DetailsLog K J G :=
  if details = log.live then log
  else
    log.record { memoryId := 0, version := 0, id := 0, actorUserId := actor, writer := .api
                 details := log.live } details

def otherEdit (log : DetailsLog K J G) : DetailsLog K J G :=
  { log with
    version := log.version + 1
    bounded := fun edit listed =>
      ⟨(log.bounded edit listed).1, Nat.le_succ_of_le (log.bounded edit listed).2⟩ }

-- A rollback's put-back of the `details`, stamped with the version it went back below.
def putBackDetails (log : DetailsLog K J G) (actor : UserId) (stamp : Nat) (details : Details K J) :
    DetailsLog K J G :=
  if details = log.live then log
  else
    log.record { memoryId := 0, version := 0, id := 0, actorUserId := actor, writer := .rollback
                 details := log.live, restoredFrom := some stamp } details

def putBack (log : DetailsLog K J G) (actor : UserId) (stamp : Nat) : DetailsLog K J G :=
  match stateAt log.states (pre (log.edits.map (·.version)) stamp log.edits.length) with
  | some details => putBackDetails log actor stamp details
  | none => log

def planErasure (log : DetailsLog K J G) (subject : UserId) (erasedActors : List UserId) :
    DetailsErasurePlan K J G :=
  planDetailsErasure digest log.edits
    (fun id => if id = log.memoryId then some (log.live, log.author) else none) subject erasedActors

-- `restore_editor_details`: each restore is an edit of its own.
def restoreDetails (log : DetailsLog K J G) (actor : UserId) (revert : MemoryRevert K J G) :
    DetailsLog K J G :=
  log.record { memoryId := 0, version := 0, id := 0, actorUserId := actor, writer := .erasure
               details := some revert.prior, erasedKeys := revert.erasedKeys
               restoredFrom := some revert.fromVersion
               restoredFromByKey :=
                 some (revert.reverts.map fun key => (digest key.key, key.fromVersion)) }
    revert.result

def stripEdit (strips : List (PriorStrip K)) (edit : DetailsEdit K J G) : DetailsEdit K J G :=
  match strips.find? (fun strip => decide (strip.rowId = edit.id)), edit.details with
  | some strip, some details =>
      { edit with
        details := some (without strip.keys details)
        erasedKeys := edit.erasedKeys ++ strip.keys.map digest }
  | _, _ => edit

omit [DecidableEq J] [DecidableEq G] in
theorem stripEdit_place (strips : List (PriorStrip K)) (edit : DetailsEdit K J G) :
    (stripEdit digest strips edit).memoryId = edit.memoryId ∧
      (stripEdit digest strips edit).detailsChanged = edit.detailsChanged ∧
      (stripEdit digest strips edit).version = edit.version ∧
      (stripEdit digest strips edit).id = edit.id := by
  unfold stripEdit
  split <;> exact ⟨rfl, rfl, rfl, rfl⟩

def stripEditorKeys (log : DetailsLog K J G) (strips : List (PriorStrip K)) : DetailsLog K J G :=
  log.rewrite (stripEdit digest strips) (fun edit => (stripEdit_place digest strips edit).1)
    (fun edit => (stripEdit_place digest strips edit).2.1)
    (fun edit => (stripEdit_place digest strips edit).2.2.1)
    (fun edit => (stripEdit_place digest strips edit).2.2.2)

def renameActor (subject pseudonym : UserId) (edit : DetailsEdit K J G) : DetailsEdit K J G :=
  { edit with actorUserId := if edit.actorUserId = subject then pseudonym else edit.actorUserId }

def pseudonymizeRevisionActor (log : DetailsLog K J G) (subject pseudonym : UserId) :
    DetailsLog K J G :=
  log.rewrite (renameActor subject pseudonym) (fun _ => rfl) (fun _ => rfl) (fun _ => rfl)
    (fun _ => rfl)

-- The restores, the strips of the rows there were, then the actor column.
def eraseSubjectDetails (log : DetailsLog K J G) (subject pseudonym : UserId)
    (erasedActors : List UserId) : DetailsLog K J G :=
  let plan := planErasure digest log subject erasedActors
  let restored := plan.reverts.foldl (fun log revert => restoreDetails digest log pseudonym revert) log
  pseudonymizeRevisionActor (stripEditorKeys digest restored plan.strips) subject pseudonym

end Steps

end MemoryCloud.Provenance
