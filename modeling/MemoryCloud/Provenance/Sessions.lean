import MemoryCloud.Provenance.Commute
import MemoryCloud.Rollback.Tables

set_option autoImplicit false

/-!
# Erasures over the revision table

The log an erasure reads is that of a memory in the tables edits and session rollbacks write.
Where each rollback put back a whole state, the order of two erasures does not matter.
-/

namespace MemoryCloud.Provenance

open Versions Rollback

variable {K J G : Type} [LinearOrder K] [DecidableEq J] [DecidableEq G]

-- `_updated_rows`: no row of these tables went through an erasure.
def updatedRow (row : Revision (Doc K J)) : DetailsEdit K J G :=
  { memoryId := row.memoryId, version := row.version, id := row.id
    actorUserId := row.actorUserId, writer := row.writer
    details := (row.prior.values .details).join
    erased := decide (.details ∈ row.prior.erased)
    restoredFrom := row.prior.restoredFrom
    detailsChanged :=
      (row.prior.values .details).isSome || decide (.details ∈ row.prior.erased) }

def detailsEdits (rows : List (Revision (Doc K J))) : List (DetailsEdit K J G) :=
  ((edits rows).map updatedRow).filter (·.detailsChanged)

section Tables

omit [DecidableEq J] [DecidableEq G]

theorem mem_detailsEdits {rows : List (Revision (Doc K J))} {edit : DetailsEdit K J G}
    (listed : edit ∈ detailsEdits rows) :
    edit.detailsChanged = true ∧ ∃ row ∈ edits rows, edit = updatedRow row := by
  obtain ⟨present, changed⟩ := List.mem_filter.mp listed
  obtain ⟨row, there, is⟩ := List.mem_map.mp present
  exact ⟨changed, row, there, is.symm⟩

theorem detailsEdits_pairwise {rows : List (Revision (Doc K J))}
    {order : Nat → Nat → Prop} {place : Revision (Doc K J) → Nat}
    {edited : DetailsEdit K J G → Nat} (same : ∀ row, edited (updatedRow row) = place row)
    (ordered : (edits rows).Pairwise fun a b => order (place a) (place b)) :
    (detailsEdits rows : List (DetailsEdit K J G)).Pairwise fun a b =>
      order (edited a) (edited b) := by
  apply List.Pairwise.filter
  rw [List.pairwise_map]
  exact ordered.imp fun less => by rw [same, same]; exact less

end Tables

section Logs

variable {db : Db (Doc K J)}

omit [DecidableEq J] in
theorem edits_numbered (consistent : Consistent db) (id : MemoryId) :
    (edits (eventsOf db.rows id)).Pairwise fun a b => a.id < b.id := by
  have rows : db.rows.Pairwise fun a b => a.id < b.id := List.pairwise_map.mp consistent.ascending
  exact (rows.filter _).filter _

def detailsLog (consistent : Consistent db) (memory : Memory (Doc K J))
    (listed : memory ∈ db.memories) : DetailsLog K J G :=
  { memoryId := memory.id, author := memory.userId
    edits := detailsEdits (eventsOf db.rows memory.id)
    live := memory.fields .details, version := memory.version, nextId := db.nextId
    own := by
      intro edit there
      obtain ⟨changed, row, present, rfl⟩ := mem_detailsEdits there
      exact ⟨(mem_eventsOf.mp (mem_edits.mp present).1).2, changed⟩
    ascending := by
      obtain ⟨past, ledger⟩ := consistent.ledger memory listed
      have versions : ((edits (eventsOf db.rows memory.id)).map (·.version)).Pairwise (· < ·) := by
        rw [ledger.versions]
        exact List.pairwise_lt_range' ..
      exact detailsEdits_pairwise (fun _ => rfl) (List.pairwise_map.mp versions)
    bounded := by
      obtain ⟨past, ledger⟩ := consistent.ledger memory listed
      intro edit there
      obtain ⟨_, row, present, rfl⟩ := mem_detailsEdits there
      have bounds := ledger.edit_bounds present
      exact ⟨by change 1 ≤ row.version; omega, by change row.version ≤ memory.version; omega⟩
    numbered := detailsEdits_pairwise (fun _ => rfl) (edits_numbered consistent memory.id)
    below := by
      intro edit there
      obtain ⟨_, row, present, rfl⟩ := mem_detailsEdits there
      exact consistent.below row (mem_eventsOf.mp (mem_edits.mp present).1).1 }

omit [DecidableEq G] in
theorem detailsLog_plain (consistent : Consistent db) {memory : Memory (Doc K J)}
    (listed : memory ∈ db.memories)
    (whole : wholePutBacks (detailsLog consistent memory listed : DetailsLog K J G) = true) :
    Plain (detailsLog consistent memory listed : DetailsLog K J G) := by
  refine ⟨?_, whole⟩
  intro edit there
  obtain ⟨_, row, present, rfl⟩ := mem_detailsEdits there
  obtain ⟨past, ledger⟩ := consistent.ledger memory listed
  have unmarked := (ledger.unmarked row present).1
  simp [updatedRow, unmarked]

end Logs

section Orders

variable {digest : K → G}

theorem erasures_commute (injective : Function.Injective digest)
    (steps : List (Rollback.Step (Doc K J))) {memory : Memory (Doc K J)}
    (listed : memory ∈ (Rollback.run steps).memories) {first second pseudonym name : UserId} :
    let log : DetailsLog K J G := detailsLog (run_consistent steps) memory listed
    wholePutBacks log = true → log.author ≠ first → log.author ≠ second →
    log.author ≠ pseudonym → (∀ edit ∈ log.edits, edit.actorUserId ≠ pseudonym) →
    log.author ≠ name → (∀ edit ∈ log.edits, edit.actorUserId ≠ name) →
    keysOf (some (log.twice digest first pseudonym second name).live) =
        keysOf (some (log.twice digest second name first pseudonym).live) ∧
      priors (log.twice digest first pseudonym second name) log.edits.length =
        priors (log.twice digest second name first pseudonym) log.edits.length ∧
      (priors (log.twice digest first pseudonym second name) log.edits.length).map Prod.fst =
        log.edits.map (·.id) := by
  intro log whole notFirst notSecond author rows author' rows'
  have plain : Plain log := detailsLog_plain (run_consistent steps) listed whole
  have unnamed : Unattributed digest log pseudonym :=
    unattributed_of_rows author fun edit there _ => rows edit there
  have unnamed' : Unattributed digest log name :=
    unattributed_of_rows author' fun edit there _ => rows' edit there
  exact ⟨plain_commutes injective plain notFirst notSecond unnamed unnamed',
    twice_priors digest log first second pseudonym name notFirst notSecond,
    priors_ids digest pseudonym name notFirst notSecond⟩

end Orders

section Examples

def note (summary : String) (value : Nat) : Snapshot (Doc Nat Nat)
  | .summary => summary
  | .contextSummary => none
  | .content => "text"
  | .details => some (oneKey value)
  | .type => "note"
  | .importance => 1
  | .tags => none

def noteMemory : Memory (Doc Nat Nat) :=
  { id := 7, userId := 1, contextId := none, fields := note "draft" 10, version := 1
    updatedAt := none, deletedAt := none, deletedBy := none, resourceId := none, agentId := none
    sessionId := none }

def noteCall (user : UserId) (now : Time) : Call (Doc Nat Nat) :=
  { requestedBy := user, provenance := {}, now := now, dryRun := false, permits := fun _ _ => true
    sleepActors := [], fails := fun _ => false, outOfTime := fun _ => false }

def principalOf (user : UserId) : SessionPrincipal := ⟨user, none, [user], List.mem_singleton_self _⟩

def inSession : WriteProvenance := { sessionId := some 6 }

def firstLog (steps : List (Rollback.Step (Doc Nat Nat)))
    (created : 0 < (Rollback.run steps).memories.length) : DetailsLog Nat Nat Nat :=
  detailsLog (run_consistent steps) _ (List.getElem_mem created)

-- Two members edit in one session, the context owner rolls it back, a third member edits.
def wholeSession : List (Rollback.Step (Doc Nat Nat)) :=
  [ .create noteMemory 3 1 5 {},
    .edit 7 (note "draft" 20) 2 20 inSession,
    .edit 7 (note "draft" 30) 3 30 inSession,
    .rollback (.session 3 6 none) (noteCall 9 70),
    .edit 7 (note "best" 50) 4 80 {} ]

theorem wholeSession_created : 0 < (Rollback.run wholeSession).memories.length := by decide +kernel

theorem erasures_commute_wholeSession :
    let log := firstLog wholeSession wholeSession_created
    log.edits.length = 4 ∧ keysOf (some (log.twice id 3 13 4 14).live) =
      keysOf (some (log.twice id 4 14 3 13).live) :=
  ⟨by decide +kernel,
    (erasures_commute Function.injective_id wholeSession (List.getElem_mem wholeSession_created)
      (by decide +kernel) (by decide +kernel) (by decide +kernel) (by decide +kernel)
      (by decide +kernel) (by decide +kernel) (by decide +kernel)).1⟩

-- The two members' own rollbacks skip their edits, since others edited later; the owner's
-- then rolls back the first and the last edit of the session alone.
def sharedSession : List (Rollback.Step (Doc Nat Nat)) :=
  [ .create noteMemory 3 1 5 {},
    .edit 7 (note "better" 10) 5 10 inSession,
    .edit 7 (note "better" 20) 2 20 inSession,
    .edit 7 (note "better" 30) 3 30 inSession,
    .edit 7 (note "better" 40) 5 40 inSession,
    .rollback (.session 3 6 (some (principalOf 2))) (noteCall 2 50),
    .rollback (.session 3 6 (some (principalOf 3))) (noteCall 3 60),
    .rollback (.session 3 6 none) (noteCall 9 70),
    .edit 7 (note "best" 50) 4 80 {} ]

theorem sharedSession_created : 0 < (Rollback.run sharedSession).memories.length := by
  decide +kernel

theorem erasures_depend_on_order :
    let log := firstLog sharedSession sharedSession_created
    log.author = 1 ∧
      (∀ edit ∈ log.edits, edit.erased = false ∧ edit.actorUserId ≠ 13 ∧ edit.actorUserId ≠ 14 ∧
        (edit.putBack = true → edit.writer = .rollback ∧ edit.restoredFrom.isSome = true)) ∧
      (keysOf (some (log.twice id 3 13 4 14).live)).get? 1 = some 10 ∧
      (keysOf (some (log.twice id 4 14 3 13).live)).get? 1 = some 20 := by
  decide +kernel

end Examples

end MemoryCloud.Provenance
