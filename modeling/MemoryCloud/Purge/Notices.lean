import Mathlib.Data.List.Induction
import MemoryCloud.Purge.Model

set_option autoImplicit false

namespace MemoryCloud.Purge

def sinceCleared (history : List Event) (id : WorkspaceId) : List Event :=
  history.foldl (fun seen event => if event = .cleared id then [] else seen ++ [event]) []

def rowEvents (id : WorkspaceId) (workspace : Workspace) : List Event :=
  workspace.lockedSince.toList.map (.stamped id) ++
    workspace.firstNoticeAt.toList.map (.firstNotice id) ++
    workspace.finalNoticeAt.toList.map (.finalNotice id)

structure Recorded (history : List Event) (id : WorkspaceId) (workspace : Workspace) : Prop where
  listed : (rowEvents id workspace).Sublist (sinceCleared history id)
  first : workspace.lockedSince = none → workspace.firstNoticeAt = none
  final : workspace.firstNoticeAt = none → workspace.finalNoticeAt = none

def SameColumns (old new : Workspace) : Prop :=
  new.lockedSince = old.lockedSince ∧ new.firstNoticeAt = old.firstNoticeAt ∧
    new.finalNoticeAt = old.finalNoticeAt

def sweepNow : Sweep → Option Time
  | .idle => none
  | .stamping now _ => some now
  | .notifying now _ => some now
  | .purging now _ => some now
  | .deleting now _ _ _ _ => some now

structure Sound (system : System) : Prop where
  recorded : ∀ id, Recorded system.history id (system.workspaces id)
  clock : ∀ now, sweepNow system.sweep = some now → now ≤ system.clock
  due : ∀ now todo id started approved, system.sweep = .deleting now todo id started approved →
    purgeDue (system.workspaces id) now = true

section Rows

variable {history : List Event} {id : WorkspaceId} {workspace : Workspace}

theorem sinceCleared_append {events : List Event} (others : .cleared id ∉ events) :
    sinceCleared (history ++ events) id = sinceCleared history id ++ events := by
  induction events generalizing history with
  | nil => simp
  | cons event rest ih =>
    have other : event ≠ .cleared id := fun same => others (by simp [same])
    have later : Event.cleared id ∉ rest := fun listed => others (by simp [listed])
    have here : sinceCleared (history ++ [event]) id = sinceCleared history id ++ [event] := by
      simp [sinceCleared, List.foldl_append, other]
    have split : history ++ event :: rest = history ++ [event] ++ rest := by simp
    rw [split, ih later, here]
    simp

theorem rowEvents_same {changed : Workspace} (same : SameColumns workspace changed) :
    rowEvents id changed = rowEvents id workspace := by
  rw [rowEvents, same.1, same.2.1, same.2.2]
  rfl

theorem purgeDue_same {changed : Workspace} (same : SameColumns workspace changed) (now : Time) :
    purgeDue changed now = purgeDue workspace now := by
  rw [purgeDue, same.1, same.2.1, same.2.2]
  rfl

theorem Recorded.columns (recorded : Recorded history id workspace) {changed : Workspace}
    (same : SameColumns workspace changed) {events : List Event} (others : .cleared id ∉ events) :
    Recorded (history ++ events) id changed := by
  refine ⟨?_, ?_, ?_⟩
  · rw [rowEvents_same same, sinceCleared_append others]
    exact recorded.listed.trans (List.sublist_append_left _ _)
  · rw [same.1, same.2.1]
    exact recorded.first
  · rw [same.2.1, same.2.2]
    exact recorded.final

theorem recorded_clear : Recorded (history ++ [.cleared id]) id (clearStamp workspace) :=
  ⟨by simp [rowEvents, clearStamp], fun _ => rfl, fun _ => rfl⟩

theorem recorded_stamp (recorded : Recorded history id workspace)
    (unstamped : workspace.lockedSince = none) (now : Time) :
    Recorded (history ++ [.stamped id now]) id { workspace with lockedSince := some now } := by
  have first := recorded.first unstamped
  have final := recorded.final first
  refine ⟨?_, ?_, recorded.final⟩
  · rw [sinceCleared_append (by simp)]
    simp [rowEvents, first, final]
  · intro stamped
    cases stamped

theorem recorded_notice (recorded : Recorded history id workspace) {since : Time}
    (stamped : workspace.lockedSince = some since) (stage : Int) (now : Time) :
    Recorded (history ++ noticeEvents workspace id stage now) id
      (recordNotice workspace stage now) := by
  have others : Event.cleared id ∉ noticeEvents workspace id stage now := by
    unfold noticeEvents
    split <;> split <;> simp
  refine ⟨?_, ?_, ?_⟩
  · rw [sinceCleared_append others]
    have listed := recorded.listed
    cases first : workspace.firstNoticeAt with
    | none =>
      have final := recorded.final first
      have row : rowEvents id (recordNotice workspace stage now) =
          rowEvents id workspace ++ noticeEvents workspace id stage now := by
        by_cases last : stage = finalNoticeDay
        next => simp [rowEvents, recordNotice, noticeEvents, first, final, last]
        next => simp [rowEvents, recordNotice, noticeEvents, first, final, last]
      rw [row]
      exact listed.append (List.Sublist.refl _)
    | some earlier =>
      by_cases last : stage = finalNoticeDay
      next =>
        have row : rowEvents id (recordNotice workspace stage now) =
            [.stamped id since, .firstNotice id earlier] ++
              noticeEvents workspace id stage now := by
          simp [rowEvents, recordNotice, noticeEvents, first, stamped, last]
        have kept : [Event.stamped id since, .firstNotice id earlier].Sublist
            (rowEvents id workspace) := by
          simp [rowEvents, first, stamped]
        rw [row]
        exact (kept.trans listed).append (List.Sublist.refl _)
      next =>
        have row : rowEvents id (recordNotice workspace stage now) = rowEvents id workspace := by
          simp [rowEvents, recordNotice, first, last]
        rw [row]
        exact listed.trans (List.sublist_append_left _ _)
  · intro unstamped
    have still : workspace.lockedSince = none := unstamped
    rw [stamped] at still
    cases still
  · intro unsent
    simp only [recordNotice] at unsent
    cases first : workspace.firstNoticeAt with
    | none => simp [first] at unsent
    | some earlier => simp [first] at unsent

end Rows

section Steps

variable {system : System}

theorem Sound.quiet (sound : Sound system) {after : System}
    (columns : ∀ id, SameColumns (system.workspaces id) (after.workspaces id))
    (history : after.history = system.history)
    (clock : ∀ now, sweepNow after.sweep = some now → now ≤ after.clock)
    (due : ∀ now todo id started approved, after.sweep = .deleting now todo id started approved →
      purgeDue (system.workspaces id) now = true) : Sound after := by
  refine ⟨?_, clock, ?_⟩
  · intro id
    have kept := (sound.recorded id).columns (columns id) List.not_mem_nil
    rw [List.append_nil] at kept
    rw [history]
    exact kept
  · intro now todo id started approved here
    rw [purgeDue_same (columns id)]
    exact due now todo id started approved here

-- The step rewrites one row and notes it.
theorem Sound.written (sound : Sound system) {id : WorkspaceId} {workspace : Workspace}
    {events : List Event} {sweep : Sweep} {now : Time}
    (recorded : Recorded (system.history ++ events) id workspace)
    (own : ∀ other, other ≠ id → .cleared other ∉ events)
    (running : sweepNow system.sweep = some now) (sameNow : sweepNow sweep = some now)
    (notDeleting : ∀ now todo id started approved, sweep ≠ .deleting now todo id started approved) :
    Sound { system.write id workspace events with sweep := sweep } := by
  refine ⟨?_, ?_, ?_⟩
  · intro other
    by_cases same : other = id
    next =>
      rw [same]
      simpa [System.write, System.put] using recorded
    next =>
      have kept := (sound.recorded other).columns ⟨rfl, rfl, rfl⟩ (own other same)
      simpa [System.write, System.put, same] using kept
  · intro later is
    simp only [sameNow, Option.some.injEq] at is
    rw [← is]
    exact sound.clock now running
  · intro now todo id started approved here
    exact absurd here (notDeleting now todo id started approved)

theorem Sound.moved (sound : Sound system) {sweep : Sweep} {now : Time}
    (running : sweepNow system.sweep = some now) (sameNow : sweepNow sweep = some now)
    (notDeleting : ∀ now todo id started approved, sweep ≠ .deleting now todo id started approved) :
    Sound { system with sweep := sweep } := by
  apply sound.quiet
  next => exact fun _ => ⟨rfl, rfl, rfl⟩
  next => rfl
  next =>
    intro later is
    simp only [sameNow, Option.some.injEq] at is
    rw [← is]
    exact sound.clock now running
  next =>
    intro now todo id started approved here
    exact absurd here (notDeleting now todo id started approved)

theorem Sound.stopped (sound : Sound system) : Sound { system with sweep := .idle } := by
  apply sound.quiet
  next => exact fun _ => ⟨rfl, rfl, rfl⟩
  next => rfl
  next => simp [sweepNow]
  next => simp

theorem Sound.clearing (sound : Sound system) (id : WorkspaceId) {sweep : Sweep} {now : Time}
    (running : sweepNow system.sweep = some now) (sameNow : sweepNow sweep = some now)
    (notDeleting : ∀ now todo id started approved, sweep ≠ .deleting now todo id started approved) :
    Sound { system.clear id with sweep := sweep } := by
  apply sound.written recorded_clear _ running sameNow notDeleting
  intro other different
  simp [different]

theorem stampStep_sound (sound : Sound system) {now : Time} {id : WorkspaceId}
    {todo rest : List WorkspaceId} (here : system.sweep = .stamping now todo) (lock : Bool) :
    Sound { stampStep system now id lock with sweep := .stamping now rest } := by
  have running : sweepNow system.sweep = some now := by rw [here]; rfl
  have recorded := sound.recorded id
  have kept : Recorded (system.history ++ []) id (system.workspaces id) :=
    recorded.columns ⟨rfl, rfl, rfl⟩ List.not_mem_nil
  cases stamped : (system.workspaces id).lockedSince with
  | none =>
    cases lock with
    | false =>
      simp only [stampStep, stampOne, stamped]
      exact sound.written kept (by simp) running rfl (by simp)
    | true =>
      simp only [stampStep, stampOne, stamped]
      exact sound.written (recorded_stamp recorded stamped now) (by simp) running rfl (by simp)
  | some since =>
    cases lock with
    | false =>
      simp only [stampStep, stampOne, stamped]
      exact sound.clearing id running rfl (by simp)
    | true =>
      simp only [stampStep, stampOne, stamped]
      exact sound.written kept (by simp) running rfl (by simp)

theorem noticeStep_sound (sound : Sound system) {now : Time} {id : WorkspaceId}
    {todo rest : List WorkspaceId} (here : system.sweep = .notifying now todo) (call : NoticeCall) :
    Sound (noticeStep system now rest id call) := by
  have running : sweepNow system.sweep = some now := by rw [here]; rfl
  have skip : Sound { system with sweep := .notifying now rest } :=
    sound.moved running rfl (by simp)
  unfold noticeStep
  simp only
  split
  next => exact skip
  next since stamped =>
    split
    next => exact skip
    next stage _ =>
      have sent : Sound { system.write id (recordNotice (system.workspaces id) stage now)
          (noticeEvents (system.workspaces id) id stage now) with sweep := .notifying now rest } := by
        apply sound.written (recorded_notice (sound.recorded id) stamped stage now) _ running rfl
          (by simp)
        intro other _
        unfold noticeEvents
        split <;> split <;> simp
      split
      next => exact skip
      next =>
        split
        next => exact skip
        next => exact skip
        next =>
          split
          next => exact skip
          next => exact sound.stopped
          next =>
            split
            next => exact skip
            next => exact sound.stopped
            next => exact sent

theorem purgeStep_sound (sound : Sound system) {now : Time} {id : WorkspaceId}
    {todo rest : List WorkspaceId} (here : system.sweep = .purging now todo) (commit : Bool) :
    Sound (purgeStep system now rest id commit) := by
  have running : sweepNow system.sweep = some now := by rw [here]; rfl
  have skip : Sound { system with sweep := .purging now rest } := sound.moved running rfl (by simp)
  have clear : Sound (if commit = true then { system.clear id with sweep := .purging now rest }
      else { system with sweep := .idle }) := by
    split
    next => exact sound.clearing id running rfl (by simp)
    next => exact sound.stopped
  unfold purgeStep
  simp only
  split
  next => exact skip
  next =>
    split
    next =>
      split
      next => exact clear
      next => exact skip
    next =>
      split
      next => exact skip
      next isDue =>
        split
        next => exact clear
        next =>
          split
          next =>
            apply sound.quiet
            next => exact fun _ => ⟨rfl, rfl, rfl⟩
            next => rfl
            next =>
              intro later is
              obtain rfl : now = later := Option.some.inj is
              exact sound.clock now running
            next =>
              intro later todo' other started approved is
              obtain ⟨rfl, _, rfl, _⟩ := Sweep.deleting.inj is
              simpa using isDue
          next => exact skip

theorem endPurge_sound (sound : Sound system) {now : Time} (id : WorkspaceId)
    (rest : List WorkspaceId) (running : sweepNow system.sweep = some now) (commit : Bool) :
    Sound (endPurge system now rest id commit) := by
  unfold endPurge
  split
  next => exact sound.clearing id running rfl (by simp)
  next => exact sound.moved running rfl (by simp)

theorem put_columns (system : System) {id : WorkspaceId} {workspace : Workspace}
    (same : SameColumns (system.workspaces id) workspace) (other : WorkspaceId) :
    SameColumns (system.workspaces other) ((system.put id workspace).workspaces other) := by
  by_cases here : other = id
  next =>
    rw [here]
    simpa [System.put] using same
  next =>
    simp only [System.put, if_neg here]
    exact ⟨rfl, rfl, rfl⟩

theorem next_sound (sound : Sound system) (action : Action) : Sound (next system action) := by
  unfold next
  split
  next seconds _ =>
    apply sound.quiet
    next => exact fun _ => ⟨rfl, rfl, rfl⟩
    next => rfl
    next => exact fun now is => Nat.le_trans (sound.clock now is) (Nat.le_add_right _ _)
    next => exact sound.due
  next id workspace _ =>
    exact sound.quiet (put_columns system ⟨rfl, rfl, rfl⟩) rfl sound.clock sound.due
  next => exact sound.stopped
  next =>
    apply sound.quiet
    next => exact fun _ => ⟨rfl, rfl, rfl⟩
    next => rfl
    next => exact fun now is => Nat.le_of_eq (Option.some.inj is).symm
    next => simp
  next lock now id todo here =>
    split
    next => exact sound.moved (by rw [here]; rfl) rfl (by simp)
    next lock => exact stampStep_sound sound here lock
  next now here => exact sound.moved (by rw [here]; rfl) rfl (by simp)
  next call now id todo here => exact noticeStep_sound sound here call
  next now here => exact sound.moved (by rw [here]; rfl) rfl (by simp)
  next commit now id todo here => exact purgeStep_sound sound here commit
  next => exact sound.stopped
  next commit now todo id started here =>
    have running : sweepNow system.sweep = some now := by rw [here]; rfl
    split
    next =>
      apply sound.quiet
      next => exact fun _ => ⟨rfl, rfl, rfl⟩
      next => rfl
      next =>
        intro later is
        obtain rfl : now = later := Option.some.inj is
        exact sound.clock now running
      next =>
        intro later todo' other started' approved is
        obtain ⟨rfl, _, rfl, _⟩ := Sweep.deleting.inj is
        exact sound.due _ _ _ _ _ here
    next => exact endPurge_sound sound id todo running commit
  next memories bytes now todo id started here =>
    apply sound.quiet
    next => exact put_columns system ⟨rfl, rfl, rfl⟩
    next => rfl
    next =>
      intro later is
      obtain rfl : now = later := Option.some.inj is
      exact sound.clock now (by rw [here]; rfl)
    next =>
      intro later todo' other started' approved is
      obtain ⟨rfl, _, rfl, _⟩ := Sweep.deleting.inj is
      exact sound.due _ _ _ _ _ here
  next commit now todo id started approved here =>
    exact endPurge_sound sound id todo (by rw [here]; rfl) commit
  next now todo id started approved here =>
    exact sound.moved (by rw [here]; rfl) rfl (by simp)
  next => exact sound

theorem run_sound (sound : Sound system) (actions : List Action) : Sound (run system actions) := by
  induction actions generalizing system with
  | nil => exact sound
  | cons action rest ih => exact ih (next_sound sound action)

end Steps

section Deletion

variable {system : System}

-- The purge, not someone outside, takes data of the workspace.
def DeletesData (system : System) (action : Action) (id : WorkspaceId) : Prop :=
  (∀ other workspace, action ≠ .outside other workspace) ∧
    (((next system action).workspaces id).memoryCount < (system.workspaces id).memoryCount ∨
      ((next system action).workspaces id).usedBytes < (system.workspaces id).usedBytes)

def SameUsage (old new : System) : Prop :=
  ∀ id, (new.workspaces id).memoryCount = (old.workspaces id).memoryCount ∧
    (new.workspaces id).usedBytes = (old.workspaces id).usedBytes

theorem write_usage {id : WorkspaceId} {workspace : Workspace} {events : List Event}
    (count : workspace.memoryCount = (system.workspaces id).memoryCount)
    (bytes : workspace.usedBytes = (system.workspaces id).usedBytes) (sweep : Sweep) :
    SameUsage system { system.write id workspace events with sweep := sweep } := by
  intro other
  by_cases here : other = id
  next => simp [System.write, System.put, here, count, bytes]
  next => simp [System.write, System.put, here]

theorem clear_usage (id : WorkspaceId) (sweep : Sweep) :
    SameUsage system { system.clear id with sweep := sweep } := by
  unfold System.clear
  apply write_usage
  all_goals rfl

theorem stampStep_usage (now : Time) (id : WorkspaceId) (lock : Bool) (sweep : Sweep) :
    SameUsage system { stampStep system now id lock with sweep := sweep } := by
  apply write_usage
  next => unfold stampOne; split <;> rfl
  next => unfold stampOne; split <;> rfl

theorem noticeStep_usage (now : Time) (todo : List WorkspaceId) (id : WorkspaceId)
    (call : NoticeCall) : SameUsage system (noticeStep system now todo id call) := by
  unfold noticeStep
  simp only
  repeat' split
  all_goals try exact fun _ => ⟨rfl, rfl⟩
  apply write_usage
  all_goals rfl

theorem purgeStep_usage (now : Time) (todo : List WorkspaceId) (id : WorkspaceId)
    (commit : Bool) : SameUsage system (purgeStep system now todo id commit) := by
  unfold purgeStep
  simp only
  repeat' split
  all_goals first
    | exact clear_usage id _
    | exact fun _ => ⟨rfl, rfl⟩

theorem endPurge_usage (now : Time) (todo : List WorkspaceId) (id : WorkspaceId)
    (commit : Bool) : SameUsage system (endPurge system now todo id commit) := by
  unfold endPurge
  split
  next => exact clear_usage id _
  next => exact fun _ => ⟨rfl, rfl⟩

theorem usage_kept {action : Action} {id : WorkspaceId} (same : SameUsage system (next system action)) :
    ¬DeletesData system action id := by
  intro deletes
  have kept := same id
  have less := deletes.2
  omega

theorem deletes_while_deleting {action : Action} {id : WorkspaceId}
    (deletes : DeletesData system action id) :
    ∃ now todo started, system.sweep = .deleting now todo id started true := by
  by_contra elsewhere
  apply absurd deletes
  by_cases outside : ∃ other workspace, action = .outside other workspace
  next =>
    obtain ⟨other, workspace, rfl⟩ := outside
    exact fun taken => taken.1 other workspace rfl
  next =>
    by_cases chunk : ∃ memories bytes now todo other started,
        action = .deleteChunk memories bytes ∧ system.sweep = .deleting now todo other started true
    next =>
      obtain ⟨memories, bytes, now, todo, other, started, rfl, here⟩ := chunk
      have different : id ≠ other := by
        intro same
        exact elsewhere ⟨now, todo, started, by rw [same, here]⟩
      intro taken
      have less := taken.2
      simp [next, here, System.put, different] at less
    next =>
      apply usage_kept
      unfold next
      split
      next => exact fun _ => ⟨rfl, rfl⟩
      next => exact absurd ⟨_, _, rfl⟩ outside
      next => exact fun _ => ⟨rfl, rfl⟩
      next => exact fun _ => ⟨rfl, rfl⟩
      next now id todo _ =>
        split
        next => exact fun _ => ⟨rfl, rfl⟩
        next => exact stampStep_usage _ _ _ _
      next => exact fun _ => ⟨rfl, rfl⟩
      next => exact noticeStep_usage _ _ _ _
      next => exact fun _ => ⟨rfl, rfl⟩
      next => exact purgeStep_usage _ _ _ _
      next => exact fun _ => ⟨rfl, rfl⟩
      next =>
        split
        next => exact fun _ => ⟨rfl, rfl⟩
        next => exact endPurge_usage _ _ _ _
      next here => exact absurd ⟨_, _, _, _, _, _, rfl, here⟩ chunk
      next => exact endPurge_usage _ _ _ _
      next => exact fun _ => ⟨rfl, rfl⟩
      next => exact fun _ => ⟨rfl, rfl⟩

-- How a purge comes to delete: it was deleting, or it has just re-read the lock.
theorem next_deleting {action : Action} {now started : Time} {todo : List WorkspaceId}
    {id : WorkspaceId} {approved : Bool}
    (deleting : (next system action).sweep = .deleting now todo id started approved) :
    (∃ earlier, system.sweep = .deleting now todo id started earlier) ∨
      (action = .purgeCheck true ∧ system.sweep = .purging now (id :: todo) ∧
        (capacityLockState (system.workspaces id)).isSome ∧ system.clock = started) := by
  unfold next at deleting
  split at deleting
  next => exact .inl ⟨approved, deleting⟩
  next => exact .inl ⟨approved, deleting⟩
  next => cases deleting
  next => cases deleting
  next =>
    split at deleting
    next => cases deleting
    next => cases deleting
  next => cases deleting
  next =>
    unfold noticeStep at deleting
    simp only at deleting
    repeat' split at deleting
    all_goals cases deleting
  next => cases deleting
  next commit now' id' todo' here =>
    unfold purgeStep at deleting
    simp only at deleting
    repeat' split at deleting
    all_goals cases deleting
    next committed _ _ locked _ =>
      rw [committed]
      refine .inr ⟨rfl, here, ?_, rfl⟩
      simpa [Option.isNone_iff_eq_none, Option.isSome_iff_ne_none] using locked
  next => cases deleting
  next here =>
    split at deleting
    next =>
      cases deleting
      exact .inl ⟨false, here⟩
    next =>
      unfold endPurge at deleting
      split at deleting
      all_goals cases deleting
  next here =>
    cases deleting
    exact .inl ⟨true, here⟩
  next =>
    unfold endPurge at deleting
    split at deleting
    all_goals cases deleting
  next => cases deleting
  next => exact .inl ⟨approved, deleting⟩

theorem run_append (actions later : List Action) :
    run system (actions ++ later) = run (run system actions) later :=
  List.foldl_append

-- The part of a run that led to this deletion: the re-check that found the workspace over its cap,
-- and from there on nothing but the deletion it started.
structure StartedBy (system : System) (earlier later : List Action) (now : Time)
    (todo : List WorkspaceId) (id : WorkspaceId) : Prop where
  purging : (run system earlier).sweep = .purging now (id :: todo)
  overCap : (capacityLockState ((run system earlier).workspaces id)).isSome
  deleting : ∀ done rest, later = done ++ rest → ∃ approved,
    (run system (earlier ++ .purgeCheck true :: done)).sweep =
      .deleting now todo id (run system earlier).clock approved

theorem run_deleting (idle : system.sweep = .idle) (actions : List Action) {now started : Time}
    {todo : List WorkspaceId} {id : WorkspaceId} {approved : Bool}
    (deleting : (run system actions).sweep = .deleting now todo id started approved) :
    ∃ earlier later, actions = earlier ++ .purgeCheck true :: later ∧
      (run system earlier).clock = started ∧ StartedBy system earlier later now todo id := by
  induction actions using List.reverseRecOn generalizing approved with
  | nil =>
    rw [show run system [] = system from rfl, idle] at deleting
    cases deleting
  | append_singleton actions action ih =>
    have last : (next (run system actions) action).sweep =
        .deleting now todo id started approved := by
      rw [run_append] at deleting
      exact deleting
    rcases next_deleting last with ⟨before, still⟩ | ⟨check, purging, overCap, clock⟩
    next =>
      obtain ⟨earlier, later, cut, clock, startedBy⟩ := ih still
      refine ⟨earlier, later ++ [action], by simp [cut], clock, startedBy.purging,
        startedBy.overCap, ?_⟩
      intro done rest whole
      rcases List.eq_nil_or_concat rest with none | ⟨front, final, some⟩
      next =>
        rw [none, List.append_nil] at whole
        rw [← whole, ← List.cons_append, ← List.append_assoc, ← cut, clock]
        exact ⟨approved, deleting⟩
      next =>
        rw [some, List.concat_eq_append, ← List.append_assoc] at whole
        exact startedBy.deleting done front (List.append_inj_left' whole rfl)
    next =>
      refine ⟨actions, [], by rw [check], clock, purging, overCap, ?_⟩
      intro done rest whole
      obtain ⟨rfl, _⟩ := List.nil_eq_append_iff.mp whole
      rw [← check, clock]
      exact ⟨approved, deleting⟩

def Fresh (system : System) : Prop :=
  system.sweep = .idle ∧ system.history = [] ∧
    ∀ id, (system.workspaces id).lockedSince = none ∧
      (system.workspaces id).firstNoticeAt = none ∧ (system.workspaces id).finalNoticeAt = none

theorem fresh_sound (fresh : Fresh system) : Sound system := by
  obtain ⟨idle, unwritten, columns⟩ := fresh
  refine ⟨?_, ?_, ?_⟩
  · intro id
    obtain ⟨stamp, first, final⟩ := columns id
    exact ⟨by simp [rowEvents, stamp, first, final], fun _ => first, fun _ => final⟩
  · intro now is
    rw [idle] at is
    cases is
  · intro now todo id started approved is
    rw [idle] at is
    cases is

theorem purgeDue_dates {workspace : Workspace} {now : Time} (isDue : purgeDue workspace now = true) :
    ∃ since first final, workspace.lockedSince = some since ∧
      workspace.firstNoticeAt = some first ∧ workspace.finalNoticeAt = some final ∧
      day since + 30 ≤ day now ∧ day first + 7 ≤ day now ∧ day final + 1 ≤ day now ∧
      day first + 6 ≤ day final := by
  simp only [purgeDue, warned, Bool.and_eq_true] at isDue
  obtain ⟨expired, ⟨valid, given⟩, longEnough⟩ := isDue
  cases stamp : workspace.lockedSince with
  | none => simp [lockExpired, stamp] at expired
  | some since =>
    cases firstly : workspace.firstNoticeAt with
    | none => simp [warnedLongEnough, firstly] at longEnough
    | some first =>
      cases finally_ : workspace.finalNoticeAt with
      | none => simp [finalNoticeGiven, finally_] at given
      | some final =>
        simp [lockExpired, stamp, daysBetween, purgeAfterDays] at expired
        simp [warnedLongEnough, firstly, daysBetween, minWarningDays] at longEnough
        simp [finalNoticeGiven, finally_, daysBetween] at given
        simp [validFinalNotice, firstly, finally_, daysBetween, minWarningDays] at valid
        exact ⟨since, first, final, rfl, rfl, rfl, by omega, by omega, by omega, by omega⟩

theorem day_mono {earlier later : Time} (order : earlier ≤ later) : day earlier ≤ day later :=
  Nat.div_le_div_right order

theorem purge_deletes_warned (start : System) (fresh : Fresh start) (actions : List Action)
    (action : Action) (id : WorkspaceId) (deletes : DeletesData (run start actions) action id) :
    ∃ since first final now todo earlier later,
      ((run start actions).workspaces id).lockedSince = some since ∧
      ((run start actions).workspaces id).firstNoticeAt = some first ∧
      ((run start actions).workspaces id).finalNoticeAt = some final ∧
      [.stamped id since, .firstNotice id first, .finalNotice id final].Sublist
        (sinceCleared (run start actions).history id) ∧
      day since + 30 ≤ day (run start actions).clock ∧
      day first + 7 ≤ day (run start actions).clock ∧
      day final < day (run start actions).clock ∧
      day first + 6 ≤ day final ∧
      actions = earlier ++ .purgeCheck true :: later ∧
      StartedBy start earlier later now todo id := by
  have sound : Sound (run start actions) := run_sound (fresh_sound fresh) actions
  obtain ⟨now, todo, started, deleting⟩ := deletes_while_deleting deletes
  obtain ⟨earlier, later, cut, _, startedBy⟩ := run_deleting fresh.1 actions deleting
  have isDue := sound.due _ _ _ _ _ deleting
  obtain ⟨since, first, final, stamp, firstly, finally_, grace, lead, apart, gap⟩ :=
    purgeDue_dates isDue
  have clock : day now ≤ day (run start actions).clock :=
    day_mono (sound.clock now (by rw [deleting]; rfl))
  have listed := (sound.recorded id).listed
  simp only [rowEvents, stamp, firstly, finally_, Option.toList_some, List.map_cons, List.map_nil,
    List.cons_append, List.nil_append] at listed
  exact ⟨since, first, final, now, todo, earlier, later, stamp, firstly, finally_, listed,
    by omega, by omega, by omega, gap, cut, startedBy⟩

def crowded : System :=
  { clock := 0
    ids := [1]
    workspaces := fun _ =>
      { present := true, deleted := false, planFree := true, externalBilling := true
        memoryLimit := 10, storageLimit := 100, memoryCount := 3, usedBytes := 150
        ownerDeletedAt := none, lockedSince := none, firstNoticeAt := none, finalNoticeAt := none }
    sweep := .idle
    history := [] }

def sentNotice : Action := .notice ⟨true, true, .claimed, .delivered, .done⟩
def claimedBefore : Action := .notice ⟨true, true, .taken, .delivered, .done⟩

-- Stamped and first warned on day 0, last warned on day 29, the purge opened on day 30.
def purgeOpened : List Action :=
  [.start, .stamp (some true), .nextPass true, sentNotice, .nextPass true, .nextPass true,
    .tick (29 * 86400), .start, .stamp (some true), .nextPass true, sentNotice, .nextPass true,
    .nextPass true, .tick 86400, .start, .stamp (some true), .nextPass true, claimedBefore,
    .nextPass true, .purgeCheck true]

theorem crowded_fresh : Fresh crowded := ⟨rfl, rfl, fun _ => ⟨rfl, rfl, rfl⟩⟩

def purgeAllowed : List Action := purgeOpened ++ [.askContinue true]

theorem purgeAllowed_deletes : DeletesData (run crowded purgeAllowed) (.deleteChunk 1 0) 1 := by
  refine ⟨by simp, .inl ?_⟩
  decide +kernel

theorem purge_deletes_warned_crowded :
    DeletesData (run crowded purgeAllowed) (.deleteChunk 1 0) 1 ∧
      ((run crowded purgeAllowed).workspaces 1).lockedSince.isSome := by
  obtain ⟨_, _, _, _, _, _, _, stamp, _⟩ :=
    purge_deletes_warned crowded crowded_fresh purgeAllowed (.deleteChunk 1 0) 1 purgeAllowed_deletes
  refine ⟨purgeAllowed_deletes, ?_⟩
  rw [stamp]
  rfl

-- The owner deletes files, which does not stop the purge.
def filesDeleted (workspace : Workspace) : Workspace := { workspace with usedBytes := 20 }

def cleanedUp : List Action :=
  purgeOpened ++ [.outside 1 (filesDeleted (crowded.workspaces 1)), .askContinue true]

theorem purge_deletes_within_cap :
    Fresh crowded ∧ DeletesData (run crowded cleanedUp) (.deleteChunk 1 0) 1 ∧
      capacityLockState ((run crowded cleanedUp).workspaces 1) = none := by
  refine ⟨crowded_fresh, ⟨by simp, .inl ?_⟩, ?_⟩
  · decide +kernel
  · decide +kernel

end Deletion

end MemoryCloud.Purge
