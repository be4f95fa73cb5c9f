import MemoryCloud.Provenance.Residue

set_option autoImplicit false

/-!
# The true writers

A run followed forward knows who wrote each key of each state. Replay, which reads the log
alone, names the same members.
-/

namespace MemoryCloud.Provenance

open Versions

variable {K J G : Type} [LinearOrder K] [DecidableEq J] [DecidableEq G]

inductive MemberEdit (K J : Type) [LinearOrder K] where
  | api (actor : UserId) (details : Details K J)
  | other
  | putBack (actor : UserId) (stamp : Nat)
  | erase (subject pseudonym : UserId) (erasedActors : List UserId)

structure Witnessed (K J G : Type) [LinearOrder K] where
  log : DetailsLog K J G
  writers : Nat → K → Option UserId

section Following

variable (digest : K → G)

-- The state the erasure took the value of a key from; none for a key it carries.
def revertedFrom (log : DetailsLog K J G) (subject : UserId) (erased : List UserId) (key : K) :
    Option Nat :=
  ((walks digest (log.run digest subject erased) subject erased).find?
    fun walked => decide (walked.1.key = key)).map (·.2)

def Witnessed.created (memoryId : MemoryId) (author : UserId) (details : Details K J) :
    Witnessed K J G :=
  ⟨DetailsLog.created memoryId author details, fun _ _ => some author⟩

def Witnessed.next (witnessed : Witnessed K J G) (after : DetailsLog K J G)
    (writers : K → Option UserId) : Witnessed K J G :=
  ⟨after, Function.update witnessed.writers (witnessed.log.edits.length + 1) writers⟩

def Witnessed.step (witnessed : Witnessed K J G) : MemberEdit K J → Witnessed K J G
  | .api actor details =>
      let live := witnessed.log.edits.length
      witnessed.next (apiEdit witnessed.log actor details) fun key =>
        if (keysOf (some details)).get? key = witnessed.log.valueAt live key then
          witnessed.writers live key
        else some actor
  | .other => ⟨otherEdit witnessed.log, witnessed.writers⟩
  | .putBack actor stamp =>
      witnessed.next (putBack witnessed.log actor stamp) fun key =>
        witnessed.writers (pre (witnessed.log.edits.map (·.version)) stamp
          witnessed.log.edits.length) key
  | .erase subject pseudonym erasedActors =>
      -- a memory the subject authored is stripped whole instead
      if witnessed.log.author = subject then witnessed
      else
        witnessed.next (eraseSubjectDetails digest witnessed.log subject pseudonym erasedActors)
          fun key => witnessed.writers ((revertedFrom digest witnessed.log subject
            (subject :: erasedActors) key).getD witnessed.log.edits.length) key

def Witnessed.run (witnessed : Witnessed K J G) (edits : List (MemberEdit K J)) :
    Witnessed K J G :=
  edits.foldl (Witnessed.step digest) witnessed

def Agrees (log : DetailsLog K J G) (writers : Nat → K → Option UserId) : Prop :=
  ∀ i ≤ log.edits.length, ∀ key origin, log.origins digest i key = some origin →
    ∃ writer, origin.actor = some writer ∧ writers i key = some writer

end Following

section Steps

variable {digest : K → G} {log after : DetailsLog K J G} {row : DetailsEdit K J G}
  {writers : Nat → K → Option UserId}

theorem Agrees.beyond (old : Agrees digest log writers) {n : Nat} (high : log.edits.length < n)
    (new : K → Option UserId) : Agrees digest log (Function.update writers n new) := by
  intro i known key origin held
  rw [Function.update_of_ne (show i ≠ n by omega)]
  exact old i known key origin held

theorem Appends.agrees (appends : Appends log row after) (old : Agrees digest log writers)
    {new : K → Option UserId}
    (last : ∀ key origin, after.origins digest (log.edits.length + 1) key = some origin →
      ∃ writer, origin.actor = some writer ∧ new key = some writer) :
    Agrees digest after (Function.update writers (log.edits.length + 1) new) := by
  intro i known key origin held
  have size : after.edits.length = log.edits.length + 1 := by simp [appends.edits]
  rcases Nat.lt_or_eq_of_le known with below | is
  next =>
    rw [Function.update_of_ne (show i ≠ log.edits.length + 1 by omega)]
    rw [appends.origins (by omega)] at held
    exact old i (by omega) key origin held
  next =>
    rw [is, size] at held ⊢
    rw [Function.update_self]
    exact last key origin held

theorem Stripped.agrees {subject pseudonym : UserId}
    (stripped : Stripped digest subject pseudonym log after) (old : Agrees digest log writers) :
    Agrees digest after writers := by
  intro i known key origin held
  rw [stripped.length] at known
  rw [stripped.origins known, Option.filter_eq_some_iff] at held
  exact old i known key origin held.1

theorem api_agrees (old : Agrees digest log writers) (actor : UserId) (details : Details K J) :
    Agrees digest (apiEdit log actor details)
      (Function.update writers (log.edits.length + 1) fun key =>
        if (keysOf (some details)).get? key = log.valueAt log.edits.length key then
          writers log.edits.length key
        else some actor) := by
  rcases apiEdit_cases log actor details with ⟨is, _⟩ | ⟨appends, live⟩
  next =>
    rw [is]
    exact old.beyond (Nat.lt_succ_self _) _
  next =>
    apply appends.agrees old
    intro key origin held
    rw [appends.last, live] at held
    obtain ⟨value, written, rfl⟩ := Option.map_eq_some_iff.mp held
    by_cases same : log.valueAt log.edits.length key = some value
    next =>
      obtain ⟨origin, older⟩ := origin_of_value digest (Nat.le_refl _) same
      obtain ⟨writer, named, known⟩ := old _ (Nat.le_refl _) key origin older
      rw [attributeKey_kept rfl ((lookIn_value same).trans older), if_pos (written.trans same.symm)]
      exact ⟨writer, named, known⟩
    next =>
      rw [attributeKey_new rfl (lookIn_other same),
        if_neg fun is => same (is.symm.trans written)]
      exact ⟨actor, rfl, rfl⟩

theorem putBack_agrees (old : Agrees digest log writers) (actor : UserId) (stamp : Nat) :
    Agrees digest (putBack log actor stamp)
      (Function.update writers (log.edits.length + 1) fun key =>
        writers (pre (log.edits.map (·.version)) stamp log.edits.length) key) := by
  unfold putBack
  cases below : stateAt log.states (pre (log.edits.map (·.version)) stamp log.edits.length) with
  | none => exact old.beyond (Nat.lt_succ_self _) _
  | some details =>
    rcases putBackDetails_cases log actor stamp details with ⟨is, _⟩ | ⟨appends, live⟩
    next =>
      simp only
      rw [is]
      exact old.beyond (Nat.lt_succ_self _) _
    next =>
      apply appends.agrees old
      intro key origin held
      rw [appends.last, live] at held
      obtain ⟨value, written, rfl⟩ := Option.map_eq_some_iff.mp held
      have there : log.valueAt (pre (log.edits.map (·.version)) stamp log.edits.length) key =
          some value := by
        rw [DetailsLog.valueAt, below]
        exact written
      have low : pre (log.edits.map (·.version)) stamp log.edits.length ≤ log.edits.length :=
        Nat.min_le_right _ _
      obtain ⟨origin, older⟩ := origin_of_value digest low there
      obtain ⟨writer, named, known⟩ := old _ low key origin older
      have is : attributeKey (lookIn log.states (log.origins digest) key value)
          (log.putBackRow actor stamp) log.edits.length (some log.edits.length) _ false false =
          origin :=
        attributeKey_rolledBack rfl ((lookIn_value there).trans older)
      exact ⟨writer, (congrArg Origin.actor is).trans named, known⟩

theorem erase_agrees (injective : Function.Injective digest) (old : Agrees digest log writers)
    {subject : UserId} (pseudonym : UserId) (notAuthor : log.author ≠ subject)
    (erasedActors : List UserId) :
    Agrees digest (eraseSubjectDetails digest log subject pseudonym erasedActors)
      (Function.update writers (log.edits.length + 1) fun key =>
        writers ((revertedFrom digest log subject (subject :: erasedActors) key).getD
          log.edits.length) key) := by
  have cleaned : Agrees digest (log.cleaned digest subject pseudonym (subject :: erasedActors))
      writers := cleaned_stripped.agrees old
  rcases erase_cases digest pseudonym notAuthor erasedActors with
    ⟨_, _, is⟩ | ⟨revert, reverts, _, appends, live⟩
  next =>
    rw [is]
    exact cleaned.beyond (by rw [cleaned_length]; exact Nat.lt_succ_self _) _
  next =>
    have size : (log.cleaned digest subject pseudonym (subject :: erasedActors)).edits.length =
        log.edits.length := cleaned_length
    rw [← size]
    apply appends.agrees cleaned
    intro key origin held
    rw [size] at held ⊢
    rw [reverts.origins injective notAuthor (by simp) appends live] at held
    rw [revertedFrom, walks_eq, find_walked notAuthor key _ fun _ listed => listed]
    by_cases mine : key ∈ log.written digest subject (subject :: erasedActors) log.edits.length
    next =>
      rw [if_pos mine] at held ⊢
      obtain ⟨latest, walked, j, _, _, walk, path, later, low, _⟩ := walk_stops notAuthor mine
      have lower : j ≤ latest.state - 1 := descends_le (by omega) path
      rw [walk, Option.bind_some] at held
      rw [walk]
      obtain ⟨value, _, source⟩ := Option.bind_eq_some_iff.mp held
      exact old j (by omega) key origin source
    next =>
      rw [if_neg mine] at held ⊢
      exact old _ (Nat.le_refl _) key origin held

theorem step_agrees (injective : Function.Injective digest) {witnessed : Witnessed K J G}
    (old : Agrees digest witnessed.log witnessed.writers) (edit : MemberEdit K J) :
    Agrees digest (witnessed.step digest edit).log (witnessed.step digest edit).writers := by
  cases edit with
  | api actor details => exact api_agrees old actor details
  | other => exact old
  | putBack actor stamp => exact putBack_agrees old actor stamp
  | erase subject pseudonym erasedActors =>
    rw [Witnessed.step]
    split
    next => exact old
    next notAuthor => exact erase_agrees injective old pseudonym notAuthor erasedActors

end Steps

section Runs

variable {digest : K → G}

theorem created_agrees (memoryId : MemoryId) (author : UserId) (details : Details K J) :
    Agrees digest (DetailsLog.created memoryId author details) fun _ _ => some author := by
  intro i known key origin held
  have first : i = 0 := Nat.le_zero.mp known
  subst first
  exact ⟨author, (origin_names known held).first (Nat.le_zero.mp (origin_names known held).low), rfl⟩

theorem run_agrees (injective : Function.Injective digest) {witnessed : Witnessed K J G}
    (old : Agrees digest witnessed.log witnessed.writers) (edits : List (MemberEdit K J)) :
    Agrees digest (witnessed.run digest edits).log (witnessed.run digest edits).writers := by
  induction edits generalizing witnessed with
  | nil => exact old
  | cons edit rest ih => exact ih (step_agrees injective old edit)

variable {log : DetailsLog K J G} {writers : Nat → K → Option UserId}

theorem Agrees.reverts (agrees : Agrees digest log writers) {subject : UserId}
    {erasedActors : List UserId} (notAuthor : log.author ≠ subject)
    {revert : MemoryRevert K J G}
    (planned : revert ∈ (planErasure digest log subject erasedActors).reverts) :
    (∀ key, (keysOf (some revert.result)).get? key ≠ (keysOf (some log.live)).get? key →
      ((keysOf (some log.live)).get? key).isSome = true ∧
        writers log.edits.length key = some subject) ∧
    ∀ put ∈ revert.reverts, ∀ value, put.target = some value → ∃ j writer,
      revertedFrom digest log subject (subject :: erasedActors) put.key = some j ∧
        log.valueAt j put.key = some value ∧ writers j put.key = some writer ∧
        writer ∉ subject :: erasedActors := by
  have reverts := planned_reverts notAuthor planned
  constructor
  next =>
    intro key differs
    rw [reverts.get? notAuthor] at differs
    have mine : key ∈ log.written digest subject (subject :: erasedActors) log.edits.length := by
      by_contra carried
      rw [if_neg carried] at differs
      exact differs rfl
    have held := written_held (Nat.le_refl _) mine
    rw [DetailsLog.valueAt, stateAt_live] at held
    obtain ⟨origin, from_, own⟩ := (mem_written _ (Nat.le_refl _)).mp mine
    obtain ⟨writer, named, known⟩ := agrees _ (Nat.le_refl _) key origin from_
    rw [own] at named
    exact ⟨held, named ▸ known⟩
  next =>
    intro put listed value target
    rw [reverts.rows] at listed
    obtain ⟨⟨_, j⟩, walkedTo, rfl⟩ := List.mem_map.mp listed
    obtain ⟨key, mine, found⟩ := List.mem_filterMap.mp walkedTo
    obtain ⟨latest, walked, last, _, _, walk, path, later, low, stops⟩ := walk_stops notAuthor mine
    rw [walk] at found
    cases found
    have lower : j ≤ latest.state - 1 := descends_le (by omega) path
    obtain ⟨there, kept⟩ := stops.found value target
    obtain ⟨origin, from_⟩ := origin_of_value digest (by omega) there
    obtain ⟨writer, named, known⟩ := agrees j (by omega) key origin from_
    have surviving := kept origin from_
    rw [wroteErased, named] at surviving
    refine ⟨j, writer, ?_, ?_, ?_, by simpa using surviving⟩
    · rw [revertedFrom, walks_eq, find_walked notAuthor _ _ fun _ listed => listed, stops.named,
        if_pos mine, walk]
      rfl
    · rw [stops.named]
      exact there
    · rw [stops.named]
      exact known

theorem replay_sound (injective : Function.Injective digest) (memoryId : MemoryId)
    (author : UserId) (details : Details K J) (edits : List (MemberEdit K J)) :
    let reached := (Witnessed.created memoryId author details).run digest edits
    (∀ (reader : UserId) (erased : List UserId) (i : Nat) (key : K),
      (reached.log.valueAt i key).isSome = true → ∃ origin writer,
        originIn (replay digest reached.log.edits reached.log.live reached.log.author reader
          erased).writers i key = some origin ∧
        origin.actor = some writer ∧ reached.writers i key = some writer) ∧
    ∀ (subject : UserId) (erasedActors : List UserId), reached.log.author ≠ subject →
      ∀ revert ∈ (planErasure digest reached.log subject erasedActors).reverts,
        (∀ key, (keysOf (some revert.result)).get? key ≠
            (keysOf (some reached.log.live)).get? key →
          ((keysOf (some reached.log.live)).get? key).isSome = true ∧
            reached.writers reached.log.edits.length key = some subject) ∧
        ∀ put ∈ revert.reverts, ∀ value, put.target = some value → ∃ j writer,
          revertedFrom digest reached.log subject (subject :: erasedActors) put.key = some j ∧
            reached.log.valueAt j put.key = some value ∧
            reached.writers j put.key = some writer ∧ writer ∉ subject :: erasedActors := by
  intro reached
  have agrees : Agrees digest reached.log reached.writers :=
    run_agrees injective (created_agrees memoryId author details) edits
  constructor
  next =>
    intro reader erased i key there
    have known := valueAt_bound there
    obtain ⟨value, is⟩ := Option.isSome_iff_exists.mp there
    obtain ⟨origin, held⟩ := origin_of_value digest known is
    obtain ⟨writer, named, true_⟩ := agrees i known key origin held
    rw [← origin_plain reader erased known] at held
    obtain ⟨marked, found, rfl⟩ := Option.map_eq_some_iff.mp held
    exact ⟨marked, writer, found, named, true_⟩
  next =>
    intro subject erasedActors notAuthor revert planned
    exact agrees.reverts notAuthor planned

end Runs

-- Member 2 rewrites the creation value, 3 adds a key, a rollback goes back below both, 2 writes
-- again and is erased.
def rewrittenTwice : List (MemberEdit Nat Nat) :=
  [.api 2 (some (oneKey 20)), .api 3 (some (twoKeys 20 5)), .putBack 3 2,
    .api 2 (some (oneKey 30)), .erase 2 9 []]

theorem replay_sound_rewrittenTwice :
    let reached := (Witnessed.created 1 1 (some (oneKey 10))).run id rewrittenTwice
    reached.log.edits.length = 5 ∧ reached.writers 5 1 = some 1 ∧ ∃ origin writer,
      originIn (replay id reached.log.edits reached.log.live reached.log.author 3 []).writers 5 1 =
        some origin ∧ origin.actor = some writer ∧ reached.writers 5 1 = some writer :=
  ⟨by decide, by decide,
    (replay_sound Function.injective_id 1 1 (some (oneKey 10)) rewrittenTwice).1 3 [] 5 1
      (by decide)⟩

end MemoryCloud.Provenance
