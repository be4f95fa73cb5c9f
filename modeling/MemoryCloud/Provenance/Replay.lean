import MemoryCloud.Provenance.Model

set_option autoImplicit false

/-!
# What replay computes

The writers of a state follow from the states and the rows below it; neither the subject
nor the other erased members matter, except for the `ambiguous` mark.
-/

namespace MemoryCloud.Provenance

open Versions

variable {K J G : Type} [LinearOrder K] [DecidableEq J] [DecidableEq G]

def Origin.plain (origin : Origin) : Origin := { origin with ambiguous := false }

def lookIn (states : List (State K J)) (origins : Nat → K → Option Origin) (key : K) (value : J)
    (j : Nat) : Option Origin :=
  if holds (stateAt states j) key value then origins j key else none

def carriesFirst (states : List (State K J)) (edit : DetailsEdit K J G) (i : Nat) : Bool :=
  decide (edit.writer = .erasure) && (stateAt states i).isSome

-- The origins of every key in every state, by the rules of `replay`.
structure Traced (digest : K → G) (edits : List (DetailsEdit K J G)) (states : List (State K J))
    (author : UserId) (origins : Nat → K → Option Origin) : Prop where
  zero : ∀ key, origins 0 key =
    ((keysOf (stateAt states 0)).get? key).map fun _ => ⟨some author, 1, 0, false⟩
  succ : ∀ i edit, edits[i]? = some edit → ∀ key, origins (i + 1) key =
    ((keysOf (stateAt states (i + 1))).get? key).map fun value =>
      attributeKey (lookIn states origins key value) edit i (lastKnown states i)
        (preOf digest edits edit i key) (carriesFirst states edit i) false

section Attribution

theorem findSome?_congr {α β : Type} {look look' : α → Option β} {places : List α}
    (same : ∀ place ∈ places, look place = look' place) :
    places.findSome? look = places.findSome? look' := by
  induction places with
  | nil => rfl
  | cons place rest ih =>
    rw [List.findSome?_cons, List.findSome?_cons, same place (by simp),
      ih fun other listed => same other (by simp [listed])]

variable {edit : DetailsEdit K J G} {i : Nat} {last pre : Option Nat} {carriedFirst : Bool}

omit [DecidableEq J] [DecidableEq G] in
theorem attributeKey_congr {look look' : Nat → Option Origin} (ambiguous : Bool)
    (lastBound : ∀ j ∈ last, j ≤ i) (preBound : ∀ j ∈ pre, j ≤ i)
    (same : ∀ j ≤ i, look j = look' j) :
    attributeKey look edit i last pre carriedFirst ambiguous =
      attributeKey look' edit i last pre carriedFirst ambiguous := by
  have bindSame : ∀ at_ : Option Nat, (∀ j ∈ at_, j ≤ i) → at_.bind look = at_.bind look' := by
    intro at_ bound
    cases at_ with
    | none => rfl
    | some j => exact same j (bound j rfl)
  have lastSame := bindSame last lastBound
  have preSame := bindSame pre preBound
  have rangeSame : (List.range (i + 1)).reverse.findSome? look =
      (List.range (i + 1)).reverse.findSome? look' := by
    apply findSome?_congr
    intro j listed
    rw [List.mem_reverse, List.mem_range] at listed
    exact same j (by omega)
  have orderSame : (if carriedFirst then [last, pre] else [pre, last]).findSome?
      (fun j => j.bind look) =
      (if carriedFirst then [last, pre] else [pre, last]).findSome? fun j => j.bind look' := by
    cases carriedFirst <;> simp [List.findSome?_cons, lastSame, preSame]
  simp only [attributeKey, lastSame, orderSame, rangeSame]

omit [DecidableEq J] [DecidableEq G] in
theorem attributeKey_plain (look : Nat → Option Origin) (ambiguous : Bool) :
    (attributeKey look edit i last pre carriedFirst ambiguous).plain =
      attributeKey (fun j => (look j).map Origin.plain) edit i last pre carriedFirst false := by
  have bindPlain : ∀ at_ : Option Nat,
      (at_.bind fun j => (look j).map Origin.plain) = (at_.bind look).map Origin.plain := by
    intro at_
    cases at_ <;> rfl
  have searchPlain : (List.range (i + 1)).reverse.findSome? (fun j => (look j).map Origin.plain) =
      ((List.range (i + 1)).reverse.findSome? look).map Origin.plain :=
    List.map_findSome?.symm
  have orderPlain : ∀ order : List (Option Nat),
      order.findSome? (fun j => (j.bind look).map Origin.plain) =
        (order.findSome? fun j => j.bind look).map Origin.plain :=
    fun order => List.map_findSome?.symm
  unfold attributeKey
  simp only [bindPlain, orderPlain, searchPlain]
  split
  next =>
    cases last.bind look with
    | none => rfl
    | some origin => rfl
  next =>
    cases (if carriedFirst then [last, pre] else [pre, last]).findSome? fun j => j.bind look with
    | some origin => rfl
    | none =>
      cases (List.range (i + 1)).reverse.findSome? look with
      | some origin => rfl
      | none => rfl

theorem findSome?_filter {α β : Type} {keep : β → Bool} (look : α → Option β) {places : List α}
    (kept : ∀ found, places.findSome? look = some found → keep found = true) :
    places.findSome? (fun place => (look place).filter keep) = places.findSome? look := by
  induction places with
  | nil => rfl
  | cons place rest ih =>
    rw [List.findSome?_cons, List.findSome?_cons]
    cases here : look place with
    | none =>
      simp only [Option.filter_none]
      exact ih fun found later => kept found (by rw [List.findSome?_cons, here]; exact later)
    | some origin =>
      have keeps := kept origin (by rw [List.findSome?_cons, here])
      simp [Option.filter, keeps]

section Rules

variable {look : Nat → Option Origin} {origin : Origin}

omit [DecidableEq J] [DecidableEq G]

theorem attributeKey_kept (api : edit.putBack = false) (found : look i = some origin) :
    attributeKey look edit i (some i) pre carriedFirst false = origin := by
  simp [attributeKey, api, found]

theorem attributeKey_new (api : edit.putBack = false) (missing : look i = none) :
    attributeKey look edit i (some i) pre carriedFirst false =
      ⟨some edit.actorUserId, edit.version, i + 1, false⟩ := by
  simp [attributeKey, api, missing]

theorem attributeKey_carried (putBack : edit.putBack = true) (found : look i = some origin) :
    attributeKey look edit i (some i) pre true false = origin := by
  simp [attributeKey, putBack, found]

theorem attributeKey_reverted {j : Nat} (putBack : edit.putBack = true) (missing : look i = none)
    (found : look j = some origin) :
    attributeKey look edit i (some i) (some j) true false = origin := by
  simp [attributeKey, putBack, missing, found]

theorem attributeKey_rolledBack {j : Nat} (putBack : edit.putBack = true)
    (found : look j = some origin) : attributeKey look edit i last (some j) false false = origin := by
  simp [attributeKey, putBack, found]

end Rules

end Attribution

section Bounds

variable {states : List (State K J)}

omit [DecidableEq J] in
theorem lastKnown_le {i j : Nat} (known : lastKnown states i = some j) : j ≤ i := by
  induction i with
  | zero =>
    unfold lastKnown at known
    split at known
    next =>
      cases known
      exact Nat.le_refl _
    next => cases known
  | succ i ih =>
    unfold lastKnown at known
    split at known
    next =>
      cases known
      exact Nat.le_refl _
    next => exact Nat.le_succ_of_le (ih known)

omit [DecidableEq J] in
theorem preOf_le {digest : K → G} {edits : List (DetailsEdit K J G)} {edit : DetailsEdit K J G}
    {i j : Nat} {key : K} (found : preOf digest edits edit i key = some j) : j ≤ i := by
  obtain ⟨version, _, rfl⟩ := Option.map_eq_some_iff.mp found
  exact Nat.min_le_right _ _

end Bounds

section Existence

variable {digest : K → G} {edits : List (DetailsEdit K J G)} {states : List (State K J)}
  {author : UserId}

-- The rules leave no choice.
theorem Traced.unique {first second : Nat → K → Option Origin}
    (left : Traced digest edits states author first)
    (right : Traced digest edits states author second) {i : Nat} (known : i ≤ edits.length) :
    first i = second i := by
  induction i using Nat.strong_induction_on with
  | _ i ih =>
    funext key
    cases i with
    | zero => rw [left.zero, right.zero]
    | succ i =>
      have listed : edits[i]? = some edits[i] := List.getElem?_eq_getElem (by omega)
      rw [left.succ i _ listed, right.succ i _ listed]
      congr 1
      funext value
      apply attributeKey_congr
      · exact fun j at_ => lastKnown_le at_
      · exact fun j at_ => preOf_le at_
      · intro j below
        simp only [lookIn, ih j (by omega) (by omega)]

theorem replayUpTo_length (subject : UserId) (erased : List UserId) (i : Nat) :
    (replayUpTo digest edits states author subject erased i).length = i + 1 := by
  induction i with
  | zero => rfl
  | succ i ih => simp [replayUpTo, ih]

theorem replayUpTo_at (subject : UserId) (erased : List UserId) {i n : Nat} (within : i ≤ n) :
    writersAt (replayUpTo digest edits states author subject erased n) i =
      writersAt (replayUpTo digest edits states author subject erased i) i := by
  induction n, within using Nat.le_induction with
  | base => rfl
  | succ n within ih =>
    rw [← ih, writersAt, writersAt, replayUpTo, List.getElem?_append_left]
    rw [replayUpTo_length]
    omega

theorem replayUpTo_last (subject : UserId) (erased : List UserId) (i : Nat) :
    writersAt (replayUpTo digest edits states author subject erased (i + 1)) (i + 1) =
      writersAfter digest edits states subject erased
        (replayUpTo digest edits states author subject erased i) i := by
  rw [writersAt, replayUpTo, List.getElem?_append_right (by rw [replayUpTo_length]),
    replayUpTo_length]
  simp

def originIn (writers : List (Writers K)) (i : Nat) (key : K) : Option Origin :=
  (writersAt writers i).bind fun mapping => mapping.get? key

theorem replayUpTo_traced (subject : UserId) (erased : List UserId) {n : Nat}
    (whole : edits.length ≤ n) :
    Traced digest edits states author fun i key =>
      (originIn (replayUpTo digest edits states author subject erased n) i key).map Origin.plain := by
  constructor
  · intro key
    rw [originIn, replayUpTo_at subject erased (Nat.zero_le n)]
    cases start : stateAt states 0 with
    | none => simp [replayUpTo, writersAt, start, keysOf]
    | some state =>
      simp only [replayUpTo, writersAt, start, List.getElem?_cons_zero, Option.map_some,
        Option.join_some, Option.bind_some, Doc.get?_map, Option.map_map]
      rfl
  · intro i edit listed key
    have inside : i < edits.length := (List.getElem?_eq_some_iff.mp listed).1
    rw [originIn, replayUpTo_at subject erased (by omega), replayUpTo_last]
    cases after : stateAt states (i + 1) with
    | none => simp [writersAfter, after, keysOf]
    | some state =>
      simp only [writersAfter, listed, after, Option.bind_some, Doc.get?_map, Option.map_map]
      congr 1
      funext value
      simp only [Function.comp_apply]
      rw [attributeKey_plain]
      apply attributeKey_congr
      · exact fun j at_ => lastKnown_le at_
      · exact fun j at_ => preOf_le at_
      · intro j below
        simp only [fromState, lookIn]
        split
        next =>
          rw [originIn, replayUpTo_at subject erased (show j ≤ n by omega),
            replayUpTo_at subject erased below]
        next => rfl

end Existence

section Logs

variable (digest : K → G) (log : DetailsLog K J G)

def DetailsLog.origins (i : Nat) (key : K) : Option Origin :=
  (originIn (replay digest log.edits log.live log.author log.author []).writers i key).map
    Origin.plain

def DetailsLog.valueAt (i : Nat) (key : K) : Option J := (keysOf (stateAt log.states i)).get? key

theorem DetailsLog.traced :
    Traced digest log.edits log.states log.author (log.origins digest) :=
  replayUpTo_traced log.author [] (Nat.le_refl _)

variable {digest log}

theorem origin_plain (subject : UserId) (erased : List UserId) {i : Nat}
    (known : i ≤ log.edits.length) (key : K) :
    (originIn (replay digest log.edits log.live log.author subject erased).writers i key).map
      Origin.plain = log.origins digest i key := by
  have other : Traced digest log.edits log.states log.author _ :=
    replayUpTo_traced subject erased (Nat.le_refl _)
  exact congrFun (other.unique (log.traced digest) known) key

theorem originIn_bound {subject : UserId} {erased : List UserId} {i : Nat} {key : K}
    {origin : Origin} (held : originIn (replay digest log.edits log.live log.author subject
      erased).writers i key = some origin) : i ≤ log.edits.length := by
  by_contra beyond
  have outside : writersAt (replay digest log.edits log.live log.author subject erased).writers i =
      none := by
    rw [writersAt, List.getElem?_eq_none_iff.mpr]
    · rfl
    · rw [replay, replayUpTo_length]
      omega
  rw [originIn, outside] at held
  cases held

theorem origin_exists {i : Nat} (known : i ≤ log.edits.length) (key : K) :
    (log.origins digest i key).isSome = (log.valueAt i key).isSome := by
  cases i with
  | zero =>
    rw [(log.traced digest).zero, Option.isSome_map]
    rfl
  | succ i =>
    have listed : log.edits[i]? = some log.edits[i] := List.getElem?_eq_getElem (by omega)
    rw [(log.traced digest).succ i _ listed, Option.isSome_map]
    rfl

variable (digest) in
theorem origin_of_value {i : Nat} {key : K} {value : J} (known : i ≤ log.edits.length)
    (there : log.valueAt i key = some value) :
    ∃ origin, log.origins digest i key = some origin := by
  have exists_ : (log.origins digest i key).isSome = (log.valueAt i key).isSome :=
    origin_exists known key
  rw [there, Option.isSome_some] at exists_
  exact Option.isSome_iff_exists.mp exists_

variable (digest) in
theorem origin_of_absent {i : Nat} {key : K} (known : i ≤ log.edits.length)
    (gone : log.valueAt i key = none) : log.origins digest i key = none := by
  have exists_ : (log.origins digest i key).isSome = (log.valueAt i key).isSome :=
    origin_exists known key
  rw [gone, Option.isSome_none, Option.isSome_eq_false_iff, Option.isNone_iff_eq_none] at exists_
  exact exists_

theorem value_of_origin {i : Nat} {key : K} {origin : Origin} (known : i ≤ log.edits.length)
    (held : log.origins digest i key = some origin) : ∃ value, log.valueAt i key = some value := by
  cases there : log.valueAt i key with
  | none =>
    rw [origin_of_absent digest known there] at held
    cases held
  | some value => exact ⟨value, rfl⟩

omit [DecidableEq J] [DecidableEq G] in
theorem valueAt_bound {i : Nat} {key : K} (there : (log.valueAt i key).isSome = true) :
    i ≤ log.edits.length := by
  by_contra beyond
  have outside : stateAt log.states i = none := by
    rw [stateAt, List.getElem?_eq_none_iff.mpr]
    · rfl
    · simp only [DetailsLog.states, List.length_append, List.length_map, List.length_singleton]
      omega
  rw [DetailsLog.valueAt, outside] at there
  cases there

theorem lookIn_value {i : Nat} {key : K} {value : J} (there : log.valueAt i key = some value) :
    lookIn log.states (log.origins digest) key value i = log.origins digest i key := by
  rw [lookIn, holds, if_pos]
  rw [decide_eq_true_eq]
  exact there

theorem lookIn_other {i : Nat} {key : K} {value : J} (other : log.valueAt i key ≠ some value) :
    lookIn log.states (log.origins digest) key value i = none := by
  rw [lookIn, holds, if_neg]
  rw [decide_eq_true_eq]
  exact other

omit [DecidableEq J] [DecidableEq G] in
theorem attributeKey_from (look : Nat → Option Origin) (edit : DetailsEdit K J G) {i : Nat}
    {last pre : Option Nat} (carriedFirst : Bool) (lastBound : ∀ j ∈ last, j ≤ i)
    (preBound : ∀ j ∈ pre, j ≤ i) :
    (∃ j ≤ i, look j = some (attributeKey look edit i last pre carriedFirst false)) ∨
      (edit.putBack = false ∧ attributeKey look edit i last pre carriedFirst false =
        ⟨some edit.actorUserId, edit.version, i + 1, false⟩) ∨
      (edit.putBack = true ∧ attributeKey look edit i last pre carriedFirst false =
        ⟨none, edit.version, i + 1, false⟩) := by
  unfold attributeKey
  split
  next api =>
    have isApi : edit.putBack = false := by simpa using api
    cases found : last.bind look with
    | none => exact .inr (.inl ⟨isApi, rfl⟩)
    | some origin =>
      obtain ⟨j, at_, held⟩ := Option.bind_eq_some_iff.mp found
      exact .inl ⟨j, lastBound j at_, held⟩
  next notApi =>
    have isPutBack : edit.putBack = true := by simpa using notApi
    simp only
    split
    next origin found =>
      obtain ⟨at_, listed, held⟩ := List.exists_of_findSome?_eq_some found
      obtain ⟨j, is, looked⟩ := Option.bind_eq_some_iff.mp held
      refine .inl ⟨j, ?_, looked⟩
      have choice : at_ = last ∨ at_ = pre := by
        split at listed
        next => simpa using listed
        next => simpa [or_comm] using listed
      rcases choice with isLast | isPre
      next => exact lastBound j (isLast ▸ is)
      next => exact preBound j (isPre ▸ is)
    next =>
      split
      next origin found =>
        obtain ⟨j, listed, looked⟩ := List.exists_of_findSome?_eq_some found
        rw [List.mem_reverse, List.mem_range] at listed
        exact .inl ⟨j, by omega, looked⟩
      next => exact .inr (.inr ⟨isPutBack, rfl⟩)

-- Who an origin names: the author of the creation value, the actor of an `api` edit, or nobody.
structure Names (log : DetailsLog K J G) (i : Nat) (origin : Origin) : Prop where
  low : origin.state ≤ i
  first : origin.state = 0 → origin.actor = some log.author
  later : ∀ s, origin.state = s + 1 → ∃ edit, log.edits[s]? = some edit ∧
    ((edit.putBack = false ∧ origin.actor = some edit.actorUserId) ∨ origin.actor = none)

theorem origin_names {i : Nat} (known : i ≤ log.edits.length) {key : K} {origin : Origin}
    (held : log.origins digest i key = some origin) : Names log i origin := by
  induction i using Nat.strong_induction_on generalizing origin with
  | _ i ih =>
    cases i with
    | zero =>
      rw [(log.traced digest).zero] at held
      obtain ⟨value, _, rfl⟩ := Option.map_eq_some_iff.mp held
      exact ⟨Nat.le_refl _, fun _ => rfl, by simp⟩
    | succ i =>
      have listed : log.edits[i]? = some log.edits[i] := List.getElem?_eq_getElem (by omega)
      rw [(log.traced digest).succ i _ listed] at held
      obtain ⟨value, _, rfl⟩ := Option.map_eq_some_iff.mp held
      have lastBound : ∀ j ∈ lastKnown log.states i, j ≤ i := fun j at_ => lastKnown_le at_
      have preBound : ∀ j ∈ preOf digest log.edits log.edits[i] i key, j ≤ i :=
        fun j at_ => preOf_le at_
      rcases attributeKey_from (lookIn log.states (log.origins digest) key value) log.edits[i]
          (carriesFirst log.states log.edits[i] i) lastBound preBound with
        ⟨j, below, looked⟩ | ⟨api, is⟩ | ⟨_, is⟩
      next =>
        rw [lookIn] at looked
        split at looked
        next =>
          have older := ih j (by omega) (by omega) looked
          exact ⟨Nat.le_trans older.low (by omega), older.first, older.later⟩
        next => cases looked
      next =>
        rw [is]
        refine ⟨Nat.le_refl _, by simp, ?_⟩
        intro s same
        simp only [Nat.add_right_cancel_iff] at same
        subst same
        exact ⟨_, listed, .inl ⟨api, rfl⟩⟩
      next =>
        rw [is]
        refine ⟨Nat.le_refl _, by simp, ?_⟩
        intro s same
        simp only [Nat.add_right_cancel_iff] at same
        subst same
        exact ⟨_, listed, .inr rfl⟩

end Logs

end MemoryCloud.Provenance
