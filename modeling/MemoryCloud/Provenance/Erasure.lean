import MemoryCloud.Provenance.Walk

set_option autoImplicit false

/-!
# What an erasure leaves

The plan of a memory the subject did not author is read off its own log. Carrying it out
gives the log without the subject's keys and, where one of them was live, one more row over
it.
-/

namespace MemoryCloud.Provenance

open Versions

variable {K J G : Type} [LinearOrder K] [DecidableEq J] [DecidableEq G]

def DetailsLog.written (digest : K → G) (log : DetailsLog K J G) (subject : UserId)
    (erased : List UserId) (i : Nat) : List K :=
  writtenBy subject (writersAt (log.run digest subject erased).writers i)

section Planning

variable {digest : K → G} {log : DetailsLog K J G} {subject : UserId}

theorem mem_written (erased : List UserId) {i : Nat} (known : i ≤ log.edits.length) {key : K} :
    key ∈ log.written digest subject erased i ↔
      ∃ origin, log.origins digest i key = some origin ∧ origin.actor = some subject := by
  have plain : (originIn (log.run digest subject erased).writers i key).map Origin.plain =
      log.origins digest i key :=
    origin_plain subject erased known key
  rw [← plain, originIn, DetailsLog.written]
  cases writersAt (log.run digest subject erased).writers i with
  | none => simp [writtenBy]
  | some mapping =>
    simp only [writtenBy, Doc.mem_keys, Doc.get?_filter, Option.bind_some, Option.map_eq_some_iff]
    cases held : mapping.get? key with
    | none => simp
    | some origin =>
      by_cases own : origin.actor = some subject
      next => simp [Option.filter, own, Origin.plain]
      next => simp [Option.filter, own, Origin.plain]

theorem written_created (notAuthor : log.author ≠ subject) (erased : List UserId) :
    log.written digest subject erased 0 = [] := by
  rw [List.eq_nil_iff_forall_not_mem]
  intro key listed
  obtain ⟨origin, held, own⟩ := (mem_written erased (Nat.zero_le _)).mp listed
  have names := origin_names (Nat.zero_le _) held
  rw [names.first (Nat.le_zero.mp names.low)] at own
  exact notAuthor (Option.some.inj own)

omit [DecidableEq J] [DecidableEq G] in
theorem mem_planStrips {run : Replay K J G} {strip : PriorStrip K} :
    strip ∈ planStrips run subject ↔ ∃ i edit, run.edits[i]? = some edit ∧
      writtenBy subject (writersAt run.writers i) ≠ [] ∧
      strip = ⟨edit.id, writtenBy subject (writersAt run.writers i)⟩ := by
  simp only [planStrips, List.mem_filterMap, List.mem_zipIdx_iff_getElem?, Prod.exists]
  constructor
  next =>
    intro ⟨edit, i, listed, becomes⟩
    split at becomes
    next => cases becomes
    next some_ =>
      cases becomes
      exact ⟨i, edit, listed, by simpa using some_, rfl⟩
  next =>
    intro ⟨i, edit, listed, some_, is⟩
    refine ⟨edit, i, listed, ?_⟩
    rw [if_neg (by simpa using some_), is]

omit [DecidableEq J] [DecidableEq G] in
theorem planStrips_sorted (run : Replay K J G)
    (numbered : run.edits.Pairwise fun a b => a.id < b.id) :
    (planStrips run subject).Pairwise stripOrder := by
  rw [planStrips, List.pairwise_filterMap]
  have placed : run.edits.zipIdx.Pairwise fun a b => a.1.id < b.1.id := by
    have fsts : (run.edits.zipIdx.map Prod.fst).Pairwise fun a b => a.id < b.id := by
      rw [List.zipIdx_map_fst]
      exact numbered
    rw [List.pairwise_map] at fsts
    exact fsts
  apply placed.imp
  intro (edit, i) (other, j) less first isFirst second isSecond
  simp only [Option.ite_none_left_eq_some, Option.some.injEq] at isFirst isSecond
  rw [← isFirst.2, ← isSecond.2]
  exact Nat.le_of_lt less

theorem planRevert_none {erased : List UserId}
    (nothing : log.written digest subject erased log.edits.length = []) :
    planRevert digest log.memoryId (log.run digest subject erased) log.live subject erased =
      none := by
  have noWalks : walks digest (log.run digest subject erased) subject erased = [] := by
    rw [DetailsLog.written] at nothing
    simp only [walks, run_edits, nothing, List.filterMap_nil]
  simp only [planRevert, noWalks, lowest, List.foldl_nil]

variable (digest) in
theorem planErasure_eq (notAuthor : log.author ≠ subject) (erasedActors : List UserId) :
    (planErasure digest log subject erasedActors).reverts =
        (planRevert digest log.memoryId (log.run digest subject (subject :: erasedActors)) log.live
          subject (subject :: erasedActors)).toList ∧
      (planErasure digest log subject erasedActors).strips =
        planStrips (log.run digest subject (subject :: erasedActors)) subject := by
  have changed : log.edits.filter (·.detailsChanged) = log.edits :=
    List.filter_eq_self.mpr fun edit listed => (log.own edit listed).2
  have mine : (log.edits.filter fun edit => decide (edit.memoryId = log.memoryId)) = log.edits :=
    List.filter_eq_self.mpr fun edit listed => by simp [(log.own edit listed).1]
  have ordered : log.edits.insertionSort editOrder = log.edits :=
    List.Pairwise.insertionSort_eq (log.ascending.imp fun less => .inl less)
  have sorted := (planStrips_sorted (log.run digest subject (subject :: erasedActors))
    log.numbered : (planStrips _ subject).Pairwise stripOrder)
  simp only [planErasure, planDetailsErasure, changed]
  by_cases none_ : log.edits = []
  next =>
    have nothing : log.written digest subject (subject :: erasedActors) log.edits.length = [] := by
      rw [none_]
      exact written_created notAuthor _
    simp [planRevert_none nothing, planStrips, none_]
  next =>
    have ids : (log.edits.map (·.memoryId)).dedup = [log.memoryId] := by
      have same : log.edits.map (·.memoryId) = List.replicate log.edits.length log.memoryId := by
        rw [List.eq_replicate_iff, List.length_map]
        refine ⟨rfl, ?_⟩
        intro id listed
        obtain ⟨edit, present, rfl⟩ := List.mem_map.mp listed
        exact (log.own edit present).1
      rw [same, List.replicate_dedup (by simpa using none_)]
    simp only [ids, List.insertionSort_cons, List.insertionSort_nil, List.orderedInsert_nil,
      List.foldl_cons, List.foldl_nil, addMemory, if_true, if_neg notAuthor, mine, ordered,
      planMemory, DetailsErasurePlan.append, List.nil_append]
    exact ⟨rfl, sorted.insertionSort_eq⟩

end Planning

section Cleaning

variable {digest : K → G} {log : DetailsLog K J G} {subject pseudonym : UserId}
  {erased : List UserId}

omit [DecidableEq J] [DecidableEq G] in
theorem stateAt_row {i : Nat} {edit : DetailsEdit K J G} (listed : log.edits[i]? = some edit) :
    stateAt log.states i = edit.state := by
  have inside : i < log.edits.length := (List.getElem?_eq_some_iff.mp listed).1
  rw [stateAt, DetailsLog.states, List.getElem?_append_left (by simpa using inside),
    List.getElem?_map, listed]
  rfl

omit [DecidableEq J] in
theorem without_nil (doc : Doc K J) : without [] doc = doc := by
  apply Doc.ext_get
  intro key
  rw [without, Doc.get?_filter]
  cases doc.get? key with
  | none => rfl
  | some value => simp [Option.filter]

omit [DecidableEq J] in
theorem map_without_nil (details : Details K J) : details.map (without []) = details := by
  cases details with
  | none => rfl
  | some doc => rw [Option.map_some, without_nil]

omit [DecidableEq J] in
theorem keysOf_without (keys : List K) (details : Details K J) (key : K) :
    (keysOf (some (details.map (without keys)))).get? key =
      if key ∈ keys then none else (keysOf (some details)).get? key := by
  cases details with
  | none => simp [keysOf]
  | some doc =>
    rw [Option.map_some, keysOf, keysOf, without, Doc.get?_filter]
    by_cases listed : key ∈ keys
    next => simp [listed]
    next =>
      cases doc.get? key with
      | none => simp
      | some value => simp [Option.filter, listed]

theorem written_held {i : Nat} (known : i ≤ log.edits.length) {key : K}
    (listed : key ∈ log.written digest subject erased i) : (log.valueAt i key).isSome = true := by
  obtain ⟨origin, held, _⟩ := (mem_written erased known).mp listed
  obtain ⟨value, there⟩ := value_of_origin known held
  rw [there]
  rfl

def cleanRow (digest : K → G) (keys : List K) (edit : DetailsEdit K J G) : DetailsEdit K J G :=
  { edit with
    details := edit.details.map (without keys)
    erasedKeys := edit.erasedKeys ++ keys.map digest }

omit [DecidableEq J] [DecidableEq G] in
theorem row_of_id {i j : Nat} {edit other : DetailsEdit K J G}
    (listed : log.edits[i]? = some edit) (listed' : log.edits[j]? = some other)
    (same : other.id = edit.id) : j = i := by
  obtain ⟨inside, rfl⟩ := List.getElem?_eq_some_iff.mp listed
  obtain ⟨inside', rfl⟩ := List.getElem?_eq_some_iff.mp listed'
  rcases Nat.lt_trichotomy i j with less | equal | more
  next =>
    have order := List.pairwise_iff_getElem.mp log.numbered i j inside inside' less
    omega
  next => exact equal.symm
  next =>
    have order := List.pairwise_iff_getElem.mp log.numbered j i inside' inside more
    omega

omit [DecidableEq J] [DecidableEq G] in
theorem cleanRow_nil (edit : DetailsEdit K J G) : cleanRow digest [] edit = edit := by
  rw [cleanRow, map_without_nil, List.map_nil, List.append_nil]

theorem stripEdit_row {i : Nat} {edit : DetailsEdit K J G} (listed : log.edits[i]? = some edit) :
    stripEdit digest (planStrips (log.run digest subject erased) subject) edit =
      cleanRow digest (log.written digest subject erased i) edit := by
  have inside : i < log.edits.length := (List.getElem?_eq_some_iff.mp listed).1
  unfold stripEdit
  cases found : (planStrips (log.run digest subject erased) subject).find?
      fun strip => decide (strip.rowId = edit.id) with
  | none =>
    have nothing : log.written digest subject erased i = [] := by
      by_contra some_
      have planned : ⟨edit.id, log.written digest subject erased i⟩ ∈
          planStrips (log.run digest subject erased) subject :=
        mem_planStrips.mpr ⟨i, edit, listed, some_, rfl⟩
      exact List.find?_eq_none.mp found _ planned (by simp)
    rw [nothing, cleanRow_nil]
  | some strip =>
    have sameId : strip.rowId = edit.id := by simpa using List.find?_some found
    obtain ⟨j, other, listed', some_, rfl⟩ :=
      mem_planStrips.mp (List.mem_of_find?_eq_some found)
    cases row_of_id listed listed' sameId
    obtain ⟨key, first⟩ := List.exists_mem_of_ne_nil _ some_
    have held : (log.valueAt i key).isSome = true :=
      written_held (Nat.le_of_lt inside) first
    rw [DetailsLog.valueAt, stateAt_row listed, DetailsEdit.state] at held
    cases details : edit.details with
    | none => simp [details, keysOf] at held
    | some doc =>
      simp only [cleanRow, details, Option.map_some]
      rfl

variable (digest log subject pseudonym erased) in
def DetailsLog.cleaned : DetailsLog K J G :=
  { pseudonymizeRevisionActor
      (stripEditorKeys digest log (planStrips (log.run digest subject erased) subject))
      subject pseudonym with
    live := log.live.map (without (log.written digest subject erased log.edits.length)) }

theorem cleaned_edits : (log.cleaned digest subject pseudonym erased).edits =
    (log.edits.map (stripEdit digest (planStrips (log.run digest subject erased) subject))).map
      (renameActor subject pseudonym) := rfl

theorem cleaned_row {i : Nat} {edit : DetailsEdit K J G} (listed : log.edits[i]? = some edit) :
    (log.cleaned digest subject pseudonym erased).edits[i]? =
      some (renameActor subject pseudonym
        (cleanRow digest (log.written digest subject erased i) edit)) := by
  rw [cleaned_edits, List.getElem?_map, List.getElem?_map, listed, Option.map_some, Option.map_some,
    stripEdit_row listed]

theorem cleaned_length :
    (log.cleaned digest subject pseudonym erased).edits.length = log.edits.length := by
  rw [cleaned_edits, List.length_map, List.length_map]

theorem all_keeps_origin {i : Nat} (known : i ≤ log.edits.length) (key : K) :
    (log.origins digest i key).all (keeps subject) = true ↔
      key ∉ log.written digest subject erased i := by
  rw [mem_written erased known]
  cases log.origins digest i key with
  | none => simp
  | some origin => simp [keeps]

theorem cleaned_state (i : Nat) : stateAt (log.cleaned digest subject pseudonym erased).states i =
    (stateAt log.states i).map (Option.map (without (log.written digest subject erased i))) := by
  rcases Nat.lt_trichotomy i log.edits.length with row | live | beyond
  next =>
    have listed : log.edits[i]? = some log.edits[i] := List.getElem?_eq_getElem row
    rw [stateAt_row listed, stateAt_row (cleaned_row listed)]
    simp only [DetailsEdit.state, renameActor, cleanRow]
    by_cases gone : log.edits[i].erased = true
    next => simp [gone]
    next => simp [gone]
  next =>
    have live' : stateAt (log.cleaned digest subject pseudonym erased).states
        (log.cleaned digest subject pseudonym erased).edits.length = _ := stateAt_live _
    rw [cleaned_length] at live'
    rw [live, live', stateAt_live]
    rfl
  next =>
    have gone : ∀ log' : DetailsLog K J G, log'.edits.length = log.edits.length →
        stateAt log'.states i = none := by
      intro log' same
      rw [stateAt, List.getElem?_eq_none_iff.mpr (by rw [states_length]; omega)]
      rfl
    rw [gone _ cleaned_length, gone _ rfl]
    rfl

theorem cleaned_stripped :
    Stripped digest subject pseudonym log (log.cleaned digest subject pseudonym erased) := by
  refine ⟨rfl, ?_, ?_, ?_, ?_⟩
  · rw [cleaned_edits, List.map_map, List.map_map]
    apply List.map_congr_left
    intro edit _
    exact (stripEdit_place digest _ edit).2.2.1
  · intro i edit' listed'
    have inside : i < log.edits.length := by
      have inside' := (List.getElem?_eq_some_iff.mp listed').1
      rw [cleaned_length] at inside'
      exact inside'
    have listed : log.edits[i]? = some log.edits[i] := List.getElem?_eq_getElem inside
    rw [cleaned_row listed] at listed'
    cases listed'
    exact ⟨_, listed, rfl, rfl, rfl, rfl, rfl⟩
  · intro i
    rw [cleaned_state, Option.isSome_map]
  · intro i known key
    rw [DetailsLog.valueAt, DetailsLog.valueAt, cleaned_state]
    cases stateAt log.states i with
    | none => simp [keysOf]
    | some details =>
      rw [Option.map_some, keysOf_without]
      by_cases own : key ∈ log.written digest subject erased i
      next =>
        have taken : ¬ (log.origins digest i key).all (keeps subject) = true :=
          fun kept => (all_keeps_origin known key).mp kept own
        rw [if_pos own, if_neg taken]
      next => rw [if_neg own, if_pos ((all_keeps_origin known key).mpr own)]

end Cleaning

section Reverting

variable {digest : K → G} {log : DetailsLog K J G} {subject pseudonym : UserId}
  {erased : List UserId}

def DetailsLog.walk (digest : K → G) (log : DetailsLog K J G) (subject : UserId)
    (erased : List UserId) (key : K) : Option (KeyRevert K J × Nat) :=
  (originIn (log.run digest subject erased).writers log.edits.length key).bind
    (revert (log.run digest subject erased) erased key (digest key))

theorem walks_eq : walks digest (log.run digest subject erased) subject erased =
    (log.written digest subject erased log.edits.length).filterMap
      (log.walk digest subject erased) := by
  rfl

-- The walk of a live key of the subject's ends, below the edit that wrote it.
theorem walk_stops (notAuthor : log.author ≠ subject) {key : K}
    (mine : key ∈ log.written digest subject erased log.edits.length) :
    ∃ origin revert i, log.origins digest log.edits.length key = some origin ∧
      origin.actor = some subject ∧ log.walk digest subject erased key = some (revert, i) ∧
      Relation.ReflTransGen (Descends digest log erased key) (origin.state - 1) i ∧
      1 ≤ origin.state ∧ origin.state ≤ log.edits.length ∧
      Stops digest log erased key i revert := by
  obtain ⟨origin, held, own⟩ := (mem_written erased (Nat.le_refl _)).mp mine
  have names := origin_names (Nat.le_refl _) held
  have later : 1 ≤ origin.state := by
    by_contra zero
    have author := names.first (by omega)
    rw [own] at author
    exact notAuthor (Option.some.inj author).symm
  have low := names.low
  have plain : (originIn (log.run digest subject erased).writers log.edits.length key).map
      Origin.plain = log.origins digest log.edits.length key :=
    origin_plain subject erased (Nat.le_refl _) key
  rw [held] at plain
  obtain ⟨marked, found, is⟩ := Option.map_eq_some_iff.mp plain
  have sameState : marked.state = origin.state := by rw [← is]; rfl
  obtain ⟨revert, i, ends, walk, stops⟩ :=
    revertFrom_stops digest erased key subject (show origin.state - 1 ≤ log.edits.length by omega)
      (show origin.state - 1 < origin.state by omega)
  refine ⟨origin, revert, i, held, own, ?_, walk, later, low, stops⟩
  rw [DetailsLog.walk, found, Option.bind_some, Provenance.revert, sameState]
  exact ends

theorem find_walked (notAuthor : log.author ≠ subject) (key : K) (mine : List K)
    (own : ∀ key ∈ mine, key ∈ log.written digest subject erased log.edits.length) :
    (mine.filterMap (log.walk digest subject erased)).find?
        (fun walked => decide (walked.1.key = key)) =
      if key ∈ mine then log.walk digest subject erased key else none := by
  induction mine with
  | nil => rfl
  | cons first rest ih =>
    obtain ⟨_, revert, i, _, _, walk, _, _, _, stops⟩ := walk_stops notAuthor (own first (by simp))
    rw [List.filterMap_cons, walk, List.find?_cons,
      ih fun key listed => own key (by simp [listed])]
    by_cases same : first = key
    next =>
      subst same
      simp [stops.named, walk]
    next =>
      have other : key ≠ first := fun is => same is.symm
      simp [stops.named, same, other]

theorem find_reverted (notAuthor : log.author ≠ subject) (key : K) :
    (((log.written digest subject erased log.edits.length).filterMap
        (log.walk digest subject erased)).map (·.1)).find?
        (fun revert => decide (revert.key = key)) =
      if key ∈ log.written digest subject erased log.edits.length then
        (log.walk digest subject erased key).map (·.1)
      else none := by
  have walked : (List.filterMap _ _).find?
      ((fun revert => decide (revert.key = key)) ∘ fun walked : KeyRevert K J × Nat => walked.1) = _ :=
    find_walked notAuthor key (log.written digest subject erased log.edits.length)
      fun _ listed => listed
  rw [List.find?_map, walked]
  split <;> rfl

structure Reverts (digest : K → G) (log : DetailsLog K J G) (subject : UserId)
    (erased : List UserId) (revert : MemoryRevert K J G) : Prop where
  some_ : log.written digest subject erased log.edits.length ≠ []
  rows : revert.reverts = ((log.written digest subject erased log.edits.length).filterMap
    (log.walk digest subject erased)).map (·.1)
  prior : some revert.prior =
    log.live.map (without (log.written digest subject erased log.edits.length))
  marks : revert.erasedKeys = (log.written digest subject erased log.edits.length).map digest
  result : keysOf (some revert.result) = applyReverts (keysOf (some log.live)) revert.reverts

omit [LinearOrder K] [DecidableEq J] in
theorem lowest_some {walked : List (KeyRevert K J × Nat)} (some_ : walked ≠ []) :
    (lowest walked).isSome = true := by
  cases walked with
  | nil => exact absurd rfl some_
  | cons first rest =>
    have goes : ∀ least : KeyRevert K J × Nat,
        (rest.foldl keepLower (some least)).isSome = true := by
      induction rest with
      | nil => exact fun least => rfl
      | cons next rest ih =>
        intro least
        rw [List.foldl_cons, keepLower]
        split
        next => exact ih (by simp) _
        next => exact ih (by simp) _
    exact goes first

theorem planRevert_some {least : KeyRevert K J} {below : Nat}
    (low : lowest (walks digest (log.run digest subject erased) subject erased) =
      some (least, below)) :
    planRevert digest log.memoryId (log.run digest subject erased) log.live subject erased =
      let reverts := (walks digest (log.run digest subject erased) subject erased).map (·.1)
      let result := applyReverts (keysOf (some log.live)) reverts
      let nothing := decide (result.entries = []) &&
        (least.unavailable || decide (stateAt log.states below = some none))
      let mine := log.written digest subject erased log.edits.length
      some
        { memoryId := log.memoryId
          reverts := reverts
          fromVersion := least.fromVersion
          result := if nothing then none else some result
          prior := without mine (keysOf (some log.live))
          erasedKeys := mine.map digest } := by
  simp only [planRevert, low, run_states, run_edits]
  rfl

variable (digest erased) in
theorem planRevert_cases (notAuthor : log.author ≠ subject) :
    (log.written digest subject erased log.edits.length = [] ∧
      planRevert digest log.memoryId (log.run digest subject erased) log.live subject erased =
        none) ∨
    ∃ revert, planRevert digest log.memoryId (log.run digest subject erased) log.live subject
      erased = some revert ∧ Reverts digest log subject erased revert := by
  by_cases nothing : log.written digest subject erased log.edits.length = []
  next => exact .inl ⟨nothing, planRevert_none nothing⟩
  next =>
    obtain ⟨key, mine⟩ := List.exists_mem_of_ne_nil _ nothing
    have walked : walks digest (log.run digest subject erased) subject erased ≠ [] := by
      obtain ⟨_, revert, i, _, _, walk, _⟩ := walk_stops notAuthor mine
      exact List.ne_nil_of_mem (List.mem_filterMap.mpr ⟨key, mine, walk⟩)
    obtain ⟨⟨least, below⟩, low⟩ := Option.isSome_iff_exists.mp (lowest_some walked)
    have held : (log.valueAt log.edits.length key).isSome = true :=
      written_held (Nat.le_refl _) mine
    rw [DetailsLog.valueAt, stateAt_live] at held
    refine .inr ⟨_, planRevert_some low, nothing, rfl, ?_, rfl, ?_⟩
    · cases live : log.live with
      | none => simp [live, keysOf] at held
      | some doc => rfl
    · by_cases empty : (applyReverts (keysOf (some log.live))
          ((walks digest (log.run digest subject erased) subject erased).map (·.1))).entries = []
      next =>
        simp only [empty, decide_true, Bool.true_and]
        split
        next =>
          apply Doc.ext_get
          intro key
          rw [Doc.get?, Doc.get?, empty]
          rfl
        next => rfl
      next =>
        simp only [empty, decide_false, Bool.false_and]
        rfl

theorem planned_reverts (notAuthor : log.author ≠ subject) {erasedActors : List UserId}
    {revert : MemoryRevert K J G}
    (planned : revert ∈ (planErasure digest log subject erasedActors).reverts) :
    Reverts digest log subject (subject :: erasedActors) revert := by
  rw [(planErasure_eq digest notAuthor erasedActors).1, Option.mem_toList] at planned
  rcases planRevert_cases digest (subject :: erasedActors) notAuthor with
    ⟨_, nothing⟩ | ⟨found, is, reverts⟩
  next =>
    rw [nothing] at planned
    cases planned
  next =>
    rw [is] at planned
    cases planned
    exact reverts

variable {revert : MemoryRevert K J G}

theorem Reverts.get? (reverts : Reverts digest log subject erased revert)
    (notAuthor : log.author ≠ subject) (key : K) :
    (keysOf (some revert.result)).get? key =
      if key ∈ log.written digest subject erased log.edits.length then
        (log.walk digest subject erased key).bind fun walked => walked.1.target
      else (keysOf (some log.live)).get? key := by
  rw [reverts.result, applyReverts, Doc.get?_filterMap, reverts.rows,
    find_reverted notAuthor key]
  by_cases mine : key ∈ log.written digest subject erased log.edits.length
  next =>
    have held : (log.valueAt log.edits.length key).isSome = true :=
      written_held (Nat.le_refl _) mine
    rw [DetailsLog.valueAt, stateAt_live] at held
    obtain ⟨value, is⟩ := Option.isSome_iff_exists.mp held
    obtain ⟨_, walked, i, _, _, walk, _⟩ := walk_stops notAuthor mine
    rw [if_pos mine, if_pos mine, is, walk]
    rfl
  next =>
    rw [if_neg mine, if_neg mine]
    cases (keysOf (some log.live)).get? key <;> rfl

variable (digest log pseudonym revert) in
def DetailsLog.erasureRow : DetailsEdit K J G :=
  { memoryId := log.memoryId, version := log.version + 1, id := log.nextId
    actorUserId := pseudonym, writer := .erasure, details := some revert.prior
    erasedKeys := revert.erasedKeys, restoredFrom := some revert.fromVersion
    restoredFromByKey :=
      some (revert.reverts.map fun key => (digest key.key, key.fromVersion)) }

omit [DecidableEq J] [DecidableEq G] in
theorem renameActor_own {edit : DetailsEdit K J G} (own : edit.actorUserId = pseudonym) :
    renameActor subject pseudonym edit = edit := by
  have same : (if edit.actorUserId = subject then pseudonym else edit.actorUserId) =
      edit.actorUserId := by
    rw [own, ite_self]
  rw [renameActor, same]

theorem stripEdit_new (edit : DetailsEdit K J G) (fresh : edit.id = log.nextId) :
    stripEdit digest (planStrips (log.run digest subject erased) subject) edit = edit := by
  have other : (planStrips (log.run digest subject erased) subject).find?
      (fun strip => decide (strip.rowId = edit.id)) = none := by
    rw [List.find?_eq_none]
    intro strip planned same
    obtain ⟨i, row, listed, _, rfl⟩ := mem_planStrips.mp planned
    have older := log.below row (List.mem_of_getElem? listed)
    simp only [decide_eq_true_eq] at same
    omega
  simp only [stripEdit, other]

variable (digest pseudonym) in
theorem erase_cases (notAuthor : log.author ≠ subject) (erasedActors : List UserId) :
    let erased := subject :: erasedActors
    (log.written digest subject erased log.edits.length = [] ∧
      (planErasure digest log subject erasedActors).reverts = [] ∧
      eraseSubjectDetails digest log subject pseudonym erasedActors =
        log.cleaned digest subject pseudonym erased) ∨
    ∃ revert, Reverts digest log subject erased revert ∧
      (planErasure digest log subject erasedActors).reverts = [revert] ∧
      Appends (log.cleaned digest subject pseudonym erased)
        (log.erasureRow digest pseudonym revert)
        (eraseSubjectDetails digest log subject pseudonym erasedActors) ∧
      (eraseSubjectDetails digest log subject pseudonym erasedActors).live = revert.result := by
  intro erased
  obtain ⟨reverts, strips⟩ := planErasure_eq digest notAuthor erasedActors
  rcases planRevert_cases digest erased notAuthor with ⟨nothing, planned⟩ | ⟨revert, planned, is⟩
  next =>
    rw [planned, Option.toList_none] at reverts
    refine .inl ⟨nothing, reverts, ?_⟩
    simp only [eraseSubjectDetails, reverts, strips, DetailsLog.cleaned, nothing,
      map_without_nil, List.foldl_nil]
    rfl
  next =>
    rw [planned, Option.toList_some] at reverts
    have becomes : eraseSubjectDetails digest log subject pseudonym erasedActors =
        pseudonymizeRevisionActor (stripEditorKeys digest (restoreDetails digest log pseudonym revert)
          (planStrips (log.run digest subject erased) subject)) subject pseudonym := by
      simp only [eraseSubjectDetails, reverts, strips, List.foldl_cons, List.foldl_nil]
      rfl
    have kept : renameActor subject pseudonym (stripEdit digest
        (planStrips (log.run digest subject erased) subject)
        (log.erasureRow digest pseudonym revert)) = log.erasureRow digest pseudonym revert := by
      rw [stripEdit_new _ rfl]
      exact renameActor_own rfl
    refine .inr ⟨revert, is, reverts, ⟨?_, ?_, ?_⟩, ?_⟩
    · rw [becomes]
      rfl
    · rw [becomes, cleaned_edits]
      change ((log.edits ++ [log.erasureRow digest pseudonym revert]).map _).map _ = _
      rw [List.map_append, List.map_append, List.map_singleton, List.map_singleton, kept]
    · exact congrArg some is.prior
    · rw [becomes]
      rfl

omit [DecidableEq J] in
theorem lookup_reverted (injective : Function.Injective digest) (key : K)
    (reverts : List (KeyRevert K J)) :
    (reverts.map fun revert => (digest revert.key, revert.fromVersion)).lookup (digest key) =
      (reverts.find? fun revert => decide (revert.key = key)).map (·.fromVersion) := by
  induction reverts with
  | nil => rfl
  | cons first rest ih =>
    by_cases same : first.key = key
    next => simp [same]
    next =>
      have other : (digest key == digest first.key) = false :=
        beq_false_of_ne fun is => same (injective is).symm
      simp [List.lookup_cons, same, other, ih]

theorem bisectLeft_at {versions : List Nat} (ascending : versions.Pairwise (· < ·)) {j version : Nat}
    (listed : versions[j]? = some version) : bisectLeft versions version = j := by
  induction versions generalizing j with
  | nil => simp at listed
  | cons first rest ih =>
    rw [List.pairwise_cons] at ascending
    cases j with
    | zero =>
      rw [List.getElem?_cons_zero] at listed
      cases listed
      simp [bisectLeft]
    | succ j =>
      rw [List.getElem?_cons_succ] at listed
      have less : first < version := ascending.1 version (List.mem_of_getElem? listed)
      have rest := ih ascending.2 listed
      rw [bisectLeft] at rest ⊢
      rw [List.takeWhile_cons_of_pos (by simpa using less), List.length_cons, rest]

omit [DecidableEq J] [DecidableEq G] in
-- The versions ascend, so the edit right above a state finds the state.
theorem pre_versionAt {i j : Nat} (inside : j < log.edits.length) (low : j ≤ i) :
    pre (log.edits.map (·.version)) (versionAt log.edits j) i = j := by
  have listed : log.edits[j]? = some log.edits[j] := List.getElem?_eq_getElem inside
  have found : bisectLeft (log.edits.map (·.version)) (versionAt log.edits j) = j := by
    apply bisectLeft_at (List.pairwise_map.mpr log.ascending)
    rw [List.getElem?_map, versionAt, listed]
    rfl
  rw [pre, found, Nat.min_eq_left low]

omit [DecidableEq J] [DecidableEq G] in
theorem versionAt_bounded {j : Nat} (inside : j < log.edits.length) :
    1 ≤ versionAt log.edits j ∧ versionAt log.edits j ≤ log.version := by
  have listed : log.edits[j]? = some log.edits[j] := List.getElem?_eq_getElem inside
  rw [versionAt, listed]
  exact log.bounded _ (List.getElem_mem inside)

theorem cleaned_versions : (log.cleaned digest subject pseudonym erased).edits.map (·.version) =
    log.edits.map (·.version) :=
  (cleaned_stripped : Stripped digest subject pseudonym log _).versions

omit [DecidableEq J] in
theorem restoredFrom_erasureRow (revert : MemoryRevert K J G) (keyDigest : G) :
    restoredFrom (log.erasureRow digest pseudonym revert) keyDigest =
      ((revert.reverts.map fun revert => (digest revert.key, revert.fromVersion)).lookup
        keyDigest).filter fun version =>
          decide (1 ≤ version) && decide (version < log.version + 1) := rfl

theorem preOf_erasureRow (injective : Function.Injective digest) (notAuthor : log.author ≠ subject)
    {revert : MemoryRevert K J G} (reverts : Reverts digest log subject erased revert) (key : K) :
    preOf digest (log.cleaned digest subject pseudonym erased).edits
        (log.erasureRow digest pseudonym revert) log.edits.length key =
      if key ∈ log.written digest subject erased log.edits.length then
        (log.walk digest subject erased key).map (·.2)
      else none := by
  have byKey : (revert.reverts.map fun revert => (digest revert.key, revert.fromVersion)).lookup
      (digest key) = _ := lookup_reverted injective key revert.reverts
  rw [reverts.rows, find_reverted notAuthor key, ← reverts.rows] at byKey
  have putBack : (log.erasureRow digest pseudonym revert).putBack = true := rfl
  simp only [preOf, putBack, if_true, restoredFrom_erasureRow, byKey, cleaned_versions]
  by_cases mine : key ∈ log.written digest subject erased log.edits.length
  next =>
    obtain ⟨origin, walked, j, held, _, walk, path, later, low, stops⟩ :=
      walk_stops notAuthor mine
    have lower : j ≤ origin.state - 1 := descends_le (by omega) path
    have bounds := versionAt_bounded (show j < log.edits.length by omega)
    have within : (decide (1 ≤ versionAt log.edits j) &&
        decide (versionAt log.edits j < log.version + 1)) = true := by
      simp only [Bool.and_eq_true, decide_eq_true_eq]
      omega
    rw [if_pos mine, if_pos mine, walk]
    simp only [Option.map_some, stops.version, Option.filter, within, if_true]
    rw [pre_versionAt (by omega) (by omega)]
  next => simp [mine]

omit [DecidableEq J] [DecidableEq G] in
theorem keeps_of_kept {origin : Origin} (member : subject ∈ erased)
    (kept : wroteErased origin erased = false) : keeps subject origin = true := by
  rw [keeps, decide_eq_true_eq]
  intro own
  rw [wroteErased, own] at kept
  simp [member] at kept

theorem Reverts.origins {revert : MemoryRevert K J G} {after : DetailsLog K J G}
    (reverts : Reverts digest log subject erased revert) (injective : Function.Injective digest)
    (notAuthor : log.author ≠ subject) (member : subject ∈ erased)
    (appends : Appends (log.cleaned digest subject pseudonym erased)
      (log.erasureRow digest pseudonym revert) after)
    (live : after.live = revert.result) (key : K) :
    after.origins digest (log.edits.length + 1) key =
      if key ∈ log.written digest subject erased log.edits.length then
        (log.walk digest subject erased key).bind fun walked =>
          walked.1.target.bind fun _ => log.origins digest walked.2 key
      else log.origins digest log.edits.length key := by
  have stripped : Stripped digest subject pseudonym log
    (log.cleaned digest subject pseudonym erased) := cleaned_stripped
  have last : after.origins digest _ key = _ := appends.last key
  rw [cleaned_length, live, reverts.get? notAuthor, preOf_erasureRow injective notAuthor reverts]
    at last
  rw [last]
  by_cases mine : key ∈ log.written digest subject erased log.edits.length
  next =>
    obtain ⟨origin, walked, j, held, own, walk, path, later, low, stops⟩ :=
      walk_stops notAuthor mine
    have lower : j ≤ origin.state - 1 := descends_le (by omega) path
    rw [if_pos mine, if_pos mine, if_pos mine, walk]
    simp only [Option.bind_some, Option.map_some]
    cases target : walked.target with
    | none => rfl
    | some value =>
      obtain ⟨there, kept⟩ := stops.found value target
      obtain ⟨source, from_⟩ := origin_of_value digest (by omega) there
      have keep : keeps subject source = true := keeps_of_kept member (kept source from_)
      rw [Option.map_some, Option.bind_some, from_]
      exact congrArg some (attributeKey_reverted rfl
        (stripped.lost (Nat.le_refl _) value held own)
        (stripped.found (by omega) there from_ keep))
  next =>
    rw [if_neg mine, if_neg mine, if_neg mine]
    have here : log.valueAt log.edits.length key = (keysOf (some log.live)).get? key := by
      rw [DetailsLog.valueAt, stateAt_live]
    rw [← here]
    cases value : log.valueAt log.edits.length key with
    | none =>
      rw [origin_of_absent digest (Nat.le_refl _) value]
      rfl
    | some value =>
      obtain ⟨origin, held⟩ := origin_of_value digest (Nat.le_refl _) value
      have keep : keeps subject origin = true := by
        have all := (all_keeps_origin (Nat.le_refl _) key).mpr mine
        rw [held] at all
        exact all
      rw [held]
      exact congrArg some (attributeKey_carried rfl (stripped.found (Nat.le_refl _) value held keep))

variable (digest pseudonym) in
theorem erase_author (notAuthor : log.author ≠ subject) (erasedActors : List UserId) :
    (eraseSubjectDetails digest log subject pseudonym erasedActors).author = log.author := by
  rcases erase_cases digest pseudonym notAuthor erasedActors with
    ⟨_, _, is⟩ | ⟨revert, _, _, appends, _⟩
  next =>
    rw [is]
    rfl
  next =>
    rw [appends.author]
    rfl

structure Extends (digest : K → G) (log after : DetailsLog K J G) : Prop where
  length : log.edits.length ≤ after.edits.length
  rows : ∀ i < log.edits.length, after.edits[i]? = log.edits[i]?
  states : ∀ i ≤ log.edits.length, stateAt after.states i = stateAt log.states i
  origins : ∀ i ≤ log.edits.length, after.origins digest i = log.origins digest i
  versions : ∀ version, ∀ i ≤ log.edits.length,
    pre (after.edits.map (·.version)) version i = pre (log.edits.map (·.version)) version i

theorem Appends.extends {row : DetailsEdit K J G} {after : DetailsLog K J G}
    (appends : Appends log row after) : Extends digest log after := by
  constructor
  · simp [appends.edits]
  · intro i inside
    rw [appends.edits, List.getElem?_append_left inside]
  · exact fun i known => appends.stateAt known
  · exact fun i known => appends.origins known
  · intro version i known
    rw [appends.edits, List.map_append, List.map_singleton]
    exact pre_append _ _ _ (by rw [List.length_map]; exact known)

variable (digest pseudonym) in
theorem erase_extends (notAuthor : log.author ≠ subject) (erasedActors : List UserId) :
    Extends digest (log.cleaned digest subject pseudonym (subject :: erasedActors))
      (eraseSubjectDetails digest log subject pseudonym erasedActors) := by
  rcases erase_cases digest pseudonym notAuthor erasedActors with
    ⟨_, _, is⟩ | ⟨revert, _, _, appends, _⟩
  next =>
    rw [is]
    exact ⟨Nat.le_refl _, fun _ _ => rfl, fun _ _ => rfl, fun _ _ => rfl, fun _ _ _ => rfl⟩
  next => exact appends.extends

variable (pseudonym) in
theorem erase_row (notAuthor : log.author ≠ subject) (erasedActors : List UserId) {i : Nat}
    {edit : DetailsEdit K J G} (listed : log.edits[i]? = some edit) :
    (eraseSubjectDetails digest log subject pseudonym erasedActors).edits[i]? =
      some (renameActor subject pseudonym
        (cleanRow digest (log.written digest subject (subject :: erasedActors) i) edit)) := by
  have inside : i < log.edits.length := (List.getElem?_eq_some_iff.mp listed).1
  rw [(erase_extends digest pseudonym notAuthor erasedActors).rows i
    (by rw [cleaned_length]; exact inside)]
  exact cleaned_row listed

variable (digest pseudonym) in
theorem erase_length (notAuthor : log.author ≠ subject) (erasedActors : List UserId) :
    log.edits.length ≤
      (eraseSubjectDetails digest log subject pseudonym erasedActors).edits.length := by
  have longer := (erase_extends digest pseudonym notAuthor erasedActors).length
  rw [cleaned_length] at longer
  exact longer

variable (digest pseudonym) in
theorem erase_value (notAuthor : log.author ≠ subject) (erasedActors : List UserId) {i : Nat}
    (inside : i ≤ log.edits.length) (key : K) :
    (eraseSubjectDetails digest log subject pseudonym erasedActors).valueAt i key =
      if (log.origins digest i key).all (keeps subject) then log.valueAt i key else none := by
  rw [DetailsLog.valueAt, (erase_extends digest pseudonym notAuthor erasedActors).states i
    (by rw [cleaned_length]; exact inside)]
  exact cleaned_stripped.values i inside key

variable (digest pseudonym) in
theorem erase_below (notAuthor : log.author ≠ subject) (erasedActors : List UserId) {i : Nat}
    (inside : i ≤ log.edits.length) (key : K) :
    (eraseSubjectDetails digest log subject pseudonym erasedActors).origins digest i key =
      (log.origins digest i key).filter (keeps subject) := by
  rw [(erase_extends digest pseudonym notAuthor erasedActors).origins i
    (by rw [cleaned_length]; exact inside)]
  exact cleaned_stripped.origins inside key

variable (digest pseudonym) in
theorem erase_live (notAuthor : log.author ≠ subject) (erasedActors : List UserId) (key : K) :
    (keysOf (some (eraseSubjectDetails digest log subject pseudonym erasedActors).live)).get? key =
      if key ∈ log.written digest subject (subject :: erasedActors) log.edits.length then
        (log.walk digest subject (subject :: erasedActors) key).bind fun walked => walked.1.target
      else (keysOf (some log.live)).get? key := by
  rcases erase_cases digest pseudonym notAuthor erasedActors with
    ⟨nothing, _, is⟩ | ⟨revert, reverts, _, _, live⟩
  next =>
    have kept : (log.cleaned digest subject pseudonym (subject :: erasedActors)).live = log.live := by
      rw [DetailsLog.cleaned, nothing, map_without_nil]
    rw [is, kept, nothing, if_neg List.not_mem_nil]
  next => rw [live, reverts.get? notAuthor]

variable (pseudonym) in
theorem erase_origins (injective : Function.Injective digest) (notAuthor : log.author ≠ subject)
    (erasedActors : List UserId) (key : K) :
    let after := eraseSubjectDetails digest log subject pseudonym erasedActors
    after.origins digest after.edits.length key =
      if key ∈ log.written digest subject (subject :: erasedActors) log.edits.length then
        (log.walk digest subject (subject :: erasedActors) key).bind fun walked =>
          walked.1.target.bind fun _ => log.origins digest walked.2 key
      else log.origins digest log.edits.length key := by
  intro after
  rcases erase_cases digest pseudonym notAuthor erasedActors with
    ⟨nothing, _, is⟩ | ⟨revert, reverts, _, appends, live⟩
  next =>
    have stripped : Stripped digest subject pseudonym log
      (log.cleaned digest subject pseudonym (subject :: erasedActors)) := cleaned_stripped
    have kept : (log.origins digest log.edits.length key).filter (keeps subject) =
        log.origins digest log.edits.length key := by
      have all : (log.origins digest log.edits.length key).all (keeps subject) = true :=
        (all_keeps_origin (Nat.le_refl _) key).mpr (by rw [nothing]; exact List.not_mem_nil)
      cases held : log.origins digest log.edits.length key with
      | none => rfl
      | some origin =>
        rw [held, Option.all_some] at all
        rw [Option.filter_some, if_pos all]
    rw [nothing, if_neg List.not_mem_nil, show after = _ from is, cleaned_length,
      stripped.origins (Nat.le_refl _), kept]
  next =>
    have size : after.edits.length = log.edits.length + 1 := by
      rw [show after.edits = _ from appends.edits, List.length_append, cleaned_length]
      rfl
    rw [size]
    exact reverts.origins injective notAuthor (by simp) appends live key

end Reverting

end MemoryCloud.Provenance
