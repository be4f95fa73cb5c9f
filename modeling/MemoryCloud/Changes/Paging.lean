import MemoryCloud.Changes.Model

set_option autoImplicit false

namespace MemoryCloud.Changes

open Keyset

def followPages (fetch : Option String → Except String ChangePage) (fuel : Nat) :
    Option (List Change) :=
  drain (fun cursor => (fetch cursor).toOption.map fun page => (page.changes, page.nextCursor))
    fuel none

def PagesListAll (fetch : Option String → Except String ChangePage) (events : List Change) : Prop :=
  ∃ all, (∀ fuel > events.length, followPages fetch fuel = some all) ∧ all.Perm events ∧
    (all.map Change.key).Pairwise (· ≤ ·)

def sortedKeys (events : List Change) : List (List Nat) :=
  (events.map Change.key).insertionSort (· ≤ ·)

def SameCursor (token : Option String) (key : Option (List Nat)) : Prop :=
  (token = none ∧ key = none) ∨
    ∃ change, token = some (encodeChangeCursor change) ∧ key = some change.key

section Cutting

variable {orderBy : List Change → List Change} {events : List Change} {limit : Nat}

theorem cutPage_above {token : Option String} {key : Option (List Nat)}
    (same : SameCursor token key) :
    cutPage orderBy events token limit =
      cutPage orderBy (after Change.key events key) none limit := by
  cases same with
  | inl start => rw [start.1, start.2, after]
  | inr reached =>
    obtain ⟨change, rfl, rfl⟩ := reached
    have filtered : (events.filter fun other =>
        decide (positionKey change.writtenAt change.kind change.memoryId < other.key)) =
          after Change.key events (some change.key) :=
      List.filter_congr fun _ _ => decide_eq_decide.mpr Iff.rfl
    rw [← filtered]
    simp only [cutPage, if_neg (encodeChangeCursor_ne_empty change),
      decodeChangeCursor_encodeChangeCursor]
    rfl

theorem cutPage_start :
    cutPage orderBy events none limit =
      .ok { changes := (orderBy events).take limit
            nextCursor :=
              if limit < (orderBy events).length then
                ((orderBy events).take limit).getLast?.map encodeChangeCursor
              else none } := by
  have shown : ((orderBy events).take (limit + 1)).take limit = (orderBy events).take limit := by
    rw [List.take_take, Nat.min_eq_left (Nat.le_succ limit)]
  have more : ((orderBy events).take (limit + 1)).length > limit ↔
      limit < (orderBy events).length := by
    rw [List.length_take]
    omega
  simp only [cutPage, pure_bind, shown, more]
  rfl

theorem cutPage_simulates (token : Option String) (key : Option (List Nat))
    (same : SameCursor token key) :
    ∃ shown next next',
      ((cutPage orderBy events token limit).toOption.map fun page =>
          (page.changes, page.nextCursor)) = some (shown, next) ∧
        some (page Change.key orderBy events limit key) = some (shown, next') ∧
        (next = none ↔ next' = none) ∧ SameCursor next next' := by
  rw [cutPage_above same, cutPage_start]
  refine ⟨_, _, _, rfl, rfl, ?_⟩
  by_cases more : limit < (orderBy (after Change.key events key)).length
  next =>
    rw [if_pos more, if_pos more]
    cases ((orderBy (after Change.key events key)).take limit).getLast? with
    | none => exact ⟨by simp, .inl ⟨rfl, rfl⟩⟩
    | some last => exact ⟨by simp, .inr ⟨last, rfl, rfl⟩⟩
  next =>
    rw [if_neg more, if_neg more]
    exact ⟨by simp, .inl ⟨rfl, rfl⟩⟩

theorem keys_of_perm {all : List Change} (perm : all.Perm events)
    (sorted : (all.map Change.key).Pairwise (· ≤ ·)) : all.map Change.key = sortedKeys events := by
  have same : (all.map Change.key).Perm (sortedKeys events) :=
    (perm.map _).trans (List.perm_insertionSort _ _).symm
  exact same.eq_of_pairwise (fun a b _ _ ab ba => le_antisymm ab ba) sorted
    (List.pairwise_insertionSort _ _)

theorem orderBy_keys (orders : Orders Change.key orderBy) (events : List Change) :
    (orderBy events).map Change.key = sortedKeys events :=
  keys_of_perm (orders.perm events) (orders.sorted events)

theorem cutPage_complete_iff (orders : Orders Change.key orderBy) (positive : 1 ≤ limit)
    (events : List Change) :
    PagesListAll (fun cursor => cutPage orderBy events cursor limit) events ↔
      CleanCuts limit (sortedKeys events) := by
  obtain ⟨all, answer, sorted, complete⟩ := drain_complete_iff orders positive events
  have followed : ∀ fuel > events.length,
      followPages (fun cursor => cutPage orderBy events cursor limit) fuel = some all := by
    intro fuel enough
    rw [followPages, drain_simulates cutPage_simulates fuel (.inl ⟨rfl, rfl⟩)]
    exact answer fuel enough
  rw [← orderBy_keys orders, ← complete]
  constructor
  next =>
    intro ⟨listed, read, perm, _⟩
    have same : some listed = some all :=
      (read (events.length + 1) (Nat.lt_succ_self _)).symm.trans
        (followed (events.length + 1) (Nat.lt_succ_self _))
    rwa [Option.some.inj same] at perm
  next =>
    intro perm
    exact ⟨all, followed, perm, sorted⟩

end Cutting

section Endpoints

variable {orderBy : List Change → List Change} {limit : Nat}

def ContextQuery.Valid (query : ContextQuery) : Prop :=
  (∀ kind ∈ query.kinds, kind ∈ Changes.kinds) ∧ query.window.isEmpty = false

def SessionQuery.Valid (query : SessionQuery) : Prop :=
  (∀ kind ∈ query.kinds, kind ∈ sessionKinds) ∧ query.window.isEmpty = false ∧
    (query.sessionId.isSome ∨ query.principal.isSome)

theorem changesSince_complete_iff (orders : Orders Change.key orderBy) (positive : 1 ≤ limit)
    (store : Store) {query : ContextQuery} (valid : query.Valid) :
    PagesListAll (fun cursor => changesSince orderBy store query cursor limit)
        (contextEvents store query) ↔
      CleanCuts limit (sortedKeys (contextEvents store query)) := by
  have known : (query.kinds.any fun kind => decide (kind ∉ kinds)) = false := by
    simpa using valid.1
  by_cases none : query.kinds = []
  next =>
    have empty : contextEvents store query = [] := by simp [contextEvents, none]
    have answer : ∀ cursor, changesSince orderBy store query cursor limit =
        .ok { changes := [], nextCursor := .none } := by
      intro cursor
      simp [changesSince, none, valid.2]
    rw [empty]
    refine iff_of_true ⟨[], ?_, List.Perm.refl _, List.Pairwise.nil⟩ (cleanCuts_short (Nat.zero_le _))
    intro fuel enough
    cases fuel with
    | zero => simp at enough
    | succ fuel =>
      simp only [followPages, answer]
      rfl
  next =>
    have answer : ∀ cursor, changesSince orderBy store query cursor limit =
        cutPage orderBy (contextEvents store query) cursor limit := by
      intro cursor
      simp only [changesSince, known, valid.2, none, Bool.false_eq_true, if_false]
    simp only [answer]
    exact cutPage_complete_iff orders positive _

theorem changesInSession_complete_iff (orders : Orders Change.key orderBy) (positive : 1 ≤ limit)
    (store : Store) {query : SessionQuery} (valid : query.Valid) :
    PagesListAll (fun cursor => changesInSession orderBy store query cursor limit)
        (sessionEvents store query) ↔
      CleanCuts limit (sortedKeys (sessionEvents store query)) := by
  have known : (query.kinds.any fun kind => decide (kind ∉ sessionKinds)) = false := by
    simpa using valid.1
  have addressed : (query.sessionId.isNone && query.principal.isNone) = false := by
    cases valid.2.2 with
    | inl session => simp [Option.isNone_eq_false_iff.mpr session]
    | inr principal => simp [Option.isNone_eq_false_iff.mpr principal]
  have answer : ∀ cursor, changesInSession orderBy store query cursor limit =
      cutPage orderBy (sessionEvents store query) cursor limit := by
    intro cursor
    simp only [changesInSession, known, valid.2.1, addressed, Bool.false_eq_true, if_false]
  simp only [answer]
  exact cutPage_complete_iff orders positive _

theorem change_pages_complete (orders : Orders Change.key orderBy) (positive : 1 ≤ limit)
    (store : Store) :
    (∀ query : ContextQuery, query.Valid →
      (PagesListAll (fun cursor => changesSince orderBy store query cursor limit)
          (contextEvents store query) ↔
        CleanCuts limit (sortedKeys (contextEvents store query)))) ∧
    (∀ query : SessionQuery, query.Valid →
      (PagesListAll (fun cursor => changesInSession orderBy store query cursor limit)
          (sessionEvents store query) ↔
        CleanCuts limit (sortedKeys (sessionEvents store query)))) ∧
    ∀ change, decodeChangeCursor (encodeChangeCursor change) =
      .ok (change.writtenAt, change.kind, change.memoryId) :=
  ⟨fun _ valid => changesSince_complete_iff orders positive store valid,
    fun _ valid => changesInSession_complete_iff orders positive store valid,
    decodeChangeCursor_encodeChangeCursor⟩

end Endpoints

section TiedEdges

def keyOrder (a b : Change) : Prop := a.key ≤ b.key

instance (a b : Change) : Decidable (keyOrder a b) := inferInstanceAs (Decidable (a.key ≤ b.key))

theorem insertionSort_orders : Orders Change.key (List.insertionSort keyOrder) := by
  have total : Std.Total keyOrder := ⟨fun a b => le_total a.key b.key⟩
  have trans : IsTrans Change keyOrder := ⟨fun _ _ _ ab bc => le_trans ab bc⟩
  refine ⟨List.perm_insertionSort keyOrder, ?_⟩
  intro rows
  rw [List.pairwise_map]
  exact List.pairwise_insertionSort keyOrder rows

def newYear : DateTime :=
  ⟨2026, 1, 1, 0, 0, 0, 0, by decide, by decide, by decide, by decide⟩

def tiedMemory (id : Uuid) : MemoryRow :=
  { id := id, contextId := some 1, userId := "owner", summary := "fact", createdAt := newYear
    updatedAt := none, deletedAt := none }

-- Two memories of one batch supersede the same older memory.
def tiedStore : Store :=
  { memories := [tiedMemory 1, tiedMemory 2, tiedMemory 3]
    edges := [⟨2, 1, .supersedes, newYear⟩, ⟨3, 1, .supersedes, newYear⟩]
    revisions := [] }

def tiedQuery : ContextQuery :=
  { contextId := 1, visible := fun _ => true, window := ⟨newYear, none⟩, kinds := [.superseded] }

def createdQuery : ContextQuery := { tiedQuery with kinds := [.created] }

theorem key_getLast? (change : Change) : change.key.getLast? = some change.memoryId.val := by
  simp [Change.key, positionKey]

theorem memoryIds_of_keys {all : List Change} {ids : List Uuid}
    (keys : (all.map Change.key).map List.getLast? = ids.map fun id => some id.val) :
    all.map Change.memoryId = ids := by
  have injective : Function.Injective fun id : Uuid => some id.val :=
    fun _ _ same => Fin.ext (Option.some.inj same)
  refine List.map_injective_iff.mpr injective ?_
  rw [← keys, List.map_map, List.map_map]
  exact List.map_congr_left fun change _ => (key_getLast? change).symm

-- Three memories over two pages.
theorem change_pages_complete_two :
    let page (cursor : Option String) :=
      changesSince (List.insertionSort keyOrder) tiedStore createdQuery cursor 2
    (followPages page 4).map (List.map Change.memoryId) = some [1, 2, 3] ∧
      ((page none).toOption.map fun first =>
        (first.changes.length, first.nextCursor.isSome)) = some (2, true) ∧
      PagesListAll page (contextEvents tiedStore createdQuery) := by
  intro page
  have keys : sortedKeys (contextEvents tiedStore createdQuery) =
      [[2026, 1, 1, 0, 0, 0, 0, 0, 1], [2026, 1, 1, 0, 0, 0, 0, 0, 2],
        [2026, 1, 1, 0, 0, 0, 0, 0, 3]] := by decide +kernel
  have clean : CleanCuts 2 (sortedKeys (contextEvents tiedStore createdQuery)) := by
    rw [keys]
    exact (cleanCuts_drop (by decide) rfl rfl).mpr ⟨by decide, cleanCuts_short (by decide)⟩
  have valid : createdQuery.Valid := ⟨by decide, rfl⟩
  have listed := (change_pages_complete insertionSort_orders (by decide : 1 ≤ 2) tiedStore).1
    createdQuery valid
  obtain ⟨all, followed, perm, sorted⟩ := listed.mpr clean
  have ids : all.map Change.memoryId = [1, 2, 3] := by
    refine memoryIds_of_keys ?_
    rw [keys_of_perm perm sorted, keys]
    rfl
  have length : (contextEvents tiedStore createdQuery).length = 3 := by
    rw [← perm.length_eq, ← List.length_map Change.memoryId, ids]
    rfl
  refine ⟨?_, by decide +kernel, listed.mpr clean⟩
  rw [followed 4 (by rw [length]; decide), Option.map_some, ids]

theorem change_pages_lose_tied :
    ¬∀ (orderBy : List Change → List Change) (limit : Nat) (store : Store) (query : ContextQuery),
      Orders Change.key orderBy → 1 ≤ limit → query.Valid →
        PagesListAll (fun cursor => changesSince orderBy store query cursor limit)
          (contextEvents store query) := by
  intro complete
  have valid : tiedQuery.Valid := ⟨by decide, rfl⟩
  have listed := complete (List.insertionSort keyOrder) 1 tiedStore tiedQuery insertionSort_orders
    (by decide) valid
  rw [changesSince_complete_iff insertionSort_orders (by decide) tiedStore valid] at listed
  have keys : sortedKeys (contextEvents tiedStore tiedQuery) =
      [[2026, 1, 1, 0, 0, 0, 0, 3, 1], [2026, 1, 1, 0, 0, 0, 0, 3, 1]] := by decide +kernel
  rw [keys] at listed
  exact listed 0 _ _ rfl rfl rfl

end TiedEdges

end MemoryCloud.Changes
