import MemoryCloud.SupersedeFold.Heads

set_option autoImplicit false

/-!
# Folding loses no memory

The new pool has the rows outside all groups and, in the place of the first row of a group, a row
of its head.
-/

namespace MemoryCloud.SupersedeFold

open Search Collapse

variable {Id Time V Q F : Type} [DecidableEq Id]

section Groups

variable {memories : String → Option (Memory Id Time)}

def inGroup (memories : String → Option (Memory Id Time)) (entry : Id × List Id) (row : Row V Q F) :
    Bool :=
  row.isOf memories entry.1 || entry.2.any fun id => row.isOf memories id

def unaffected (memories : String → Option (Memory Id Time)) (folds : List (Id × List Id))
    (row : Row V Q F) : Bool :=
  folds.all fun entry => !inGroup memories entry row

theorem Row.isOf_iff {row : Row V Q F} {id : Id} :
    row.isOf memories id ↔ ∃ memory, memories row.id = some memory ∧ memory.id = id := by
  rw [Row.isOf, Option.any_eq_true]
  simp only [decide_eq_true_eq]

theorem Row.isOf_unique {row : Row V Q F} {id other : Id} (first : row.isOf memories id)
    (second : row.isOf memories other) : id = other := by
  obtain ⟨memory, found, rfl⟩ := Row.isOf_iff.mp first
  obtain ⟨same, again, rfl⟩ := Row.isOf_iff.mp second
  rw [found, Option.some.injEq] at again
  rw [again]

variable [LinearOrder Time]

def groupOf (memories : String → Option (Memory Id Time)) (links : List (Id × List Id))
    (pool : List (Memory Id Time)) (str : Id → String) (row : Row V Q F) : Option Id :=
  (memories row.id).bind fun memory => headOf links pool str memory.id

variable {links : List (Id × List Id)} {pool : List (Memory Id Time)} {str : Id → String}

theorem groupOf_isOf {row : Row V Q F} {id : Id} (of : row.isOf memories id) :
    groupOf memories links pool str row = headOf links pool str id := by
  obtain ⟨memory, found, rfl⟩ := Row.isOf_iff.mp of
  rw [groupOf, found, Option.bind_some]

theorem foldMap_head {entry other : Id × List Id} (first : entry ∈ foldMap links pool str)
    (second : other ∈ foldMap links pool str) (same : entry.1 = other.1) : entry = other := by
  refine Prod.ext same ?_
  rw [(mem_foldMap.mp first).1, (mem_foldMap.mp second).1, same]

theorem groupOf_eq_some {row : Row V Q F} {head : Id} :
    groupOf memories links pool str row = some head ↔
      ∃ entry ∈ foldMap links pool str, entry.1 = head ∧ inGroup memories entry row := by
  simp only [groupOf, Option.bind_eq_some_iff, headOf_eq_some, inGroup, Bool.or_eq_true,
    List.any_eq_true, Row.isOf_iff]
  constructor
  next =>
    rintro ⟨memory, found, entry, listed, rfl, same | member⟩
    next => exact ⟨entry, listed, rfl, .inl ⟨memory, found, same⟩⟩
    next => exact ⟨entry, listed, rfl, .inr ⟨memory.id, member, memory, found, rfl⟩⟩
  next =>
    rintro ⟨entry, listed, rfl, ⟨memory, found, same⟩ | ⟨id, member, memory, found, rfl⟩⟩
    next => exact ⟨memory, found, entry, listed, rfl, .inl same⟩
    next => exact ⟨memory, found, entry, listed, rfl, .inr member⟩

theorem groupOf_entry {entry : Id × List Id} (listed : entry ∈ foldMap links pool str)
    {row : Row V Q F} :
    groupOf memories links pool str row = some entry.1 ↔ inGroup memories entry row := by
  rw [groupOf_eq_some]
  constructor
  next =>
    rintro ⟨other, inside, same, member⟩
    rwa [← foldMap_head inside listed same]
  next => exact fun member => ⟨entry, listed, rfl, member⟩

theorem groupOf_eq_none {row : Row V Q F} :
    groupOf memories links pool str row = none ↔
      unaffected memories (foldMap links pool str) row := by
  rw [Option.eq_none_iff_forall_ne_some, unaffected, List.all_eq_true]
  simp only [Bool.not_eq_true']
  constructor
  next =>
    intro none entry listed
    rw [← Bool.not_eq_true]
    exact fun member => none entry.1 ((groupOf_entry listed).mpr member)
  next =>
    intro free head found
    obtain ⟨entry, listed, _, member⟩ := groupOf_eq_some.mp found
    rw [free entry listed] at member
    cases member

end Groups

section Rewriting

variable [LinearOrder Time] [LinearOrder Q] (memories : String → Option (Memory Id Time))
  (links : List (Id × List Id)) (str : Id → String) (rows : List (Row V Q F))

def rowGroup (row : Row V Q F) : Option Id :=
  groupOf memories links (poolOf memories rows) str row

def rowsOf (head : Id) : List (Row V Q F) :=
  rows.filter fun row => decide (rowGroup memories links str rows row = some head)

def lead (row : Row V Q F) : Row V Q F :=
  ((rowGroup memories links str rows row).bind fun head =>
    headRow memories (rowsOf memories links str rows head) head row).getD row

def foldedRows : List (Row V Q F) :=
  (staying (rowGroup memories links str rows) rows).map fun entry =>
    lead memories links str rows entry.1

variable {memories links str rows}

theorem lead_alone {row : Row V Q F} (alone : rowGroup memories links str rows row = none) :
    lead memories links str rows row = row := by
  rw [lead, alone]
  rfl

omit [LinearOrder Q] in
theorem head_row {row : Row V Q F} {head : Id}
    (named : rowGroup memories links str rows row = some head) :
    ∃ found ∈ rows, found.isOf memories head ∧
      rowGroup memories links str rows found = some head := by
  obtain ⟨entry, listed, rfl, _⟩ := groupOf_eq_some.mp named
  obtain ⟨id, member⟩ := List.exists_mem_of_ne_nil _ (mem_foldMap.mp listed).2
  rw [(mem_foldMap.mp listed).1, mem_membersOf] at member
  obtain ⟨found, inside, of⟩ := mem_poolOf.mp (foldedUnder_some member).2.1
  refine ⟨found, inside, of, ?_⟩
  rw [rowGroup, groupOf_entry listed, inGroup, of, Bool.true_or]

theorem headRow_lead {row : Row V Q F} {head : Id}
    (named : rowGroup memories links str rows row = some head) :
    ∃ found ∈ rowsOf memories links str rows head, found.isOf memories head ∧
      headRow memories (rowsOf memories links str rows head) head row =
        some (lead memories links str rows row) ∧
      lead memories links str rows row =
        { found with
          ranks := row.ranks
          semanticScoreRaw := ((rowsOf memories links str rows head).filterMap Row.number?).max?.elim
            found.semanticScoreRaw .number } := by
  obtain ⟨first, inside, of, same⟩ := head_row named
  have listed : first ∈ rowsOf memories links str rows head :=
    List.mem_filter.mpr ⟨inside, decide_eq_true same⟩
  obtain ⟨found, search⟩ : ∃ found, (rowsOf memories links str rows head).find?
      (fun row => row.isOf memories head) = some found := by
    rw [← Option.isSome_iff_exists, List.find?_isSome]
    exact ⟨first, listed, of⟩
  have placed : headRow memories (rowsOf memories links str rows head) head row = some
      { found with
        ranks := row.ranks
        semanticScoreRaw := ((rowsOf memories links str rows head).filterMap Row.number?).max?.elim
          found.semanticScoreRaw .number } := by
    rw [headRow, search, Option.map_some]
    cases ((rowsOf memories links str rows head).filterMap Row.number?).max? <;> rfl
  have become : lead memories links str rows row =
      { found with
        ranks := row.ranks
        semanticScoreRaw := ((rowsOf memories links str rows head).filterMap Row.number?).max?.elim
          found.semanticScoreRaw .number } := by
    rw [lead, named, Option.bind_some, placed, Option.getD_some]
  have found_of : found.isOf memories head := by
    have holds := List.find?_some search
    exact holds
  exact ⟨found, List.mem_of_find?_eq_some search, found_of, become ▸ placed, become⟩

theorem lead_isOf {row : Row V Q F} {head : Id}
    (named : rowGroup memories links str rows row = some head) :
    (lead memories links str rows row).isOf memories head := by
  obtain ⟨found, _, of, _, become⟩ := headRow_lead named
  rw [become]
  exact of

theorem lead_ranks (row : Row V Q F) : (lead memories links str rows row).ranks = row.ranks := by
  cases named : rowGroup memories links str rows row with
  | none => rw [lead_alone named]
  | some head =>
    obtain ⟨found, _, _, _, become⟩ := headRow_lead named
    rw [become]

theorem foldLinkedVersions_eq :
    foldLinkedVersions memories str rows (poolOf memories rows) links =
      some (foldedRows memories links str rows, foldMap links (poolOf memories rows) str) := by
  have placed : ∀ row ∈ rows, ∀ head, rowGroup memories links str rows row = some head →
      headRow memories (rowsOf memories links str rows head) head row =
        some (lead memories links str rows row) := by
    intro row _ head named
    obtain ⟨_, _, _, become, _⟩ := headRow_lead named
    exact become
  have collapsed := collapse_eq (lead memories links str rows) (fun row _ alone => lead_alone alone)
    placed
  by_cases none : foldMap links (poolOf memories rows) str = []
  next =>
    have alone : ∀ row : Row V Q F, rowGroup memories links str rows row = Option.none := by
      intro row
      rw [rowGroup, groupOf_eq_none, none]
      rfl
    have whole : ((staying (rowGroup memories links str rows) rows).map Prod.fst).filter
        (fun _ => true) = rows.filter fun _ => true :=
      staying_alone _ _ fun row _ _ => alone row
    rw [List.filter_true, List.filter_true] at whole
    have unchanged : foldedRows memories links str rows = rows := by
      conv_rhs => rw [← whole]
      exact List.map_congr_left fun entry _ => lead_alone (alone entry.1)
    rw [unchanged, none]
    exact if_pos none
  next =>
    refine (if_neg none).trans ?_
    exact congrArg (Option.map fun folded => (folded, foldMap links (poolOf memories rows) str)) collapsed

variable (memories links str) in
theorem group_staying {row : Row V Q F} (listed : row ∈ rows) :
    ∃ first ∈ rows, lead memories links str rows first ∈ foldedRows memories links str rows ∧
      rowGroup memories links str rows first = rowGroup memories links str rows row := by
  obtain ⟨position, first, stays, same⟩ := exists_staying (rowGroup memories links str rows)
    listed
  exact ⟨first, List.mem_of_getElem? ((mem_staying _).mp stays).1,
    List.mem_map_of_mem (f := fun entry => lead memories links str rows entry.1) stays, same⟩

theorem alone_staying {row : Row V Q F} (listed : row ∈ rows)
    (alone : rowGroup memories links str rows row = none) :
    row ∈ foldedRows memories links str rows := by
  obtain ⟨position, found⟩ := List.mem_iff_getElem?.mp listed
  have stays := (mem_staying (rowGroup memories links str rows)).mpr ⟨found, .inl alone⟩
  refine List.mem_map.mpr ⟨_, stays, lead_alone alone⟩

theorem mem_foldedRows {row : Row V Q F} (listed : row ∈ foldedRows memories links str rows) :
    ∃ old ∈ rows, row = lead memories links str rows old := by
  obtain ⟨⟨old, position⟩, stays, rfl⟩ := List.mem_map.mp listed
  exact ⟨old, List.mem_of_getElem? ((mem_staying _).mp stays).1, rfl⟩

theorem foldedRows_isOf {id : Id} :
    (∃ row ∈ foldedRows memories links str rows, row.isOf memories id) ↔
      id ∈ (poolOf memories rows).map Memory.id ∧
        foldedUnder links (poolOf memories rows) str id = none := by
  constructor
  next =>
    rintro ⟨row, listed, of⟩
    obtain ⟨old, inside, rfl⟩ := mem_foldedRows listed
    cases named : rowGroup memories links str rows old with
    | none =>
      rw [lead_alone named] at of
      refine ⟨mem_poolOf.mpr ⟨old, inside, of⟩, ?_⟩
      rw [rowGroup, groupOf_isOf of, headOf] at named
      split at named
      next => exact named
      next => cases named
    | some head =>
      obtain rfl := Row.isOf_unique of (lead_isOf named)
      obtain ⟨entry, listed, rfl, _⟩ := groupOf_eq_some.mp named
      obtain ⟨member, filled⟩ := List.exists_mem_of_ne_nil _ (mem_foldMap.mp listed).2
      rw [(mem_foldMap.mp listed).1, mem_membersOf] at filled
      obtain ⟨_, present, top, _⟩ := foldedUnder_some filled
      exact ⟨present, foldedUnder_head top⟩
  next =>
    rintro ⟨present, free⟩
    obtain ⟨row, listed, of⟩ := mem_poolOf.mp present
    have named : rowGroup memories links str rows row = headOf links (poolOf memories rows) str id :=
      groupOf_isOf of
    rw [headOf, free] at named
    split at named
    next => exact ⟨row, alone_staying listed named, of⟩
    next =>
      obtain ⟨first, _, stays, same⟩ := group_staying memories links str listed
      exact ⟨_, stays, lead_isOf (same.trans named)⟩

theorem foldedRows_filter (kept : Row V Q F → Bool)
    (alone : ∀ row ∈ rows, kept row → rowGroup memories links str rows row = none)
    (leads : ∀ row ∈ rows, ∀ head, rowGroup memories links str rows row = some head →
      ¬ kept (lead memories links str rows row)) :
    (foldedRows memories links str rows).filter kept = rows.filter kept := by
  rw [← staying_alone (rowGroup memories links str rows) kept alone, List.filter_map,
    foldedRows, List.filter_map]
  have inside : ∀ entry ∈ staying (rowGroup memories links str rows) rows, entry.1 ∈ rows :=
    fun entry stays => List.mem_of_getElem? ((mem_staying _).mp stays).1
  have same : ∀ entry ∈ staying (rowGroup memories links str rows) rows,
      kept (lead memories links str rows entry.1) = kept entry.1 := by
    intro entry stays
    cases named : rowGroup memories links str rows entry.1 with
    | none => rw [lead_alone named]
    | some head =>
      have gone := leads entry.1 (inside entry stays) head named
      have old : ¬ kept entry.1 := fun holds => by
        rw [alone entry.1 (inside entry stays) holds] at named
        cases named
      rw [Bool.not_eq_true] at gone old
      rw [gone, old]
  rw [List.filter_congr (p := kept ∘ fun entry => lead memories links str rows entry.1)
    (q := kept ∘ Prod.fst) same]
  refine List.map_congr_left fun entry listed => ?_
  obtain ⟨stays, holds⟩ := List.mem_filter.mp listed
  exact lead_alone (alone entry.1 (inside entry stays) holds)

end Rewriting

section Raw

variable [LinearOrder Time] [LinearOrder Q] {memories : String → Option (Memory Id Time)}
  {links : List (Id × List Id)} {str : Id → String} {rows : List (Row V Q F)}

theorem max?_eq_of_cofinal {left right : List Q} (inside : ∀ value ∈ left, value ∈ right)
    (reached : ∀ value ∈ right, ∃ higher ∈ left, value ≤ higher) : left.max? = right.max? := by
  cases found : right.max? with
  | none =>
    rw [List.max?_eq_none_iff] at found ⊢
    rw [found] at inside
    exact List.eq_nil_iff_forall_not_mem.mpr fun value listed => List.not_mem_nil (inside value listed)
  | some top =>
    obtain ⟨listed, above⟩ := List.max?_eq_some_iff.mp found
    obtain ⟨higher, taken, least⟩ := reached top listed
    have same : higher = top := le_antisymm (above higher (inside higher taken)) least
    exact List.max?_eq_some_iff.mpr ⟨same ▸ taken, fun value member => above value (inside value member)⟩

omit [LinearOrder Q] in
theorem mem_numbers {value : Q} {rows : List (Row V Q F)} :
    value ∈ rows.filterMap Row.number? ↔ ∃ row ∈ rows, row.semanticScoreRaw = .number value := by
  rw [List.mem_filterMap]
  refine exists_congr fun row => and_congr_right fun _ => ?_
  unfold Row.number?
  cases row.semanticScoreRaw <;> simp

theorem foldedRows_raw :
    ((foldedRows memories links str rows).filterMap Row.number?).max? =
      (rows.filterMap Row.number?).max? := by
  refine max?_eq_of_cofinal (fun value listed => ?_) (fun value listed => ?_)
  next =>
    obtain ⟨row, inside, raw⟩ := mem_numbers.mp listed
    obtain ⟨old, present, rfl⟩ := mem_foldedRows inside
    cases named : rowGroup memories links str rows old with
    | none =>
      rw [lead_alone named] at raw
      exact mem_numbers.mpr ⟨old, present, raw⟩
    | some head =>
      obtain ⟨found, grouped, _, _, become⟩ := headRow_lead named
      rw [become] at raw
      cases top : ((rowsOf memories links str rows head).filterMap Row.number?).max? with
      | none =>
        rw [top] at raw
        exact mem_numbers.mpr ⟨found, List.mem_of_mem_filter grouped, raw⟩
      | some highest =>
        rw [top] at raw
        obtain ⟨row, member, number⟩ := mem_numbers.mp (List.max?_eq_some_iff.mp top).1
        cases raw
        exact mem_numbers.mpr ⟨row, List.mem_of_mem_filter member, number⟩
  next =>
    obtain ⟨row, inside, raw⟩ := mem_numbers.mp listed
    cases named : rowGroup memories links str rows row with
    | none => exact ⟨value, mem_numbers.mpr ⟨row, alone_staying inside named, raw⟩, le_refl value⟩
    | some head =>
      obtain ⟨first, _, stays, same⟩ := group_staying memories links str inside
      obtain ⟨_, _, _, _, become⟩ := headRow_lead (same.trans named)
      have grouped : value ∈ (rowsOf memories links str rows head).filterMap Row.number? :=
        mem_numbers.mpr ⟨row, List.mem_filter.mpr ⟨inside, decide_eq_true named⟩, raw⟩
      cases top : ((rowsOf memories links str rows head).filterMap Row.number?).max? with
      | none =>
        rw [List.max?_eq_none_iff.mp top] at grouped
        cases grouped
      | some highest =>
        refine ⟨highest, mem_numbers.mpr ⟨_, stays, ?_⟩, (List.max?_eq_some_iff.mp top).2 value grouped⟩
        rw [become, top]
        rfl

end Raw

section Claims

variable [LinearOrder Time] [LinearOrder Q]

structure Folds (memories : String → Option (Memory Id Time)) (rows result : List (Row V Q F))
    (folds : List (Id × List Id)) : Prop where
  present : ∀ id, (∃ row ∈ rows, row.isOf memories id) →
    ((∃ row ∈ result, row.isOf memories id) ∧ (∀ entry ∈ folds, id ∉ entry.2) ∧
      ((∀ entry ∈ folds, id ≠ entry.1) → result.filter (fun row => row.isOf memories id) =
        rows.filter fun row => row.isOf memories id)) ∨
    ((∀ row ∈ result, ¬ row.isOf memories id) ∧ ∃! entry, entry ∈ folds ∧ id ∈ entry.2 ∧
      ∃ row ∈ result, row.isOf memories entry.1)
  once : (folds.map Prod.fst).Nodup ∧ ∀ entry ∈ folds, entry.2.Nodup
  heads : ∀ entry ∈ folds, ∀ other ∈ folds, entry.1 ∉ other.2
  order : result.filter (unaffected memories folds) = rows.filter (unaffected memories folds)
  -- The kept positions: all rows outside groups, and the first row of each group.
  places : ∃ kept : List (Row V Q F × Nat), kept.Sublist rows.zipIdx ∧
    (∀ row position, (row, position) ∈ kept ↔ rows[position]? = some row ∧
      (unaffected memories folds row ∨ ∃ entry ∈ folds, inGroup memories entry row ∧
        ∀ earlier ∈ rows.take position, ¬ inGroup memories entry earlier)) ∧
    List.Forall₂ (fun old new => new.ranks = old.1.ranks ∧
      (unaffected memories folds old.1 → new = old.1) ∧
      ∀ entry ∈ folds, inGroup memories entry old.1 → new.isOf memories entry.1 ∧
        ∃ found ∈ rows, found.isOf memories entry.1 ∧ new.id = found.id ∧ new.fields = found.fields)
      kept result
  sorted : ∀ before : Ranks V → Ranks V → Prop,
    (rows.Pairwise fun left right => before left.ranks right.ranks) →
      result.Pairwise fun left right => before left.ranks right.ranks
  raw : (result.filterMap Row.number?).max? = (rows.filterMap Row.number?).max?

variable {memories : String → Option (Memory Id Time)} {links : List (Id × List Id)}
  {str : Id → String} {rows : List (Row V Q F)}

omit [LinearOrder Q] in
theorem rowGroup_first {row : Row V Q F} {position : Nat} :
    (rowGroup memories links str rows row = none ∨ ∀ earlier ∈ rows.take position,
        rowGroup memories links str rows earlier ≠ rowGroup memories links str rows row) ↔
      unaffected memories (foldMap links (poolOf memories rows) str) row ∨
        ∃ entry ∈ foldMap links (poolOf memories rows) str, inGroup memories entry row ∧
          ∀ earlier ∈ rows.take position, ¬ inGroup memories entry earlier := by
  cases named : rowGroup memories links str rows row with
  | none => exact iff_of_true (.inl rfl) (.inl (groupOf_eq_none.mp named))
  | some head =>
    obtain ⟨entry, listed, rfl, member⟩ := groupOf_eq_some.mp named
    have touched : ¬ unaffected memories (foldMap links (poolOf memories rows) str) row := by
      intro free
      rw [rowGroup, groupOf_eq_none.mpr free] at named
      cases named
    simp only [reduceCtorEq, false_or, touched]
    constructor
    next =>
      intro first
      exact ⟨entry, listed, member, fun earlier taken inside =>
        first earlier taken ((groupOf_entry listed).mpr inside)⟩
    next =>
      rintro ⟨other, inside, found, first⟩ earlier taken same
      have named' : rowGroup memories links str rows row = some other.1 :=
        (groupOf_entry inside).mpr found
      rw [named, Option.some.injEq] at named'
      obtain rfl := foldMap_head listed inside named'
      exact first earlier taken ((groupOf_entry listed).mp same)

omit [LinearOrder Q] in
theorem foldMap_once : ((foldMap links (poolOf memories rows) str).map Prod.fst).Nodup ∧
    ∀ entry ∈ foldMap links (poolOf memories rows) str, entry.2.Nodup := by
  constructor
  next =>
    have listed : (foldMap links (poolOf memories rows) str).Sublist
        (((poolOf memories rows).map Memory.id).map fun head =>
          (head, membersOf links (poolOf memories rows) str head)) := List.filter_sublist
    have heads := listed.map Prod.fst
    rw [List.map_map] at heads
    exact poolOf_nodup.sublist (by simpa [Function.comp_def] using heads)
  next =>
    intro entry listed
    rw [(mem_foldMap.mp listed).1]
    exact membersOf_nodup poolOf_nodup entry.1

theorem foldedRows_present {id : Id} (pooled : ∃ row ∈ rows, row.isOf memories id) :
    ((∃ row ∈ foldedRows memories links str rows, row.isOf memories id) ∧
      (∀ entry ∈ foldMap links (poolOf memories rows) str, id ∉ entry.2) ∧
      ((∀ entry ∈ foldMap links (poolOf memories rows) str, id ≠ entry.1) →
        (foldedRows memories links str rows).filter (fun row => row.isOf memories id) =
          rows.filter fun row => row.isOf memories id)) ∨
    ((∀ row ∈ foldedRows memories links str rows, ¬ row.isOf memories id) ∧
      ∃! entry, entry ∈ foldMap links (poolOf memories rows) str ∧ id ∈ entry.2 ∧
        ∃ row ∈ foldedRows memories links str rows, row.isOf memories entry.1) := by
  have listed := mem_poolOf.mpr pooled
  cases folded : foldedUnder links (poolOf memories rows) str id with
  | none =>
    refine .inl ⟨foldedRows_isOf.mpr ⟨listed, folded⟩, fun entry inside member => ?_, fun single => ?_⟩
    next =>
      rw [(mem_foldMap.mp inside).1, mem_membersOf, folded] at member
      cases member
    next =>
      refine foldedRows_filter _ (fun row _ of => ?_) fun row _ head named of => ?_
      next =>
        rw [rowGroup, groupOf_isOf of]
        cases top : headOf links (poolOf memories rows) str id with
        | none => rfl
        | some head =>
          obtain ⟨entry, inside, rfl, same | member⟩ := headOf_eq_some.mp top
          next => exact absurd same (single entry inside)
          next =>
            rw [(mem_foldMap.mp inside).1, mem_membersOf, folded] at member
            cases member
      next =>
        obtain rfl := Row.isOf_unique of (lead_isOf named)
        obtain ⟨entry, inside, same, _⟩ := groupOf_eq_some.mp named
        exact single entry inside same.symm
  | some head =>
    have member := mem_membersOf.mpr folded
    obtain ⟨_, present, top, _⟩ := foldedUnder_some folded
    refine .inr ⟨fun row inside of => ?_, (head, _), ⟨?_, member, ?_⟩, ?_⟩
    next =>
      have free := (foldedRows_isOf.mp ⟨row, inside, of⟩).2
      rw [folded] at free
      cases free
    next => exact mem_foldMap.mpr ⟨rfl, List.ne_nil_of_mem member⟩
    next => exact foldedRows_isOf.mpr ⟨present, foldedUnder_head top⟩
    next =>
      rintro other ⟨inside, among, _⟩
      have lists := (mem_foldMap.mp inside).1
      rw [lists, mem_membersOf, folded, Option.some.injEq] at among
      subst among
      exact Prod.ext rfl lists

theorem foldedRows_folds :
    Folds memories rows (foldedRows memories links str rows)
      (foldMap links (poolOf memories rows) str) where
  present _ := foldedRows_present
  once := foldMap_once
  heads := by
    intro entry listed other inside member
    obtain ⟨id, filled⟩ := List.exists_mem_of_ne_nil _ (mem_foldMap.mp listed).2
    rw [(mem_foldMap.mp listed).1, mem_membersOf] at filled
    rw [(mem_foldMap.mp inside).1, mem_membersOf,
      foldedUnder_head (foldedUnder_some filled).2.2.1] at member
    cases member
  order := by
    refine foldedRows_filter _ (fun row _ free => groupOf_eq_none.mpr free) fun row _ head named free => ?_
    obtain ⟨entry, listed, rfl, _⟩ := groupOf_eq_some.mp named
    have member : inGroup memories entry (lead memories links str rows row) := by
      rw [inGroup, lead_isOf named, Bool.true_or]
    have outside := List.all_eq_true.mp free entry listed
    rw [member] at outside
    cases outside
  places := by
    refine ⟨staying (rowGroup memories links str rows) rows, staying_sublist _, ?_, ?_⟩
    next =>
      intro row position
      rw [mem_staying, rowGroup_first]
    next =>
      rw [foldedRows, List.forall₂_map_right_iff, List.forall₂_same]
      intro old stays
      refine ⟨lead_ranks old.1, fun free => lead_alone (groupOf_eq_none.mpr free), ?_⟩
      intro entry listed member
      have named : rowGroup memories links str rows old.1 = some entry.1 :=
        (groupOf_entry listed).mpr member
      obtain ⟨found, grouped, of, _, become⟩ := headRow_lead named
      refine ⟨lead_isOf named, found, List.mem_of_mem_filter grouped, of, ?_⟩
      rw [become]
      exact ⟨rfl, rfl⟩
  sorted := by
    intro before ordered
    have ranks : ((foldedRows memories links str rows).map Row.ranks).Sublist
        (rows.map Row.ranks) := by
      have kept : ((staying (rowGroup memories links str rows) rows).map fun entry =>
          entry.1.ranks).Sublist (rows.zipIdx.map fun entry => entry.1.ranks) :=
        (staying_sublist _).map _
      have whole : (rows.zipIdx.map fun entry => entry.1.ranks) = rows.map Row.ranks := by
        conv_rhs => rw [← List.zipIdx_map_fst 0 rows, List.map_map]
        rfl
      rw [foldedRows, List.map_map, ← whole]
      simpa only [Function.comp_def, lead_ranks] using kept
    exact List.pairwise_map.mp ((List.pairwise_map.mpr ordered).sublist ranks)
  raw := foldedRows_raw

-- What a link of a fold rests on: an edge to a version that shadowing removed, or a verified
-- verdict.
inductive Evidence (hydrated pool : List (Memory Id Time)) (candidates : List (Id × Candidate Id))
    (shadowMap : List (Id × Id)) (source target : Id) : Prop
  | shadowed (edge : (target, source) ∈ shadowMap) (present : target ∈ hydrated.map Memory.id)
      (outside : target ∉ pool.map Memory.id)
  | verified (candidate : Candidate Id) (judged : (source, candidate) ∈ candidates)
      (sure : candidate.verified = some true) (names : candidate.memoryId = target)

-- No memory of the pool is lost, and a second fold with the same links changes nothing.
theorem fold_loses_no_memory (memories : String → Option (Memory Id Time))
    (links : List (Id × List Id)) (str : Id → String) (rows : List (Row V Q F)) :
    ∃ result folds,
      foldLinkedVersions memories str rows (poolOf memories rows) links = some (result, folds) ∧
      Folds memories rows result folds ∧
      foldLinkedVersions memories str result (poolOf memories result) links = some (result, []) := by
  refine ⟨_, _, foldLinkedVersions_eq, foldedRows_folds, ?_⟩
  have left : ∀ id, id ∈ (poolOf memories (foldedRows memories links str rows)).map Memory.id ↔
      id ∈ (poolOf memories rows).map Memory.id ∧
        foldedUnder links (poolOf memories rows) str id = none :=
    fun id => mem_poolOf.trans foldedRows_isOf
  exact if_pos (foldMap_again left)

omit [LinearOrder Q] in
theorem folded_under_evidence (hydrated pool : List (Memory Id Time))
    (candidates : List (Id × Candidate Id)) (shadowMap : List (Id × Id)) (str : Id → String)
    (entry : Id × List Id) (id : Id)
    (listed : entry ∈ foldMap (foldLinks ((bridgesOf hydrated pool shadowMap).map Memory.id)
      ((pool ++ bridgesOf hydrated pool shadowMap).map Memory.id) candidates shadowMap) pool str)
    (member : id ∈ entry.2) :
    Relation.TransGen (Evidence hydrated pool candidates shadowMap) entry.1 id := by
  rw [(mem_foldMap.mp listed).1, mem_membersOf] at member
  obtain ⟨chain, _⟩ := reaches_iff.mp (foldedUnder_some member).2.2.2
  refine Relation.TransGen.mono ?_ entry.1 id chain
  intro source target linked
  rcases link_foldLinks.mp linked with ⟨edge, bridge, _⟩ | ⟨candidate, judged, sure, names, _⟩
  next =>
    obtain ⟨present, _, outside⟩ := mem_bridgesOf.mp bridge
    exact .shadowed edge present outside
  next => exact .verified candidate judged sure names

end Claims

end MemoryCloud.SupersedeFold
