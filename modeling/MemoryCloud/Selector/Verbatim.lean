import MemoryCloud.Selector.Model

set_option autoImplicit false

/-!
# The selector is verbatim

Whatever JSON the model answers, the page shown is a part of the page built, each row with its
stored content or with slices of it in order, and nothing of the answer but the indices it
parses to decides which.
-/

namespace MemoryCloud.Selector

open Spans

section Segments

variable {text : List Char}

theorem cuts_sorted (text : List Char) : (cuts text).Pairwise (· < ·) := by
  unfold cuts
  refine List.Pairwise.filter _ (List.pairwise_map.mpr ?_)
  refine (List.pairwise_lt_range.filter _).imp ?_
  intro first second before
  exact Nat.succ_lt_succ before

theorem mem_cuts {cut : Nat} (listed : cut ∈ cuts text) : 0 < cut ∧ cut < text.length := by
  obtain ⟨mapped, inside⟩ := List.mem_filter.mp listed
  obtain ⟨position, _, rfl⟩ := List.mem_map.mp mapped
  exact ⟨Nat.succ_pos position, by simpa using inside⟩

theorem pieces_tile {start stop : Nat} (cuts : List Nat) (sorted : (start :: cuts).Pairwise (· < ·))
    (inside : ∀ cut ∈ start :: cuts, cut ≤ stop) : Tiles start (pieces stop start cuts) stop := by
  induction cuts generalizing start with
  | nil => exact ⟨rfl, inside start (by simp), rfl⟩
  | cons cut rest ih =>
    obtain ⟨first, later⟩ := List.pairwise_cons.mp sorted
    have forward : start < cut := first cut (by simp)
    refine ⟨rfl, forward.le, ih later ?_⟩
    exact fun other listed => inside other (List.mem_cons_of_mem _ listed)

theorem extendLast_eq {spans init : List Span} {last : Span} (split : spans = init ++ [last])
    (stop : Nat) : extendLast spans last stop = init ++ [(last.1, stop)] := by
  rw [extendLast, split, List.dropLast_concat]

theorem mergePiece_tiles {merged : List Span} {piece : Span} (tiles : Tiles 0 merged piece.1)
    (forward : piece.1 ≤ piece.2) : Tiles 0 (mergePiece text merged piece) piece.2 := by
  unfold mergePiece
  split
  next last found =>
    obtain ⟨init, split⟩ := List.getLast?_eq_some_iff.mp found
    split
    next =>
      rw [extendLast_eq split]
      rw [split] at tiles
      exact tiles.extend forward
    next => exact tiles.concat forward
  next => exact tiles.concat forward

theorem mergePieces_tile (pieces : List Span) {merged : List Span} {middle stop : Nat}
    (tiles : Tiles 0 merged middle) (rest : Tiles middle pieces stop) :
    Tiles 0 (pieces.foldl (mergePiece text) merged) stop := by
  induction pieces generalizing merged middle with
  | nil =>
    cases rest
    exact tiles
  | cons piece later ih =>
    obtain ⟨starts, forward, tiled⟩ := rest
    rw [← starts] at tiles
    exact ih (mergePiece_tiles tiles forward) tiled

theorem capSegments_tiles {merged : List Span} {stop : Nat} (tiles : Tiles 0 merged stop) :
    Tiles 0 (capSegments stop merged) stop := by
  unfold capSegments
  split
  next last found =>
    split
    next many =>
      obtain ⟨inside, same⟩ := List.getElem?_eq_some_iff.mp found
      have split : merged = merged.take (maxSegments - 1) ++ [last] ++ merged.drop maxSegments := by
        rw [← same, List.take_append_getElem inside]
        exact (List.take_append_drop _ _).symm
      rw [split] at tiles
      obtain ⟨middle, before, after⟩ := tiles_append.mp tiles
      exact before.extend after.le
    next => exact tiles
  next => exact tiles

theorem segmentContent_tiles (text : List Char) : Tiles 0 (segmentContent text) text.length := by
  unfold segmentContent
  split
  next empty => exact empty.symm
  next =>
    have nothing : Tiles 0 [] 0 := rfl
    refine capSegments_tiles (mergePieces_tile _ nothing (pieces_tile _ ?_ ?_))
    next => exact .cons (fun cut listed => (mem_cuts listed).1) (cuts_sorted text)
    next =>
      intro cut listed
      rcases List.mem_cons.mp listed with rfl | later
      next => exact Nat.zero_le _
      next => exact (mem_cuts later).2.le

end Segments

section Spans

theorem sortedSet_sorted (values : List Nat) : (sortedSet values).Pairwise (· < ·) := by
  have ordered := List.pairwise_insertionSort (· ≤ ·) values.dedup
  have distinct : (sortedSet values).Nodup :=
    (List.perm_insertionSort _ _).nodup_iff.mpr values.nodup_dedup
  exact (ordered.and distinct).imp fun both => lt_of_le_of_ne both.1 both.2

theorem mem_sortedSet {values : List Nat} {value : Nat} :
    value ∈ sortedSet values ↔ value ∈ values := by
  rw [sortedSet, List.mem_insertionSort, List.mem_dedup]

theorem trimStart_bounds (text : List Char) (start left : Nat) :
    start ≤ trimStart text start left ∧ trimStart text start left ≤ start + left := by
  induction left generalizing start with
  | zero => exact ⟨le_rfl, le_rfl⟩
  | succ left ih =>
    unfold trimStart
    split
    next =>
      have later := ih (start + 1)
      omega
    next => omega

theorem trimEnd_le (text : List Char) (start stop : Nat) : trimEnd text start stop ≤ stop := by
  induction stop with
  | zero => exact le_rfl
  | succ stop ih =>
    unfold trimEnd
    split
    next => exact ih.trans (Nat.le_succ stop)
    next => exact le_rfl

theorem trimSpan_inside {text : List Char} {span smaller : Span}
    (trimmed : trimSpan text span = some smaller) :
    span.1 ≤ smaller.1 ∧ smaller.1 < smaller.2 ∧ smaller.2 ≤ span.2 := by
  unfold trimSpan at trimmed
  dsimp only at trimmed
  split at trimmed
  next ordered =>
    cases trimmed
    exact ⟨(trimStart_bounds text span.1 _).1, ordered, trimEnd_le text _ span.2⟩
  next => cases trimmed

structure Gathered (segments : List Span) (bound : Nat) (state : List Span × Option Nat) : Prop where
  ascending : Ascending state.1 bound
  reached : ∀ span ∈ state.1, ∃ previous segment, state.2 = some previous ∧
    segments[previous]? = some segment ∧ span.2 ≤ segment.2

theorem Gathered.before {segments : List Span} {bound i : Nat} {state : List Span × Option Nat}
    {segment : Span} (gathered : Gathered segments bound state)
    (apart : segments.Pairwise fun first second => first.2 ≤ second.1)
    (found : segments[i]? = some segment) (later : ∀ previous, state.2 = some previous → previous < i) :
    ∀ span ∈ state.1, span.2 ≤ segment.1 := by
  intro span listed
  obtain ⟨previous, reached, same, stored, upTo⟩ := gathered.reached span listed
  obtain ⟨inside, rfl⟩ := List.getElem?_eq_some_iff.mp found
  obtain ⟨before, rfl⟩ := List.getElem?_eq_some_iff.mp stored
  exact upTo.trans (List.pairwise_iff_getElem.mp apart previous i before inside (later previous same))

theorem addSpan_gathered {segments : List Span} {bound i : Nat} {state : List Span × Option Nat}
    {segment : Span} (gathered : Gathered segments bound state)
    (ascending : Ascending segments bound) (found : segments[i]? = some segment)
    (later : ∀ previous, state.2 = some previous → previous < i) :
    ∃ next, addSpan segments state i = some next ∧ next.2 = some i ∧
      Gathered segments bound next := by
  have before := gathered.before ascending.apart found later
  obtain ⟨forward, inside⟩ := ascending.within segment (List.mem_of_getElem? found)
  -- Every span so far ends before the segment does.
  have reached : ∀ spans : List Span, (∀ span ∈ spans, span.2 ≤ segment.2) → ∀ span ∈ spans,
      ∃ previous segment, some i = some previous ∧ segments[previous]? = some segment ∧
        span.2 ≤ segment.2 :=
    fun spans upTo span listed => ⟨i, segment, rfl, found, upTo span listed⟩
  have appended : Gathered segments bound (state.1 ++ [segment], some i) := by
    refine ⟨gathered.ascending.concat before ⟨forward, inside⟩, reached _ fun span listed => ?_⟩
    rcases List.mem_append.mp listed with old | new
    next => exact (before span old).trans forward
    next => rw [List.mem_singleton.mp new]
  unfold addSpan
  rw [found, Option.map_some]
  refine ⟨_, rfl, ?_⟩
  split
  next last previous lastFound _ =>
    obtain ⟨init, split⟩ := List.getLast?_eq_some_iff.mp lastFound
    have listed : last ∈ state.1 := by simp [split]
    split
    next =>
      refine ⟨rfl, ?_, reached _ fun span listed => ?_⟩
      next =>
        rw [extendLast_eq split]
        have extended := gathered.ascending
        rw [split] at extended
        exact extended.extend ((before last listed).trans forward) inside
      next =>
        rw [extendLast_eq split] at listed
        rcases List.mem_append.mp listed with old | new
        next => exact (before span (by simp [split, old])).trans forward
        next => rw [List.mem_singleton.mp new]
    next => exact ⟨rfl, appended⟩
  next => exact ⟨rfl, appended⟩

theorem addSpans_gathered {segments : List Span} {bound : Nat} (chosen : List Nat)
    {state : List Span × Option Nat} (gathered : Gathered segments bound state)
    (ascending : Ascending segments bound) (sorted : chosen.Pairwise (· < ·))
    (known : ∀ i ∈ chosen, i < segments.length)
    (later : ∀ previous, state.2 = some previous → ∀ i ∈ chosen, previous < i) :
    ∃ final, chosen.foldlM (addSpan segments) state = some final ∧
      Gathered segments bound final := by
  induction chosen generalizing state with
  | nil => exact ⟨state, rfl, gathered⟩
  | cons i rest ih =>
    obtain ⟨first, others⟩ := List.pairwise_cons.mp sorted
    have found : segments[i]? = some (segments.get ⟨i, known i (by simp)⟩) := by simp
    obtain ⟨next, taken, now, kept⟩ := addSpan_gathered gathered ascending found
      fun previous same => later previous same i (by simp)
    have nextKnown : ∀ j ∈ rest, j < segments.length := fun j listed =>
      known j (List.mem_cons_of_mem _ listed)
    have nextLater : ∀ previous, next.2 = some previous → ∀ j ∈ rest, previous < j := by
      intro previous same j listed
      rw [now] at same
      cases same
      exact first j listed
    obtain ⟨final, run, result⟩ := ih kept others nextKnown nextLater
    refine ⟨final, ?_, result⟩
    rw [List.foldlM_cons, taken]
    exact run

theorem spansFor_spec {text : List Char} {segments : List Span} {chosen : List Nat}
    (ascending : Ascending segments text.length) (known : ∀ i ∈ chosen, i < segments.length) :
    ∃ spans, spansFor text segments chosen = some spans ∧ Ascending spans text.length ∧
      ∀ span ∈ spans, span.1 < span.2 := by
  have nothing : Gathered segments text.length ([], none) :=
    ⟨⟨.nil, by simp⟩, by simp⟩
  obtain ⟨final, run, gathered⟩ := addSpans_gathered (sortedSet chosen) nothing ascending
    (sortedSet_sorted chosen) (fun i listed => known i (mem_sortedSet.mp listed)) (by simp)
  refine ⟨final.1.filterMap (trimSpan text), by rw [spansFor, run, Option.map_some], ?_, ?_⟩
  next =>
    refine gathered.ascending.filterMap fun span _ smaller trimmed => ?_
    obtain ⟨starts, ordered, ends⟩ := trimSpan_inside trimmed
    exact ⟨starts, ordered.le, ends⟩
  next =>
    intro smaller listed
    obtain ⟨span, _, trimmed⟩ := List.mem_filterMap.mp listed
    exact (trimSpan_inside trimmed).2.1

example : spansFor ['a', '.', ' ', 'b', '.', ' ', 'c'] [(0, 2), (2, 5), (5, 7)] [2, 0, 2] =
    some [(0, 2), (6, 7)] := by
  decide

end Spans

section Answer

def Known (counts : List Nat) (i : Nat) (decision : RowDecision) : Prop :=
  ∃ count, counts[i]? = some count ∧ ∀ chosen ∈ decision.segments, chosen < count

theorem index_lt {bound i : Nat} {value : Json} (found : index bound value = some i) : i < bound := by
  unfold index at found
  split at found
  next value =>
    split at found
    next inside =>
      cases found
      omega
    next => cases found
  next => cases found

theorem mem_indices {bound i : Nat} {values : List Json} {chosen : List Nat}
    (valid : values.mapM (index bound) = some chosen) (listed : i ∈ chosen) :
    ∃ value, index bound value = some i := by
  induction values generalizing chosen with
  | nil =>
    cases valid
    cases listed
  | cons value rest ih =>
    simp only [List.mapM_cons, Option.bind_eq_bind, Option.bind_eq_some_iff] at valid
    obtain ⟨first, found, others, later, same⟩ := valid
    cases same
    rcases List.mem_cons.mp listed with rfl | other
    next => exact ⟨value, found⟩
    next => exact ih later other

theorem parseItem_known {counts : List Nat} {item : Json} {i : Nat} {decision : RowDecision}
    (parsed : parseItem counts item = some (i, decision)) : Known counts i decision := by
  unfold parseItem at parsed
  split at parsed
  next members =>
    simp only [Option.bind_eq_bind, Option.bind_eq_some_iff] at parsed
    obtain ⟨_, _, _, _, raw, _, count, counted, chosen, valid, same⟩ := parsed
    cases same
    refine ⟨count, counted, fun i listed => ?_⟩
    rw [mem_sortedSet] at listed
    obtain ⟨value, found⟩ := mem_indices valid listed
    exact index_lt found
  next => cases parsed

theorem addDecision_known {counts : List Nat} {decisions : Decisions} {item : Json}
    (known : ∀ entry ∈ decisions, Known counts entry.1 entry.2) :
    ∀ entry ∈ addDecision counts decisions item, Known counts entry.1 entry.2 := by
  unfold addDecision
  split
  next i decision parsed =>
    split
    next =>
      intro entry listed
      rcases List.mem_append.mp listed with old | new
      next => exact known entry old
      next =>
        rw [List.mem_singleton.mp new]
        exact parseItem_known parsed
    next => exact known
  next => exact known

theorem parseSelection_known {counts : List Nat} {answer : Json} {decisions : Decisions}
    (parsed : parseSelection counts answer = some decisions) :
    ∀ entry ∈ decisions, Known counts entry.1 entry.2 := by
  have all : ∀ (items : List Json) (decisions : Decisions),
      (∀ entry ∈ decisions, Known counts entry.1 entry.2) →
        ∀ entry ∈ items.foldl (addDecision counts) decisions, Known counts entry.1 entry.2 := by
    intro items
    induction items with
    | nil => exact fun _ known => known
    | cons item rest ih => exact fun decisions known => ih _ (addDecision_known known)
  unfold parseSelection at parsed
  split at parsed
  next =>
    split at parsed
    next items _ =>
      dsimp only at parsed
      split at parsed
      next => cases parsed
      next =>
        cases parsed
        exact all items [] (by simp)
    next => cases parsed
  next => cases parsed

end Answer

section Apply

variable {F : Type}

structure Verbatim (stored shown : MemoryResponse F) : Prop where
  sameId : shown.memoryId = stored.memoryId
  sameFields : shown.fields = stored.fields
  content : shown.content = stored.content ∧ shown.spans = stored.spans ∨
    ∃ text spans, stored.content = some text ∧ spans ≠ [] ∧ Ascending spans text.length ∧
      (∀ span ∈ spans, span.1 < span.2) ∧
      shown.content = some (separator.intercalate (spans.map (slice text))) ∧
      shown.spans = some spans

theorem Verbatim.refl (stored : MemoryResponse F) : Verbatim stored stored :=
  ⟨rfl, rfl, Or.inl ⟨rfl, rfl⟩⟩

def keepsRow (row : Option SelectorRow) (decision : Option RowDecision) : Bool :=
  match decision, row with
  | some decision, some _ => decision.relevant
  | _, _ => true

def keeps (rows : List SelectorRow) (decisions : Decisions) (i : Nat) : Bool :=
  keepsRow (rows.find? fun row => row.i = i) (decisions.lookup i)

def Sent (response : MemoryResponse F) (row : SelectorRow) : Prop :=
  row.content = shownContent response ∧
    row.segments = ((shownContent response).map segmentContent).getD []

theorem find_rowsFor {page : List (MemoryResponse F)} {maxRows i : Nat} {row : SelectorRow}
    (found : (rowsFor page maxRows).find? (fun row => row.i = i) = some row) :
    ∃ response, page[i]? = some response ∧ Sent response row ∧
      (segmentsPerRow page maxRows)[i]? = some row.segments.length := by
  have same : row.i = i := by simpa using List.find?_some found
  obtain ⟨entry, listed, rfl⟩ := List.mem_map.mp (List.mem_of_find?_eq_some found)
  obtain ⟨response, position⟩ := entry
  cases same
  have stored := List.mem_zipIdx_iff_getElem?.mp listed
  refine ⟨response, ?_, ⟨rfl, rfl⟩, ?_⟩
  next =>
    dsimp only at stored ⊢
    rw [List.getElem?_take] at stored
    split at stored
    next => exact stored
    next => cases stored
  next =>
    dsimp only at stored ⊢
    rw [segmentsPerRow, rowsFor, List.map_map, List.getElem?_map, List.getElem?_zipIdx, stored]
    simp

theorem Sent.content_eq {response : MemoryResponse F} {row : SelectorRow} {text : List Char}
    (sent : Sent response row) (found : row.content = some text) :
    response.content = some text ∧ row.segments = segmentContent text := by
  rw [sent.1] at found
  refine ⟨?_, by rw [sent.2, found]; rfl⟩
  rw [shownContent, Option.filter_eq_some_iff] at found
  exact found.1

theorem selectRow_spec {row : Option SelectorRow} {decision : Option RowDecision}
    {response : MemoryResponse F} (sent : ∀ found, row = some found → Sent response found)
    (known : ∀ found chosen, row = some found → decision = some chosen →
      ∀ i ∈ chosen.segments, i < found.segments.length) :
    (keepsRow row decision = false ∧ selectRow row decision response = some none) ∨
      keepsRow row decision = true ∧
        ∃ shown, selectRow row decision response = some (some shown) ∧ Verbatim response shown := by
  cases decision with
  | none => exact Or.inr ⟨rfl, response, rfl, .refl response⟩
  | some chosen =>
    cases row with
    | none => exact Or.inr ⟨rfl, response, rfl, .refl response⟩
    | some found =>
      simp only [keepsRow, selectRow]
      by_cases relevant : chosen.relevant = false
      next => exact Or.inl ⟨relevant, if_pos relevant⟩
      next =>
        refine Or.inr ⟨by simpa using relevant, ?_⟩
        rw [if_neg relevant]
        split
        next text stored =>
          split
          next => exact ⟨response, rfl, .refl response⟩
          next =>
            obtain ⟨content, segments⟩ := (sent found rfl).content_eq stored
            have tiles := (segmentContent_tiles text).ascending
            rw [← segments] at tiles
            obtain ⟨spans, computed, ascending, ordered⟩ :=
              spansFor_spec tiles (known found chosen rfl rfl)
            rw [computed, Option.map_some]
            split
            next => exact ⟨response, rfl, .refl response⟩
            next filled =>
              have some : spans ≠ [] := by simpa using filled
              exact ⟨_, rfl, rfl, rfl,
                Or.inr ⟨text, spans, content, some, ascending, ordered, rfl, rfl⟩⟩
        next => exact ⟨response, rfl, .refl response⟩

structure Selection (keep : Nat → Bool) (i : Nat) (page shown : List (MemoryResponse F))
    (dropped : List MemoryId) : Prop where
  kept : List.Forall₂ Verbatim (((page.zipIdx i).filter fun entry => keep entry.2).map Prod.fst) shown
  others : dropped = ((page.zipIdx i).filter fun entry => !keep entry.2).map fun entry =>
    entry.1.memoryId

theorem applyFrom_spec {rows : List SelectorRow} {decisions : Decisions} (i : Nat)
    (page : List (MemoryResponse F))
    (sent : ∀ position response row, page[position]? = some response →
      rows.find? (fun row => row.i = i + position) = some row → Sent response row)
    (known : ∀ position row chosen, rows.find? (fun row => row.i = position) = some row →
      decisions.lookup position = some chosen → ∀ i ∈ chosen.segments, i < row.segments.length) :
    ∃ shown dropped, applyFrom rows decisions i page = some (shown, dropped) ∧
      Selection (keeps rows decisions) i page shown dropped := by
  induction page generalizing i with
  | nil => exact ⟨[], [], rfl, .nil, rfl⟩
  | cons response rest ih =>
    obtain ⟨shown, dropped, run, selection⟩ := ih (i + 1) fun position other row stored found =>
      sent (position + 1) other row stored (by rw [← Nat.add_assoc, Nat.add_right_comm]; exact found)
    have own : ∀ row, rows.find? (fun row => row.i = i) = some row → Sent response row :=
      fun row found => sent 0 response row rfl found
    have count : (response :: rest).zipIdx i = (response, i) :: rest.zipIdx (i + 1) := rfl
    rcases selectRow_spec own (known i) with ⟨keep, selected⟩ | ⟨keep, first, selected, verbatim⟩
    next =>
      have drops : keeps rows decisions i = false := keep
      refine ⟨shown, response.memoryId :: dropped, by rw [applyFrom, selected, run]; rfl, ?_⟩
      constructor
      next =>
        rw [count, List.filter_cons_of_neg (by simp [drops])]
        exact selection.kept
      next =>
        rw [count, List.filter_cons_of_pos (by simp [drops]), List.map_cons, selection.others]
    next =>
      have retains : keeps rows decisions i = true := keep
      refine ⟨first :: shown, dropped, by rw [applyFrom, selected, run]; rfl, ?_⟩
      constructor
      next =>
        rw [count, List.filter_cons_of_pos (by simp [retains]), List.map_cons]
        exact .cons verbatim selection.kept
      next =>
        rw [count, List.filter_cons_of_neg (by simp [retains]), selection.others]

theorem lookup_mem {decisions : Decisions} {i : Nat} {decision : RowDecision}
    (found : decisions.lookup i = some decision) : (i, decision) ∈ decisions := by
  obtain ⟨before, after, split, _⟩ := List.lookup_eq_some_iff.mp found
  simp [split]

theorem selectPage_spec (page : List (MemoryResponse F)) (maxRows : Nat) (answer : Json) :
    ∃ keep shown dropped, selectPage page maxRows answer = some (shown, dropped) ∧
      Selection keep 0 page shown dropped := by
  unfold selectPage
  split
  next decisions parsed =>
    have sent : ∀ position response row, page[position]? = some response →
        (rowsFor page maxRows).find? (fun row => row.i = 0 + position) = some row →
          Sent response row := by
      intro position response row stored found
      obtain ⟨other, same, sent, _⟩ := find_rowsFor found
      rw [Nat.zero_add, stored] at same
      cases same
      exact sent
    have known : ∀ position row chosen,
        (rowsFor page maxRows).find? (fun row => row.i = position) = some row →
          decisions.lookup position = some chosen →
            ∀ i ∈ chosen.segments, i < row.segments.length := by
      intro position row chosen found looked
      obtain ⟨_, _, _, counted⟩ := find_rowsFor found
      obtain ⟨count, same, known⟩ := parseSelection_known parsed _ (lookup_mem looked)
      rw [counted] at same
      cases same
      exact known
    exact ⟨_, applyFrom_spec 0 page sent known⟩
  next =>
    refine ⟨fun _ => true, page, [], rfl, ?_, by simp⟩
    simp only [List.filter_true, List.zipIdx_map_fst]
    exact List.forall₂_same.mpr fun response _ => .refl response

end Apply

section Skeleton

def answerKeys : List String := ["rows", "i", "relevant", "segments"]

mutual
-- An answer without the strings of the model: its texts, and its members of other names.
def skeleton : Json → Json
  | .string _ => .string ""
  | .array items => .array (skeletonItems items)
  | .object members => .object (skeletonMembers members)
  | .null => .null
  | .bool value => .bool value
  | .int value => .int value
  | .float value => .float value

def skeletonItems : List Json → List Json
  | [] => []
  | item :: rest => skeleton item :: skeletonItems rest

def skeletonMembers : List (String × Json) → List (String × Json)
  | [] => []
  | (key, value) :: rest =>
    if key ∈ answerKeys then (key, skeleton value) :: skeletonMembers rest
    else skeletonMembers rest
end

theorem skeletonItems_eq_map (items : List Json) : skeletonItems items = items.map skeleton := by
  induction items with
  | nil => rfl
  | cons item rest ih => rw [skeletonItems, ih, List.map_cons]

theorem lookup_skeleton {key : String} (asked : key ∈ answerKeys) (members : List (String × Json)) :
    (skeletonMembers members).lookup key = (members.lookup key).map skeleton := by
  induction members with
  | nil => rfl
  | cons member rest ih =>
    obtain ⟨name, value⟩ := member
    by_cases same : key = name
    next =>
      subst same
      rw [skeletonMembers, if_pos asked]
      simp
    next =>
      have other : (key == name) = false := by simpa using same
      rw [List.lookup_cons, other, skeletonMembers]
      split
      next =>
        rw [List.lookup_cons, other]
        exact ih
      next => exact ih

theorem index_skeleton (bound : Nat) (value : Json) : index bound (skeleton value) = index bound value := by
  cases value <;> rfl

theorem relevant_skeleton (value : Option Json) :
    parseRelevant (value.map skeleton) = parseRelevant value := by
  rcases value with _ | value
  next => rfl
  next => cases value <;> rfl

theorem rawSegments_skeleton (value : Option Json) :
    rawSegments (value.map skeleton) = (rawSegments value).map fun items => items.map skeleton := by
  rcases value with _ | value
  next => rfl
  next =>
    cases value with
    | array items => exact congrArg some (skeletonItems_eq_map items)
    | null | bool | int | float | string | object => rfl

theorem indices_skeleton (bound : Nat) (items : List Json) :
    (items.map skeleton).mapM (index bound) = items.mapM (index bound) := by
  induction items with
  | nil => rfl
  | cons item rest ih => rw [List.map_cons, List.mapM_cons, List.mapM_cons, ih, index_skeleton]

theorem parseItem_skeleton (counts : List Nat) (item : Json) :
    parseItem counts (skeleton item) = parseItem counts item := by
  cases item with
  | object members =>
    have row : ((members.lookup "i").map skeleton).bind (index counts.length) =
        (members.lookup "i").bind (index counts.length) := by
      rw [Option.bind_map]
      exact congrArg _ (funext fun value => index_skeleton _ value)
    rw [skeleton, parseItem, parseItem, lookup_skeleton (by decide), lookup_skeleton (by decide),
      lookup_skeleton (by decide), row, relevant_skeleton, rawSegments_skeleton]
    simp only [Option.bind_eq_bind, Option.bind_map, Function.comp_def, indices_skeleton]
  | null | bool | int | float | string | array => rfl

theorem parseItems_skeleton (counts : List Nat) (items : List Json) (decisions : Decisions) :
    (items.map skeleton).foldl (addDecision counts) decisions =
      items.foldl (addDecision counts) decisions := by
  rw [List.foldl_map]
  refine congrFun (congrFun (congrArg _ (funext fun decisions => funext fun item => ?_)) _) _
  rw [addDecision, addDecision, parseItem_skeleton]

theorem parseSelection_skeleton (counts : List Nat) (answer : Json) :
    parseSelection counts (skeleton answer) = parseSelection counts answer := by
  cases answer with
  | object members =>
    rw [skeleton, parseSelection, parseSelection, lookup_skeleton (by decide)]
    rcases members.lookup "rows" with _ | value
    next => rfl
    next =>
      cases value with
      | array items =>
        simp only [Option.map_some, skeleton, skeletonItems_eq_map, parseItems_skeleton]
      | null | bool | int | float | string | object => rfl
  | null | bool | int | float | string | array => rfl

end Skeleton

-- The page that the selector shows for an answer: a part of the page, each row verbatim, and the
-- same page for every answer with the same parsed indices or with other strings.
theorem selection_verbatim {F : Type} (page : List (MemoryResponse F)) (maxRows : Nat)
    (answer : Json) :
    ∃ keep shown dropped, selectPage page maxRows answer = some (shown, dropped) ∧
      Selection keep 0 page shown dropped ∧
      ∀ other, parseSelection (segmentsPerRow page maxRows) other =
            parseSelection (segmentsPerRow page maxRows) answer ∨
          skeleton other = skeleton answer →
        selectPage page maxRows other = some (shown, dropped) := by
  obtain ⟨keep, shown, dropped, selected, selection⟩ := selectPage_spec page maxRows answer
  refine ⟨keep, shown, dropped, selected, selection, fun other same => ?_⟩
  have parsed : parseSelection (segmentsPerRow page maxRows) other =
      parseSelection (segmentsPerRow page maxRows) answer := by
    rcases same with same | same
    next => exact same
    next => rw [← parseSelection_skeleton _ other, same, parseSelection_skeleton]
  rw [← selected, selectPage, selectPage, parsed]

end MemoryCloud.Selector
