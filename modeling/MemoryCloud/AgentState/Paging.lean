import Mathlib.Algebra.GroupWithZero.Nat
import Mathlib.Algebra.BigOperators.Group.List.Basic
import Mathlib.Data.String.Basic
import MemoryCloud.AgentState.Model
import MemoryCloud.Shared.Keyset

set_option autoImplicit false

/-!
# Paging shows every key once

A page covers the first entries above its cursor, in key order, and its cursor is the last key
that it covered. So the pages that a caller follows cut the live entries into pieces.
-/

namespace MemoryCloud.AgentState

open Keyset

section Placing

variable {budget : Nat}

-- What an entry takes of the budget: whole, or as a marker when it can never fit.
def cost (budget : Nat) (entry : String × Json) : Nat :=
  if entryChars entry.1 entry.2 > budget then markerChars entry.1
  else entryChars entry.1 entry.2

def Page.cover (budget : Nat) (page : Page) (entry : String × Json) : Page :=
  { states := if entryChars entry.1 entry.2 > budget then page.states else page.states ++ [entry]
    omitted := if entryChars entry.1 entry.2 > budget then page.omitted ++ [entry.1] else page.omitted
    used := page.used + cost budget entry
    lastKey := some entry.1
    stoppedEarly := page.stoppedEarly }

theorem placeEntries_cons (entry : String × Json) (rest : List (String × Json)) (page : Page) :
    placeEntries budget (entry :: rest) page =
      if page.used + cost budget entry > budget then { page with stoppedEarly := true }
      else placeEntries budget rest (page.cover budget entry) := by
  obtain ⟨key, value⟩ := entry
  rw [placeEntries]
  by_cases large : entryChars key value > budget
  next => simp [Page.cover, cost, large]
  next => simp [Page.cover, cost, large]

def charsOf (states : List (String × Json)) (omitted : List String) : Nat :=
  (states.map fun entry => entryChars entry.1 entry.2).sum + (omitted.map markerChars).sum

def keysOf (states : List (String × Json)) (omitted : List String) : List String :=
  states.map Prod.fst ++ omitted

structure Page.Covers (budget : Nat) (page : Page) (covered : List (String × Json)) : Prop where
  keys : (keysOf page.states page.omitted).Perm (covered.map Prod.fst)
  whole : ∀ entry ∈ page.states, entry ∈ covered
  large : ∀ key ∈ page.omitted, ∃ value, (key, value) ∈ covered ∧ entryChars key value > budget
  chars : charsOf page.states page.omitted = page.used
  within : page.used ≤ budget
  last : page.lastKey = covered.getLast?.map Prod.fst

theorem Page.Covers.cover {page : Page} {covered : List (String × Json)} {entry : String × Json}
    (covers : page.Covers budget covered) (fits : page.used + cost budget entry ≤ budget) :
    (page.cover budget entry).Covers budget (covered ++ [entry]) := by
  have keys := covers.keys
  have chars := covers.chars
  have last : (page.cover budget entry).lastKey = (covered ++ [entry]).getLast?.map Prod.fst := by
    rw [List.getLast?_concat, Option.map_some]
    rfl
  have kept : ∀ key ∈ page.omitted,
      ∃ value, (key, value) ∈ covered ++ [entry] ∧ entryChars key value > budget := by
    intro key listed
    obtain ⟨value, inside, large⟩ := covers.large key listed
    exact ⟨value, List.mem_append_left _ inside, large⟩
  by_cases large : entryChars entry.1 entry.2 > budget
  next =>
    refine ⟨?_, ?_, ?_, ?_, fits, last⟩
    · simp only [Page.cover, if_pos large, keysOf, List.map_append, List.map_singleton]
      rw [← List.append_assoc]
      exact keys.append_right [entry.1]
    · simp only [Page.cover, if_pos large]
      exact fun other listed => List.mem_append_left _ (covers.whole other listed)
    · simp only [Page.cover, if_pos large, List.mem_append, List.mem_singleton]
      intro key listed
      cases listed with
      | inl earlier => simpa using kept key earlier
      | inr same => exact ⟨entry.2, .inr (by rw [same]), by rwa [same]⟩
    · simp only [Page.cover, if_pos large, cost, ← chars, charsOf, List.map_append, List.sum_append,
        List.map_singleton, List.sum_singleton]
      omega
  next =>
    refine ⟨?_, ?_, ?_, ?_, fits, last⟩
    · simp only [Page.cover, if_neg large, keysOf, List.map_append, List.map_singleton]
      rw [List.append_assoc]
      refine (List.perm_append_comm.append_left _).trans ?_
      rw [← List.append_assoc]
      exact keys.append_right [entry.1]
    · simp only [Page.cover, if_neg large, List.mem_append]
      exact fun other listed => listed.imp_left (covers.whole other)
    · simpa only [Page.cover, if_neg large] using kept
    · simp only [Page.cover, if_neg large, cost, ← chars, charsOf, List.map_append, List.sum_append,
        List.map_singleton, List.sum_singleton]
      omega

theorem placeEntries_prefix {covered : List (String × Json)} (rows : List (String × Json)) {page : Page}
    (covers : page.Covers budget covered) (going : page.stoppedEarly = false) :
    ∃ more rest, rows = more ++ rest ∧
      (placeEntries budget rows page).Covers budget (covered ++ more) ∧
      ((placeEntries budget rows page).stoppedEarly = true ↔ rest ≠ []) ∧
      ∀ entry ∈ rest.head?, (placeEntries budget rows page).used + cost budget entry > budget := by
  induction rows generalizing covered page with
  | nil => exact ⟨[], [], rfl, by simpa [placeEntries] using covers, by simp [placeEntries, going], by simp⟩
  | cons entry rows ih =>
    rw [placeEntries_cons]
    split
    next full =>
      refine ⟨[], entry :: rows, rfl, ?_, by simp, ?_⟩
      · rw [List.append_nil]
        exact ⟨covers.keys, covers.whole, covers.large, covers.chars, covers.within, covers.last⟩
      · intro other first
        cases first
        exact full
    next fits =>
      obtain ⟨more, rest, rfl, later, stopped, blocked⟩ := ih (covers.cover (Nat.le_of_not_lt fits)) going
      refine ⟨entry :: more, rest, rfl, ?_, stopped, blocked⟩
      rwa [List.append_assoc] at later

end Placing

section Texts

theorem compactMembers_length (members : List (String × Json)) :
    (compactMembers members).length =
      (members.map fun entry => entryChars entry.1 entry.2).sum + 1 := by
  induction members with
  | nil => rfl
  | cons entry rest ih =>
    simp only [compactMembers, List.length_cons, List.length_append, ih, List.map_cons, List.sum_cons,
      entryChars, jsonChars, compact]
    omega

theorem compactItems_length (keys : List String) :
    (compactItems (keys.map Json.string)).length = (keys.map markerChars).sum + 1 := by
  induction keys with
  | nil => rfl
  | cons key rest ih =>
    simp only [compactItems, List.length_cons, List.length_append, ih, List.map_cons, List.sum_cons,
      markerChars, jsonChars]
    omega

theorem page_text_le (states : List (String × Json)) (omitted : List String) :
    jsonChars (.object states) + jsonChars (.array (omitted.map Json.string)) ≤
      charsOf states omitted + 4 := by
  have members : jsonChars (.object states) ≤
      (states.map fun entry => entryChars entry.1 entry.2).sum + 2 := by
    cases states with
    | nil => exact Nat.le_refl 2
    | cons entry rest =>
      simp only [jsonChars, compact, List.length_cons, List.length_append, compactMembers_length,
        List.map_cons, List.sum_cons, entryChars]
      omega
  have markers : jsonChars (.array (omitted.map Json.string)) ≤ (omitted.map markerChars).sum + 2 := by
    cases omitted with
    | nil => exact Nat.le_refl 2
    | cons key rest =>
      simp only [jsonChars, List.map_cons, compact, List.length_cons, List.length_append,
        compactItems_length, List.sum_cons, markerChars]
      omega
  unfold charsOf
  omega

end Texts

section Pages

variable {budget limit : Nat}

def StatePage.omitted (page : StatePage) : List String :=
  page.omittedKeys.getD []

def StatePage.coveredKeys (page : StatePage) : List String :=
  keysOf page.states page.omitted

structure StatePage.Sound (budget : Nat) (live : List (String × Json)) (page : StatePage) : Prop where
  whole : ∀ entry ∈ page.states, entry ∈ live
  large : ∀ key ∈ page.omitted, ∃ value, (key, value) ∈ live ∧ budget < entryChars key value
  chars : charsOf page.states page.omitted ≤ budget
  text : jsonChars (.object page.states) + jsonChars (.array (page.omitted.map Json.string)) ≤
    budget + 4

theorem StatePage.Sound.mono {live more : List (String × Json)} {page : StatePage}
    (sound : page.Sound budget live) (inside : ∀ entry ∈ live, entry ∈ more) :
    page.Sound budget more := by
  refine ⟨fun entry listed => inside entry (sound.whole entry listed), ?_, sound.chars, sound.text⟩
  intro key listed
  obtain ⟨value, found, large⟩ := sound.large key listed
  exact ⟨value, inside _ found, large⟩

def blankPage : Page :=
  { states := [], omitted := [], used := 0, lastKey := none, stoppedEarly := false }

theorem blankPage_covers (budget : Nat) : blankPage.Covers budget [] :=
  ⟨by simp [keysOf, blankPage], by simp [blankPage], by simp [blankPage], by simp [charsOf, blankPage],
    by simp [blankPage], by simp [blankPage]⟩

def Page.shape (page : Page) (more : Bool) : StatePage :=
  { states := page.states
    count := page.states.length
    hasMore := page.stoppedEarly || more
    nextCursor := if page.stoppedEarly || more then page.lastKey else none
    omittedKeys := if page.omitted = [] then none else some page.omitted }

theorem Page.shape_omitted (page : Page) (more : Bool) : (page.shape more).omitted = page.omitted := by
  simp only [StatePage.omitted, Page.shape]
  split
  next none => rw [none, Option.getD_none]
  next => rfl

theorem boundStatePage_eq (found : List (String × Json)) :
    boundStatePage (found.take (limit + 1)) limit budget =
      (placeEntries budget (found.take limit) blankPage).shape (decide (limit < found.length)) := by
  have shown : (found.take (limit + 1)).take limit = found.take limit := by
    rw [List.take_take, Nat.min_eq_left (Nat.le_succ limit)]
  have more : limit < (found.take (limit + 1)).length ↔ limit < found.length := by
    rw [List.length_take]
    omega
  simp only [boundStatePage, shown, decide_eq_decide.mpr more]
  rfl

theorem Page.Covers.sound {page : Page} {covered : List (String × Json)}
    (covers : page.Covers budget covered) (more : Bool) :
    (page.shape more).Sound budget covered ∧
      (page.shape more).coveredKeys.Perm (covered.map Prod.fst) := by
  have chars : charsOf page.states page.omitted ≤ budget := covers.chars.trans_le covers.within
  refine ⟨⟨covers.whole, ?_, ?_, ?_⟩, ?_⟩
  · rw [page.shape_omitted]
    exact covers.large
  · rw [page.shape_omitted]
    exact chars
  · rw [page.shape_omitted]
    exact (page_text_le page.states page.omitted).trans (Nat.add_le_add_right chars 4)
  · rw [StatePage.coveredKeys, page.shape_omitted]
    exact covers.keys

theorem boundStatePage_covers (positive : 1 ≤ limit) (found : List (String × Json))
    (markers : ∀ entry ∈ found, markerChars entry.1 ≤ budget) :
    ∃ covered rest, found = covered ++ rest ∧
      (boundStatePage (found.take (limit + 1)) limit budget).Sound budget covered ∧
      (boundStatePage (found.take (limit + 1)) limit budget).coveredKeys.Perm
        (covered.map Prod.fst) ∧
      (rest = [] → (boundStatePage (found.take (limit + 1)) limit budget).nextCursor = none) ∧
      (rest ≠ [] → ∃ last, covered.getLast? = some last ∧
        (boundStatePage (found.take (limit + 1)) limit budget).nextCursor = some last.1) := by
  obtain ⟨covered, left, split, covers, stopped, blocked⟩ :=
    placeEntries_prefix (found.take limit) (blankPage_covers budget) rfl
  rw [boundStatePage_eq]
  generalize placeEntries budget (found.take limit) blankPage = page at covers stopped blocked ⊢
  rw [List.nil_append] at covers
  have cut : found = covered ++ (left ++ found.drop limit) := by
    rw [← List.append_assoc, ← split, List.take_append_drop]
  have ended : left ++ found.drop limit ≠ [] ↔
      (page.stoppedEarly || decide (limit < found.length)) = true := by
    rw [Ne, List.append_eq_nil_iff, List.drop_eq_nil_iff, Bool.or_eq_true, stopped, decide_eq_true_eq]
    by_cases whole : left = [] <;> simp [whole]
  obtain ⟨sound, keys⟩ := covers.sound (decide (limit < found.length))
  refine ⟨covered, left ++ found.drop limit, cut, sound, keys, fun none => ?_, fun further => ?_⟩
  next => exact if_neg fun more => ended.mpr more none
  next =>
    have reached : (page.shape (decide (limit < found.length))).nextCursor = page.lastKey :=
      if_pos (ended.mp further)
    rw [reached, covers.last]
    cases covered with
    | cons first rest =>
      obtain ⟨last, ends⟩ : ∃ last, (first :: rest).getLast? = some last :=
        ⟨_, List.getLast?_eq_getLast_of_ne_nil (by simp)⟩
      exact ⟨last, ends, by rw [ends, Option.map_some]⟩
    | nil =>
      -- The first entry fits an empty page, whole or as its marker.
      cases left with
      | nil =>
        have none : found.take limit = [] := split
        rw [List.nil_append, List.take_eq_nil_iff.mp none |>.resolve_left (by omega)] at further
        simp at further
      | cons entry others =>
        have full := blocked entry rfl
        have listed : entry ∈ found := by
          rw [cut]
          simp
        have used : page.used = 0 := by
          rw [← covers.chars]
          obtain ⟨states, omitted⟩ := List.append_eq_nil_iff.mp covers.keys.eq_nil
          rw [List.map_eq_nil_iff.mp states, omitted]
          rfl
        have marker := markers entry listed
        unfold cost at full
        split at full <;> omega

end Pages

section Listing

variable {Context Time K : Type} [DecidableEq Context] [LinearOrder Time] [LinearOrder K]

def ordered (collation : Collation K) (entries : List (String × Json)) : List (String × Json) :=
  entries.insertionSort fun left right => collation.sortKey left.1 ≤ collation.sortKey right.1

def above (collation : Collation K) (entries : List (String × Json)) (cursor : Option String) :
    List (String × Json) :=
  entries.filter fun entry => afterKey collation entry.1 cursor

theorem ordered_perm (collation : Collation K) (entries : List (String × Json)) :
    (ordered collation entries).Perm entries :=
  List.perm_insertionSort _ _

theorem ordered_sorted (collation : Collation K) {entries : List (String × Json)}
    (distinct : (entries.map Prod.fst).Nodup) :
    (ordered collation entries).Pairwise fun left right =>
      collation.sortKey left.1 < collation.sortKey right.1 := by
  have weak : (ordered collation entries).Pairwise fun left right =>
      collation.sortKey left.1 ≤ collation.sortKey right.1 :=
    List.pairwise_insertionSort _ _
  have different : (ordered collation entries).Pairwise fun left right => left.1 ≠ right.1 :=
    List.pairwise_map.mp (((ordered_perm collation entries).map Prod.fst).nodup_iff.mpr distinct)
  refine (weak.and different).imp fun both => ?_
  exact lt_of_le_of_ne both.1 fun same => both.2 (collation.deterministic same)

theorem ordered_unique (collation : Collation K) {entries sorted : List (String × Json)}
    (distinct : (entries.map Prod.fst).Nodup) (same : sorted.Perm entries)
    (order : sorted.Pairwise fun left right =>
      collation.sortKey left.1 < collation.sortKey right.1) :
    ordered collation entries = sorted := by
  refine ((ordered_perm collation entries).trans same.symm).eq_of_pairwise ?_
    (ordered_sorted collation distinct) order
  exact fun left right _ _ low high => absurd high (lt_asymm low)

theorem liveEntries_nodup (table : StateTable Context Time) (contextId : Context) (now : Time) :
    ((liveEntries table contextId now).map Prod.fst).Nodup := by
  rw [liveEntries, List.map_map]
  refine List.Nodup.map_on ?_ (table.unique.of_map.filter _)
  intro row listed other otherListed same
  simp only [List.mem_filter, Bool.and_eq_true, decide_eq_true_eq] at listed otherListed
  refine List.inj_on_of_nodup_map table.unique listed.1 otherListed.1 ?_
  exact Prod.ext (listed.2.1.trans otherListed.2.1.symm) same

-- A row that is live at the read was not swept before it.
theorem swept_live (request : Request Context Time) (contextId : Context) :
    ((reapExpiredContext request.table contextId request.sweptAt).rows.filter fun row =>
        decide (row.contextId = contextId) && row.live request.now) =
      request.table.rows.filter fun row =>
        decide (row.contextId = contextId) && row.live request.now := by
  rw [reapExpiredContext, List.filter_filter]
  refine List.filter_congr fun row _ => ?_
  have forward := request.forward
  cases expiry : row.expiresAt with
  | none => simp [Row.expired, expiry]
  | some at_ =>
    by_cases live : request.now < at_
    next =>
      have kept : ¬ at_ ≤ request.sweptAt := not_le.mpr (forward.trans_lt live)
      simp [Row.expired, expiry, kept]
    next => simp [Row.live, expiry, live]

theorem listStatePage_eq (collation : Collation K) (request : Request Context Time)
    (contextId : Context) (cursor : Option String) (limit : Nat) {live : List (String × Json)}
    (unchanging : (liveEntries request.table contextId request.now).Perm live) :
    listStatePage collation request contextId cursor limit =
      (ordered collation (above collation live cursor)).take limit := by
  have entries : (((reapExpiredContext request.table contextId request.sweptAt).rows.filter fun row =>
      decide (row.contextId = contextId) && row.live request.now &&
        afterKey collation row.key cursor).map fun row => (row.key, row.value)) =
      above collation (liveEntries request.table contextId request.now) cursor := by
    rw [above, liveEntries, List.filter_map, ← swept_live, List.filter_filter]
    congr 1
    exact List.filter_congr fun row _ => Bool.and_comm _ _
  have distinct : ((above collation live cursor).map Prod.fst).Nodup :=
    ((unchanging.map Prod.fst).nodup_iff.mp (liveEntries_nodup _ _ _)).sublist
      (List.filter_sublist.map _)
  simp only [listStatePage]
  rw [List.map_insertionSort _ (s := fun left right : String × Json =>
    collation.sortKey left.1 ≤ collation.sortKey right.1) _ _ fun _ _ _ _ => Iff.rfl, entries]
  congr 1
  have perm := unchanging.filter fun entry => afterKey collation entry.1 cursor
  refine (ordered_unique collation distinct ((ordered_perm collation _).trans perm) ?_).symm
  exact ordered_sorted collation ((perm.map Prod.fst).nodup_iff.mpr distinct)

theorem ordered_above_last (collation : Collation K) {live covered rest : List (String × Json)}
    {cursor : Option String} {last : String × Json} (distinct : (live.map Prod.fst).Nodup)
    (split : ordered collation (above collation live cursor) = covered ++ rest)
    (ends : covered.getLast? = some last) :
    ordered collation (above collation live (some last.1)) = rest := by
  have sorted := ordered_sorted collation
    (distinct.sublist (List.filter_sublist.map Prod.fst) : ((above collation live cursor).map _).Nodup)
  have perm := ordered_perm collation (above collation live cursor)
  rw [split] at sorted perm
  have higher : ∀ earlier, cursor = some earlier →
      collation.sortKey earlier < collation.sortKey last.1 := by
    intro earlier same
    have listed : last ∈ above collation live cursor :=
      perm.mem_iff.mp (List.mem_append_left _ (List.mem_of_getLast? ends))
    have kept := (List.mem_filter.mp listed).2
    simpa [same, afterKey] using kept
  have narrowed : above collation live (some last.1) =
      (above collation live cursor).filter fun entry => afterKey collation entry.1 (some last.1) := by
    rw [above, above, List.filter_filter]
    refine List.filter_congr fun entry _ => ?_
    cases cursor with
    | none => simp [afterKey]
    | some earlier =>
      have less := higher earlier rfl
      by_cases past : collation.sortKey last.1 < collation.sortKey entry.1
      next => simp [afterKey, past, less.trans past]
      next => simp [afterKey, past]
  have kept := filter_above_prefix (fun entry => collation.sortKey entry.1) sorted ends
  refine ordered_unique collation (distinct.sublist (List.filter_sublist.map Prod.fst)) ?_
    (sorted.sublist (List.sublist_append_right _ _))
  rw [narrowed, ← kept]
  exact perm.filter _

end Listing

section Following

variable {Context Time K : Type} [DecidableEq Context] [LinearOrder Time] [LinearOrder K]

def readPages (answer : Nat → Option String → StatePage) (fuel : Nat) : Option (List StatePage) :=
  drain (fun cursor =>
    let page := answer (cursor.elim 0 Prod.fst) (cursor.map Prod.snd)
    some ([page], page.nextCursor.map fun key => (cursor.elim 0 Prod.fst + 1, key))) fuel none

structure Shows (budget : Nat) (found : List (String × Json)) (pages : List StatePage) : Prop where
  keys : (pages.flatMap StatePage.coveredKeys).Perm (found.map Prod.fst)
  sound : ∀ page ∈ pages, page.Sound budget found
  progress : ∀ page ∈ pages.dropLast, page.coveredKeys ≠ []

theorem Shows.single {budget : Nat} {found : List (String × Json)} {page : StatePage}
    (sound : page.Sound budget found) (keys : page.coveredKeys.Perm (found.map Prod.fst)) :
    Shows budget found [page] := by
  refine ⟨?_, ?_, by simp⟩
  · rwa [List.flatMap_singleton]
  · intro other listed
    rwa [List.mem_singleton.mp listed]

theorem Shows.cons {budget : Nat} {covered rest : List (String × Json)} {page : StatePage}
    {pages : List StatePage} (sound : page.Sound budget covered)
    (keys : page.coveredKeys.Perm (covered.map Prod.fst)) (further : covered ≠ [])
    (later : Shows budget rest pages) : Shows budget (covered ++ rest) (page :: pages) := by
  have shown : page.coveredKeys ≠ [] := by
    intro none
    rw [none] at keys
    exact further (List.map_eq_nil_iff.mp keys.nil_eq.symm)
  refine ⟨?_, ?_, ?_⟩
  · rw [List.flatMap_cons, List.map_append]
    exact keys.append later.keys
  · intro other listed
    cases listed with
    | head => exact sound.mono fun entry inside => List.mem_append_left _ inside
    | tail _ inside =>
      exact (later.sound other inside).mono fun entry inside => List.mem_append_right _ inside
  · intro other listed
    cases pages with
    | nil => simp at listed
    | cons next others =>
      cases listed with
      | head => exact shown
      | tail _ inside => exact later.progress other inside

variable {limit budget : Nat} (collation : Collation K) (requests : Nat → Request Context Time)
  (contextId : Context)

def statePage (limit budget request : Nat) (cursor : Option String) : StatePage :=
  boundStatePage (listStatePage collation (requests request) contextId cursor (limit + 1)) limit budget

theorem drain_shows (positive : 1 ≤ limit) {live : List (String × Json)}
    (unchanging : ∀ request,
      (liveEntries (requests request).table contextId (requests request).now).Perm live)
    (markers : ∀ entry ∈ live, markerChars entry.1 ≤ budget) (fuel : Nat)
    (cursor : Option (Nat × String))
    (enough : (ordered collation (above collation live (cursor.map Prod.snd))).length < fuel) :
    ∃ pages, drain (fun cursor =>
        let page := statePage collation requests contextId limit budget (cursor.elim 0 Prod.fst)
          (cursor.map Prod.snd)
        some ([page], page.nextCursor.map fun key => (cursor.elim 0 Prod.fst + 1, key))) fuel cursor =
          some pages ∧
      Shows budget (ordered collation (above collation live (cursor.map Prod.snd))) pages := by
  induction fuel generalizing cursor with
  | zero => omega
  | succ fuel ih =>
    have distinct : (live.map Prod.fst).Nodup :=
      ((unchanging 0).map Prod.fst).nodup_iff.mp (liveEntries_nodup _ _ _)
    have inside : ∀ entry ∈ ordered collation (above collation live (cursor.map Prod.snd)),
        markerChars entry.1 ≤ budget := fun entry listed =>
      markers entry (List.mem_of_mem_filter ((ordered_perm collation _).mem_iff.mp listed))
    obtain ⟨covered, rest, split, sound, keys, ended, goesOn⟩ :=
      boundStatePage_covers positive _ inside
    rw [← listStatePage_eq collation _ contextId _ _ (unchanging (cursor.elim 0 Prod.fst))]
      at sound keys ended goesOn
    rw [drain]
    simp only [statePage]
    cases rest with
    | nil =>
      rw [List.append_nil] at split
      rw [ended rfl, split]
      exact ⟨_, rfl, Shows.single sound keys⟩
    | cons entry others =>
      obtain ⟨last, ends, next⟩ := goesOn (by simp)
      have remaining := ordered_above_last collation distinct split ends
      have further : covered ≠ [] := by
        rintro rfl
        simp at ends
      have shorter : (entry :: others).length < fuel := by
        rw [split, List.length_append] at enough
        have more := List.length_pos_of_ne_nil further
        omega
      obtain ⟨pages, read, shows⟩ := ih (some (cursor.elim 0 Prod.fst + 1, last.1))
        (by rwa [Option.map_some, remaining])
      rw [Option.map_some, remaining] at shows
      rw [next, split]
      refine ⟨_ :: pages, ?_, Shows.cons sound keys further shows⟩
      simp only [Option.map_some]
      simp only [statePage] at read
      rw [read, Option.map_some, List.singleton_append]

-- Each read finds the same live entries, whatever else the table holds at that time.
theorem paging_shows_every_key_once {live : List (String × Json)} (positive : 1 ≤ limit)
    (unchanging : ∀ request,
      (liveEntries (requests request).table contextId (requests request).now).Perm live)
    (markers : ∀ entry ∈ live, markerChars entry.1 ≤ budget) :
    ∃ pages,
      (∀ fuel > live.length,
        readPages (statePage collation requests contextId limit budget) fuel = some pages) ∧
      (live.map Prod.fst).Nodup ∧
      (pages.flatMap StatePage.coveredKeys).Perm (live.map Prod.fst) ∧
      (∀ page ∈ pages,
        (∀ entry ∈ page.states, entry ∈ live) ∧
        (∀ key ∈ page.omitted, ∃ value, (key, value) ∈ live ∧ budget < entryChars key value) ∧
        charsOf page.states page.omitted ≤ budget ∧
        jsonChars (.object page.states) + jsonChars (.array (page.omitted.map Json.string)) ≤
          budget + 4) ∧
      ∀ page ∈ pages.dropLast, page.coveredKeys ≠ [] := by
  have whole : above collation live none = live := by simp [above, afterKey]
  have perm := ordered_perm collation live
  obtain ⟨pages, read, shows⟩ := drain_shows collation requests contextId positive unchanging markers
    (live.length + 1) none (by rw [Option.map_none, whole, perm.length_eq]; omega)
  rw [Option.map_none, whole] at shows
  refine ⟨pages, fun fuel more => drain_enough read more, ?_, shows.keys.trans (perm.map _), ?_,
    shows.progress⟩
  next => exact ((unchanging 0).map Prod.fst).nodup_iff.mp (liveEntries_nodup _ _ _)
  next =>
    intro page listed
    have sound := (shows.sound page listed).mono fun entry inside => perm.mem_iff.mp inside
    exact ⟨sound.whole, sound.large, sound.chars, sound.text⟩

-- Two keys of one context, of which one value is too large for the page of 9 characters.
def twoKeys : StateTable Nat Nat where
  rows :=
    [{ contextId := 1, key := "b", value := .string "long text", expiresAt := none },
      { contextId := 1, key := "a", value := .int 5, expiresAt := some 20 },
      { contextId := 1, key := "c", value := .int 7, expiresAt := some 3 }]
  unique := by decide

def codePoints : Collation String where
  sortKey := id
  deterministic := Function.injective_id

theorem paging_shows_every_key_once_twoKeys :
    ∃ pages,
      readPages (statePage codePoints (fun request => ⟨twoKeys, 10, 10 + request % 5, by omega⟩) 1 1 9)
        3 = some pages ∧
      (pages.flatMap StatePage.coveredKeys).Perm ["b", "a"] := by
  have unchanging : ∀ request : Nat, (liveEntries twoKeys 1 (10 + request % 5)).Perm
      [("b", .string "long text"), ("a", .int 5)] := by
    intro request
    have early : 10 + request % 5 < 20 := by omega
    have late : ¬ 10 + request % 5 < 3 := by omega
    simp [liveEntries, twoKeys, Row.live, early, late]
  have markers : ∀ entry ∈ [("b", Json.string "long text"), ("a", .int 5)],
      markerChars entry.1 ≤ 9 := by decide
  obtain ⟨pages, read, _, keys, _⟩ := paging_shows_every_key_once
    codePoints (fun request => ⟨twoKeys, 10, 10 + request % 5, by omega⟩) 1 (le_refl 1) unchanging markers
  exact ⟨pages, read 3 (by decide), keys⟩

end Following

end MemoryCloud.AgentState
