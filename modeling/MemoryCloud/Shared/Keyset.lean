import Mathlib.Data.List.Sort
import Mathlib.Data.List.Perm.Subperm

set_option autoImplicit false

/-!
# Keyset paging

A page holds the first rows above the cursor in key order, and its cursor is
the key of its last row. Rows that share the key of the last row of a page are
never shown after it.
-/

namespace MemoryCloud.Keyset

section Drain

variable {α C : Type}

-- Follows the cursors until a page has none; a failed page or missing fuel is `none`.
def drain (page : Option C → Option (List α × Option C)) : Nat → Option C → Option (List α)
  | 0, _ => none
  | fuel + 1, cursor =>
      match page cursor with
      | none => none
      | some (shown, none) => some shown
      | some (shown, some next) => (drain page fuel (some next)).map (shown ++ ·)

theorem drain_simulates {C' : Type} {page : Option C → Option (List α × Option C)}
    {page' : Option C' → Option (List α × Option C')} {related : Option C → Option C' → Prop}
    (simulates : ∀ cursor cursor', related cursor cursor' →
      ∃ shown next next', page cursor = some (shown, next) ∧ page' cursor' = some (shown, next') ∧
        (next = none ↔ next' = none) ∧ related next next')
    (fuel : Nat) {cursor : Option C} {cursor' : Option C'} (start : related cursor cursor') :
    drain page fuel cursor = drain page' fuel cursor' := by
  induction fuel generalizing cursor cursor' with
  | zero => rfl
  | succ fuel ih =>
    obtain ⟨shown, next, next', answer, answer', ends, later⟩ := simulates cursor cursor' start
    simp only [drain, answer, answer']
    cases next with
    | none => simp [ends.mp rfl]
    | some key =>
      cases next' with
      | none => simp at ends
      | some key' => simp only [ih later]

theorem drain_more {page : Option C → Option (List α × Option C)} {fuel : Nat} {cursor : Option C}
    {all : List α} (answer : drain page fuel cursor = some all) :
    drain page (fuel + 1) cursor = some all := by
  induction fuel generalizing cursor all with
  | zero => simp [drain] at answer
  | succ fuel ih =>
    rw [drain] at answer ⊢
    split at answer
    next => cases answer
    next shown read => exact answer
    next shown next read =>
      obtain ⟨rest, later, joined⟩ := Option.map_eq_some_iff.mp answer
      rw [ih later, Option.map_some, joined]

theorem drain_enough {page : Option C → Option (List α × Option C)} {fuel enough : Nat}
    {cursor : Option C} {all : List α} (answer : drain page fuel cursor = some all)
    (more : fuel ≤ enough) : drain page enough cursor = some all := by
  induction enough, more using Nat.le_induction with
  | base => exact answer
  | succ enough _ ih => exact drain_more ih

end Drain

variable {α K : Type} [LinearOrder K]

-- Above the last key of a prefix stands exactly the rest.
theorem filter_above_prefix (key : α → K) {covered rest : List α} {last : α}
    (sorted : (covered ++ rest).Pairwise fun left right => key left < key right)
    (ends : covered.getLast? = some last) :
    (covered ++ rest).filter (fun row => decide (key last < key row)) = rest := by
  obtain ⟨before, rfl⟩ := List.getLast?_eq_some_iff.mp ends
  obtain ⟨ordered, _, above⟩ := List.pairwise_append.mp sorted
  obtain ⟨_, _, below⟩ := List.pairwise_append.mp ordered
  have none : (before ++ [last]).filter (fun row => decide (key last < key row)) = [] := by
    rw [List.filter_eq_nil_iff]
    intro row listed
    rw [List.mem_append, List.mem_singleton] at listed
    cases listed with
    | inl earlier => simpa using (below row earlier last (by simp)).le
    | inr same => simp [same]
  rw [List.filter_append, none, List.nil_append, List.filter_eq_self]
  intro row listed
  simpa using above last (by simp) row listed

-- What `ORDER BY key` may answer: rows of one key come in any order.
structure Orders (key : α → K) (orderBy : List α → List α) : Prop where
  perm : ∀ rows, (orderBy rows).Perm rows
  sorted : ∀ rows, ((orderBy rows).map key).Pairwise (· ≤ ·)

def after (key : α → K) (rows : List α) : Option K → List α
  | none => rows
  | some last => rows.filter fun row => decide (last < key row)

def page (key : α → K) (orderBy : List α → List α) (rows : List α) (limit : Nat)
    (cursor : Option K) : List α × Option K :=
  let found := orderBy (after key rows cursor)
  let shown := found.take limit
  (shown, if limit < found.length then shown.getLast?.map key else none)

-- No page of `limit` rows ends between two rows of one key.
def CleanCuts (limit : Nat) (keys : List K) : Prop :=
  ∀ count last next, keys[(count + 1) * limit - 1]? = some last →
    keys[(count + 1) * limit]? = some next → last ≠ next

section Cuts

omit [LinearOrder K] in
theorem cleanCuts_short {limit : Nat} {keys : List K} (short : keys.length ≤ limit) :
    CleanCuts limit keys := by
  intro count last next _ found
  have inside := (List.getElem?_eq_some_iff.mp found).1
  have more : limit ≤ (count + 1) * limit := Nat.le_mul_of_pos_left _ (Nat.succ_pos _)
  omega

omit [LinearOrder K] in
theorem cleanCuts_drop {limit : Nat} (positive : 1 ≤ limit) {keys : List K} {last next : K}
    (here : keys[limit - 1]? = some last) (there : keys[limit]? = some next) :
    CleanCuts limit keys ↔ last ≠ next ∧ CleanCuts limit (keys.drop limit) := by
  constructor
  next =>
    intro clean
    refine ⟨clean 0 last next (by simpa using here) (by simpa using there), ?_⟩
    intro count last' next' here' there'
    rw [List.getElem?_drop] at here' there'
    have shift : limit + ((count + 1) * limit - 1) = (count + 1 + 1) * limit - 1 := by
      have more : limit ≤ (count + 1) * limit := Nat.le_mul_of_pos_left _ (Nat.succ_pos _)
      rw [Nat.succ_mul (count + 1)]
      omega
    have shift' : limit + (count + 1) * limit = (count + 1 + 1) * limit := by
      rw [Nat.succ_mul (count + 1), Nat.add_comm]
    rw [shift] at here'
    rw [shift'] at there'
    exact clean (count + 1) last' next' here' there'
  next =>
    intro ⟨first, later⟩ count last' next' here' there'
    cases count with
    | zero =>
      have sameLast : last = last' := by simpa [here] using here'
      have sameNext : next = next' := by simpa [there] using there'
      rw [← sameLast, ← sameNext]
      exact first
    | succ count =>
      have shift : (count + 1 + 1) * limit - 1 = limit + ((count + 1) * limit - 1) := by
        have more : limit ≤ (count + 1) * limit := Nat.le_mul_of_pos_left _ (Nat.succ_pos _)
        rw [Nat.succ_mul (count + 1)]
        omega
      have shift' : (count + 1 + 1) * limit = limit + (count + 1) * limit := by
        rw [Nat.succ_mul (count + 1), Nat.add_comm]
      rw [shift, ← List.getElem?_drop] at here'
      rw [shift', ← List.getElem?_drop] at there'
      exact later count last' next' here' there'

theorem sorted_at {keys : List K} (sorted : keys.Pairwise (· ≤ ·)) {low high : Nat}
    {first second : K} (ordered : low ≤ high) (here : keys[low]? = some first)
    (there : keys[high]? = some second) : first ≤ second := by
  obtain ⟨inLow, rfl⟩ := List.getElem?_eq_some_iff.mp here
  obtain ⟨inHigh, rfl⟩ := List.getElem?_eq_some_iff.mp there
  cases Nat.lt_or_eq_of_le ordered with
  | inl less => exact List.pairwise_iff_getElem.mp sorted low high inLow inHigh less
  | inr same => subst same; exact le_refl _

variable {keys : List K} (sorted : keys.Pairwise (· ≤ ·)) {limit : Nat} (positive : 1 ≤ limit)
  {last next : K} (here : keys[limit - 1]? = some last) (there : keys[limit]? = some next)

include sorted positive here

theorem filter_above_drop :
    keys.filter (fun key => decide (last < key)) =
      (keys.drop limit).filter fun key => decide (last < key) := by
  have shown : (keys.take limit).filter (fun key => decide (last < key)) = [] := by
    rw [List.filter_eq_nil_iff]
    intro key listed
    obtain ⟨index, inside, rfl⟩ := List.mem_take_iff_getElem.mp listed
    have found : keys[index]? = some keys[index] := List.getElem?_eq_getElem (by omega)
    have below := sorted_at sorted (by omega) found here
    simpa using below
  nth_rewrite 1 [← List.take_append_drop limit keys]
  rw [List.filter_append, shown, List.nil_append]

include there

theorem filter_above_clean (clean : last ≠ next) :
    keys.filter (fun key => decide (last < key)) = keys.drop limit := by
  rw [filter_above_drop sorted positive here, List.filter_eq_self]
  intro key listed
  obtain ⟨index, inside, rfl⟩ := List.mem_drop_iff_getElem.mp listed
  have cut := sorted_at sorted (by omega) here there
  have found : keys[limit + index]? = some keys[limit + index] :=
    List.getElem?_eq_getElem (by omega)
  have above := sorted_at sorted (by omega) there found
  simpa using lt_of_lt_of_le (lt_of_le_of_ne cut clean) above

theorem filter_above_tied (tied : last = next) :
    (keys.filter fun key => decide (last < key)).length < keys.length - limit := by
  rw [filter_above_drop sorted positive here]
  have inside := (List.getElem?_eq_some_iff.mp there).1
  have value := (List.getElem?_eq_some_iff.mp there).2
  have head : keys.drop limit = last :: keys.drop (limit + 1) := by
    rw [List.drop_eq_getElem_cons inside, value, tied]
  rw [head, List.filter_cons_of_neg (by simp)]
  have fewer := List.length_filter_le (fun key => decide (last < key)) (keys.drop (limit + 1))
  rw [List.length_drop] at fewer
  omega

end Cuts

section Pages

variable {key : α → K} {orderBy : List α → List α} (orders : Orders key orderBy) {rows : List α}
  {limit : Nat} (positive : 1 ≤ limit)

theorem mem_after {cursor : Option K} {row : α} :
    row ∈ after key rows cursor ↔ row ∈ rows ∧ ∀ last, cursor = some last → last < key row := by
  cases cursor <;> simp [after]

theorem after_after {cursor : Option K} {last : K}
    (higher : ∀ earlier, cursor = some earlier → earlier < last) :
    after key rows (some last) =
      (after key rows cursor).filter fun row => decide (last < key row) := by
  cases cursor with
  | none => rfl
  | some earlier =>
    have less := higher earlier rfl
    simp only [after, List.filter_filter]
    apply List.filter_congr
    intro row _
    by_cases above : last < key row
    next => simp [above, less.trans above]
    next => simp [above]

include orders

theorem Orders.length (rows : List α) : (orderBy rows).length = rows.length :=
  (orders.perm rows).length_eq

theorem Orders.mem {rows : List α} {row : α} : row ∈ orderBy rows ↔ row ∈ rows :=
  (orders.perm rows).mem_iff

-- The keys in order do not depend on how the rows of one key are ordered.
theorem Orders.filter_keys (rows : List α) (last : K) :
    (orderBy (rows.filter fun row => decide (last < key row))).map key =
      ((orderBy rows).map key).filter fun key => decide (last < key) := by
  have same : ((orderBy (rows.filter fun row => decide (last < key row))).map key).Perm
      (((orderBy rows).map key).filter fun key => decide (last < key)) := by
    rw [List.filter_map]
    exact ((orders.perm _).trans ((orders.perm rows).symm.filter _)).map key
  exact same.eq_of_pairwise (fun a b _ _ ab ba => le_antisymm ab ba) (orders.sorted _)
    ((orders.sorted rows).filter _)

omit orders in
theorem page_whole {cursor : Option K}
    (short : (orderBy (after key rows cursor)).length ≤ limit) :
    page key orderBy rows limit cursor = (orderBy (after key rows cursor), none) := by
  have shown : (orderBy (after key rows cursor)).take limit = orderBy (after key rows cursor) :=
    List.take_of_length_le short
  simp only [page, shown]
  rw [if_neg (by omega)]

include positive

theorem page_cut (rows : List α) (cursor : Option K)
    (long : limit < (orderBy (after key rows cursor)).length) :
    ∃ last next,
      page key orderBy rows limit cursor =
        ((orderBy (after key rows cursor)).take limit, some last) ∧
      ((orderBy (after key rows cursor)).map key)[limit - 1]? = some last ∧
      ((orderBy (after key rows cursor)).map key)[limit]? = some next ∧
      after key rows (some last) =
        (after key rows cursor).filter fun row => decide (last < key row) := by
  generalize foundRows : orderBy (after key rows cursor) = found at long
  have lastRow : found[limit - 1]? = some found[limit - 1] := List.getElem?_eq_getElem (by omega)
  have nextRow : found[limit]? = some found[limit] := List.getElem?_eq_getElem long
  have ending : (found.take limit).getLast? = some found[limit - 1] := by
    rw [List.getLast?_eq_getElem?, List.length_take, Nat.min_eq_left (by omega),
      List.getElem?_take_of_lt (by omega), lastRow]
  refine ⟨key found[limit - 1], key found[limit], ?_, ?_, ?_, ?_⟩
  · simp only [page, foundRows, ending, Option.map_some]
    rw [if_pos long]
  · rw [List.getElem?_map, lastRow, Option.map_some]
  · rw [List.getElem?_map, nextRow, Option.map_some]
  · apply after_after
    have listed : found[limit - 1] ∈ after key rows cursor := by
      rw [← orders.mem, foundRows]
      exact List.getElem_mem _
    exact (mem_after.mp listed).2

-- What a page and everything above its cursor leave out: nothing, unless the cut is tied.
theorem rest_length {all : List α} {last next : K}
    (here : ((orderBy all).map key)[limit - 1]? = some last)
    (there : ((orderBy all).map key)[limit]? = some next) :
    let rest := all.filter fun row => decide (last < key row)
    (last ≠ next → (orderBy rest).map key = ((orderBy all).map key).drop limit ∧
      limit + rest.length = all.length) ∧
    (last = next → limit + rest.length < all.length) := by
  intro rest
  have sortedKeys := orders.sorted all
  have keys : (orderBy rest).map key =
      ((orderBy all).map key).filter fun other => decide (last < other) :=
    orders.filter_keys all last
  have count : rest.length =
      (((orderBy all).map key).filter fun other => decide (last < other)).length := by
    rw [← keys, List.length_map, orders.length]
  have inside := (List.getElem?_eq_some_iff.mp there).1
  rw [List.length_map, orders.length] at inside
  constructor
  next =>
    intro clean
    have dropped := filter_above_clean sortedKeys positive here there clean
    rw [dropped, List.length_drop, List.length_map, orders.length] at count
    exact ⟨keys.trans dropped, by omega⟩
  next =>
    intro tied
    have lost := filter_above_tied sortedKeys positive here there tied
    rw [← count, List.length_map, orders.length] at lost
    omega

theorem take_append_subperm {all later : List α} {last : K}
    (here : ((orderBy all).map key)[limit - 1]? = some last)
    (above : later.Subperm (all.filter fun row => decide (last < key row))) :
    ((orderBy all).take limit ++ later).Subperm all := by
  have shown : ((orderBy all).take limit).filter (fun row => decide (last < key row)) = [] := by
    rw [List.filter_eq_nil_iff]
    intro row listed
    obtain ⟨index, inside, rfl⟩ := List.mem_take_iff_getElem.mp listed
    have found : ((orderBy all).map key)[index]? = some (key (orderBy all)[index]) := by
      rw [List.getElem?_map, List.getElem?_eq_getElem (by omega), Option.map_some]
    simpa using sorted_at (orders.sorted all) (by omega) found here
  have rest : (all.filter fun row => decide (last < key row)).Perm
      (((orderBy all).drop limit).filter fun row => decide (last < key row)) := by
    have split := (orders.perm all).symm.filter fun row => decide (last < key row)
    rw [← List.take_append_drop limit (orderBy all), List.filter_append, shown,
      List.nil_append] at split
    exact split
  have dropped : later.Subperm ((orderBy all).drop limit) :=
    (above.trans rest.subperm).trans List.filter_sublist.subperm
  have joined := (List.Subperm.refl ((orderBy all).take limit)).append dropped
  rw [List.take_append_drop] at joined
  exact joined.trans (orders.perm all).subperm

theorem drain_pages (rows : List α) (fuel : Nat) (cursor : Option K)
    (enough : (after key rows cursor).length < fuel) :
    ∃ all, drain (fun cursor => some (page key orderBy rows limit cursor)) fuel cursor = some all ∧
      (all.map key).Pairwise (· ≤ ·) ∧ all.Subperm (after key rows cursor) ∧
      (all.length = (after key rows cursor).length ↔
        CleanCuts limit ((orderBy (after key rows cursor)).map key)) := by
  induction fuel generalizing cursor with
  | zero => omega
  | succ fuel ih =>
    have count := orders.length (after key rows cursor)
    by_cases short : (orderBy (after key rows cursor)).length ≤ limit
    next =>
      refine ⟨orderBy (after key rows cursor), ?_, orders.sorted _, (orders.perm _).subperm, ?_⟩
      · simp only [drain, page_whole short]
      · exact iff_of_true count (cleanCuts_short (by simpa using short))
    next =>
      obtain ⟨last, next, answer, here, there, rest⟩ :=
        page_cut orders positive rows cursor (by omega)
      have left := rest_length orders positive here there
      rw [← rest] at left
      have fewer : limit + (after key rows (some last)).length ≤ (after key rows cursor).length := by
        by_cases tied : last = next
        next => exact (left.2 tied).le
        next => exact (left.1 tied).2.le
      obtain ⟨later, followed, laterSorted, laterSub, laterExact⟩ := ih (some last) (by omega)
      refine ⟨(orderBy (after key rows cursor)).take limit ++ later, ?_, ?_, ?_, ?_⟩
      · simp only [drain, answer, followed, Option.map_some]
      · rw [List.map_append, List.pairwise_append, List.map_take]
        refine ⟨(orders.sorted _).sublist (List.take_sublist _ _), laterSorted, ?_⟩
        intro shown shownKey other otherKey
        obtain ⟨index, inside, rfl⟩ := List.mem_take_iff_getElem.mp shownKey
        obtain ⟨row, listed, rfl⟩ := List.mem_map.mp otherKey
        have above := (mem_after.mp (laterSub.subset listed)).2 _ rfl
        have found : ((orderBy (after key rows cursor)).map key)[index]? =
            some ((orderBy (after key rows cursor)).map key)[index] :=
          List.getElem?_eq_getElem (by omega)
        exact (sorted_at (orders.sorted _) (by omega) found here).trans above.le
      · rw [rest] at laterSub
        exact take_append_subperm orders positive here laterSub
      · rw [cleanCuts_drop positive here there, List.length_append, List.length_take,
          Nat.min_eq_left (by omega)]
        have bounded := laterSub.length_le
        by_cases tied : last = next
        next =>
          have lost := left.2 tied
          exact iff_of_false (by omega) fun both => both.1 tied
        next =>
          obtain ⟨keys, exact'⟩ := left.1 tied
          rw [keys] at laterExact
          rw [← laterExact]
          constructor
          next =>
            intro whole
            exact ⟨tied, by omega⟩
          next =>
            intro ⟨_, whole⟩
            omega

theorem drain_complete_iff (rows : List α) :
    ∃ all, (∀ fuel > rows.length,
        drain (fun cursor => some (page key orderBy rows limit cursor)) fuel none = some all) ∧
      (all.map key).Pairwise (· ≤ ·) ∧
      (all.Perm rows ↔ CleanCuts limit ((orderBy rows).map key)) := by
  obtain ⟨all, answer, sorted, sub, exact'⟩ :=
    drain_pages orders positive rows (rows.length + 1) none (Nat.lt_succ_self _)
  refine ⟨all, fun fuel more => drain_enough answer more, sorted, ?_⟩
  rw [after] at sub exact'
  rw [← exact']
  exact ⟨List.Perm.length_eq, fun whole => sub.perm_of_length_le whole.ge⟩

end Pages

end MemoryCloud.Keyset
