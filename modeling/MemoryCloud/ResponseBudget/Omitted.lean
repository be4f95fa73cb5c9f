import Mathlib.Algebra.Ring.Int.Defs
import MemoryCloud.ResponseBudget.Lanes

set_option autoImplicit false

/-!
# A field left out of the last items

The running total is the length of the array at every index, so the loop stops
at the longest list of whole items that fits. The reply outgrows its input
exactly where no such list fits and the markers are longer than what they replace.
-/

namespace MemoryCloud.ResponseBudget

open MemoryCloud.Compact (Value memberChars)

section Growth

variable (field : String)

def shortened (item : Item) : Item :=
  match item.get? field with
  | none => item
  | some value => replaced field item value

-- What the two markers take beyond the entries they replace: the field, and any marker the item
-- already has.
def markerGrowth (item : Item) : Int :=
  match item.get? field with
  | none => 0
  | some value =>
    (memberChars (field ++ "_omitted", .bool true) : Int) +
      memberChars (field ++ "_total_chars", .int (jsonChars value)) -
      memberChars (field, value) - item.held memberChars (field ++ "_omitted") -
      item.held memberChars (field ++ "_total_chars")

theorem append_ne {text suffix : String} (filled : suffix ≠ "") : text ++ suffix ≠ text := by
  intro same
  have parts := congrArg String.toList same
  rw [String.toList_append] at parts
  exact filled (String.toList_eq_nil_iff.mp (by simpa using parts))

theorem markers_differ : field ++ "_total_chars" ≠ field ++ "_omitted" := by
  intro same
  have parts := congrArg String.toList same
  rw [String.toList_append, String.toList_append, List.append_cancel_left_eq] at parts
  revert parts
  decide

theorem jsonChars_json {item : Item} {key : String} {value : Value}
    (found : item.get? key = some value) :
    jsonChars item.json = 1 + (item.entries.map memberChars).sum :=
  Compact.length_dumps_object (List.ne_nil_of_mem (Dict.get?_eq_some.mp found))

variable {field}

theorem jsonChars_replaced {item : Item} {value : Value} (found : item.get? field = some value) :
    (jsonChars (replaced field item value).json : Int) =
      jsonChars item.json + markerGrowth field item := by
  have marked : (replaced field item value).get? (field ++ "_total_chars") =
      some (.int (jsonChars value)) := by
    unfold replaced
    rw [Dict.get?_set, if_pos rfl]
  have dropped := item.sum_erase memberChars field
  have first := (item.erase field).sum_set memberChars (field ++ "_omitted") (.bool true)
  have second := ((item.erase field).set (field ++ "_omitted") (.bool true)).sum_set memberChars
    (field ++ "_total_chars") (.int (jsonChars value))
  have heldFirst : (item.erase field).held memberChars (field ++ "_omitted") =
      item.held memberChars (field ++ "_omitted") := by
    unfold Dict.held
    rw [Dict.get?_erase (append_ne (by decide))]
  have heldSecond : ((item.erase field).set (field ++ "_omitted") (.bool true)).held memberChars
      (field ++ "_total_chars") = item.held memberChars (field ++ "_total_chars") := by
    unfold Dict.held
    rw [Dict.get?_set, if_neg (markers_differ field), Dict.get?_erase (append_ne (by decide))]
  have heldField : item.held memberChars field = memberChars (field, value) := by
    simp [Dict.held, found]
  rw [jsonChars_json marked, jsonChars_json found]
  simp only [markerGrowth, found, replaced]
  omega

variable (field)

theorem jsonChars_shortened (item : Item) :
    (jsonChars (shortened field item).json : Int) =
      jsonChars item.json + markerGrowth field item := by
  cases found : item.get? field with
  | none => simp [shortened, markerGrowth, found]
  | some value => simpa [shortened, found] using jsonChars_replaced found

end Growth

section Lists

variable (field : String)

theorem itemsChars_cons (item : Item) (rest : List Item) :
    itemsChars (item :: rest) = jsonChars item.json + 1 + itemsChars rest := rfl

theorem itemsChars_append (left right : List Item) :
    itemsChars (left ++ right) = itemsChars left + itemsChars right := by
  simp [itemsChars]

theorem itemsChars_shortened (items : List Item) :
    (itemsChars (items.map (shortened field)) : Int) =
      itemsChars items + (items.map (markerGrowth field)).sum := by
  induction items with
  | nil => rfl
  | cons item rest ih =>
    have first := jsonChars_shortened field item
    simp only [List.map_cons, List.sum_cons, itemsChars_cons]
    omega

theorem listChars_items {items : List Item} (filled : items ≠ []) :
    listChars items = 1 + itemsChars items := by
  have filledValues : items.map Item.json ≠ [] := by simpa using filled
  rw [← valuesChars_json]
  exact Compact.length_dumps_array filledValues

def omitSuffix (kept : Nat) (items : List Item) : List Item :=
  items.take kept ++ (items.drop kept).map (shortened field)

theorem omitSuffix_all (items : List Item) : omitSuffix field items.length items = items := by
  simp [omitSuffix]

theorem omitSuffix_step {items : List Item} {index : Nat} {item : Item}
    (found : items[index]? = some item) :
    omitSuffix field index items =
      (omitSuffix field (index + 1) items).set index (shortened field item) := by
  obtain ⟨inside, rfl⟩ := List.getElem?_eq_some_iff.mp found
  have length : (items.take index).length = index := List.length_take_of_le (Nat.le_of_lt inside)
  unfold omitSuffix
  rw [List.drop_eq_getElem_cons inside, List.map_cons, List.take_add_one, found,
    Option.toList_some, List.append_assoc, List.set_append_right _ _ (Nat.le_of_eq length), length,
    Nat.sub_self]
  rfl

theorem listChars_omitSuffix (kept : Nat) (items : List Item) :
    (listChars (omitSuffix field kept items) : Int) =
      listChars items + ((items.drop kept).map (markerGrowth field)).sum := by
  by_cases filled : items = []
  next => simp [filled, omitSuffix]
  next =>
    have still : omitSuffix field kept items ≠ [] := by
      refine List.ne_nil_of_length_pos ?_
      have nonempty := List.length_pos_of_ne_nil filled
      simp only [omitSuffix, List.length_append, List.length_take, List.length_map,
        List.length_drop]
      omega
    have parts := itemsChars_append (items.take kept) (items.drop kept)
    rw [List.take_append_drop] at parts
    have later := itemsChars_shortened field (items.drop kept)
    rw [listChars_items still, listChars_items filled, omitSuffix, itemsChars_append]
    omega

end Lists

section Loop

variable {field : String} {budget : Int} {items : List Item}

-- The state before an index: the field is left out of a suffix, and no longer list of whole items
-- fits.
structure Looped (field : String) (budget : Int) (items : List Item) (index : Nat)
    (reply : Reply) : Prop where
  reached : ∃ kept, index ≤ kept ∧ kept ≤ items.length ∧
    reply.out = omitSuffix field kept items ∧ (kept = index ∨ reply.total ≤ budget) ∧
    ∀ more, kept < more → more ≤ items.length → budget < listChars (omitSuffix field more items)
  total : reply.total = listChars reply.out

theorem Looped.start (field : String) (budget : Int) (items : List Item) :
    Looped field budget items items.length { out := items, total := listChars items } :=
  ⟨⟨items.length, le_refl _, le_refl _, (omitSuffix_all field items).symm, Or.inl rfl,
    fun _ longer within => absurd within (Nat.not_le.mpr longer)⟩, rfl⟩

theorem omitSuffix_getElem? {index : Nat} (inside : index < items.length) :
    (omitSuffix field (index + 1) items)[index]? = items[index]? := by
  have length : (items.take (index + 1)).length = index + 1 := List.length_take_of_le inside
  rw [omitSuffix, List.getElem?_append_left (by omega), List.getElem?_take_of_lt (by omega)]

theorem listChars_omitSuffix_step (field : String) {index : Nat} (inside : index < items.length) :
    (listChars (omitSuffix field index items) : Int) =
      listChars (omitSuffix field (index + 1) items) + markerGrowth field items[index] := by
  rw [listChars_omitSuffix, listChars_omitSuffix, List.drop_eq_getElem_cons inside, List.map_cons,
    List.sum_cons]
  omega

theorem Looped.step {index : Nat} {reply : Reply} (inside : index < items.length)
    (looped : Looped field budget items (index + 1) reply) :
    Looped field budget items index (omitAt field budget reply index) := by
  obtain ⟨⟨kept, least, most, same, stopped, longest⟩, total⟩ := looped
  unfold omitAt
  split
  next fits =>
    exact ⟨⟨kept, by omega, most, same, Or.inr fits, longest⟩, total⟩
  next wide =>
    have here : kept = index + 1 := stopped.resolve_right wide
    subst here
    have found : reply.out[index]? = items[index]? := same ▸ omitSuffix_getElem? inside
    rw [List.getElem?_eq_getElem inside] at found
    have shorter : omitSuffix field index items =
        reply.out.set index (shortened field items[index]) := by
      rw [same]
      exact omitSuffix_step field (List.getElem?_eq_getElem inside)
    have longer : ∀ more, index < more → more ≤ items.length →
        budget < listChars (omitSuffix field more items) := by
      intro more least within
      by_cases first : more = index + 1
      next => rw [first, ← same, ← total]; omega
      next => exact longest more (by omega) within
    have grown := listChars_omitSuffix_step field inside
    have sizes := jsonChars_shortened field items[index]
    rw [found]
    dsimp only
    split
    next absent =>
      have kept : shortened field items[index] = items[index] := by simp [shortened, absent]
      obtain ⟨bound, value⟩ := List.getElem?_eq_some_iff.mp found
      rw [kept, ← value, List.set_getElem_self] at shorter
      exact ⟨⟨index, le_refl _, Nat.le_of_lt inside, shorter.symm, Or.inl rfl, longer⟩, total⟩
    next value held =>
      have short : shortened field items[index] = replaced field items[index] value := by
        simp [shortened, held]
      rw [short] at shorter sizes
      refine ⟨⟨index, le_refl _, Nat.le_of_lt inside, shorter.symm, Or.inl rfl, longer⟩, ?_⟩
      dsimp only
      rw [← shorter, grown, ← same, total]
      omega

theorem Looped.run (field : String) (budget : Int) (items : List Item) (done : Nat)
    (within : done ≤ items.length) :
    Looped field budget items (items.length - done)
      (omitAll field budget items ((backwards items).take done)) := by
  induction done with
  | zero => exact .start field budget items
  | succ done ih =>
    have inside : items.length - (done + 1) < items.length := by omega
    have last : (backwards items)[done]? = some (items.length - (done + 1)) := by
      unfold backwards
      rw [List.getElem?_reverse (by simpa using Nat.lt_of_succ_le within), List.length_range,
        List.getElem?_range]
      next => congr 1; omega
      next => omega
    have reached := ih (by omega)
    rw [List.take_add_one, last, Option.toList_some, omitAll, List.foldl_append]
    refine Looped.step inside ?_
    rw [show items.length - (done + 1) + 1 = items.length - done by omega]
    exact reached

end Loop

section Result

variable (items : List Item) (field : String) (budget : Int)

theorem omitFieldToFit_suffix :
    ∃ kept ≤ items.length, omitFieldToFit items field budget = omitSuffix field kept items ∧
      (kept = 0 ∨ (listChars (omitSuffix field kept items) : Int) ≤ budget) ∧
      ∀ more, kept < more → more ≤ items.length →
        budget < listChars (omitSuffix field more items) := by
  have looped := Looped.run field budget items items.length (le_refl _)
  rw [Nat.sub_self, List.take_of_length_le (by simp [backwards])] at looped
  obtain ⟨⟨kept, _, most, same, stopped, longest⟩, total⟩ := looped
  refine ⟨kept, most, same, ?_, longest⟩
  rw [total, same] at stopped
  exact stopped

-- Some suffix without the field fits, or the markers of all items together take no more than what
-- they replace.
def MarkersFit : Prop :=
  (∃ kept ≤ items.length,
    (listChars items : Int) + ((items.drop kept).map (markerGrowth field)).sum ≤ budget) ∨
    (items.map (markerGrowth field)).sum ≤ 0

def TotalsExact : Prop :=
  ∀ done, done <+: backwards items →
    (omitAll field budget items done).total = listChars (omitAll field budget items done).out

def FitsWherePossible : Prop :=
  (∃ kept ≤ items.length, (listChars (omitSuffix field kept items) : Int) ≤ budget) →
    (listChars (omitFieldToFit items field budget) : Int) ≤ budget

theorem totals_exact : TotalsExact items field budget := by
  intro done first
  rw [List.prefix_iff_eq_take.mp first]
  refine (Looped.run field budget items done.length ?_).total
  simpa [backwards] using first.length_le

theorem fits_where_possible : FitsWherePossible items field budget := by
  rintro ⟨chosen, within, fits⟩
  obtain ⟨kept, most, same, stopped, longest⟩ := omitFieldToFit_suffix items field budget
  rw [same]
  rcases stopped with rfl | fitting
  next =>
    by_cases first : chosen = 0
    next => exact first ▸ fits
    next => exact absurd fits (Int.not_le.mpr (longest chosen (by omega) within))
  next => exact fitting

theorem no_larger_iff :
    listChars (omitFieldToFit items field budget) ≤ listChars items ↔
      MarkersFit items field budget := by
  obtain ⟨kept, most, same, stopped, longest⟩ := omitFieldToFit_suffix items field budget
  have sizes := listChars_omitSuffix field kept items
  rw [same]
  have smaller : (listChars (omitSuffix field kept items) : Int) ≤ budget →
      listChars (omitSuffix field kept items) ≤ listChars items := by
    intro fits
    by_cases whole : kept = items.length
    next => rw [whole, omitSuffix_all]
    next =>
      have wide := longest items.length (by omega) (le_refl _)
      rw [omitSuffix_all] at wide
      omega
  constructor
  next =>
    intro least
    rcases stopped with rfl | fits
    next =>
      rw [List.drop_zero] at sizes
      exact Or.inr (by omega)
    next => exact Or.inl ⟨kept, most, sizes ▸ fits⟩
  next =>
    rintro (⟨chosen, within, fits⟩ | together)
    next =>
      rw [← listChars_omitSuffix] at fits
      exact smaller (same ▸ fits_where_possible items field budget ⟨chosen, within, fits⟩)
    next =>
      rcases stopped with rfl | fits
      next =>
        rw [List.drop_zero] at sizes
        omega
      next => exact smaller fits

structure ReplyExact (lanes : List (List Item)) (laneBudget : Nat) (droppable : Option String)
    (items : List Item) (field : String) (budget : Int) : Prop where
  lanes : Exact lanes laneBudget droppable (fitLanes lanes laneBudget droppable)
  totals : TotalsExact items field budget
  smaller : listChars (omitFieldToFit items field budget) ≤ listChars items
  fits : FitsWherePossible items field budget

end Result

theorem reply_exact_iff (lanes : List (List Item)) (laneBudget : Nat) (droppable : Option String)
    (items : List Item) (field : String) (budget : Int) :
    ReplyExact lanes laneBudget droppable items field budget ↔ MarkersFit items field budget := by
  constructor
  next => exact fun reply => (no_larger_iff items field budget).mp reply.smaller
  next =>
    intro fit
    exact ⟨fitLanes_exact lanes laneBudget droppable (Int.natCast_nonneg _),
      totals_exact items field budget, (no_larger_iff items field budget).mpr fit,
      fits_where_possible items field budget⟩

def emptyDetails : Item := ⟨[("details", .object [])], by simp⟩

theorem markers_outgrow_details :
    ¬ ReplyExact [] 0 none [emptyDetails] "details" 10 := by
  intro reply
  have smaller := reply.smaller
  revert smaller
  decide

end MemoryCloud.ResponseBudget
