import MemoryCloud.ResponseBudget.Model

set_option autoImplicit false

/-!
# Lanes that share a budget

Each lane keeps the longest prefix that fits what the lanes before it left.
-/

namespace MemoryCloud.ResponseBudget

open MemoryCloud.Compact (Value)

section Items

def valuesChars (items : List Value) : Nat := (items.map fun item => jsonChars item + 1).sum

theorem valuesChars_cons (item : Value) (rest : List Value) :
    valuesChars (item :: rest) = jsonChars item + 1 + valuesChars rest := rfl

theorem valuesChars_json (items : List Item) :
    valuesChars (items.map Item.json) = itemsChars items := by
  unfold valuesChars itemsChars
  rw [List.map_map]
  rfl

theorem fitFrom_prefix (budget : Int) (index : Nat) (used : Int) (items : List Value) :
    ∃ kept ≤ items.length, fitFrom budget index used items = index + kept ∧
      (used ≤ budget → used + valuesChars (items.take kept) ≤ budget) ∧
      (kept < items.length → budget < used + valuesChars (items.take (kept + 1))) := by
  induction items generalizing index used with
  | nil => exact ⟨0, le_refl _, rfl, by simp [valuesChars], by simp⟩
  | cons item rest ih =>
    rw [fitFrom]
    split
    next =>
      refine ⟨0, Nat.zero_le _, rfl, by simp [valuesChars], fun _ => ?_⟩
      rw [Nat.zero_add, List.take_succ_cons, valuesChars_cons, List.take_zero]
      simp only [valuesChars, List.map_nil, List.sum_nil]
      omega
    next fits =>
      obtain ⟨kept, most, found, within, longest⟩ := ih (index + 1) (used + (jsonChars item + 1))
      refine ⟨kept + 1, Nat.succ_le_succ most, by rw [found]; omega, fun _ => ?_, fun short => ?_⟩
      next =>
        have total := within (by omega)
        rw [List.take_succ_cons, valuesChars_cons]
        omega
      next =>
        have total := longest (by simpa using short)
        rw [List.take_succ_cons, valuesChars_cons]
        omega

theorem fitItems_longest {budget : Int} (start : 0 ≤ budget) (items : List Item) :
    fitItems (items.map Item.json) budget ≤ items.length ∧
      (itemsChars (items.take (fitItems (items.map Item.json) budget)) : Int) ≤ budget ∧
      (fitItems (items.map Item.json) budget < items.length →
        budget < itemsChars (items.take (fitItems (items.map Item.json) budget + 1))) := by
  obtain ⟨kept, most, found, within, longest⟩ := fitFrom_prefix budget 0 0 (items.map Item.json)
  rw [Nat.zero_add] at found
  have same : fitItems (items.map Item.json) budget = kept := found
  simp only [← List.map_take, valuesChars_json, List.length_map, Int.zero_add] at most within longest
  rw [same]
  exact ⟨most, within start, longest⟩

end Items

section Lanes

structure LaneFit (remaining : Int) (lane kept : List Item) (cut : Bool) : Prop where
  isPrefix : kept <+: lane
  within : (itemsChars kept : Int) ≤ remaining
  cut : cut = true ↔ kept.length < lane.length
  longest : kept.length < lane.length → remaining < itemsChars (lane.take (kept.length + 1))

theorem laneFit_fitItems {remaining : Int} (start : 0 ≤ remaining) (lane : List Item) :
    LaneFit remaining lane (lane.take (fitItems (lane.map Item.json) remaining))
      (decide (fitItems (lane.map Item.json) remaining < lane.length)) := by
  obtain ⟨most, within, longest⟩ := fitItems_longest start lane
  have length : (lane.take (fitItems (lane.map Item.json) remaining)).length =
      fitItems (lane.map Item.json) remaining := List.length_take_of_le most
  refine ⟨List.take_prefix _ _, within, ?_, ?_⟩
  next => rw [length, decide_eq_true_eq]
  next =>
    rw [length]
    exact longest

inductive LanesFit : Int → List (List Item) → List (List Item) → List Bool → Prop
  | nil (remaining : Int) : LanesFit remaining [] [] []
  | cons {remaining : Int} {lane kept : List Item} {cut : Bool} {lanes keeps : List (List Item)}
      {cuts : List Bool} (first : LaneFit remaining lane kept cut)
      (rest : LanesFit (remaining - itemsChars kept) lanes keeps cuts) :
      LanesFit remaining (lane :: lanes) (kept :: keeps) (cut :: cuts)

theorem lanesFit_fitEach {remaining : Int} (start : 0 ≤ remaining) (lanes : List (List Item)) :
    LanesFit remaining lanes ((fitEach remaining lanes).map Prod.fst)
      ((fitEach remaining lanes).map Prod.snd) := by
  induction lanes generalizing remaining with
  | nil => exact .nil remaining
  | cons lane rest ih =>
    have first := laneFit_fitItems start lane
    exact .cons first (ih (Int.sub_nonneg_of_le first.within))

theorem LanesFit.total {remaining : Int} {lanes keeps : List (List Item)} {cuts : List Bool}
    (start : 0 ≤ remaining) (fit : LanesFit remaining lanes keeps cuts) :
    ((keeps.map itemsChars).sum : Int) ≤ remaining := by
  induction fit with
  | nil => simpa using start
  | cons first rest ih =>
    have later := ih (Int.sub_nonneg_of_le first.within)
    simp only [List.map_cons, List.sum_cons]
    omega

theorem lanesFit_whole {remaining : Int} {lanes : List (List Item)}
    (fits : ((lanes.map itemsChars).sum : Int) ≤ remaining) :
    LanesFit remaining lanes lanes (List.replicate lanes.length false) := by
  induction lanes generalizing remaining with
  | nil => exact .nil remaining
  | cons lane rest ih =>
    simp only [List.map_cons, List.sum_cons] at fits
    refine .cons ⟨List.prefix_refl _, by omega, by simp, fun short => ?_⟩ (ih (by omega))
    exact absurd short (Nat.lt_irrefl _)

end Lanes

section Field

variable (lanes : List (List Item)) (budget : Int) (droppable : Option String)

def LeftOut (dropped : Bool) : Prop :=
  dropped = true ↔ budget < (lanes.map itemsChars).sum ∧ ∃ key ∈ droppable, carries key lanes

def source (dropped : Bool) : List (List Item) :=
  match dropped, droppable with
  | true, some key => lanes.map fun lane => dropKey lane key
  | _, _ => lanes

structure Exact (fitted : Fitted) : Prop where
  dropped : LeftOut lanes budget droppable fitted.dropped
  lanes : LanesFit budget (source lanes droppable fitted.dropped) fitted.lanes fitted.cut
  total : ((fitted.lanes.map itemsChars).sum : Int) ≤ budget

theorem fitLanes_exact (start : 0 ≤ budget) :
    Exact lanes budget droppable (fitLanes lanes budget droppable) := by
  unfold fitLanes
  split
  next fits =>
    refine ⟨?_, ?_, fits⟩
    next => exact iff_of_false Bool.false_ne_true fun both => absurd fits (Int.not_le.mpr both.1)
    next => simpa [source] using lanesFit_whole fits
  next tight =>
    have wide : budget < (lanes.map itemsChars).sum := Int.not_le.mp tight
    have cut : source lanes droppable (leaveOut droppable lanes).2 = (leaveOut droppable lanes).1 ∧
        LeftOut lanes budget droppable (leaveOut droppable lanes).2 := by
      cases droppable with
      | none => simp [leaveOut, source, LeftOut]
      | some key =>
        by_cases carried : carries key lanes
        next =>
          have out : (leaveOut (some key) lanes).2 = true := by simp [leaveOut, carried]
          refine ⟨by simp [leaveOut, source, carried], ?_⟩
          rw [out]
          exact iff_of_true rfl ⟨wide, key, rfl, carried⟩
        next => simp [leaveOut, source, LeftOut, carried]
    have fit := lanesFit_fitEach start (leaveOut droppable lanes).1
    exact ⟨cut.2, cut.1.symm ▸ fit, fit.total start⟩

end Field

end MemoryCloud.ResponseBudget
