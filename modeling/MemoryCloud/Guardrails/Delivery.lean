import MemoryCloud.Guardrails.Model
import MemoryCloud.Shared.Holds
import Mathlib.Data.List.Nodup

set_option autoImplicit false

/-!
# What a call prints is what it marked

The items a call holds are those whose marker it created, and the text they make fits the
budget before the next marker is tried, so the renderer drops nothing. The cap of the inform
lane is read before the markers are created: it holds along the runs in which the calls under
way leave room for the one that reads it.
-/

namespace MemoryCloud.Guardrails

section Text

theorem surrogate_char (character : Char) : surrogate character.toNat = false := by
  have valid := character.valid
  simp only [UInt32.isValidChar, Nat.isValidChar] at valid
  simp only [surrogate, Bool.and_eq_false_iff, decide_eq_false_iff_not, Char.toNat]
  omega

def Encodable (rendered : Text) : Prop := ∀ point ∈ rendered, surrogate point = false

theorem text_encodable (literal : String) : Encodable (text literal) := by
  intro point listed
  obtain ⟨character, _, rfl⟩ := List.mem_map.mp listed
  exact surrogate_char character

theorem Encodable.append {first second : Text} (left : Encodable first) (right : Encodable second) :
    Encodable (first ++ second) :=
  fun point listed => (List.mem_append.mp listed).elim (left point) (right point)

theorem renderLine_encodable {item : Item} (encodable : Encodable item.summary) :
    Encodable (renderLine item) := by
  have label : Encodable (id8 item.memoryId) := by
    intro point listed
    obtain ⟨_, _, rfl⟩ := List.mem_map.mp listed
    exact surrogate_char _
  have author : Encodable (if item.authoredByCaller then [] else text ", by another member") := by
    split
    next => exact nofun
    next => exact text_encodable _
  exact (((text_encodable _).append (label.append author)).append (text_encodable _)).append encodable

theorem intercalate_encodable {separator : Text} {parts : List Text}
    (plain : Encodable separator) (encodable : ∀ part ∈ parts, Encodable part) :
    Encodable (separator.intercalate parts) := by
  induction parts with
  | nil => exact nofun
  | cons part rest ih =>
    have head := encodable part List.mem_cons_self
    have tail := ih fun other listed => encodable other (List.mem_cons_of_mem _ listed)
    cases rest with
    | nil => simpa [List.intercalate] using head
    | cons next others =>
      rw [List.intercalate_cons_cons]
      exact (head.append plain).append tail

theorem renderText_encodable {items : List Item}
    (encodable : ∀ item ∈ items, Encodable item.summary) (deny : Bool) :
    Encodable (renderText (lines items) deny) := by
  refine intercalate_encodable (text_encodable _) fun part listed => ?_
  simp only [List.mem_append, List.mem_singleton, lines, List.mem_map] at listed
  rcases listed with (rfl | ⟨item, known, rfl⟩) | trailer
  next => exact text_encodable _
  next => exact renderLine_encodable (encodable item known)
  next =>
    split at trailer
    next => exact List.mem_singleton.mp trailer ▸ text_encodable _
    next => cases trailer

theorem withinBudget_isSome {budget : Budget} {rendered : Text}
    (encodable : budget.tokens = none ∨ Encodable rendered) :
    ∃ fits, withinBudget budget rendered = some fits := by
  unfold withinBudget
  split
  next => exact ⟨false, rfl⟩
  next =>
    split
    next => exact ⟨true, rfl⟩
    next tokens counted =>
      have plain : rendered.any surrogate = false := by
        rcases encodable with uncounted | plain
        next => cases uncounted.symm.trans counted
        next => exact List.any_eq_false.mpr fun point listed => by simp [plain point listed]
      exact ⟨_, by simp [approxTokens, plain]; rfl⟩

end Text

section Calls

def Event.Encodable (event : Event) : Prop :=
  event.budget.tokens = none ∨ ∀ item ∈ event.matched, Guardrails.Encodable item.summary

def Stage.items : Stage → List Item
  | checking remaining blocks informs => remaining ++ blocks ++ informs
  | undelivered item remaining blocks informs => item :: (remaining ++ blocks ++ informs)
  | counting blocks informs => blocks ++ informs
  | blocking _ remaining informs taken => remaining ++ informs ++ taken
  | informing _ remaining blocks taken => remaining ++ (blocks ++ taken)
  | done _ | failed => []

def marker (key : Key) (entry : Lane × Item) : Marker := ⟨key, entry.1, entry.2.memoryId⟩

def entries (blocks informs : List Item) : List (Lane × Item) :=
  blocks.map (Lane.block, ·) ++ informs.map (Lane.inform, ·)

def Stage.taken : Stage → List (Lane × Item)
  | blocking _ _ _ taken => entries taken []
  | informing _ _ blocks taken => entries blocks taken
  | done (some output) => output.printed
  | _ => []

def Fits (budget : Budget) (blocks informs : List Item) : Prop :=
  blocks ++ informs ≠ [] →
    withinBudget budget (renderText (lines (blocks ++ informs)) (!blocks.isEmpty)) = some true

def Stage.Fits (budget : Budget) : Stage → Prop
  | blocking _ _ _ taken => Guardrails.Fits budget taken []
  | informing _ _ blocks taken => Guardrails.Fits budget blocks taken
  | done (some output) => withinBudget budget output.text = some true ∧
    (output.deny = true ↔ ∃ entry ∈ output.printed, entry.1 = .block)
  | failed => False
  | _ => True

structure CallHolds (event : Event) (stage : Stage) (created : List Marker) : Prop where
  taken : created = stage.taken.map (marker event.key)
  items : ∀ item ∈ stage.items, item ∈ event.matched
  fits : stage.Fits event.budget

variable {event : Event} {created : List Marker}

theorem trim_of_fits {budget : Budget} {deny : Bool} {kept : List (Lane × Item)}
    (fits : kept ≠ [] → withinBudget budget
      (renderText (kept.reverse.map fun entry => renderLine entry.2) deny) = some true) :
    trim budget deny kept = some kept := by
  cases kept with
  | nil => rfl
  | cons last rest =>
    rw [trim, fits (List.cons_ne_nil last rest)]
    rfl

theorem entries_lines (blocks informs : List Item) :
    (entries blocks informs).map (fun entry => renderLine entry.2) = lines (blocks ++ informs) := by
  simp [entries, lines, Function.comp_def]

-- The renderer's trim is a no-op on what was taken within the budget.
theorem buildHookOutput_of_fits {budget : Budget} {blocks informs : List Item}
    (fits : Fits budget blocks informs) :
    buildHookOutput budget blocks informs = some
      { printed := entries blocks informs
        deny := !blocks.isEmpty
        text := renderText (lines (blocks ++ informs)) (!blocks.isEmpty) } := by
  have whole : trim budget (!blocks.isEmpty) (entries blocks informs).reverse =
      some (entries blocks informs).reverse := by
    refine trim_of_fits fun filled => ?_
    rw [List.reverse_reverse, entries_lines]
    refine fits fun empty => filled ?_
    simp only [List.append_eq_nil_iff] at empty
    simp [entries, empty.1, empty.2]
  simp only [buildHookOutput]
  rw [← entries, whole]
  simp only [Option.map_some, List.reverse_reverse, entries_lines]

theorem CallHolds.finish {blocks informs : List Item} {remaining : List Item} {bound : Int}
    (holds : CallHolds event (.informing bound remaining blocks informs) created) :
    CallHolds event (finish event.budget blocks informs) created := by
  unfold Guardrails.finish
  split
  next empty =>
    simp only [Bool.and_eq_true, List.isEmpty_iff] at empty
    obtain ⟨rfl, rfl⟩ := empty
    exact ⟨holds.taken, nofun, trivial⟩
  next filled =>
    rw [buildHookOutput_of_fits holds.fits]
    refine ⟨holds.taken, nofun, holds.fits ?_, ?_⟩
    next =>
      intro empty
      simp only [List.append_eq_nil_iff] at empty
      simp [empty.1, empty.2] at filled
    next =>
      cases blocks with
      | nil => simp [entries]
      | cons first rest => simp [entries]

theorem fits_isSome {items : List Item} (encodable : event.Encodable)
    (known : ∀ item ∈ items, item ∈ event.matched) (deny : Bool) :
    ∃ fits, withinBudget event.budget (renderText (lines items) deny) = some fits :=
  withinBudget_isSome (encodable.imp_right fun plain =>
    renderText_encodable (fun item listed => plain item (known item listed)) deny)

theorem CallHolds.next_blocking {count : Nat} {item : Item} {remaining informs taken : List Item}
    (holds : CallHolds event (.blocking count (item :: remaining) informs taken) created)
    (encodable : event.Encodable) (present : Marker → Bool) (informCount : Nat) :
    CallHolds event
        ((Stage.blocking count (item :: remaining) informs taken).next event present informCount).1
        created ∧
      ∀ marker next, ((Stage.blocking count (item :: remaining) informs taken).next event present
        informCount).2 = some (marker, next) → CallHolds event next (created ++ [marker]) := by
  have known : ∀ other ∈ taken ++ [item], other ∈ event.matched := by
    intro other listed
    refine holds.items other ?_
    simp only [List.mem_append, List.mem_singleton] at listed
    simp only [Stage.items, List.mem_append, List.mem_cons]
    tauto
  obtain ⟨fits, decided⟩ := fits_isSome encodable known true
  have spelled : lines taken ++ [renderLine item] = lines (taken ++ [item]) := by simp [lines]
  simp only [Stage.next, spelled, decided]
  cases fits with
  | false =>
    refine ⟨⟨holds.taken, fun other listed => holds.items other ?_, holds.fits⟩, by simp⟩
    simp only [Stage.items, List.mem_append, List.mem_cons, List.not_mem_nil, or_false] at listed ⊢
    tauto
  | true =>
    constructor
    next =>
      refine ⟨holds.taken, fun other listed => holds.items other ?_, holds.fits⟩
      simp only [Stage.items, List.mem_append, List.mem_cons] at listed ⊢
      tauto
    next =>
      rintro _ _ ⟨⟩
      refine ⟨?_, fun other listed => holds.items other ?_, fun _ => ?_⟩
      next => simp [holds.taken, Stage.taken, entries, marker]
      next =>
        simp only [Stage.items, List.mem_append, List.mem_cons, List.not_mem_nil, or_false]
          at listed ⊢
        tauto
      next =>
        have filled : (taken ++ [item]).isEmpty = false := by simp
        rw [List.append_nil, filled]
        exact decided

theorem CallHolds.next_informing {bound : Int} {item : Item} {remaining blocks taken : List Item}
    (holds : CallHolds event (.informing bound (item :: remaining) blocks taken) created)
    (encodable : event.Encodable) (present : Marker → Bool) (informCount : Nat) :
    CallHolds event
        ((Stage.informing bound (item :: remaining) blocks taken).next event present informCount).1
        created ∧
      ∀ marker next, ((Stage.informing bound (item :: remaining) blocks taken).next event present
        informCount).2 = some (marker, next) → CallHolds event next (created ++ [marker]) := by
  simp only [Stage.next]
  split
  next => exact ⟨holds.finish, by simp⟩
  next =>
    have known : ∀ other ∈ blocks ++ (taken ++ [item]), other ∈ event.matched := by
      intro other listed
      refine holds.items other ?_
      simp only [List.mem_append, List.mem_singleton] at listed
      simp only [Stage.items, List.mem_append, List.mem_cons]
      tauto
    obtain ⟨fits, decided⟩ := fits_isSome encodable known (!blocks.isEmpty)
    have spelled : lines (blocks ++ taken) ++ [renderLine item] =
        lines (blocks ++ (taken ++ [item])) := by simp [lines]
    simp only [spelled, decided]
    cases fits with
    | false => exact ⟨holds.finish, by simp⟩
    | true =>
      constructor
      next =>
        refine ⟨holds.taken, fun other listed => holds.items other ?_, holds.fits⟩
        simp only [Stage.items, List.mem_append, List.mem_cons] at listed ⊢
        tauto
      next =>
        rintro _ _ ⟨⟩
        refine ⟨?_, fun other listed => holds.items other ?_, fun _ => decided⟩
        next => simp [holds.taken, Stage.taken, entries, marker]
        next =>
          simp only [Stage.items, List.mem_append, List.mem_cons, List.not_mem_nil, or_false]
            at listed ⊢
          tauto

theorem CallHolds.next {stage : Stage} (holds : CallHolds event stage created)
    (encodable : event.Encodable) (present : Marker → Bool) (informCount : Nat) :
    CallHolds event (stage.next event present informCount).1 created ∧
      ∀ marker next, (stage.next event present informCount).2 = some (marker, next) →
        CallHolds event next (created ++ [marker]) := by
  cases stage with
  | checking remaining blocks informs =>
    cases remaining with
    | nil => exact ⟨⟨holds.taken, holds.items, trivial⟩, nofun⟩
    | cons item remaining =>
      simp only [Stage.next]
      split
      next =>
        exact ⟨⟨holds.taken, fun other listed => holds.items other (List.mem_cons_of_mem _ listed),
          trivial⟩, nofun⟩
      next => exact ⟨⟨holds.taken, holds.items, trivial⟩, nofun⟩
  | undelivered item remaining blocks informs =>
    simp only [Stage.next]
    split
    next =>
      exact ⟨⟨holds.taken, fun other listed => holds.items other (List.mem_cons_of_mem _ listed),
        trivial⟩, nofun⟩
    next =>
      unfold classify
      split
      all_goals
        refine ⟨⟨holds.taken, fun other listed => holds.items other ?_, trivial⟩, nofun⟩
        simp only [Stage.items, List.mem_append, List.mem_cons, List.not_mem_nil, or_false]
          at listed ⊢
        tauto
  | counting blocks informs =>
    refine ⟨⟨holds.taken, fun other listed => holds.items other ?_, fun empty => ?_⟩, nofun⟩
    next => simpa [Stage.next, Stage.items] using listed
    next => exact absurd rfl empty
  | blocking count remaining informs taken =>
    cases remaining with
    | nil =>
      refine ⟨⟨holds.taken, fun other listed => holds.items other ?_, holds.fits⟩, nofun⟩
      simpa [Stage.next, Stage.items] using listed
    | cons item remaining => exact holds.next_blocking encodable present informCount
  | informing bound remaining blocks taken =>
    cases remaining with
    | nil => exact ⟨holds.finish, nofun⟩
    | cons item remaining => exact holds.next_informing encodable present informCount
  | done output => exact ⟨holds, nofun⟩
  | failed => exact ⟨holds, nofun⟩

end Calls

section Invariant

def State.created (state : State) (index : Nat) : List Marker :=
  (state.markers.filter fun entry => entry.2 = index).map Prod.fst

def Stage.pending : Stage → Nat
  | blocking count _ informs _ => min informs.length (min linesPerCall (informCapPerKey - count))
  | informing bound remaining _ taken => min remaining.length (bound - taken.length).toNat
  | _ => 0

def Call.pendingFor (key : Key) (call : Call) : Nat :=
  if call.event.key = key then call.stage.pending else 0

def State.pending (state : State) (key : Key) : Nat := (state.calls.map (Call.pendingFor key)).sum

structure Invariant (state : State) : Prop where
  distinct : (state.markers.map Prod.fst).Nodup
  known : ∀ entry ∈ state.markers, entry.2 < state.calls.length
  calls : ∀ index call, state.calls[index]? = some call → call.event.Encodable ∧
    CallHolds call.event call.stage (state.created index)
  capped : ∀ key, state.informCount key + state.pending key ≤ informCapPerKey

-- A summary that cannot be encoded is not counted in tokens, and a call reads the inform lane only
-- when the markers there, those the calls under way may add and its own stay within the cap.
def Roomy (state : State) : Action → Prop
  | .start event => event.Encodable
  | .advance index _ => ∀ call blocks informs, state.calls[index]? = some call →
    call.stage = .counting blocks informs →
      state.informCount call.event.key + state.pending call.event.key +
        min informs.length (min linesPerCall (informCapPerKey - state.informCount call.event.key)) ≤
          informCapPerKey

variable {state : State}

theorem pending_set {index : Nat} {old : Call} (found : state.calls[index]? = some old)
    (stage : Stage) (markers : List (Marker × Nat)) (key : Key) :
    State.pending { markers, calls := state.calls.set index { old with stage } } key +
        old.pendingFor key =
      state.pending key + Call.pendingFor key { old with stage } :=
  Holds.sum_set (Call.pendingFor key) _ found

theorem calls_set {index other : Nat} {old call : Call} {stage : Stage}
    (listed : (state.calls.set index { old with stage })[other]? = some call) :
    other = index ∧ call = { old with stage } ∨ other ≠ index ∧ state.calls[other]? = some call := by
  rw [List.getElem?_set] at listed
  split at listed
  next here =>
    split at listed
    next =>
      cases listed
      exact .inl ⟨here.symm, rfl⟩
    next => cases listed
  next away => exact .inr ⟨Ne.symm away, listed⟩

theorem Invariant.moved (invariant : Invariant state) {index : Nat} {call : Call} {stage : Stage}
    (found : state.calls[index]? = some call)
    (holds : CallHolds call.event stage (state.created index))
    (room : state.informCount call.event.key + state.pending call.event.key + stage.pending ≤
      informCapPerKey + call.stage.pending) :
    Invariant { state with calls := state.calls.set index { call with stage } } where
  distinct := invariant.distinct
  known entry listed := by simpa using invariant.known entry listed
  calls other listed at_ := by
    rcases calls_set at_ with ⟨rfl, rfl⟩ | ⟨_, same⟩
    next => exact ⟨(invariant.calls other call found).1, holds⟩
    next => exact invariant.calls other listed same
  capped key := by
    have moved := pending_set found stage state.markers key
    have before := invariant.capped key
    simp only [Call.pendingFor] at moved
    change state.informCount key + _ ≤ _
    by_cases same : call.event.key = key
    next =>
      subst same
      simp only [if_true] at moved
      omega
    next =>
      simp only [same, if_false] at moved
      omega

theorem created_append {index other : Nat} {marker : Marker} {calls : List Call} :
    State.created { markers := state.markers ++ [(marker, index)], calls } other =
      if other = index then state.created other ++ [marker] else state.created other := by
  unfold State.created
  by_cases same : other = index
  next => simp [same, List.filter_append]
  next => simp [same, List.filter_append, Ne.symm same]

theorem Invariant.marked (invariant : Invariant state) {index : Nat} {call : Call} {stage : Stage}
    {marker : Marker} (found : state.calls[index]? = some call)
    (absent : state.present marker = false) (own : marker.key = call.event.key)
    (holds : CallHolds call.event stage (state.created index ++ [marker]))
    (room : stage.pending + (if marker.lane = .inform then 1 else 0) ≤ call.stage.pending) :
    Invariant
      { markers := state.markers ++ [(marker, index)]
        calls := state.calls.set index { call with stage } } where
  distinct := by
    rw [List.map_append, List.nodup_append]
    refine ⟨invariant.distinct, List.pairwise_singleton _ _, ?_⟩
    rintro old listed _ new rfl
    obtain ⟨entry, stored, same⟩ := List.mem_map.mp listed
    rw [List.map_singleton, List.mem_singleton] at new
    have missing := List.any_eq_false.mp absent entry stored
    simp [same, new] at missing
  known entry listed := by
    rw [List.length_set]
    rcases List.mem_append.mp listed with old | new
    next => exact invariant.known entry old
    next =>
      rw [List.mem_singleton.mp new]
      exact (List.getElem?_eq_some_iff.mp found).1
  calls other listed at_ := by
    rw [created_append]
    rcases calls_set at_ with ⟨rfl, rfl⟩ | ⟨differ, same⟩
    next =>
      rw [if_pos rfl]
      exact ⟨(invariant.calls other call found).1, holds⟩
    next =>
      rw [if_neg differ]
      exact invariant.calls other listed same
  capped key := by
    have moved := pending_set found stage (state.markers ++ [(marker, index)]) key
    have before := invariant.capped key
    have counted : State.informCount
        { markers := state.markers ++ [(marker, index)]
          calls := state.calls.set index { call with stage } } key =
        state.informCount key + if marker.key = key ∧ marker.lane = .inform then 1 else 0 := by
      simp [State.informCount, List.countP_append, List.countP_cons]
    rw [counted, own]
    simp only [Call.pendingFor] at moved
    by_cases same : call.event.key = key
    next =>
      subst same
      simp only [true_and, if_true] at moved ⊢
      omega
    next =>
      simp only [same, false_and, if_false] at moved ⊢
      omega

theorem finish_pending (budget : Budget) (blocks informs : List Item) :
    (finish budget blocks informs).pending = 0 := by
  unfold finish
  split
  next => rfl
  next => split <;> rfl

theorem room_le (taken count : Nat) :
    (room taken count).toNat ≤ min linesPerCall (informCapPerKey - count) := by
  simp only [room]
  omega

-- Past the count, a step without a marker gives up room or keeps it.
theorem next_pending (event : Event) (stage : Stage) (present : Marker → Bool) (count : Nat) :
    (∃ blocks informs, stage = .counting blocks informs) ∨
      (stage.next event present count).1.pending ≤ stage.pending := by
  cases stage with
  | counting blocks informs => exact .inl ⟨blocks, informs, rfl⟩
  | checking remaining blocks informs =>
    refine .inr ?_
    cases remaining with
    | nil => exact Nat.le_refl _
    | cons =>
      simp only [Stage.next]
      split <;> exact Nat.le_refl _
  | undelivered =>
    refine .inr ?_
    simp only [Stage.next, classify]
    split
    next => exact Nat.le_refl _
    next => split <;> exact Nat.le_refl _
  | blocking count remaining informs taken =>
    refine .inr ?_
    have bound := room_le taken.length count
    cases remaining with
    | nil =>
      simp only [Stage.next, Stage.pending, List.length_nil]
      omega
    | cons =>
      simp only [Stage.next]
      split
      next => exact Nat.zero_le _
      next =>
        simp only [Stage.pending, List.length_nil]
        omega
      next => exact Nat.le_refl _
  | informing bound remaining blocks taken =>
    refine .inr ?_
    cases remaining with
    | nil => simp [Stage.next, finish_pending]
    | cons =>
      simp only [Stage.next]
      split
      next => simp [finish_pending]
      next =>
        split
        next => exact Nat.zero_le _
        next => simp [finish_pending]
        next =>
          simp only [Stage.pending, List.length_cons]
          omega
  | done | failed => exact .inr (Nat.le_refl _)

theorem attempt_pending {event : Event} {stage next : Stage} {present : Marker → Bool}
    {count : Nat} {marker : Marker}
    (attempt : (stage.next event present count).2 = some (marker, next)) :
    marker.key = event.key ∧
      next.pending + (if marker.lane = .inform then 1 else 0) ≤ stage.pending := by
  cases stage with
  | counting | done | failed => cases attempt
  | checking remaining =>
    cases remaining with
    | nil => cases attempt
    | cons =>
      simp only [Stage.next] at attempt
      split at attempt <;> cases attempt
  | undelivered =>
    simp only [Stage.next] at attempt
    split at attempt <;> cases attempt
  | blocking count remaining informs taken =>
    cases remaining with
    | nil => cases attempt
    | cons =>
      simp only [Stage.next] at attempt
      split at attempt <;> cases attempt
      exact ⟨rfl, Nat.le_refl _⟩
  | informing bound remaining blocks taken =>
    cases remaining with
    | nil => cases attempt
    | cons =>
      simp only [Stage.next] at attempt
      split at attempt
      next => cases attempt
      next free =>
        split at attempt <;> cases attempt
        refine ⟨rfl, ?_⟩
        simp only [Stage.pending, List.length_cons, List.length_append, List.length_nil, if_true]
        omega

theorem Invariant.advance (invariant : Invariant state) {index : Nat} {creates : Bool}
    {next : State} (roomy : Roomy state (.advance index creates))
    (taken : step state (.advance index creates) = some next) : Invariant next := by
  obtain ⟨call, found, moved⟩ := Option.map_eq_some_iff.mp taken
  obtain ⟨encodable, holds⟩ := invariant.calls index call found
  obtain ⟨kept, marked⟩ :=
    holds.next encodable state.present (state.informCount call.event.key)
  have capped := invariant.capped call.event.key
  have room : state.informCount call.event.key + state.pending call.event.key +
      (call.stage.next call.event state.present (state.informCount call.event.key)).1.pending ≤
        informCapPerKey + call.stage.pending := by
    rcases next_pending call.event call.stage state.present (state.informCount call.event.key)
      with ⟨blocks, informs, at_⟩ | less
    next =>
      have free := roomy call blocks informs found at_
      simp only [at_, Stage.next, Stage.pending]
      omega
    next => omega
  have moves := invariant.moved found kept room
  simp only at moved
  split at moved
  next marker stage attempt =>
    split at moved
    next free =>
      rw [← moved]
      simp only [Bool.and_eq_true, Bool.not_eq_true'] at free
      obtain ⟨own, less⟩ := attempt_pending attempt
      exact invariant.marked found free.2 own (marked marker stage attempt) less
    next =>
      rw [← moved]
      exact moves
  next =>
    rw [← moved]
    exact moves

theorem Invariant.start (invariant : Invariant state) {event : Event}
    (encodable : event.Encodable) :
    Invariant
      { state with calls := state.calls ++ [⟨event, .checking event.matched [] []⟩] } where
  distinct := invariant.distinct
  known entry listed := by
    rw [List.length_append]
    exact Nat.lt_add_right _ (invariant.known entry listed)
  calls other call listed := by
    rw [List.getElem?_append] at listed
    split at listed
    next => exact invariant.calls other call listed
    next beyond =>
      have same := List.mem_of_getElem? listed
      rw [List.mem_singleton.mp same]
      have fresh : state.created other = [] := by
        refine List.map_eq_nil_iff.mpr (List.filter_eq_nil_iff.mpr fun entry stored => ?_)
        have bound := invariant.known entry stored
        simp only [decide_eq_true_eq]
        omega
      exact ⟨encodable, fresh, by simp [Stage.items], trivial⟩
  capped key := by
    have before := invariant.capped key
    have same : State.pending
        { state with calls := state.calls ++ [⟨event, .checking event.matched [] []⟩] } key =
        state.pending key := by
      simp [State.pending, Call.pendingFor, Stage.pending]
    rw [same]
    exact before

theorem invariant_empty : Invariant {} where
  distinct := .nil
  known := nofun
  calls index call found := by simp at found
  capped _ := Nat.zero_le _

theorem Invariant.reached (reached : Runs.Reaches step Roomy {} state) : Invariant state := by
  refine reached.invariant Invariant invariant_empty fun before action after invariant roomy taken => ?_
  cases action with
  | start event =>
    cases taken
    exact invariant.start roomy
  | advance index creates => exact invariant.advance roomy taken

end Invariant

section Delivery

def Call.finished (call : Call) : Bool :=
  match call.stage with
  | .done _ | .failed => true
  | _ => false

def Call.output (call : Call) : Option HookOutput :=
  match call.stage with
  | .done output => output
  | _ => none

def Call.printed (call : Call) : List (Lane × Item) := (call.output.map HookOutput.printed).getD []

def Call.denies (call : Call) : Bool := call.output.any HookOutput.deny

-- A guardrail is delivered exactly when it is marked, once for a lane and key.
structure Delivered (state : State) : Prop where
  printed : ∀ (index : Nat) (call : Call), state.calls[index]? = some call → call.finished = true →
    call.printed.map (marker call.event.key) = state.created index
  once : ∀ (first second : Nat) (left right : Call) (entry : Marker),
    state.calls[first]? = some left →
    state.calls[second]? = some right → left.finished = true → right.finished = true →
    entry ∈ left.printed.map (marker left.event.key) →
    entry ∈ right.printed.map (marker right.event.key) → first = second
  unrepeated : ∀ (index : Nat) (call : Call), state.calls[index]? = some call → call.finished = true →
    (call.printed.map (marker call.event.key)).Nodup
  budget : ∀ (index : Nat) (call : Call) (output : HookOutput),
    state.calls[index]? = some call → call.output = some output →
    withinBudget call.event.budget output.text = some true
  deny : ∀ (index : Nat) (call : Call), state.calls[index]? = some call → call.finished = true →
    (call.denies = true ↔ ∃ entry ∈ state.created index, entry.lane = .block)
  cap : ∀ key, state.informCount key ≤ informCapPerKey

variable {state : State}

theorem mem_created {index : Nat} {entry : Marker} :
    entry ∈ state.created index ↔ (entry, index) ∈ state.markers := by
  simp [State.created]

theorem created_unique {first second : Nat} {entry : Marker}
    (distinct : (state.markers.map Prod.fst).Nodup) (left : entry ∈ state.created first)
    (right : entry ∈ state.created second) : first = second :=
  congrArg Prod.snd
    (List.inj_on_of_nodup_map distinct (mem_created.mp left) (mem_created.mp right) rfl)

theorem printed_of_holds {call : Call} {created : List Marker}
    (holds : CallHolds call.event call.stage created) (finished : call.finished = true) :
    call.printed.map (marker call.event.key) = created := by
  obtain ⟨event, stage⟩ := call
  cases stage with
  | done output =>
    cases output with
    | none => exact holds.taken.symm
    | some output => exact holds.taken.symm
  | failed => exact holds.taken.symm
  | _ => cases finished

theorem denies_of_holds {call : Call} {created : List Marker}
    (holds : CallHolds call.event call.stage created) (finished : call.finished = true) :
    call.denies = true ↔ ∃ entry ∈ created, entry.lane = .block := by
  obtain ⟨event, stage⟩ := call
  cases stage with
  | done output =>
    cases output with
    | none =>
      rw [holds.taken]
      simp [Call.denies, Call.output, Stage.taken]
    | some output =>
      rw [holds.taken]
      simpa [Call.denies, Call.output, Stage.taken, marker] using holds.fits.2
  | failed => exact holds.fits.elim
  | _ => cases finished

theorem Invariant.delivered (invariant : Invariant state) : Delivered state where
  printed index call found finished :=
    printed_of_holds (invariant.calls index call found).2 finished
  once first second left right entry foundLeft foundRight finishedLeft finishedRight inLeft inRight := by
    rw [printed_of_holds (invariant.calls first left foundLeft).2 finishedLeft] at inLeft
    rw [printed_of_holds (invariant.calls second right foundRight).2 finishedRight] at inRight
    exact created_unique invariant.distinct inLeft inRight
  unrepeated index call found finished := by
    rw [printed_of_holds (invariant.calls index call found).2 finished]
    exact invariant.distinct.sublist (List.filter_sublist.map _)
  budget index call output found printed := by
    have fits := (invariant.calls index call found).2.fits
    obtain ⟨event, stage⟩ := call
    cases stage with
    | done written =>
      cases printed
      exact fits.1
    | _ => cases printed
  deny index call found finished :=
    denies_of_holds (invariant.calls index call found).2 finished
  cap key := Nat.le_of_add_right_le (invariant.capped key)

theorem roomy_runs_deliver (reached : Runs.Reaches step Roomy {} state) : Delivered state :=
  (Invariant.reached reached).delivered

end Delivery

section Samples

def roomy (state : State) : Action → Bool
  | .start event => event.budget.tokens.isNone
  | .advance index _ => match state.calls[index]? with
    | some ⟨event, .counting _ informs⟩ => decide
      (state.informCount event.key + state.pending event.key +
        min informs.length (min linesPerCall (informCapPerKey - state.informCount event.key)) ≤
          informCapPerKey)
    | _ => true

theorem roomy_sound (state : State) (action : Action) (passed : roomy state action = true) :
    Roomy state action := by
  cases action with
  | start event => exact .inl (Option.isNone_iff_eq_none.mp passed)
  | advance index creates =>
    rintro ⟨event, _⟩ blocks informs found rfl
    simpa [roomy, found] using passed

def sampleItem (memoryId : MemoryId) (action : ItemAction) (summary : Text) : Item :=
  { memoryId, action, summary }

def sampleEvent (items : List Item) : Event :=
  { key := .main, on := .pre, maxAction := .block, budget := ⟨some 9000, none⟩, matched := items }

def informs (ids : List MemoryId) : Event :=
  sampleEvent (ids.map fun id => sampleItem id .inform [97])

def advances (index count : Nat) : List Action := List.replicate count (.advance index true)

-- Two calls match one block row: the first to create its marker denies, the other does not.
def blockRace : List Action :=
  let event := sampleEvent [sampleItem 1 .block [97], sampleItem 2 .inform [98]]
  List.flatten [[.start event, .start event], advances 0 6, advances 1 6, advances 0 4, advances 1 4]

theorem roomy_runs_deliver_race : ∃ state, Runs.Reaches step Roomy {} state ∧
    (state.markers, state.calls.map Call.denies, state.calls.map Call.finished) =
      ([(⟨.main, .block, 1⟩, 0), (⟨.main, .inform, 2⟩, 0)], [true, false], [true, true]) ∧
    Delivered state := by
  have seen : (Runs.run (Runs.checked step roomy) {} blockRace).map
      (fun state => (state.markers, state.calls.map Call.denies, state.calls.map Call.finished)) =
      some ([(⟨.main, .block, 1⟩, 0), (⟨.main, .inform, 2⟩, 0)], [true, false], [true, true]) := by
    decide +kernel
  obtain ⟨state, reached, view⟩ :=
    Runs.Reaches.of_run _ (Runs.allowed_of_always (fun _ _ => trivial) _ _) seen
  have guarded : Runs.Reaches step Roomy {} state := .of_checked roomy_sound reached
  exact ⟨state, guarded, view, roomy_runs_deliver guarded⟩

-- Nine markers are there when two calls count them, and each finds room for one more.
def overfilled : List Action :=
  List.flatten [[.start (informs [1, 2, 3]), .start (informs [4, 5, 6]), .start (informs [7, 8, 9])],
    advances 0 13, advances 1 13, advances 2 13, [.start (informs [10]), .start (informs [11])],
    advances 3 4, advances 4 4, advances 3 3, advances 4 3]

-- The second summary is a lone surrogate, and the budget is the Codex adapter's.
def unencodable : List Action :=
  .start { sampleEvent [sampleItem 1 .inform [97], sampleItem 2 .inform [0xd800]] with
    budget := ⟨none, some 2000⟩ } :: advances 0 9

theorem guardrail_cap_and_print_missed :
    (∃ state, Runs.Reaches step (fun _ _ => True) {} state ∧ state.informCount .main = 11 ∧
      ¬ Delivered state) ∧
    ∃ state, Runs.Reaches step (fun _ _ => True) {} state ∧
      (state.markers, state.calls.map Call.finished, state.calls.map Call.output) =
        ([(⟨.main, .inform, 1⟩, 0)], [true], [none]) ∧
      ¬ Delivered state := by
  constructor
  next =>
    have seen : (Runs.run step {} overfilled).map (fun state => state.informCount .main) =
        some 11 := by decide +kernel
    obtain ⟨state, reached, view⟩ :=
      Runs.Reaches.of_run _ (Runs.allowed_of_always (fun _ _ => trivial) _ _) seen
    refine ⟨state, reached, view, fun delivered => ?_⟩
    have capped := delivered.cap .main
    rw [view] at capped
    exact absurd capped (by decide)
  next =>
    have seen : (Runs.run step {} unencodable).map
        (fun state => (state.markers, state.calls)) =
        some ([(⟨.main, .inform, 1⟩, 0)],
          [⟨{ sampleEvent [sampleItem 1 .inform [97], sampleItem 2 .inform [0xd800]] with
            budget := ⟨none, some 2000⟩ }, .failed⟩]) := by decide +kernel
    obtain ⟨state, reached, view⟩ :=
      Runs.Reaches.of_run _ (Runs.allowed_of_always (fun _ _ => trivial) _ _) seen
    simp only [Prod.mk.injEq] at view
    refine ⟨state, reached, by rw [view.1, view.2]; rfl, fun delivered => ?_⟩
    have printed := delivered.printed 0 _ (by rw [view.2]; rfl) rfl
    rw [State.created, view.1] at printed
    cases printed

end Samples

end MemoryCloud.Guardrails
