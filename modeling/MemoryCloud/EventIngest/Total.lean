import Mathlib.Data.List.Range
import Mathlib.Algebra.Order.Ring.Rat
import MemoryCloud.EventIngest.Sound

set_option autoImplicit false

/-!
# When validation is total and sound

An exception on one event loses the whole batch, so the promise holds of a batch exactly if no check goes
wrong on any of its events.
-/

namespace MemoryCloud.EventIngest

section Kept

variable {texts : Texts} {index : Nat} {members : List (String × Value)} {importance : Float}
  {version : Option Int} {payload : Option Value} {number : Int}

theorem docId_of_text (named : (docIdOf members).truthy = true) (text : isText (docIdOf members) = true) :
    ∃ name, docIdOf members = .string name ∧ name ≠ "" := by
  cases same : docIdOf members with
  | string name =>
    rw [same] at named
    exact ⟨name, rfl, of_decide_eq_true named⟩
  | _ =>
    rw [same] at text
    cases text

theorem payload_of_object (present : (payloadOf members).truthy = true)
    (object : isObject (payloadOf members) = true) :
    ∃ entries, entries ≠ [] ∧ payloadOf members = .object entries := by
  cases same : payloadOf members with
  | object entries =>
    refine ⟨entries, ?_, rfl⟩
    rintro rfl
    rw [same] at present
    cases present
  | _ =>
    rw [same] at object
    cases object

theorem importance_of_weighs (weighs : Weighs texts (importanceOf members) importance)
    (number : NotNan texts (importanceOf members)) :
    ∃ value, importance = .finite value ∧ 0 ≤ value ∧ value ≤ 1 := by
  rcases weighs with ⟨_, rfl⟩ | ⟨_, read, low, high⟩
  next => exact ⟨_, rfl, by decide +kernel, by decide +kernel⟩
  next =>
    cases importance with
    | nan => exact absurd read number
    | infinite negative =>
      simp only [Float.below] at low
      simp [Float.above, low] at high
    | finite value =>
      simp only [Float.below, Float.above, decide_eq_false_iff_not, not_lt] at low high
      exact ⟨value, rfl, low, high⟩

theorem notNan_of_finite {value : ℚ} (weighs : Weighs texts (importanceOf members) (.finite value)) :
    NotNan texts (importanceOf members) := by
  intro nan
  rcases weighs with ⟨absent, _⟩ | ⟨_, read, _⟩
  next =>
    cases same : importanceOf members with
    | null =>
      rw [same] at nan
      cases nan
    | _ =>
      rw [same] at absent
      cases absent
  next => cases read.symm.trans nan

theorem sound_upsert (upsert : get members "op" = .string "upsert")
    (named : (docIdOf members).truthy = true) (present : (payloadOf members).truthy = true)
    (counts : Counts texts (versionOf members) number) (fits : Fits texts (payloadOf members))
    (weighs : Weighs texts (importanceOf members) importance) :
    Sound texts (kept index members (some number) (some (payloadOf members)) importance) ↔
      isText (docIdOf members) = true ∧ isObject (payloadOf members) = true ∧
        NotNan texts (importanceOf members) := by
  constructor
  next =>
    intro sound
    obtain ⟨name, text, _⟩ := sound.docId
    obtain ⟨value, finite, _⟩ := sound.importance
    obtain ⟨_, entries, _, object, _⟩ := sound.upsert upsert
    have text : docIdOf members = .string name := text
    have finite : importance = .finite value := finite
    have object : payloadOf members = .object entries := Option.some.inj object
    rw [finite] at weighs
    exact ⟨by rw [text]; rfl, by rw [object]; rfl, notNan_of_finite weighs⟩
  next =>
    rintro ⟨text, object, notNan⟩
    obtain ⟨entries, nonempty, same⟩ := payload_of_object present object
    exact {
      op := .inl upsert
      docId := docId_of_text named text
      importance := importance_of_weighs weighs notNan
      version := fun read same => Option.some.inj same ▸ counts.2
      upsert := fun _ => ⟨⟨number, rfl⟩, entries, nonempty, congrArg some same, same ▸ fits present⟩
      delete := fun delete => absurd (upsert.symm.trans delete) (by simp) }

theorem sound_delete (delete : get members "op" = .string "delete")
    (named : (docIdOf members).truthy = true)
    (counts : (isNull (versionOf members) = true ∧ version = none) ∨
      ∃ number, version = some number ∧ Counts texts (versionOf members) number)
    (weighs : Weighs texts (importanceOf members) importance) :
    Sound texts (kept index members version none importance) ↔
      isText (docIdOf members) = true ∧ NotNan texts (importanceOf members) := by
  constructor
  next =>
    intro sound
    obtain ⟨name, text, _⟩ := sound.docId
    obtain ⟨value, finite, _⟩ := sound.importance
    have text : docIdOf members = .string name := text
    have finite : importance = .finite value := finite
    rw [finite] at weighs
    exact ⟨by rw [text]; rfl, notNan_of_finite weighs⟩
  next =>
    rintro ⟨text, notNan⟩
    refine {
      op := .inr delete
      docId := docId_of_text named text
      importance := importance_of_weighs weighs notNan
      version := fun read same => ?_
      upsert := fun upsert => absurd (upsert.symm.trans delete) (by simp)
      delete := fun _ => rfl }
    have same : version = some read := same
    rcases counts with ⟨_, none⟩ | ⟨number, some, counts⟩
    next => cases none.symm.trans same
    next =>
      cases some.symm.trans same
      exact counts.2

end Kept

section Event

variable {texts : Texts} {index : Nat} {eventData : Value} {members : List (String × Value)}

def Dealt (texts : Texts) (outcome : Except (Stop IngestItemError) IngestEventInput) : Prop :=
  outcome ≠ .error .raised ∧ ∀ input, outcome = .ok input → Sound texts input

theorem dealt_error (error : IngestItemError) : Dealt texts (.error (.error error)) :=
  ⟨by simp, by simp⟩

theorem dealt_upsert (upsert : get members "op" = .string "upsert")
    (named : (docIdOf members).truthy = true) :
    Dealt texts (validateEvent texts index (.object members)) ↔ FineUpsert texts members := by
  rw [Dealt, FineUpsert, Ne, upsert_raised upsert named]
  constructor
  next =>
    rintro ⟨quiet, sound⟩ present
    refine ⟨Bool.eq_false_iff.mpr fun infinite => quiet ⟨present, .inl infinite⟩, ?_⟩
    rintro ⟨number, counts⟩ fits
    refine ⟨Bool.eq_false_iff.mpr fun beyond =>
      quiet ⟨present, .inr ⟨⟨number, counts⟩, fits, beyond⟩⟩, ?_⟩
    rintro ⟨importance, weighs⟩
    exact (sound_upsert upsert named present counts fits weighs).mp
      (sound _ ((upsert_ok upsert named).mpr ⟨number, importance, present, counts, fits, weighs, rfl⟩))
  next =>
    intro fine
    constructor
    next =>
      rintro ⟨present, infinite | ⟨counts, fits, beyond⟩⟩
      next => exact absurd infinite (Bool.eq_false_iff.mp (fine present).1)
      next => exact absurd beyond (Bool.eq_false_iff.mp ((fine present).2 counts fits).1)
    next =>
      intro input ok
      obtain ⟨number, importance, present, counts, fits, weighs, rfl⟩ := (upsert_ok upsert named).mp ok
      exact (sound_upsert upsert named present counts fits weighs).mpr
        (((fine present).2 ⟨number, counts⟩ fits).2 ⟨importance, weighs⟩)

theorem exists_read {version : Value} :
    (∃ read : Option Int, (isNull version = true ∧ read = none) ∨
      ∃ number, read = some number ∧ Counts texts version number) ↔
      isNull version = true ∨ ∃ number, Counts texts version number := by
  constructor
  next =>
    rintro ⟨read, ⟨absent, _⟩ | ⟨number, _, counts⟩⟩
    next => exact .inl absent
    next => exact .inr ⟨number, counts⟩
  next =>
    rintro (absent | ⟨number, counts⟩)
    next => exact ⟨none, .inl ⟨absent, rfl⟩⟩
    next => exact ⟨some number, .inr ⟨number, rfl, counts⟩⟩

theorem dealt_delete (delete : get members "op" = .string "delete")
    (named : (docIdOf members).truthy = true) :
    Dealt texts (validateEvent texts index (.object members)) ↔ FineDelete texts members := by
  rw [Dealt, FineDelete, Ne, delete_raised delete named]
  constructor
  next =>
    rintro ⟨quiet, sound⟩ fits
    refine ⟨Bool.eq_false_iff.mpr fun beyond => quiet ⟨fits, .inl beyond⟩, ?_⟩
    rintro ⟨importance, weighs⟩ blank
    refine ⟨Bool.eq_false_iff.mpr fun infinite =>
      quiet ⟨fits, .inr ⟨⟨importance, weighs⟩, blank, infinite⟩⟩, ?_⟩
    intro readable
    obtain ⟨read, counts⟩ := exists_read.mpr readable
    exact (sound_delete delete named counts weighs).mp
      (sound _ ((delete_ok delete named).mpr ⟨read, importance, fits, weighs, blank, counts, rfl⟩))
  next =>
    intro fine
    constructor
    next =>
      rintro ⟨fits, beyond | ⟨weighs, blank, infinite⟩⟩
      next => exact absurd beyond (Bool.eq_false_iff.mp (fine fits).1)
      next => exact absurd infinite (Bool.eq_false_iff.mp ((fine fits).2 weighs blank).1)
    next =>
      intro input ok
      obtain ⟨read, importance, fits, weighs, blank, counts, rfl⟩ := (delete_ok delete named).mp ok
      exact (sound_delete delete named counts weighs).mpr
        (((fine fits).2 ⟨importance, weighs⟩ blank).2 (exists_read.mp ⟨read, counts⟩))

theorem isOp_iff {op : Value} : isOp op = true ↔ op = .string "upsert" ∨ op = .string "delete" := by
  cases op <;> simp [isOp]

theorem dealt_iff : Dealt texts (validateEvent texts index eventData) ↔ Fine texts eventData := by
  cases eventData with
  | object members =>
    cases known : isOp (get members "op") with
    | false =>
      have refused : validateEvent texts index (.object members) =
          .error (.error ⟨index, .invalidOp, none, [("op", get members "op")]⟩) := by
        simp only [validateEvent, known]
        rfl
      have other : ∀ name, isOp (.string name) = true → get members "op" ≠ .string name := by
        intro name op same
        rw [same, op] at known
        cases known
      rw [refused]
      refine iff_of_true (dealt_error _) ?_
      rintro _ ⟨⟩ _
      exact ⟨fun same => absurd same (other _ rfl), fun same => absurd same (other _ rfl)⟩
    | true =>
      cases named : (docIdOf members).truthy with
      | false =>
        have refused : validateEvent texts index (.object members) =
            .error (.error ⟨index, .missingDocId, none, []⟩) := by
          rw [docIdOf] at named
          simp only [validateEvent, known, named]
          rfl
        rw [refused]
        refine iff_of_true (dealt_error _) ?_
        rintro _ ⟨⟩ present
        cases named.symm.trans present
      | true =>
        rcases isOp_iff.mp known with upsert | delete
        next =>
          rw [dealt_upsert upsert named]
          constructor
          next =>
            rintro fine _ ⟨⟩ _
            exact ⟨fun _ => fine, fun delete => absurd (upsert.symm.trans delete) (by simp)⟩
          next => exact fun fine => (fine members rfl named).1 upsert
        next =>
          rw [dealt_delete delete named]
          constructor
          next =>
            rintro fine _ ⟨⟩ _
            exact ⟨fun upsert => absurd (upsert.symm.trans delete) (by simp), fun _ => fine⟩
          next => exact fun fine => (fine members rfl named).2 delete
  | _ => exact iff_of_true (dealt_error _) (by rintro _ ⟨⟩)

end Event

section Index

variable {texts : Texts} {index : Nat} {eventData : Value} {members : List (String × Value)}
  {error : Kind → IngestItemError} {payload version raw : Value}

def Blames {A : Type} (index : Nat) (outcome : Except (Stop IngestItemError) A) : Prop :=
  ∀ item, outcome = .error (.error item) → item.index = index

theorem blames_ok {A : Type} (value : A) :
    Blames index (pure value : Except (Stop IngestItemError) A) := by
  rintro item ⟨⟩

theorem blames_error {A : Type} {item : IngestItemError} (same : item.index = index) :
    Blames index (.error (.error item) : Except (Stop IngestItemError) A) := by
  rintro _ ⟨⟩
  exact same

theorem blames_bind {A B : Type} {first : Except (Stop IngestItemError) A}
    {next : A → Except (Stop IngestItemError) B} (start : Blames index first)
    (rest : ∀ value, Blames index (next value)) : Blames index (first >>= next) := by
  intro item failed
  rcases bind_eq_error.mp failed with failed | ⟨value, _, failed⟩
  next => exact start item failed
  next => exact rest value item failed

theorem blames_caught {A : Type} {item : IngestItemError} {converted : Converted A}
    (same : item.index = index) : Blames index (caught item converted) := by
  rcases converted with (_ | _) | _
  next => rintro _ ⟨⟩
  next => exact blames_error same
  next => exact blames_ok _

theorem blames_guard {A : Type} {refused : Prop} [Decidable refused] {item : IngestItemError}
    {rest : Unit → Except (Stop IngestItemError) A} (same : item.index = index)
    (blames : Blames index (rest ())) :
    Blames index (if refused then throw (.error item) >>= rest else rest ()) := by
  split
  next => exact blames_error same
  next => exact blames

variable (same : ∀ kind, (error kind).index = index)

include same

theorem blames_upsertVersion : Blames index (upsertVersion texts error payload version) := by
  unfold upsertVersion
  refine blames_guard (same _) (blames_guard (same _) ?_)
  exact blames_bind (blames_caught (same _)) fun number => blames_guard (same _) (blames_ok number)

theorem blames_checkPayloadSize : Blames index (checkPayloadSize texts error payload) := by
  unfold checkPayloadSize
  split
  next =>
    dsimp only
    split
    next => exact blames_error (same _)
    next => exact blames_ok _
  next => exact blames_ok _

theorem blames_readImportance : Blames index (readImportance texts error raw) := by
  unfold readImportance
  split
  next => exact blames_ok _
  next =>
    exact blames_bind (blames_caught (same _)) fun importance =>
      blames_guard (same _) (blames_ok importance)

theorem blames_deleteVersion : Blames index (deleteVersion texts error payload version) := by
  unfold deleteVersion
  refine blames_guard (same _) ?_
  dsimp only
  split
  next => exact blames_ok _
  next =>
    exact blames_bind (blames_caught (same _)) fun number =>
      blames_guard (same _) (blames_ok (some number))

end Index

section Batch

variable {texts : Texts} {index : Nat} {eventData : Value} {members : List (String × Value)}
  {input : IngestEventInput} {events : List Value} {valid : List IngestEventInput}
  {errors : List IngestItemError}

theorem validateEvent_blames : Blames index (validateEvent texts index eventData) := by
  cases eventData with
  | object members =>
    unfold validateEvent
    refine blames_guard rfl (blames_guard rfl ?_)
    have same : ∀ kind, (IngestItemError.mk index kind (some (get members "doc_id")) []).index = index :=
      fun _ => rfl
    dsimp only
    split
    next =>
      exact blames_bind
        (blames_bind (blames_upsertVersion same) fun number => blames_ok (some number)) fun _ =>
        blames_bind (blames_checkPayloadSize same) fun _ =>
        blames_bind (blames_readImportance same) fun _ => blames_ok _
    next =>
      exact blames_bind (blames_ok none) fun _ =>
        blames_bind (blames_checkPayloadSize same) fun _ =>
        blames_bind (blames_readImportance same) fun _ =>
        blames_bind (blames_deleteVersion same) fun _ => blames_ok _
  | _ => exact blames_error rfl

theorem validateEvent_index (ok : validateEvent texts index eventData = .ok input) :
    input.index = index := by
  cases eventData with
  | object members =>
    by_cases named : (docIdOf members).truthy = true
    next =>
      cases known : isOp (get members "op") with
      | false =>
        simp only [validateEvent, known] at ok
        cases ok
      | true =>
        rcases isOp_iff.mp known with upsert | delete
        next =>
          obtain ⟨_, _, _, _, _, _, rfl⟩ := (upsert_ok upsert named).mp ok
          rfl
        next =>
          obtain ⟨_, _, _, _, _, _, rfl⟩ := (delete_ok delete named).mp ok
          rfl
    next =>
      rw [docIdOf, Bool.not_eq_true] at named
      simp only [validateEvent, named] at ok
      split at ok <;> cases ok
  | _ => cases ok

structure Accounts (index count : Nat) (first second : List Nat) : Prop where
  once : (first ++ second).Perm (List.range' index count)
  first : first.Pairwise (· < ·)
  second : second.Pairwise (· < ·)

theorem accounts_nil : Accounts index 0 [] [] := ⟨List.Perm.refl _, .nil, .nil⟩

theorem later {count : Nat} {first second : List Nat} (rest : Accounts (index + 1) count first second) :
    ∀ other ∈ first ++ second, index < other := by
  intro other among
  obtain ⟨_, _, rfl⟩ := List.mem_range'.mp (rest.once.mem_iff.mp among)
  omega

theorem accounts_first {count : Nat} {first second : List Nat}
    (rest : Accounts (index + 1) count first second) :
    Accounts index (count + 1) (index :: first) second where
  once := by
    rw [List.range'_succ]
    exact rest.once.cons index
  first := List.pairwise_cons.mpr
    ⟨fun other among => later rest other (List.mem_append_left _ among), rest.first⟩
  second := rest.second

theorem accounts_second {count : Nat} {first second : List Nat}
    (rest : Accounts (index + 1) count first second) :
    Accounts index (count + 1) first (index :: second) where
  once := by
    rw [List.range'_succ]
    exact List.perm_middle.trans (rest.once.cons index)
  first := rest.first
  second := List.pairwise_cons.mpr
    ⟨fun other among => later rest other (List.mem_append_right _ among), rest.second⟩

def inputIndices (valid : List IngestEventInput) : List Nat := valid.map (·.index)
def errorIndices (errors : List IngestItemError) : List Nat := errors.map (·.index)

theorem validateFrom_cons (run : validateFrom texts index (eventData :: events) = some (valid, errors)) :
    (∃ item, validateEvent texts index eventData = .error (.error item) ∧
      ∃ errors', errors = item :: errors' ∧
        validateFrom texts (index + 1) events = some (valid, errors')) ∨
    (∃ input, validateEvent texts index eventData = .ok input ∧
      ∃ valid', valid = input :: valid' ∧
        validateFrom texts (index + 1) events = some (valid', errors)) := by
  rw [validateFrom] at run
  cases outcome : validateEvent texts index eventData with
  | error stop =>
    rw [outcome] at run
    cases stop with
    | raised => cases run
    | error item =>
      obtain ⟨⟨valid', errors'⟩, rest, together⟩ := Option.map_eq_some_iff.mp run
      cases together
      exact .inl ⟨item, rfl, errors', rfl, rest⟩
  | ok input =>
    rw [outcome] at run
    obtain ⟨⟨valid', errors'⟩, rest, together⟩ := Option.map_eq_some_iff.mp run
    cases together
    exact .inr ⟨input, rfl, valid', rfl, rest⟩

theorem validateFrom_accounts (run : validateFrom texts index events = some (valid, errors)) :
    Accounts index events.length (inputIndices valid) (errorIndices errors) := by
  induction events generalizing index valid errors with
  | nil =>
    cases run
    exact accounts_nil
  | cons eventData events ih =>
    rcases validateFrom_cons run with
      ⟨item, outcome, errors, rfl, rest⟩ | ⟨input, outcome, valid, rfl, rest⟩
    next =>
      have same : item.index = index := validateEvent_blames item outcome
      rw [errorIndices, List.map_cons, same]
      exact accounts_second (ih rest)
    next =>
      rw [inputIndices, List.map_cons, validateEvent_index outcome]
      exact accounts_first (ih rest)

-- The loop deals with each event in turn.
theorem validateFrom_sound :
    (∃ valid errors, validateFrom texts index events = some (valid, errors) ∧
      ∀ input ∈ valid, Sound texts input) ↔ ∀ eventData ∈ events, Fine texts eventData := by
  induction events generalizing index with
  | nil => exact iff_of_true ⟨[], [], rfl, by simp⟩ (by simp)
  | cons eventData events ih =>
    rw [List.forall_mem_cons, ← @dealt_iff texts index eventData, ← @ih (index + 1)]
    constructor
    next =>
      rintro ⟨valid, errors, run, sound⟩
      rcases validateFrom_cons run with
        ⟨item, outcome, errors, rfl, rest⟩ | ⟨input, outcome, valid, rfl, rest⟩
      next =>
        rw [outcome]
        exact ⟨dealt_error item, valid, errors, rest, sound⟩
      next =>
        obtain ⟨head, tail⟩ := List.forall_mem_cons.mp sound
        rw [outcome]
        refine ⟨⟨by simp, ?_⟩, valid, errors, rest, tail⟩
        rintro _ ⟨⟩
        exact head
    next =>
      rintro ⟨⟨quiet, kept⟩, valid, errors, rest, sound⟩
      rw [validateFrom]
      cases outcome : validateEvent texts index eventData with
      | error stop =>
        cases stop with
        | raised => exact absurd outcome quiet
        | error item => exact ⟨valid, item :: errors, by simp [rest], sound⟩
      | ok input =>
        refine ⟨input :: valid, errors, by simp [rest], ?_⟩
        exact List.forall_mem_cons.mpr ⟨kept input outcome, sound⟩

def Validated (texts : Texts) (rawEvents : List Value) : Prop :=
  ∃ valid errors, validateEvents texts rawEvents = some (valid, errors) ∧
    Accounts 0 rawEvents.length (inputIndices valid) (errorIndices errors) ∧
      ∀ input ∈ valid, Sound texts input

theorem validated_iff_fine (texts : Texts) (rawEvents : List Value) :
    Validated texts rawEvents ↔ ∀ eventData ∈ rawEvents, Fine texts eventData := by
  rw [← @validateFrom_sound texts 0]
  constructor
  next =>
    rintro ⟨valid, errors, run, _, sound⟩
    exact ⟨valid, errors, run, sound⟩
  next =>
    rintro ⟨valid, errors, run, sound⟩
    exact ⟨valid, errors, run, validateFrom_accounts run, sound⟩

-- `{"op": "delete", "doc_id": "d", "version": Infinity}`
def endlessVersion : Value :=
  .object [("op", .string "delete"), ("doc_id", .string "d"), ("version", .float (.infinite false))]

-- The conversion of an infinite version raises what nothing catches.
theorem infinity_stops_the_batch :
    ¬∀ (texts : Texts) (rawEvents : List Value), Validated texts rawEvents := by
  intro promised
  obtain ⟨valid, errors, run, _⟩ := promised ⟨fun _ => none, fun _ => none, fun _ => 0⟩ [endlessVersion]
  cases run

end Batch

end MemoryCloud.EventIngest
