import Mathlib.Data.List.Pairwise
import Mathlib.Order.Basic
import MemoryCloud.EventIngest.Model

set_option autoImplicit false

/-!
# What validation keeps

Every event is either raised on, refused or kept. A kept event is what the indexer expects unless its
document id is no text, its payload is no object or its importance is a NaN.
-/

namespace MemoryCloud.EventIngest

section Reading

variable {texts : Texts} {value payload version raw : Value} {error : Kind → IngestItemError}
  {number : Int} {importance : Float}

def isInfinite : Value → Bool
  | .float (.infinite _) => true
  | _ => false

def isBeyondFloat : Value → Bool
  | .int value => floatLimit ≤ value.natAbs
  | _ => false

def isText : Value → Bool
  | .string _ => true
  | _ => false

def isObject : Value → Bool
  | .object _ => true
  | _ => false

theorem toInt_raised : toInt texts value = .error .raised ↔ isInfinite value = true := by
  cases value with
  | float value => cases value <;> simp [toInt, isInfinite]
  | string value =>
    simp only [toInt, isInfinite]
    split <;> simp
  | _ => simp [toInt, isInfinite]

theorem toFloat_raised : toFloat texts value = .error .raised ↔ isBeyondFloat value = true := by
  cases value with
  | int value =>
    simp only [toFloat, isBeyondFloat, decide_eq_true_eq]
    split
    next small => simp [small]
    next large => simp [Nat.le_of_not_lt large]
  | string value =>
    simp only [toFloat, isBeyondFloat]
    split <;> simp
  | _ => simp [toFloat, isBeyondFloat]

theorem caught_raised {A : Type} {item : IngestItemError} {converted : Converted A} :
    caught item converted = .error .raised ↔ converted = .error .raised := by
  rcases converted with (_ | _) | _ <;> simp [caught, Except.mapError]

theorem caught_ok {A : Type} {item : IngestItemError} {converted : Converted A} {result : A} :
    caught item converted = .ok result ↔ converted = .ok result := by
  rcases converted with (_ | _) | _ <;> simp [caught, Except.mapError]

def Counts (texts : Texts) (version : Value) (number : Int) : Prop :=
  toInt texts version = .ok number ∧ 1 ≤ number

theorem not_infinite_of_null (absent : isNull value = true) : isInfinite value = false := by
  cases value <;> first | rfl | cases absent

theorem not_counts_of_null (absent : isNull value = true) (number : Int) :
    ¬Counts texts value number := by
  rintro ⟨counted, _⟩
  cases value with
  | null => cases counted
  | _ => cases absent

def readVersion (texts : Texts) (error : Kind → IngestItemError) (least : Kind) (version : Value) :
    Except (Stop IngestItemError) Int := do
  let number ← caught (error .versionNotInt) (toInt texts version)
  if number < 1 then throw (.error (error least))
  return number

theorem readVersion_raised {least : Kind} :
    readVersion texts error least version = .error .raised ↔
      isInfinite version = true := by
  rw [← @toInt_raised texts version, ← @caught_raised _ (error .versionNotInt), readVersion]
  cases caught (error .versionNotInt) (toInt texts version) with
  | error stop => simp [bind, Except.bind]
  | ok number =>
    simp only [bind, Except.bind]
    split <;> simp [throw, throwThe, MonadExceptOf.throw, pure, Except.pure]

theorem readVersion_ok {least : Kind} :
    readVersion texts error least version = .ok number ↔
      Counts texts version number := by
  rw [Counts, ← @caught_ok _ (error .versionNotInt), readVersion]
  cases caught (error .versionNotInt) (toInt texts version) with
  | error stop => simp [bind, Except.bind]
  | ok read =>
    simp only [bind, Except.bind, Except.ok.injEq]
    split
    next small =>
      simp only [throw, throwThe, MonadExceptOf.throw, reduceCtorEq, false_iff]
      rintro ⟨rfl, large⟩
      omega
    next large =>
      simp only [pure, Except.pure, Except.ok.injEq]
      constructor
      next =>
        rintro rfl
        exact ⟨rfl, Int.not_lt.mp large⟩
      next => exact And.left

theorem upsertVersion_raised :
    upsertVersion texts error payload version = .error .raised ↔
      payload.truthy = true ∧ isInfinite version = true := by
  cases present : payload.truthy with
  | false => simp [upsertVersion, present, bind, Except.bind, throw, throwThe, MonadExceptOf.throw]
  | true =>
    cases absent : isNull version with
    | true =>
      simp [upsertVersion, present, absent, not_infinite_of_null absent, bind, Except.bind, throw,
        throwThe, MonadExceptOf.throw]
    | false =>
      rw [← @readVersion_raised texts version error .versionTooSmallUpsert, upsertVersion, readVersion,
        present, absent]
      simp [pure, Except.pure, bind, Except.bind]

theorem upsertVersion_ok :
    upsertVersion texts error payload version = .ok number ↔
      payload.truthy = true ∧ Counts texts version number := by
  cases present : payload.truthy with
  | false => simp [upsertVersion, present, bind, Except.bind, throw, throwThe, MonadExceptOf.throw]
  | true =>
    cases absent : isNull version with
    | true =>
      simp [upsertVersion, present, absent, not_counts_of_null absent, bind, Except.bind, throw,
        throwThe, MonadExceptOf.throw]
    | false =>
      rw [← @readVersion_ok texts version error number .versionTooSmallUpsert, upsertVersion,
        readVersion, present, absent]
      simp [pure, Except.pure, bind, Except.bind]

theorem checkPayloadSize_not_raised : checkPayloadSize texts error payload ≠ .error .raised := by
  unfold checkPayloadSize
  split
  next =>
    dsimp only
    split <;> simp [throw, throwThe, MonadExceptOf.throw, pure, Except.pure]
  next => simp [pure, Except.pure]

def Fits (texts : Texts) (payload : Value) : Prop :=
  payload.truthy = true → texts.dumpedBytes payload ≤ maxPayloadSizeBytes

theorem checkPayloadSize_ok : checkPayloadSize texts error payload = .ok () ↔ Fits texts payload := by
  unfold checkPayloadSize Fits
  split
  next present =>
    dsimp only
    split
    next large =>
      simp only [throw, throwThe, MonadExceptOf.throw, reduceCtorEq, present, false_iff]
      exact fun fits => absurd large (Nat.not_lt.mpr (fits trivial))
    next small => simp [pure, Except.pure, present, Nat.le_of_not_lt small]
  next absent => simp [pure, Except.pure, absent]

def Weighs (texts : Texts) (raw : Value) (importance : Float) : Prop :=
  (isNull raw = true ∧ importance = .finite defaultImportance) ∨
    (isNull raw = false ∧ toFloat texts raw = .ok importance ∧ importance.below 0 = false ∧
      importance.above 1 = false)

theorem readImportance_raised :
    readImportance texts error raw = .error .raised ↔ isBeyondFloat raw = true := by
  unfold readImportance
  split
  next absent =>
    have small : isBeyondFloat raw = false := by
      cases raw with
      | null => rfl
      | _ => cases absent
    simp [small, pure, Except.pure]
  next =>
    rw [← @toFloat_raised texts raw, ← @caught_raised _ (error .importanceNotNumber)]
    cases caught (error .importanceNotNumber) (toFloat texts raw) with
    | error stop => simp [bind, Except.bind]
    | ok read =>
      simp only [bind, Except.bind]
      split <;> simp [throw, throwThe, MonadExceptOf.throw, pure, Except.pure]

theorem readImportance_ok :
    readImportance texts error raw = .ok importance ↔ Weighs texts raw importance := by
  unfold readImportance Weighs
  split
  next absent =>
    constructor
    next =>
      intro same
      cases same
      exact Or.inl ⟨absent, rfl⟩
    next =>
      rintro (⟨_, rfl⟩ | ⟨present, _⟩)
      next => rfl
      next => cases absent.symm.trans present
  next present =>
    rw [← @caught_ok _ (error .importanceNotNumber)]
    cases caught (error .importanceNotNumber) (toFloat texts raw) with
    | error stop => simp [bind, Except.bind, present]
    | ok read =>
      simp only [bind, Except.bind, Except.ok.injEq, present]
      split
      next outside =>
        simp only [throw, throwThe, MonadExceptOf.throw, reduceCtorEq, false_iff]
        rintro (⟨present, _⟩ | ⟨_, rfl, low, high⟩)
        next => cases present
        next => simp [low, high] at outside
      next inside =>
        simp only [Bool.or_eq_true, not_or, Bool.not_eq_true] at inside
        simp only [pure, Except.pure, Except.ok.injEq, Bool.false_eq_true, false_and, true_and,
          false_or]
        constructor
        next =>
          rintro rfl
          exact ⟨rfl, inside⟩
        next => exact And.left

def isBlank (payload : Value) : Bool := isNull payload || isEmptyObject payload

theorem deleteVersion_eq (blank : isBlank payload = true) (present : isNull version = false) :
    deleteVersion texts error payload version =
      (readVersion texts error .versionTooSmall version).map some := by
  have kept : (!isNull payload && !isEmptyObject payload) = false := by
    rw [← Bool.not_or, ← isBlank, blank]
    rfl
  unfold deleteVersion readVersion
  rw [kept, present]
  simp only [Bool.false_eq_true, if_false, bind, Except.bind]
  cases caught (error .versionNotInt) (toInt texts version) with
  | error stop => rfl
  | ok number =>
    dsimp only
    split <;> rfl

theorem deleteVersion_error (kept : isBlank payload = false) :
    deleteVersion texts error payload version = .error (.error (error .payloadNotNullDelete)) := by
  have refused : (!isNull payload && !isEmptyObject payload) = true := by
    rw [← Bool.not_or, ← isBlank, kept]
    rfl
  unfold deleteVersion
  rw [refused]
  rfl

theorem deleteVersion_none (blank : isBlank payload = true) (absent : isNull version = true) :
    deleteVersion texts error payload version = .ok none := by
  have kept : (!isNull payload && !isEmptyObject payload) = false := by
    rw [← Bool.not_or, ← isBlank, blank]
    rfl
  unfold deleteVersion
  rw [kept, absent]
  rfl

theorem deleteVersion_raised :
    deleteVersion texts error payload version = .error .raised ↔
      isBlank payload = true ∧ isInfinite version = true := by
  cases blank : isBlank payload with
  | false => simp [deleteVersion_error blank]
  | true =>
    cases absent : isNull version with
    | true => simp [deleteVersion_none blank absent, not_infinite_of_null absent]
    | false =>
      rw [deleteVersion_eq blank absent, ← @readVersion_raised texts version error .versionTooSmall]
      cases readVersion texts error .versionTooSmall version <;> simp [Except.map]

theorem deleteVersion_ok {read : Option Int} :
    deleteVersion texts error payload version = .ok read ↔ isBlank payload = true ∧
      ((isNull version = true ∧ read = none) ∨
        ∃ number, read = some number ∧ Counts texts version number) := by
  cases blank : isBlank payload with
  | false => simp [deleteVersion_error blank]
  | true =>
    cases absent : isNull version with
    | true => simp [deleteVersion_none blank absent, not_counts_of_null absent, eq_comm]
    | false =>
      rw [deleteVersion_eq blank absent]
      simp only [← @readVersion_ok texts version error _ .versionTooSmall]
      cases readVersion texts error .versionTooSmall version <;> simp [Except.map, eq_comm]

end Reading

section Events

variable {texts : Texts} {index : Nat} {eventData : Value} {members : List (String × Value)}
  {input : IngestEventInput}

structure Sound (texts : Texts) (input : IngestEventInput) : Prop where
  op : input.op = .string "upsert" ∨ input.op = .string "delete"
  docId : ∃ text, input.docId = .string text ∧ text ≠ ""
  importance : ∃ value, input.importance = .finite value ∧ 0 ≤ value ∧ value ≤ 1
  version : ∀ number, input.version = some number → 1 ≤ number
  upsert : input.op = .string "upsert" → (∃ number, input.version = some number) ∧
    ∃ members, members ≠ [] ∧ input.payload = some (.object members) ∧
      texts.dumpedBytes (.object members) ≤ maxPayloadSizeBytes
  delete : input.op = .string "delete" → input.payload = none

def docIdOf (members : List (String × Value)) : Value := get members "doc_id"
def payloadOf (members : List (String × Value)) : Value := get members "payload"
def versionOf (members : List (String × Value)) : Value := get members "version"
def importanceOf (members : List (String × Value)) : Value := get members "importance"

def NotNan (texts : Texts) (raw : Value) : Prop := toFloat texts raw ≠ .ok .nan

def FineUpsert (texts : Texts) (members : List (String × Value)) : Prop :=
  (payloadOf members).truthy = true →
    isInfinite (versionOf members) = false ∧
      ((∃ number, Counts texts (versionOf members) number) → Fits texts (payloadOf members) →
        isBeyondFloat (importanceOf members) = false ∧
          ((∃ importance, Weighs texts (importanceOf members) importance) →
            isText (docIdOf members) = true ∧ isObject (payloadOf members) = true ∧
              NotNan texts (importanceOf members)))

def FineDelete (texts : Texts) (members : List (String × Value)) : Prop :=
  Fits texts (payloadOf members) →
    isBeyondFloat (importanceOf members) = false ∧
      ((∃ importance, Weighs texts (importanceOf members) importance) →
        isBlank (payloadOf members) = true →
          isInfinite (versionOf members) = false ∧
            ((isNull (versionOf members) = true ∨ ∃ number, Counts texts (versionOf members) number) →
              isText (docIdOf members) = true ∧ NotNan texts (importanceOf members)))

-- No check goes wrong on the event: what raises and what slips through is not in it, as far as the
-- checks before read it.
def Fine (texts : Texts) (eventData : Value) : Prop :=
  ∀ members, eventData = .object members → (docIdOf members).truthy = true →
    (get members "op" = .string "upsert" → FineUpsert texts members) ∧
      (get members "op" = .string "delete" → FineDelete texts members)

theorem exists_unit {P : Unit → Prop} : (∃ value, P value) ↔ P () :=
  ⟨fun ⟨_, holds⟩ => holds, fun holds => ⟨(), holds⟩⟩

theorem bind_eq_ok {E A B : Type} {first : Except E A} {next : A → Except E B} {result : B} :
    (first >>= next) = .ok result ↔ ∃ value, first = .ok value ∧ next value = .ok result := by
  cases first <;> simp [bind, Except.bind]

theorem bind_eq_error {E A B : Type} {first : Except E A} {next : A → Except E B} {stop : E} :
    (first >>= next) = .error stop ↔
      first = .error stop ∨ ∃ value, first = .ok value ∧ next value = .error stop := by
  cases first <;> simp [bind, Except.bind]

section Upsert

variable (upsert : get members "op" = .string "upsert") (named : (docIdOf members).truthy = true)

def itemError (index : Nat) (members : List (String × Value)) (kind : Kind) : IngestItemError :=
  { index, kind, docId := some (docIdOf members), detail := [] }

def kept (index : Nat) (members : List (String × Value)) (version : Option Int) (payload : Option Value)
    (importance : Float) : IngestEventInput :=
  { index, version, payload, importance
    op := get members "op"
    docId := docIdOf members
    idempotencyKey := get members "idempotency_key"
    eventMetadata := (members.lookup "event_metadata").getD (.object []) }

include upsert named

theorem validateEvent_upsert :
    validateEvent texts index (.object members) = (do
      let version ← upsertVersion texts (itemError index members) (payloadOf members) (versionOf members)
      checkPayloadSize texts (itemError index members) (payloadOf members)
      let importance ← readImportance texts (itemError index members) (importanceOf members)
      return kept index members (some version) (some (payloadOf members)) importance) := by
  rw [docIdOf] at named
  unfold validateEvent
  simp only [upsert, isOp, isUpsert, named, Bool.not_true, Bool.false_eq_true, if_false, if_true,
    decide_true, Bool.true_or]
  have error : (fun kind => IngestItemError.mk index kind (some (get members "doc_id")) []) =
      itemError index members := rfl
  simp only [kept, upsert, error, docIdOf, payloadOf, versionOf, importanceOf]
  cases upsertVersion texts (itemError index members) (get members "payload") (get members "version") <;>
    rfl

theorem upsert_raised :
    validateEvent texts index (.object members) = .error .raised ↔
      (payloadOf members).truthy = true ∧ (isInfinite (versionOf members) = true ∨
        ((∃ number, Counts texts (versionOf members) number) ∧ Fits texts (payloadOf members) ∧
          isBeyondFloat (importanceOf members) = true)) := by
  rw [validateEvent_upsert upsert named, bind_eq_error, upsertVersion_raised]
  simp only [bind_eq_error, upsertVersion_ok, checkPayloadSize_not_raised, checkPayloadSize_ok,
    readImportance_raised, false_or, exists_unit, pure, Except.pure, reduceCtorEq, and_false,
    exists_false, or_false]
  grind

theorem upsert_ok :
    validateEvent texts index (.object members) = .ok input ↔
      ∃ number importance, (payloadOf members).truthy = true ∧ Counts texts (versionOf members) number ∧
        Fits texts (payloadOf members) ∧ Weighs texts (importanceOf members) importance ∧
          input = kept index members (some number) (some (payloadOf members)) importance := by
  rw [validateEvent_upsert upsert named]
  simp only [bind_eq_ok, upsertVersion_ok, checkPayloadSize_ok, readImportance_ok, exists_unit, pure,
    Except.pure, Except.ok.injEq]
  grind

end Upsert

section Delete

variable (delete : get members "op" = .string "delete") (named : (docIdOf members).truthy = true)

include delete named

theorem validateEvent_delete :
    validateEvent texts index (.object members) = (do
      checkPayloadSize texts (itemError index members) (payloadOf members)
      let importance ← readImportance texts (itemError index members) (importanceOf members)
      let version ← deleteVersion texts (itemError index members) (payloadOf members) (versionOf members)
      return kept index members version none importance) := by
  rw [docIdOf] at named
  unfold validateEvent
  simp only [delete, isOp, isUpsert, named, Bool.not_true, Bool.false_eq_true, if_false, decide_true,
    Bool.or_true, show decide ("delete" = "upsert") = false from rfl]
  have error : (fun kind => IngestItemError.mk index kind (some (get members "doc_id")) []) =
      itemError index members := rfl
  simp only [kept, delete, error, docIdOf, payloadOf, versionOf, importanceOf]
  rfl

theorem delete_raised :
    validateEvent texts index (.object members) = .error .raised ↔
      Fits texts (payloadOf members) ∧ (isBeyondFloat (importanceOf members) = true ∨
        ((∃ importance, Weighs texts (importanceOf members) importance) ∧
          isBlank (payloadOf members) = true ∧ isInfinite (versionOf members) = true)) := by
  rw [validateEvent_delete delete named, bind_eq_error]
  simp only [bind_eq_error, checkPayloadSize_not_raised, checkPayloadSize_ok, readImportance_raised,
    readImportance_ok, deleteVersion_raised, false_or, exists_unit, pure, Except.pure, reduceCtorEq,
    and_false, exists_false, or_false]
  grind

theorem delete_ok :
    validateEvent texts index (.object members) = .ok input ↔
      ∃ read importance, Fits texts (payloadOf members) ∧
        Weighs texts (importanceOf members) importance ∧ isBlank (payloadOf members) = true ∧
          ((isNull (versionOf members) = true ∧ read = none) ∨
            ∃ number, read = some number ∧ Counts texts (versionOf members) number) ∧
          input = kept index members read none importance := by
  rw [validateEvent_delete delete named]
  simp only [bind_eq_ok, checkPayloadSize_ok, readImportance_ok, deleteVersion_ok, exists_unit, pure,
    Except.pure, Except.ok.injEq]
  grind

end Delete

end Events

end MemoryCloud.EventIngest
