import Mathlib.Algebra.GroupWithZero.Nat
import Mathlib.Data.List.Basic
import MemoryCloud.Shared.Base64

set_option autoImplicit false

/-!
# The continuation token of the change log

`encode_change_cursor` and `decode_change_cursor` of `services/memory_listing.py`,
with the texts of a `datetime` and a `UUID` that they write and read.
-/

namespace MemoryCloud.Changes

def isLeap (year : Nat) : Bool := year % 4 = 0 && (year % 100 ≠ 0 || year % 400 = 0)

def daysInMonth (year month : Nat) : Nat :=
  if month = 2 then if isLeap year then 29 else 28
  else if month ∈ [4, 6, 9, 11] then 30 else 31

structure DateTime where
  year : Nat
  month : Nat
  day : Nat
  hour : Nat
  minute : Nat
  second : Nat
  microsecond : Nat
  validYear : 1 ≤ year ∧ year ≤ 9999
  validMonth : 1 ≤ month ∧ month ≤ 12
  validDay : 1 ≤ day ∧ day ≤ daysInMonth year month
  validTime : hour < 24 ∧ minute < 60 ∧ second < 60 ∧ microsecond < 1000000
  deriving DecidableEq

def DateTime.make? (year month day hour minute second microsecond : Nat) : Option DateTime :=
  if validYear : 1 ≤ year ∧ year ≤ 9999 then
    if validMonth : 1 ≤ month ∧ month ≤ 12 then
      if validDay : 1 ≤ day ∧ day ≤ daysInMonth year month then
        if validTime : hour < 24 ∧ minute < 60 ∧ second < 60 ∧ microsecond < 1000000 then
          some ⟨year, month, day, hour, minute, second, microsecond,
            validYear, validMonth, validDay, validTime⟩
        else none
      else none
    else none
  else none

theorem DateTime.make?_fields (at_ : DateTime) :
    DateTime.make? at_.year at_.month at_.day at_.hour at_.minute at_.second at_.microsecond =
      some at_ := by
  simp only [DateTime.make?, at_.validYear, at_.validMonth, at_.validDay, at_.validTime, and_self,
    dite_true]

abbrev Uuid := Fin (2 ^ 128)

instance uuidCount_neZero : NeZero (2 ^ 128) := ⟨by decide⟩

section Digits

def digitChars : List Char := "0123456789abcdef".toList

def digitChar (value : Nat) : Char := digitChars.getD value '0'

def digitValue? (base : Nat) (character : Char) : Option Nat :=
  (digitChars.idxOf? character.toLower).filter fun value => decide (value < base)

def digits (base : Nat) : Nat → Nat → List Char
  | 0, _ => []
  | width + 1, value => digits base width (value / base) ++ [digitChar (value % base)]

def readDigit (base : Nat) (read : Option Nat) (character : Char) : Option Nat :=
  match read, digitValue? base character with
  | some high, some low => some (high * base + low)
  | _, _ => none

def number? (base : Nat) (text : List Char) : Option Nat :=
  text.foldl (readDigit base) (some 0)

variable {base : Nat}

theorem digitChar_table :
    ∀ value < 16, digitChars.idxOf? (digitChar value).toLower = some value ∧
      digitChar value ∉ ['|', '-', ':', 'T', '.'] := by decide +kernel

theorem digitValue?_digitChar (small : base ≤ 16) {value : Nat} (bound : value < base) :
    digitValue? base (digitChar value) = some value := by
  rw [digitValue?, (digitChar_table value (by omega)).1]
  simp [bound]

theorem digits_length (base width value : Nat) : (digits base width value).length = width := by
  induction width generalizing value with
  | zero => rfl
  | succ width ih => simp [digits, ih]

theorem number?_digits (positive : 0 < base) (small : base ≤ 16) {width value : Nat}
    (bound : value < base ^ width) : number? base (digits base width value) = some value := by
  induction width generalizing value with
  | zero =>
    have zero : value = 0 := by simpa using bound
    rw [zero]
    rfl
  | succ width ih =>
    have high : value / base < base ^ width := by
      rw [Nat.div_lt_iff_lt_mul positive]
      rwa [Nat.pow_succ] at bound
    have low : value % base < base := Nat.mod_lt _ positive
    have read := ih high
    simp only [number?] at read
    simp only [number?, digits, List.foldl_append, List.foldl_cons, List.foldl_nil, read]
    simp only [readDigit, digitValue?_digitChar small low]
    rw [Nat.mul_comm, Nat.div_add_mod]

theorem mem_digits (positive : 0 < base) (small : base ≤ 16) {width value : Nat} {character : Char}
    (listed : character ∈ digits base width value) :
    character ∉ ['|', '-', ':', 'T', '.'] := by
  induction width generalizing value with
  | zero => simp [digits] at listed
  | succ width ih =>
    rw [digits, List.mem_append, List.mem_singleton] at listed
    cases listed with
    | inl earlier => exact ih earlier
    | inr here =>
      have low : value % base < base := Nat.mod_lt _ positive
      rw [here]
      exact (digitChar_table _ (by omega)).2

end Digits

section Texts

-- `'T'.join`, and the microseconds only when there are any.
def DateTime.isoformat (at_ : DateTime) : List Char :=
  let date := List.intercalate ['-']
    [digits 10 4 at_.year, digits 10 2 at_.month, digits 10 2 at_.day]
  let seconds := List.intercalate ['.']
    (if at_.microsecond = 0 then [digits 10 2 at_.second]
      else [digits 10 2 at_.second, digits 10 6 at_.microsecond])
  let time := List.intercalate [':'] [digits 10 2 at_.hour, digits 10 2 at_.minute, seconds]
  List.intercalate ['T'] [date, time]

def field? (width : Nat) (text : List Char) : Option Nat :=
  if text.length = width then number? 10 text else none

def seconds? (text : List Char) : Option (Nat × Nat) :=
  match text.splitOn '.' with
  | [second] => (field? 2 second).map (·, 0)
  | [second, microsecond] => (field? 2 second).bind fun whole => (field? 6 microsecond).map (whole, ·)
  | _ => none

-- The two forms `isoformat` writes for a naive `datetime`. The other spellings that
-- `datetime.fromisoformat` takes are malformed here.
def DateTime.fromisoformat (text : List Char) : Option DateTime :=
  match text.splitOn 'T' with
  | [date, time] =>
      match date.splitOn '-', time.splitOn ':' with
      | [year, month, day], [hour, minute, seconds] => do
          let year ← field? 4 year
          let month ← field? 2 month
          let day ← field? 2 day
          let hour ← field? 2 hour
          let minute ← field? 2 minute
          let (second, microsecond) ← seconds? seconds
          DateTime.make? year month day hour minute second microsecond
      | _, _ => none
  | _ => none

def Uuid.text (id : Uuid) : List Char :=
  let hex := digits 16 32 id.val
  List.intercalate ['-']
    [hex.take 8, (hex.drop 8).take 4, (hex.drop 12).take 4, (hex.drop 16).take 4, hex.drop 20]

-- `UUID(text)`: hyphens anywhere are ignored.
def Uuid.parse (text : List Char) : Option Uuid :=
  let hex := text.filter fun character => decide (character ≠ '-')
  if hex.length = 32 then
    (number? 16 hex).bind fun value => if bound : value < 2 ^ 128 then some ⟨value, bound⟩ else none
  else none

end Texts

section RoundTrips

theorem field?_digits {width value : Nat} (bound : value < 10 ^ width) :
    field? width (digits 10 width value) = some value := by
  rw [field?, if_pos (digits_length ..), number?_digits (by omega) (by omega) bound]

theorem intercalate_free {separator other : Char} {parts : List (List Char)}
    (different : other ≠ separator) (free : ∀ part ∈ parts, other ∉ part) :
    other ∉ List.intercalate [separator] parts := by
  induction parts with
  | nil => simp [List.intercalate]
  | cons part rest ih =>
    have here : other ∉ part := free part (by simp)
    have later := ih fun part listed => free part (by simp [listed])
    cases rest with
    | nil => simpa [List.intercalate] using here
    | cons next beyond =>
      have split : List.intercalate [separator] (part :: next :: beyond) =
          part ++ separator :: List.intercalate [separator] (next :: beyond) := by
        simp [List.intercalate]
      rw [split]
      simp only [List.mem_append, List.mem_cons, not_or]
      exact ⟨here, different, later⟩

theorem digits_free {base width value : Nat} (positive : 0 < base) (small : base ≤ 16)
    {separator : Char} (listed : separator ∈ ['|', '-', ':', 'T', '.']) :
    separator ∉ digits base width value :=
  fun inside => mem_digits positive small inside listed

theorem decimal_free {width value : Nat} {separator : Char}
    (listed : separator ∈ ['|', '-', ':', 'T', '.']) : separator ∉ digits 10 width value :=
  digits_free (by omega) (by omega) listed

theorem seconds?_digits {second microsecond : Nat} (seconds : second < 60)
    (micros : microsecond < 1000000) :
    seconds? (List.intercalate ['.']
      (if microsecond = 0 then [digits 10 2 second]
        else [digits 10 2 second, digits 10 6 microsecond])) = some (second, microsecond) := by
  have whole : field? 2 (digits 10 2 second) = some second := field?_digits (by omega)
  by_cases zero : microsecond = 0
  next =>
    have split : (List.intercalate ['.'] [digits 10 2 second]).splitOn '.' =
        [digits 10 2 second] :=
      List.splitOn_intercalate '.' (by simpa using decimal_free (by decide)) (by simp)
    simp only [zero, if_true, seconds?, split, whole, Option.map_some]
  next =>
    have part : field? 6 (digits 10 6 microsecond) = some microsecond := field?_digits (by omega)
    have split : (List.intercalate ['.']
        [digits 10 2 second, digits 10 6 microsecond]).splitOn '.' =
          [digits 10 2 second, digits 10 6 microsecond] :=
      List.splitOn_intercalate '.' (by simp [decimal_free]) (by simp)
    simp only [zero, if_false, seconds?, split, whole, part, Option.bind_some, Option.map_some]

theorem seconds_free {second microsecond : Nat} {separator : Char}
    (listed : separator ∈ ['|', '-', ':', 'T']) :
    separator ∉ List.intercalate ['.']
      (if microsecond = 0 then [digits 10 2 second]
        else [digits 10 2 second, digits 10 6 microsecond]) := by
  have anywhere : separator ∈ ['|', '-', ':', 'T', '.'] := by
    simp only [List.mem_cons] at listed ⊢
    grind
  apply intercalate_free
  next => intro same; simp [same] at listed
  next => split <;> simp [decimal_free anywhere]

theorem fromisoformat_isoformat (at_ : DateTime) :
    DateTime.fromisoformat at_.isoformat = some at_ := by
  have years := at_.validYear
  have months := at_.validMonth
  have days : at_.day ≤ 31 := by
    have longest : daysInMonth at_.year at_.month ≤ 31 := by
      simp only [daysInMonth]
      split <;> split <;> omega
    have bound := at_.validDay.2
    omega
  have times := at_.validTime
  let date := [digits 10 4 at_.year, digits 10 2 at_.month, digits 10 2 at_.day]
  let time := [digits 10 2 at_.hour, digits 10 2 at_.minute,
    List.intercalate ['.'] (if at_.microsecond = 0 then [digits 10 2 at_.second]
      else [digits 10 2 at_.second, digits 10 6 at_.microsecond])]
  have dateSplit : (List.intercalate ['-'] date).splitOn '-' = date :=
    List.splitOn_intercalate '-' (by simp [date, decimal_free]) (by simp [date])
  have timeSplit : (List.intercalate [':'] time).splitOn ':' = time :=
    List.splitOn_intercalate ':' (by simp [time, decimal_free, seconds_free]) (by simp [time])
  have split : at_.isoformat.splitOn 'T' =
      [List.intercalate ['-'] date, List.intercalate [':'] time] := by
    apply List.splitOn_intercalate 'T'
    next =>
      simp only [List.forall_mem_cons, List.not_mem_nil, false_implies, implies_true, and_true]
      constructor
      next => exact intercalate_free (by decide) (by simp [decimal_free])
      next => exact intercalate_free (by decide) (by simp [decimal_free, seconds_free])
    next => simp
  have year : field? 4 (digits 10 4 at_.year) = some at_.year := field?_digits (by omega)
  have month : field? 2 (digits 10 2 at_.month) = some at_.month := field?_digits (by omega)
  have day : field? 2 (digits 10 2 at_.day) = some at_.day := field?_digits (by omega)
  have hour : field? 2 (digits 10 2 at_.hour) = some at_.hour := field?_digits (by omega)
  have minute : field? 2 (digits 10 2 at_.minute) = some at_.minute := field?_digits (by omega)
  have seconds := seconds?_digits times.2.2.1 times.2.2.2
  simp only [DateTime.fromisoformat, split, dateSplit, timeSplit, date, time]
  simp only [year, month, day, hour, minute, seconds, Option.bind_eq_bind, Option.bind_some]
  exact at_.make?_fields

theorem isoformat_free (at_ : DateTime) : '|' ∉ at_.isoformat := by
  apply intercalate_free (by decide)
  simp only [List.forall_mem_cons, List.not_mem_nil, false_implies, implies_true, and_true]
  constructor
  next => exact intercalate_free (by decide) (by simp [decimal_free])
  next => exact intercalate_free (by decide) (by simp [decimal_free, seconds_free])

theorem filter_intercalate {separator : Char} {parts : List (List Char)}
    (free : ∀ part ∈ parts, separator ∉ part) :
    (List.intercalate [separator] parts).filter (fun other => decide (other ≠ separator)) =
      parts.flatten := by
  induction parts with
  | nil => rfl
  | cons part rest ih =>
    have kept : part.filter (fun other => decide (other ≠ separator)) = part := by
      rw [List.filter_eq_self]
      intro other listed
      have different : other ≠ separator := fun same => free part (by simp) (same ▸ listed)
      simp [different]
    have later := ih fun part listed => free part (by simp [listed])
    cases rest with
    | nil => simpa [List.intercalate] using kept
    | cons next beyond =>
      have split : List.intercalate [separator] (part :: next :: beyond) =
          part ++ separator :: List.intercalate [separator] (next :: beyond) := by
        simp [List.intercalate]
      rw [split, List.filter_append, kept, List.filter_cons_of_neg (by simp), later]
      rfl

theorem hex_free {id : Uuid} {separator : Char} (listed : separator ∈ ['|', '-', ':', 'T', '.'])
    (part : List Char) (inside : part ⊆ digits 16 32 id.val) : separator ∉ part :=
  fun found => digits_free (by omega) (by omega) listed (inside found)

theorem hex_parts (hex : List Char) :
    [hex.take 8, (hex.drop 8).take 4, (hex.drop 12).take 4, (hex.drop 16).take 4,
      hex.drop 20].flatten = hex := by
  have drops (start width : Nat) :
      (hex.drop start).take width ++ hex.drop (start + width) = hex.drop start := by
    rw [← List.drop_drop, List.take_append_drop]
  have last := drops 16 4
  have third := drops 12 4
  have second := drops 8 4
  have first := List.take_append_drop 8 hex
  simp only [List.flatten_cons, List.flatten_nil, List.append_nil]
  rw [last, third, second, first]

theorem text_parts_free {id : Uuid} {separator : Char}
    (listed : separator ∈ ['|', '-', ':', 'T', '.']) :
    ∀ part ∈ [(digits 16 32 id.val).take 8, ((digits 16 32 id.val).drop 8).take 4,
      ((digits 16 32 id.val).drop 12).take 4, ((digits 16 32 id.val).drop 16).take 4,
      (digits 16 32 id.val).drop 20], separator ∉ part := by
  intro part present
  have whole : part ⊆ [(digits 16 32 id.val).take 8, ((digits 16 32 id.val).drop 8).take 4,
      ((digits 16 32 id.val).drop 12).take 4, ((digits 16 32 id.val).drop 16).take 4,
      (digits 16 32 id.val).drop 20].flatten :=
    fun character inside => List.mem_flatten.mpr ⟨part, present, inside⟩
  rw [hex_parts] at whole
  exact hex_free listed part whole

theorem parse_text (id : Uuid) : Uuid.parse id.text = some id := by
  have hex : id.text.filter (fun character => decide (character ≠ '-')) = digits 16 32 id.val := by
    rw [Uuid.text, filter_intercalate (text_parts_free (by decide)), hex_parts]
  have value : number? 16 (digits 16 32 id.val) = some id.val :=
    number?_digits (by omega) (by omega) id.isLt
  simp only [Uuid.parse, hex, digits_length, if_true, value, Option.bind_some]
  rw [dif_pos id.isLt]

theorem text_free (id : Uuid) : '|' ∉ id.text :=
  intercalate_free (by decide) (text_parts_free (by decide))

end RoundTrips

section Token

inductive ChangeKind where
  | created
  | forgotten
  | restored
  | superseded
  | updated
  deriving DecidableEq, Repr

def ChangeKind.name : ChangeKind → String
  | .created => "created"
  | .forgotten => "forgotten"
  | .restored => "restored"
  | .superseded => "superseded"
  | .updated => "updated"

def kinds : List ChangeKind := [.created, .updated, .superseded, .forgotten]

def sessionKinds : List ChangeKind := [.created, .updated, .forgotten, .restored]

def cursorKinds : List ChangeKind := kinds ++ sessionKinds

structure Change where
  memoryId : Uuid
  kind : ChangeKind
  writtenAt : DateTime
  summary : Option String
  supersededBy : Option Uuid
  deriving DecidableEq

def encodeChangeCursor (change : Change) : String :=
  let raw := String.ofList (List.intercalate ['|']
    [change.writtenAt.isoformat, change.kind.name.toList, change.memoryId.text])
  String.ofList (Base64.strip (Base64.encode raw.toUTF8.data.toList))

def cursorMessage : String :=
  "cursor must be the next_cursor of a previous changes_since response"

def decodeChangeCursor (cursor : String) : Except String (DateTime × ChangeKind × Uuid) :=
  let token := do
    let bytes ← Base64.decode (Base64.pad cursor.toList)
    let text ← String.fromUTF8? ⟨bytes.toArray⟩
    match text.toList.splitOn '|' with
    | [at_, kind, id] => do
        let kind ← cursorKinds.find? fun known => decide (known.name.toList = kind)
        let at_ ← DateTime.fromisoformat at_
        let id ← Uuid.parse id
        pure (at_, kind, id)
    | _ => none
  match token with
  | some position => .ok position
  | none => .error cursorMessage

theorem fromUTF8?_toUTF8 (text : String) :
    String.fromUTF8? ⟨text.toUTF8.data.toList.toArray⟩ = some text := by
  have valid : text.toUTF8.IsValidUTF8 := text.isValidUTF8
  exact dif_pos valid

theorem name_table (kind : ChangeKind) :
    cursorKinds.find? (fun known => decide (known.name.toList = kind.name.toList)) = some kind ∧
      '|' ∉ kind.name.toList := by
  cases kind <;> decide +kernel

theorem decodeChangeCursor_encodeChangeCursor (change : Change) :
    decodeChangeCursor (encodeChangeCursor change) =
      .ok (change.writtenAt, change.kind, change.memoryId) := by
  obtain ⟨known, plain⟩ := name_table change.kind
  have split : (List.intercalate ['|']
      [change.writtenAt.isoformat, change.kind.name.toList, change.memoryId.text]).splitOn '|' =
        [change.writtenAt.isoformat, change.kind.name.toList, change.memoryId.text] :=
    List.splitOn_intercalate '|' (by simp [isoformat_free, plain, text_free]) (by simp)
  have token : Base64.decode (Base64.pad (encodeChangeCursor change).toList) =
      some ((String.ofList (List.intercalate ['|']
        [change.writtenAt.isoformat, change.kind.name.toList,
          change.memoryId.text])).toUTF8.data.toList) := by
    rw [encodeChangeCursor, String.toList_ofList, Base64.pad_strip_encode, Base64.decode_encode]
  simp only [decodeChangeCursor, token, Option.bind_eq_bind, Option.bind_some, fromUTF8?_toUTF8,
    String.toList_ofList, split, known, fromisoformat_isoformat, parse_text]
  rfl

theorem encodeChangeCursor_ne_empty (change : Change) : encodeChangeCursor change ≠ "" := by
  intro empty
  have undone := decodeChangeCursor_encodeChangeCursor change
  rw [empty] at undone
  have malformed : decodeChangeCursor "" = .error cursorMessage := by decide +kernel
  rw [malformed] at undone
  cases undone

end Token

end MemoryCloud.Changes
