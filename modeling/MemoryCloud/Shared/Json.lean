import Mathlib.Data.List.Basic
import Mathlib.Data.Nat.Basic

set_option autoImplicit false

/-!
# JSON values and their compact text

The text that a compact JSON writer with ASCII output gives of a value. It can be read
back: no text of a value continues to the text of another one.
-/

namespace MemoryCloud

def exponentChars : List Char := ['.', 'e']

def numberChars : List Char :=
  ['0', '1', '2', '3', '4', '5', '6', '7', '8', '9', '+', '-'] ++ exponentChars

-- A finite float is kept as its shortest text, which has a point or an exponent.
structure FloatText where
  text : List Char
  numeric : ∀ character ∈ text, character ∈ numberChars
  fractional : ∃ character ∈ text, character ∈ exponentChars
  deriving DecidableEq

theorem FloatText.ext {left right : FloatText} (same : left.text = right.text) : left = right := by
  cases left
  cases right
  simpa using same

-- The members of an object stand in key order.
inductive Json
  | null
  | bool (value : Bool)
  | int (value : Int)
  | float (value : FloatText)
  | string (value : String)
  | array (items : List Json)
  | object (members : List (String × Json))

namespace Json

def isZero (value : FloatText) : Bool :=
  decide (value.text ∈ ["0.0".toList, "-0.0".toList])

def truthy : Json → Bool
  | null => false
  | bool value => value
  | int value => value != 0
  | float value => !isZero value
  | string value => value != ""
  | array items => !items.isEmpty
  | object members => !members.isEmpty

section Texts

def utf16 (character : Char) : List Nat :=
  if character.toNat < 0x10000 then [character.toNat]
  else [0xD800 + (character.toNat - 0x10000) / 1024, 0xDC00 + (character.toNat - 0x10000) % 1024]

def hex4 (unit : Nat) : List Char :=
  [Nat.digitChar (unit / 4096), Nat.digitChar (unit / 256 % 16), Nat.digitChar (unit / 16 % 16),
    Nat.digitChar (unit % 16)]

def shortEscapes : List (Nat × Char) :=
  [(34, '"'), (92, '\\'), (10, 'n'), (13, 'r'), (9, 't'), (12, 'f'), (8, 'b')]

def escape (unit : Nat) : List Char :=
  match shortEscapes.lookup unit with
  | some character => ['\\', character]
  | none => if 32 ≤ unit ∧ unit ≤ 126 then [Char.ofNat unit] else '\\' :: 'u' :: hex4 unit

def quote (text : String) : List Char :=
  '"' :: (text.toList.flatMap utf16).flatMap escape ++ ['"']

def intText : Int → List Char
  | .ofNat value => Nat.toDigits 10 value
  | .negSucc value => '-' :: Nat.toDigits 10 (value + 1)

mutual
def dumps : Json → List Char
  | null => "null".toList
  | bool true => "true".toList
  | bool false => "false".toList
  | int value => intText value
  | float value => value.text
  | string value => quote value
  | array [] => "[]".toList
  | array (item :: rest) => '[' :: dumps item ++ dumpsItems rest
  | object [] => ['{', '}']
  | object ((key, value) :: rest) => '{' :: quote key ++ ':' :: dumps value ++ dumpsMembers rest
def dumpsItems : List Json → List Char
  | [] => [']']
  | item :: rest => ',' :: dumps item ++ dumpsItems rest
def dumpsMembers : List (String × Json) → List Char
  | [] => ['}']
  | (key, value) :: rest => ',' :: quote key ++ ':' :: dumps value ++ dumpsMembers rest
end

end Texts

section Units

theorem digitChar_inj {left right : Nat} (smallLeft : left < 16) (smallRight : right < 16)
    (same : Nat.digitChar left = Nat.digitChar right) : left = right := by
  have table : ∀ left < 16, ∀ right < 16,
      Nat.digitChar left = Nat.digitChar right → left = right := by decide +kernel
  exact table left smallLeft right smallRight same

theorem hex4_inj {left right : Nat} (smallLeft : left < 0x10000) (smallRight : right < 0x10000)
    (same : hex4 left = hex4 right) : left = right := by
  simp only [hex4, List.cons.injEq, and_true] at same
  obtain ⟨first, second, third, fourth⟩ := same
  have firstSame := digitChar_inj (by omega) (by omega) first
  have secondSame := digitChar_inj (by omega) (by omega) second
  have thirdSame := digitChar_inj (by omega) (by omega) third
  have fourthSame := digitChar_inj (by omega) (by omega) fourth
  omega

inductive Escaped (unit : Nat) : List Char → Prop
  | short (character : Char) (listed : (unit, character) ∈ shortEscapes) :
      Escaped unit ['\\', character]
  | plain (printable : 32 ≤ unit ∧ unit ≤ 126) (other : unit ≠ 34 ∧ unit ≠ 92) :
      Escaped unit [Char.ofNat unit]
  | long : Escaped unit ('\\' :: 'u' :: hex4 unit)

theorem escaped (unit : Nat) : Escaped unit (escape unit) := by
  unfold escape
  cases found : shortEscapes.lookup unit with
  | some character =>
    obtain ⟨before, after, split, _⟩ := List.lookup_eq_some_iff.mp found
    refine .short character ?_
    rw [split]
    simp
  | none =>
    simp only
    split
    next printable =>
      refine .plain printable ⟨?_, ?_⟩
      all_goals
        rintro rfl
        simp [shortEscapes] at found
    next => exact .long

theorem shortEscapes_table : ∀ entry ∈ shortEscapes, entry.2 ≠ 'u' ∧
    ∀ other ∈ shortEscapes, entry.2 = other.2 → entry.1 = other.1 := by decide

theorem toNat_plain : ∀ unit < 127, (Char.ofNat unit).toNat = unit := by decide +kernel

theorem plain_inj {left right : Nat} (smallLeft : left ≤ 126) (smallRight : right ≤ 126)
    (same : Char.ofNat left = Char.ofNat right) : left = right := by
  rw [← toNat_plain left (by omega), same, toNat_plain right (by omega)]

theorem plain_ne_backslash {unit : Nat} (small : unit ≤ 126) (other : unit ≠ 92) :
    Char.ofNat unit ≠ '\\' :=
  fun same => other (plain_inj small (by omega) same)

theorem escape_append {left right : Nat} {leftRest rightRest : List Char}
    (smallLeft : left < 0x10000) (smallRight : right < 0x10000)
    (same : escape left ++ leftRest = escape right ++ rightRest) :
    left = right ∧ leftRest = rightRest := by
  have leftShape := escaped left
  have rightShape := escaped right
  revert same leftShape rightShape
  generalize escape left = leftText
  generalize escape right = rightText
  intro same leftShape rightShape
  cases leftShape with
  | short character listed =>
    cases rightShape with
    | short other otherListed =>
      simp only [List.cons_append, List.nil_append, List.cons.injEq, true_and] at same
      exact ⟨(shortEscapes_table _ listed).2 _ otherListed same.1, same.2⟩
    | plain printable different =>
      simp only [List.cons_append, List.nil_append, List.cons.injEq] at same
      exact absurd same.1.symm (plain_ne_backslash printable.2 different.2)
    | long =>
      simp only [List.cons_append, List.nil_append, List.cons.injEq, true_and] at same
      exact absurd same.1 (shortEscapes_table _ listed).1
  | plain printable different =>
    cases rightShape with
    | short other otherListed =>
      simp only [List.cons_append, List.nil_append, List.cons.injEq] at same
      exact absurd same.1 (plain_ne_backslash printable.2 different.2)
    | plain otherPrintable _ =>
      simp only [List.cons_append, List.nil_append, List.cons.injEq] at same
      exact ⟨plain_inj printable.2 otherPrintable.2 same.1, same.2⟩
    | long =>
      simp only [List.cons_append, List.nil_append, List.cons.injEq] at same
      exact absurd same.1 (plain_ne_backslash printable.2 different.2)
  | long =>
    cases rightShape with
    | short other otherListed =>
      simp only [List.cons_append, List.nil_append, List.cons.injEq, true_and] at same
      exact absurd same.1.symm (shortEscapes_table _ otherListed).1
    | plain printable different =>
      simp only [List.cons_append, List.nil_append, List.cons.injEq] at same
      exact absurd same.1.symm (plain_ne_backslash printable.2 different.2)
    | long =>
      simp only [List.cons_append, List.cons.injEq, true_and] at same
      have parts := List.append_inj same (by simp [hex4])
      exact ⟨hex4_inj smallLeft smallRight parts.1, parts.2⟩

end Units

section Quotes

theorem escape_ne_quote (unit : Nat) {leftRest rightRest : List Char} :
    escape unit ++ leftRest ≠ '"' :: rightRest := by
  have shape := escaped unit
  revert shape
  generalize escape unit = text
  intro shape same
  cases shape with
  | short character listed => simp at same
  | plain printable different =>
    simp only [List.cons_append, List.nil_append, List.cons.injEq] at same
    exact different.1 (plain_inj printable.2 (by omega) same.1)
  | long => simp at same

theorem escapes_append {left right : List Nat} {leftRest rightRest : List Char}
    (smallLeft : ∀ unit ∈ left, unit < 0x10000) (smallRight : ∀ unit ∈ right, unit < 0x10000)
    (same : left.flatMap escape ++ '"' :: leftRest = right.flatMap escape ++ '"' :: rightRest) :
    left = right ∧ leftRest = rightRest := by
  induction left generalizing right with
  | nil =>
    cases right with
    | nil => simpa using same
    | cons unit rest =>
      rw [List.flatMap_cons, List.append_assoc] at same
      exact absurd same.symm (escape_ne_quote unit)
  | cons unit rest ih =>
    cases right with
    | nil =>
      rw [List.flatMap_cons, List.append_assoc] at same
      exact absurd same (escape_ne_quote unit)
    | cons other others =>
      rw [List.flatMap_cons, List.flatMap_cons, List.append_assoc, List.append_assoc] at same
      obtain ⟨rfl, later⟩ := escape_append (smallLeft _ (by simp)) (smallRight _ (by simp)) same
      obtain ⟨rfl, after⟩ := ih (fun listed mem => smallLeft listed (by simp [mem]))
        (fun listed mem => smallRight listed (by simp [mem])) later
      exact ⟨rfl, after⟩

theorem toNat_range (character : Char) :
    character.toNat < 0xD800 ∨ 0xDFFF < character.toNat ∧ character.toNat < 0x110000 :=
  character.valid

theorem mem_utf16 {character : Char} {unit : Nat} (listed : unit ∈ utf16 character) :
    unit < 0x10000 := by
  have range := toNat_range character
  unfold utf16 at listed
  split at listed
  next small =>
    rw [List.mem_singleton] at listed
    omega
  next =>
    simp only [List.mem_cons, List.not_mem_nil, or_false] at listed
    omega

theorem utf16_append {left right : Char} {leftRest rightRest : List Nat}
    (same : utf16 left ++ leftRest = utf16 right ++ rightRest) :
    left = right ∧ leftRest = rightRest := by
  have leftRange := toNat_range left
  have rightRange := toNat_range right
  suffices numbers : left.toNat = right.toNat ∧ leftRest = rightRest from
    ⟨Char.toNat_inj.mp numbers.1, numbers.2⟩
  unfold utf16 at same
  split at same
  next =>
    split at same
    next => simpa using same
    next =>
      simp only [List.cons_append, List.nil_append, List.cons.injEq] at same
      omega
  next =>
    split at same
    next =>
      simp only [List.cons_append, List.nil_append, List.cons.injEq] at same
      omega
    next =>
      simp only [List.cons_append, List.nil_append, List.cons.injEq] at same
      obtain ⟨high, low, rest⟩ := same
      exact ⟨by omega, rest⟩

theorem utf16_ne_nil (character : Char) : utf16 character ≠ [] := by
  unfold utf16
  split <;> simp

theorem utf16s_inj {left right : List Char}
    (same : left.flatMap utf16 = right.flatMap utf16) : left = right := by
  induction left generalizing right with
  | nil =>
    cases right with
    | nil => rfl
    | cons character rest => simp [utf16_ne_nil] at same
  | cons character rest ih =>
    cases right with
    | nil => simp [utf16_ne_nil] at same
    | cons other others =>
      rw [List.flatMap_cons, List.flatMap_cons] at same
      obtain ⟨rfl, later⟩ := utf16_append same
      rw [ih later]

theorem quote_append {left right : String} {leftRest rightRest : List Char}
    (same : quote left ++ leftRest = quote right ++ rightRest) :
    left = right ∧ leftRest = rightRest := by
  simp only [quote, List.cons_append, List.append_assoc, List.nil_append, List.cons.injEq,
    true_and] at same
  have small : ∀ text : String, ∀ unit ∈ text.toList.flatMap utf16, unit < 0x10000 := by
    intro text unit listed
    obtain ⟨character, _, inside⟩ := List.mem_flatMap.mp listed
    exact mem_utf16 inside
  obtain ⟨units, rest⟩ := escapes_append (small left) (small right) same
  exact ⟨String.toList_inj.mp (utf16s_inj units), rest⟩

end Quotes

section Numbers

def Stops (rest : List Char) : Prop := ∀ character ∈ rest.head?, character ∉ numberChars

theorem number_append {left right leftRest rightRest : List Char}
    (numericLeft : ∀ character ∈ left, character ∈ numberChars)
    (numericRight : ∀ character ∈ right, character ∈ numberChars)
    (stopsLeft : Stops leftRest) (stopsRight : Stops rightRest)
    (same : left ++ leftRest = right ++ rightRest) : left = right ∧ leftRest = rightRest := by
  induction left generalizing right with
  | nil =>
    cases right with
    | nil => exact ⟨rfl, same⟩
    | cons character rest =>
      rw [List.nil_append, List.cons_append] at same
      exact absurd (numericRight character (by simp)) (stopsLeft character (by simp [same]))
  | cons character rest ih =>
    cases right with
    | nil =>
      rw [List.nil_append, List.cons_append] at same
      exact absurd (numericLeft character (by simp)) (stopsRight character (by simp [← same]))
    | cons other others =>
      simp only [List.cons_append, List.cons.injEq] at same
      obtain ⟨rfl, later⟩ := same
      obtain ⟨rfl, after⟩ := ih (fun listed mem => numericLeft listed (by simp [mem]))
        (fun listed mem => numericRight listed (by simp [mem])) later
      exact ⟨rfl, after⟩

theorem isDigit_number {character : Char} (digit : character.isDigit) :
    character ∈ numberChars ∧ character ∉ exponentChars ∧ character ≠ '-' := by
  have bounds : 48 ≤ character.toNat ∧ character.toNat ≤ 57 := Char.isDigit_iff_toNat.mp digit
  have table : ∀ value < 58, 48 ≤ value → Char.ofNat value ∈ numberChars ∧
      Char.ofNat value ∉ exponentChars ∧ Char.ofNat value ≠ '-' := by decide +kernel
  have listed := table character.toNat (by omega) (by omega)
  rwa [Char.ofNat_toNat] at listed

theorem mem_toDigits {value : Nat} {character : Char} (listed : character ∈ Nat.toDigits 10 value) :
    character ∈ numberChars ∧ character ∉ exponentChars ∧ character ≠ '-' :=
  isDigit_number (Nat.isDigit_of_mem_toDigits (by omega) (by omega) listed)

theorem toDigits_inj {left right : Nat} (same : Nat.toDigits 10 left = Nat.toDigits 10 right) :
    left = right := by
  rw [← Nat.ofDigitChars_ten_toDigits (n := left), same, Nat.ofDigitChars_ten_toDigits]

theorem mem_intText {value : Int} {character : Char} (listed : character ∈ intText value) :
    character ∈ numberChars ∧ character ∉ exponentChars := by
  cases value with
  | ofNat natural => exact ⟨(mem_toDigits listed).1, (mem_toDigits listed).2.1⟩
  | negSucc natural =>
    rw [intText, List.mem_cons] at listed
    cases listed with
    | inl minus =>
      rw [minus]
      decide
    | inr digit => exact ⟨(mem_toDigits digit).1, (mem_toDigits digit).2.1⟩

theorem intText_inj {left right : Int} (same : intText left = intText right) : left = right := by
  cases left with
  | ofNat natural =>
    cases right with
    | ofNat other => rw [toDigits_inj same]
    | negSucc other =>
      have listed : '-' ∈ Nat.toDigits 10 natural := by
        simp only [intText] at same
        simp [same]
      exact absurd rfl (mem_toDigits listed).2.2
  | negSucc natural =>
    cases right with
    | ofNat other =>
      have listed : '-' ∈ Nat.toDigits 10 other := by
        simp only [intText] at same
        simp [← same]
      exact absurd rfl (mem_toDigits listed).2.2
    | negSucc other =>
      simp only [intText, List.cons.injEq, true_and] at same
      have equal := toDigits_inj same
      have : natural = other := by omega
      rw [this]

theorem intText_ne_float {value : Int} {float : FloatText} : intText value ≠ float.text := by
  intro same
  obtain ⟨character, listed, fractional⟩ := float.fractional
  rw [← same] at listed
  exact (mem_intText listed).2 fractional

end Numbers

section Values

inductive Kind
  | null | bool | number | text | array | object
  deriving DecidableEq

def kind : Json → Kind
  | null => .null
  | bool _ => .bool
  | int _ | float _ => .number
  | string _ => .text
  | array _ => .array
  | object _ => .object

def leads (character : Char) : Option Kind :=
  if character ∈ numberChars then some .number
  else ([('n', .null), ('t', .bool), ('f', .bool), ('"', .text), ('[', .array), ('{', .object)] :
    List (Char × Kind)).lookup character

theorem dumps_leads (value : Json) : ∃ first rest, dumps value = first :: rest ∧
    leads first = some (kind value) := by
  cases value with
  | null => exact ⟨_, _, rfl, rfl⟩
  | bool value => cases value <;> exact ⟨_, _, rfl, rfl⟩
  | int value =>
    cases shape : intText value with
    | nil =>
      cases value with
      | ofNat natural => exact absurd shape Nat.toDigits_ne_nil
      | negSucc natural => simp [intText] at shape
    | cons first rest =>
      refine ⟨first, rest, by rw [dumps, shape], ?_⟩
      have listed : first ∈ intText value := by simp [shape]
      exact if_pos (mem_intText listed).1
  | float value =>
    obtain ⟨character, listed, _⟩ := value.fractional
    cases shape : value.text with
    | nil => simp [shape] at listed
    | cons first rest =>
      exact ⟨first, rest, by rw [dumps, shape],
        if_pos (value.numeric first (by simp [shape]))⟩
  | string value => exact ⟨_, _, rfl, rfl⟩
  | array items =>
    cases items with
    | nil => exact ⟨_, _, rfl, rfl⟩
    | cons item rest => exact ⟨_, _, by rw [dumps]; rfl, rfl⟩
  | object members =>
    cases members with
    | nil => exact ⟨_, _, rfl, rfl⟩
    | cons member rest =>
      obtain ⟨key, value⟩ := member
      exact ⟨_, _, by rw [dumps]; rfl, rfl⟩

theorem kind_of_append {left right : Json} {leftRest rightRest : List Char}
    (same : dumps left ++ leftRest = dumps right ++ rightRest) : kind left = kind right := by
  obtain ⟨leftFirst, leftText, leftShape, leftKind⟩ := dumps_leads left
  obtain ⟨rightFirst, rightText, rightShape, rightKind⟩ := dumps_leads right
  rw [leftShape, rightShape, List.cons_append, List.cons_append, List.cons.injEq] at same
  rw [same.1, rightKind] at leftKind
  exact (Option.some.inj leftKind).symm

theorem dumps_ne_close (value : Json) {leftRest rightRest : List Char} :
    dumps value ++ leftRest ≠ ']' :: rightRest := by
  intro same
  obtain ⟨first, text, shape, known⟩ := dumps_leads value
  rw [shape, List.cons_append, List.cons.injEq] at same
  rw [same.1, show leads ']' = none by decide] at known
  cases known

theorem stops_cons {first : Char} (other : first ∉ numberChars) (rest : List Char) :
    Stops (first :: rest) := by
  intro character listed
  cases listed
  exact other

theorem stops_items (items : List Json) (rest : List Char) : Stops (dumpsItems items ++ rest) := by
  cases items with
  | nil => exact stops_cons (by decide) _
  | cons item others => exact stops_cons (by decide) _

theorem stops_members (members : List (String × Json)) (rest : List Char) :
    Stops (dumpsMembers members ++ rest) := by
  cases members with
  | nil => exact stops_cons (by decide) _
  | cons member others => exact stops_cons (by decide) _

mutual
theorem dumps_append : ∀ (left right : Json) {leftRest rightRest : List Char}, Stops leftRest →
    Stops rightRest → dumps left ++ leftRest = dumps right ++ rightRest →
    left = right ∧ leftRest = rightRest
  | null, right, _, _, _, _, same => by
    have kinds := kind_of_append same
    cases right with
    | null => exact ⟨rfl, List.append_cancel_left same⟩
    | _ => cases kinds
  | bool value, right, _, _, _, _, same => by
    have kinds := kind_of_append same
    cases right with
    | bool other =>
      cases value with
      | true =>
        cases other with
        | true => exact ⟨rfl, List.append_cancel_left same⟩
        | false => cases (List.cons.inj same).1
      | false =>
        cases other with
        | true => cases (List.cons.inj same).1
        | false => exact ⟨rfl, List.append_cancel_left same⟩
    | _ => cases kinds
  | int value, right, _, _, stopsLeft, stopsRight, same => by
    have kinds := kind_of_append same
    cases right with
    | int other =>
      have texts := number_append (fun _ listed => (mem_intText listed).1)
        (fun _ listed => (mem_intText listed).1) stopsLeft stopsRight same
      exact ⟨congrArg int (intText_inj texts.1), texts.2⟩
    | float other =>
      have texts := number_append (fun _ listed => (mem_intText listed).1) other.numeric stopsLeft
        stopsRight same
      exact absurd texts.1 intText_ne_float
    | _ => cases kinds
  | float value, right, _, _, stopsLeft, stopsRight, same => by
    have kinds := kind_of_append same
    cases right with
    | int other =>
      have texts := number_append value.numeric (fun _ listed => (mem_intText listed).1) stopsLeft
        stopsRight same
      exact absurd texts.1.symm intText_ne_float
    | float other =>
      have texts := number_append value.numeric other.numeric stopsLeft stopsRight same
      exact ⟨congrArg float (FloatText.ext texts.1), texts.2⟩
    | _ => cases kinds
  | string value, right, _, _, _, _, same => by
    have kinds := kind_of_append same
    cases right with
    | string other =>
      have texts := quote_append same
      exact ⟨congrArg string texts.1, texts.2⟩
    | _ => cases kinds
  | array [], right, _, _, _, _, same => by
    have kinds := kind_of_append same
    cases right with
    | array items =>
      cases items with
      | nil => exact ⟨rfl, List.append_cancel_left same⟩
      | cons item rest =>
        simp only [dumps, List.cons_append, List.append_assoc] at same
        exact absurd (List.cons.inj same).2.symm (dumps_ne_close item)
    | _ => cases kinds
  | array (item :: rest), right, _, _, _, _, same => by
    have kinds := kind_of_append same
    cases right with
    | array items =>
      cases items with
      | nil =>
        simp only [dumps, List.cons_append, List.append_assoc] at same
        exact absurd (List.cons.inj same).2 (dumps_ne_close item)
      | cons other others =>
        simp only [dumps, List.cons_append, List.append_assoc, List.cons.injEq, true_and] at same
        obtain ⟨rfl, later⟩ := dumps_append item other (stops_items rest _) (stops_items others _)
          same
        obtain ⟨rfl, after⟩ := dumpsItems_append rest others later
        exact ⟨rfl, after⟩
    | _ => cases kinds
  | object [], right, _, _, _, _, same => by
    have kinds := kind_of_append same
    cases right with
    | object members =>
      cases members with
      | nil => exact ⟨rfl, List.append_cancel_left same⟩
      | cons member rest => simp [dumps, quote] at same
    | _ => cases kinds
  | object ((key, value) :: rest), right, _, _, _, _, same => by
    have kinds := kind_of_append same
    cases right with
    | object members =>
      cases members with
      | nil => simp [dumps, quote] at same
      | cons member others =>
        obtain ⟨otherKey, other⟩ := member
        simp only [dumps, List.cons_append, List.append_assoc, List.cons.injEq, true_and] at same
        obtain ⟨rfl, colon⟩ := quote_append same
        obtain ⟨rfl, later⟩ := dumps_append value other (stops_members rest _)
          (stops_members others _) (List.cons.inj colon).2
        obtain ⟨rfl, after⟩ := dumpsMembers_append rest others later
        exact ⟨rfl, after⟩
    | _ => cases kinds
theorem dumpsItems_append : ∀ (left right : List Json) {leftRest rightRest : List Char},
    dumpsItems left ++ leftRest = dumpsItems right ++ rightRest →
    left = right ∧ leftRest = rightRest
  | [], [], _, _, same => ⟨rfl, (List.cons.inj same).2⟩
  | [], _ :: _, _, _, same => by simp [dumpsItems] at same
  | _ :: _, [], _, _, same => by simp [dumpsItems] at same
  | item :: rest, other :: others, _, _, same => by
    simp only [dumpsItems, List.cons_append, List.append_assoc, List.cons.injEq, true_and] at same
    obtain ⟨rfl, later⟩ := dumps_append item other (stops_items rest _) (stops_items others _) same
    obtain ⟨rfl, after⟩ := dumpsItems_append rest others later
    exact ⟨rfl, after⟩
theorem dumpsMembers_append : ∀ (left right : List (String × Json))
    {leftRest rightRest : List Char},
    dumpsMembers left ++ leftRest = dumpsMembers right ++ rightRest →
    left = right ∧ leftRest = rightRest
  | [], [], _, _, same => ⟨rfl, (List.cons.inj same).2⟩
  | [], _ :: _, _, _, same => by simp [dumpsMembers] at same
  | _ :: _, [], _, _, same => by simp [dumpsMembers] at same
  | (key, value) :: rest, (otherKey, other) :: others, _, _, same => by
    simp only [dumpsMembers, List.cons_append, List.append_assoc, List.cons.injEq, true_and] at same
    obtain ⟨rfl, colon⟩ := quote_append same
    obtain ⟨rfl, later⟩ := dumps_append value other (stops_members rest _)
      (stops_members others _) (List.cons.inj colon).2
    obtain ⟨rfl, after⟩ := dumpsMembers_append rest others later
    exact ⟨rfl, after⟩
end

theorem dumps_inj {left right : Json} (same : dumps left = dumps right) : left = right := by
  have stops : Stops [] := fun _ listed => nomatch listed
  exact (dumps_append left right stops stops (by simpa using same)).1

end Values

end Json

end MemoryCloud
