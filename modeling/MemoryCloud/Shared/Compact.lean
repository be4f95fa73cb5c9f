import Mathlib.Algebra.GroupWithZero.Nat
import MemoryCloud.Shared.Json

set_option autoImplicit false

/-!
# Compact JSON text and its length

The text that a compact writer gives of a value when it leaves characters outside ASCII as
they are, and what the parts of an array or an object add to its length.
-/

namespace MemoryCloud.Compact

inductive Value
  | null
  | bool (value : Bool)
  | int (value : Int)
  -- The shortest text that reads back as the float, or the writer's word for a NaN or an infinity.
  | float (text : String)
  | string (value : String)
  | array (items : List Value)
  | object (members : List (String × Value))
  -- A value that JSON has no form for, written as its string.
  | other (text : String)

def escape (character : Char) : List Char :=
  match Json.shortEscapes.lookup character.toNat with
  | some short => ['\\', short]
  | none =>
    if character.toNat < 32 then '\\' :: 'u' :: Json.hex4 character.toNat else [character]

def quote (text : String) : List Char := '"' :: text.toList.flatMap escape ++ ['"']

mutual
def dumps : Value → List Char
  | .null => "null".toList
  | .bool true => "true".toList
  | .bool false => "false".toList
  | .int value => Json.intText value
  | .float text => text.toList
  | .string value => quote value
  | .array [] => ['[', ']']
  | .array (item :: rest) => '[' :: dumps item ++ dumpsItems rest
  | .object [] => ['{', '}']
  | .object ((key, value) :: rest) => '{' :: quote key ++ ':' :: dumps value ++ dumpsMembers rest
  | .other text => quote text
def dumpsItems : List Value → List Char
  | [] => [']']
  | item :: rest => ',' :: dumps item ++ dumpsItems rest
def dumpsMembers : List (String × Value) → List Char
  | [] => ['}']
  | (key, value) :: rest => ',' :: quote key ++ ':' :: dumps value ++ dumpsMembers rest
end

section Lengths

def memberChars (member : String × Value) : Nat :=
  (quote member.1).length + 1 + (dumps member.2).length + 1

theorem length_dumpsItems (items : List Value) :
    (dumpsItems items).length = (items.map fun item => (dumps item).length + 1).sum + 1 := by
  induction items with
  | nil => rfl
  | cons item rest ih =>
    simp only [dumpsItems, List.length_append, List.length_cons, List.map_cons, List.sum_cons, ih]
    omega

theorem length_dumpsMembers (members : List (String × Value)) :
    (dumpsMembers members).length = (members.map memberChars).sum + 1 := by
  induction members with
  | nil => rfl
  | cons member rest ih =>
    obtain ⟨key, value⟩ := member
    simp only [dumpsMembers, memberChars, List.length_append, List.length_cons, List.map_cons,
      List.sum_cons, ih]
    omega

theorem length_dumps_array {items : List Value} (filled : items ≠ []) :
    (dumps (.array items)).length = 1 + (items.map fun item => (dumps item).length + 1).sum := by
  cases items with
  | nil => exact absurd rfl filled
  | cons item rest =>
    simp only [dumps, List.length_append, List.length_cons, List.map_cons, List.sum_cons,
      length_dumpsItems]
    omega

theorem length_dumps_object {members : List (String × Value)} (filled : members ≠ []) :
    (dumps (.object members)).length = 1 + (members.map memberChars).sum := by
  cases members with
  | nil => exact absurd rfl filled
  | cons member rest =>
    obtain ⟨key, value⟩ := member
    simp only [dumps, memberChars, List.length_append, List.length_cons, List.map_cons,
      List.sum_cons, length_dumpsMembers]
    omega

end Lengths

end MemoryCloud.Compact
