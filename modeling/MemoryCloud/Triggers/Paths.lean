import MemoryCloud.Triggers.Model

set_option autoImplicit false

/-!
# What a pattern says

The paths through the alternatives of an expression, what each element of a
path can start with, and the characters the parser samples for it.
-/

namespace MemoryCloud.Triggers

open Separators (Token Reading Edges depth)

section Sample

variable (self : Parser)

def Item.sample : Item → List CodePoint
  | .literal char => self.literalSet char
  | .range lo hi => self.rangeSet lo hi
  | .escape letter => self.classEscapeSet letter

def CharSet.sample : CharSet → List CodePoint
  | .dot => self.alphabet.filter (· ≠ 10)
  | .members negated items =>
    let chars := items.flatMap (Item.sample self)
    if negated then self.alphabet.filter (· ∉ chars) else chars

end Sample

def Regex.separates : Regex → Bool
  | .zeroWidth => false
  | .chars _ => true
  | .group body => body.separates
  | .nil => false
  | .snoc front node none => front.separates || node.separates
  | .snoc _ _ (some .mandatory) => true
  | .snoc front _ (some _) => front.separates
  | .alt left right => left.separates && right.separates

def Regex.sample (self : Parser) : Regex → List CodePoint
  | .zeroWidth => []
  | .chars set => set.sample self
  | .group body => body.sample self
  | .nil => []
  | .snoc front node _ =>
    if front.separates then front.sample self else front.sample self ++ node.sample self
  | .alt left right => left.sample self ++ right.sample self

def Regex.nullable : Regex → Bool
  | .zeroWidth => true
  | .chars _ => false
  | .group body => body.nullable
  | .nil => true
  | .snoc front node quantifier =>
    front.nullable && (quantifier.any Quantifier.minZero || node.nullable)
  | .alt left right => left.nullable || right.nullable

def Regex.plain : Regex → Bool
  | .zeroWidth | .chars _ | .nil => true
  | .group body => body.plain
  | .snoc front node quantifier => front.plain && node.plain && quantifier.isNone
  | .alt _ _ => false

-- Every quantified group is plain, so a path meets it as one element.
def Regex.flat : Regex → Bool
  | .zeroWidth | .chars _ | .nil => true
  | .group body => body.flat
  | .snoc front node quantifier =>
    front.flat && node.flat && (quantifier.isNone || node.plain)
  | .alt left right => left.flat && right.flat

abbrev Element := Regex × Option Quantifier

section Elements

variable (element : Element)

def unbounded : Bool := element.2.any Quantifier.isUnbounded

def closes : Bool :=
  match element.2 with
  | none => !element.1.nullable
  | some .mandatory => true
  | some _ => false

def mustConsume : Bool := !(element.2.any Quantifier.minZero || element.1.nullable)

def reading (self : Parser) : Reading Element CodePoint :=
  { unbounded
    closes
    chars := fun element => element.1.sample self }

theorem closes_of_mustConsume {element : Element} (must : mustConsume element = true)
    (bounded : unbounded element = false) : closes element = true := by
  obtain ⟨node, quantifier⟩ := element
  cases quantifier with
  | none => simpa [mustConsume, closes] using must
  | some quantifier => cases quantifier <;> simp_all [mustConsume, closes, unbounded,
      Quantifier.minZero, Quantifier.isUnbounded]

end Elements

section Paths

def bracket (separates : Bool) (path : List (Token Element)) : List (Token Element) :=
  if separates then path else .enter :: (path ++ [.leave])

def Regex.paths : Regex → List (List (Token Element))
  | .nil => [[]]
  | .snoc front (.group body) none => front.paths.flatMap fun path =>
      body.paths.map fun inner => path ++ bracket body.separates inner
  | .snoc front node quantifier => front.paths.map (· ++ [.element (node, quantifier)])
  | .alt left right => left.paths ++ right.paths
  | .group body => body.paths
  | .zeroWidth => [[.element (.zeroWidth, none)]]
  | .chars set => [[.element (.chars set, none)]]

def turns (node : Regex) (quantifier : Option Quantifier) : List (List (Token Element)) :=
  match node, quantifier with
  | .group body, none => body.paths.map (bracket body.separates)
  | node, quantifier => [[.element (node, quantifier)]]

theorem turns_some (node : Regex) (quantifier : Quantifier) :
    turns node (some quantifier) = [[.element (node, some quantifier)]] := by
  cases node <;> rfl

theorem mem_paths_snoc {front node : Regex} {quantifier : Option Quantifier}
    {path : List (Token Element)} (listed : path ∈ (Regex.snoc front node quantifier).paths) :
    ∃ early ∈ front.paths, ∃ late ∈ turns node quantifier, path = early ++ late := by
  have single : path ∈ front.paths.map (· ++ [.element (node, quantifier)]) →
      turns node quantifier = [[.element (node, quantifier)]] →
      ∃ early ∈ front.paths, ∃ late ∈ turns node quantifier, path = early ++ late := by
    intro listed only
    obtain ⟨early, inside, rfl⟩ := List.mem_map.mp listed
    exact ⟨early, inside, _, by rw [only]; exact List.mem_singleton_self _, rfl⟩
  cases node with
  | group body =>
    cases quantifier with
    | none =>
      obtain ⟨early, inside, later⟩ := List.mem_flatMap.mp listed
      obtain ⟨inner, way, rfl⟩ := List.mem_map.mp later
      exact ⟨early, inside, _, List.mem_map_of_mem way, rfl⟩
    | some quantifier => exact single listed rfl
  | zeroWidth => exact single listed rfl
  | chars set => exact single listed rfl
  | nil => exact single listed rfl
  | snoc before other again => exact single listed rfl
  | alt left right => exact single listed rfl

end Paths

section Matching

variable (unicode : Unicode) (ci : Bool)

def inClassEscape (letter char : CodePoint) : Bool :=
  let positive :=
    if letter = 'd'.toNat ∨ letter = 'D'.toNat then (unicode.decimal char).isSome
    else if letter = 'w'.toNat ∨ letter = 'W'.toNat then
      unicode.isalnum char || char = '_'.toNat
    else unicode.isspace char
  positive = (letter ∈ codes ['d', 'w', 's'])

def Item.matches : Item → CodePoint → Bool
  | .literal own, char => if ci then unicode.sameCase own char else char = own
  | .range lo hi, char =>
    if ci then (List.range' lo (hi + 1 - lo)).any (unicode.sameCase · char)
    else lo ≤ char ∧ char ≤ hi
  | .escape letter, char => inClassEscape unicode letter char

def CharSet.matches : CharSet → CodePoint → Bool
  | .dot, char => char ≠ 10
  | .members negated items, char => items.any (Item.matches unicode ci · char) ≠ negated

def Regex.first : Regex → CodePoint → Bool
  | .zeroWidth, _ => false
  | .chars set, char => set.matches unicode ci char
  | .group body, char => body.first char
  | .nil, _ => false
  | .snoc front node _, char => front.first char || front.nullable && node.first char
  | .alt left right, char => left.first char || right.first char

def Shares (run other : Element) : Prop :=
  ∃ char < 0x110000, run.1.first unicode ci char = true ∧ other.1.first unicode ci char = true

end Matching

end MemoryCloud.Triggers
