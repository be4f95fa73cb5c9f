import Mathlib.Algebra.GroupWithZero.Nat
import Mathlib.Data.List.Lex
import MemoryCloud.Shared.Separators

set_option autoImplicit false

/-!
# The safe-regex grammar of tool triggers

The parser behind `validate_safe_regex`, with the summaries it passes along. A
pattern is a list of code points; what `str` methods and `re` know of a code
point is the `Unicode` a deployment runs with. Beside each summary the parser
keeps the expression it has read, which the source does not.
-/

namespace MemoryCloud.Triggers

open Separators (overlap)

abbrev CodePoint := Nat

structure Unicode where
  isdigit : CodePoint → Bool
  isalnum : CodePoint → Bool
  isspace : CodePoint → Bool
  lower : CodePoint → List CodePoint
  upper : CodePoint → List CodePoint
  swapcase : CodePoint → List CodePoint
  -- The value of a decimal digit, which `int` reads and `\d` matches.
  decimal : CodePoint → Option Nat
  -- The code points that match a literal under `re.IGNORECASE`.
  sameCase : CodePoint → CodePoint → Bool

def quantifierMax : Nat := 100
def maxUnboundedQuantifiers : Nat := 4
def maxGroupDepth : Nat := 8

inductive Code
  | patternTooLong
  | patternControlChar
  | regexBackreference
  | regexLookaround
  | regexNamedGroup
  | regexPossessiveOrAtomic
  | regexInlineFlag
  | regexUnknownEscape
  | regexBoundTooLarge
  | regexBoundInverted
  | regexNestedQuantifier
  | regexStackedQuantifier
  | regexDanglingQuantifier
  | regexAdjacentUnbounded
  | regexAmbiguousSeparator
  | regexTooManyUnbounded
  | regexNestingTooDeep
  | regexClassUnsupported
  | regexClassEmpty
  | regexEmptyGroup
  | regexSyntax
  deriving DecidableEq, Repr

-- Why a call ended: a `ToolTriggerValidationError`, the `ValueError` of an `int` call, or a loop of
-- this model that was given too few rounds.
inductive Stop
  | rejected (code : Code) (message : String)
  | valueError
  | exhausted
  deriving DecidableEq, Repr

inductive Item
  | literal (char : CodePoint)
  | range (lo hi : CodePoint)
  | escape (letter : CodePoint)
  deriving DecidableEq, Repr

inductive CharSet
  | dot
  | members (negated : Bool) (items : List Item)
  deriving DecidableEq, Repr

inductive Quantifier
  | unbounded (minZero : Bool)
  | nullable
  | mandatory
  deriving DecidableEq, Repr

def Quantifier.minZero : Quantifier → Bool
  | .unbounded minZero => minZero
  | .nullable => true
  | .mandatory => false

def Quantifier.isUnbounded : Quantifier → Bool
  | .unbounded _ => true
  | _ => false

inductive Regex
  | zeroWidth
  | chars (set : CharSet)
  | group (body : Regex)
  | nil
  | snoc (front node : Regex) (quantifier : Option Quantifier)
  | alt (left right : Regex)
  deriving DecidableEq, Repr

inductive Kind
  | atom
  | zeroWidth
  | group
  deriving DecidableEq, Repr

structure Atom where
  kind : Kind
  literal : Bool := false
  chars : List CodePoint := []
  startsUnbounded : Bool := false
  endsUnbounded : Bool := false
  endSet : List CodePoint := []
  mandatory : Bool := false
  nullable : Bool := false
  ambiguous : Bool := false
  hasQuantifier : Bool := false
  hasUnbounded : Bool := false
  hasAlternation : Bool := false
  node : Regex

structure Seq where
  startsUnbounded : Bool
  endsUnbounded : Bool
  endSet : List CodePoint
  mandatory : Bool
  nullable : Bool
  firstSet : List CodePoint
  ambiguous : Bool
  hasQuantifier : Bool
  hasAlternation : Bool
  literals : Nat
  regex : Regex

section Alphabet

variable (unicode : Unicode)

def codes (chars : List Char) : List CodePoint := chars.map Char.toNat

def baseAlphabet : List CodePoint :=
  List.range' 0x20 0x5f ++ [9, 10, 13, 12, 11] ++ [0xe9, 0x663, 0xa0, 0x2028, 0x3042]

def hexDigits : List CodePoint :=
  List.range' 0x30 10 ++ List.range' 0x61 6 ++ List.range' 0x41 6

def hexValue (digit : CodePoint) : Nat :=
  if digit < 0x41 then digit - 0x30 else if digit < 0x61 then digit - 0x37 else digit - 0x57

-- `int(digits, 16)`.
def hexNumber (digits : List CodePoint) : CodePoint :=
  digits.foldl (fun value digit => 16 * value + hexValue digit) 0

-- The width of the digits after `\x` and `\u`.
def escapeWidth (letter : CodePoint) : Nat := if letter = 'x'.toNat then 2 else 4

-- The code points the pattern names; the first argument counts those an escape has used up.
def named : Nat → List CodePoint → List CodePoint
  | _, [] => []
  | used + 1, _ :: rest => named used rest
  | 0, char :: rest =>
    match rest with
    | letter :: more =>
      if char = '\\'.toNat ∧ (letter = 'x'.toNat ∨ letter = 'u'.toNat) then
        let digits := more.take (escapeWidth letter)
        if digits.length = escapeWidth letter ∧ digits.all (· ∈ hexDigits) then
          hexNumber digits :: named (1 + escapeWidth letter) rest
        else named (1 + escapeWidth letter) rest
      else char :: named 0 rest
    | [] => char :: named 0 rest

def alphabetOf (pattern : List CodePoint) : List CodePoint :=
  let chars := baseAlphabet ++ named 0 pattern
  chars ++ chars.filterMap fun char =>
    match unicode.swapcase char with
    | [swapped] => some swapped
    | _ => none

end Alphabet

structure Parser where
  unicode : Unicode
  p : List CodePoint
  field : String
  ci : Bool
  alphabet : List CodePoint

def Parser.init (unicode : Unicode) (pattern : List CodePoint) (field : String) : Parser :=
  { unicode
    p := pattern
    field
    ci := (codes ['(', '?', 'i', ')']).isPrefixOf pattern
    alphabet := alphabetOf unicode pattern }

structure Pos where
  i : Nat
  unboundedCount : Nat
  deriving DecidableEq, Repr

def Pos.skip (pos : Pos) (count : Nat) : Pos := { pos with i := pos.i + count }

section Helpers

variable (self : Parser) (pos : Pos)

def Parser.fail {A : Type} (code : Code) (sentence : String) : Except Stop A :=
  .error (.rejected code
    (self.field ++ ": " ++ sentence ++ " (at offset " ++ toString pos.i ++ ")"))

def Parser.peekAt (k : Nat) : Option CodePoint := self.p[pos.i + k]?

def Parser.peek : Option CodePoint := self.peekAt pos 0

def Parser.sees (char : Char) : Bool := self.peek pos = some char.toNat

def Parser.literalSet (char : CodePoint) : List CodePoint :=
  if self.ci then
    self.alphabet.filter fun other => self.unicode.lower other = self.unicode.lower char
  else [char]

def Parser.rangeSet (lo hi : CodePoint) : List CodePoint :=
  if self.ci then
    self.alphabet.filter fun other => (lo ≤ other ∧ other ≤ hi) ∨
      ([lo] ≤ self.unicode.lower other ∧ self.unicode.lower other ≤ [hi]) ∨
        ([lo] ≤ self.unicode.upper other ∧ self.unicode.upper other ≤ [hi])
  else self.alphabet.filter fun other => lo ≤ other ∧ other ≤ hi

def Parser.classEscapeSet (letter : CodePoint) : List CodePoint :=
  let positive : CodePoint → Bool := fun other =>
    if letter = 'd'.toNat ∨ letter = 'D'.toNat then self.unicode.isdigit other
    else if letter = 'w'.toNat ∨ letter = 'W'.toNat then
      self.unicode.isalnum other || other = '_'.toNat
    else self.unicode.isspace other
  if letter ∈ codes ['d', 'w', 's'] then self.alphabet.filter positive
  else self.alphabet.filter fun other => !positive other

def quantifierStarts : List CodePoint := codes ['*', '+', '?', '{']

end Helpers

section Quantifiers

variable (self : Parser) (pos : Pos)

def Parser.boundsText : Option (List CodePoint) :=
  let rest := self.p.drop pos.i
  if '}'.toNat ∈ rest then some ((rest.takeWhile (· ≠ '}'.toNat)).drop 1) else none

-- The two sides of `partition(",")`.
def partition (inner : List CodePoint) : List CodePoint × List CodePoint :=
  (inner.takeWhile (· ≠ ','.toNat), (inner.dropWhile (· ≠ ','.toNat)).drop 1)

def Parser.isdigit (text : List CodePoint) : Bool :=
  !text.isEmpty && text.all self.unicode.isdigit

def Parser.looksLikeBounds : Bool :=
  match self.boundsText pos with
  | none => false
  | some inner => self.isdigit (partition inner).1 &&
      (self.isdigit (partition inner).2 || (partition inner).2.isEmpty)

def Parser.int (text : List CodePoint) : Except Stop Nat :=
  match text.foldlM (fun value digit => (self.unicode.decimal digit).map (10 * value + ·)) 0 with
  | none => .error .valueError
  | some value => .ok value

def Parser.upper (text : List CodePoint) : Except Stop (Option Nat) :=
  if text.isEmpty then .ok none else (self.int text).map some

def boundTooLarge : String := "a repetition bound may not exceed " ++ toString quantifierMax

def Parser.bounds : Except Stop (Quantifier × Pos) :=
  match self.boundsText pos with
  | none => self.fail pos .regexSyntax "'\x7b' must start a bounded repetition \x7bn,m\x7d"
  | some inner =>
    if !self.looksLikeBounds pos then
      self.fail pos .regexSyntax "'\x7b' must start a bounded repetition \x7bn,m\x7d"
    else
      let (lo, hi) := partition inner
      if 9 < lo.length ∨ 9 < hi.length then self.fail pos .regexBoundTooLarge boundTooLarge
      else do
        let low ← self.int lo
        let high ← self.upper hi
        if quantifierMax < low ∨ high.any (quantifierMax < ·) then
          self.fail pos .regexBoundTooLarge boundTooLarge
        else if high.any (· < low) then
          self.fail pos .regexBoundInverted "a repetition \x7bn,m\x7d needs n <= m"
        else
          let kind : Quantifier :=
            if ','.toNat ∈ inner ∧ high = none then .unbounded (low = 0)
            else if 1 ≤ low then .mandatory else .nullable
          pure (kind, pos.skip (inner.length + 2))

def Parser.quantifierKind (char : CodePoint) : Except Stop (Quantifier × Pos) :=
  if char = '{'.toNat then self.bounds pos
  else if char = '?'.toNat then .ok (.nullable, pos.skip 1)
  else .ok (.unbounded (char ≠ '+'.toNat), pos.skip 1)

def Parser.quantifier : Except Stop (Option Quantifier × Pos) :=
  match self.peek pos with
  | none => .ok (none, pos)
  | some char =>
    if char ∉ quantifierStarts then .ok (none, pos)
    else do
      let (kind, pos) ← self.quantifierKind pos char
      let pos := if self.sees pos '?' then pos.skip 1 else pos
      if self.sees pos '+' then
        self.fail pos .regexPossessiveOrAtomic "possessive quantifiers are not allowed"
      else if (self.peek pos).any (· ∈ quantifierStarts) then
        self.fail pos .regexStackedQuantifier "a quantifier may not follow another"
      else pure (some kind, pos)

end Quantifiers

section Atoms

variable (self : Parser)

-- What `_escape` has read, from which its atom and its literal are built.
inductive Escape
  | zeroWidth
  | set (letter : CodePoint)
  | literal (char : CodePoint)

def Escape.resolved : Escape → Option CodePoint
  | .literal char => some char
  | _ => none

def Escape.item : Escape → Item
  | .zeroWidth => .literal 0
  | .set letter => .escape letter
  | .literal char => .literal char

def Escape.atom : Escape → Atom
  | .zeroWidth => { kind := .zeroWidth, node := .zeroWidth }
  | .set letter =>
    { kind := .atom
      chars := self.classEscapeSet letter
      node := .chars (.members false [.escape letter]) }
  | .literal char =>
    { kind := .atom
      literal := true
      chars := self.literalSet char
      node := .chars (.members false [.literal char]) }

def literalEscapes : List CodePoint :=
  codes ['\\', '.', '*', '+', '?', '(', ')', '[', ']', '{', '}', '|', '^', '$', '/', '-',
    'n', 't', 'r', 'f', 'v']

def resolve (char : CodePoint) : CodePoint :=
  if char = 'n'.toNat then 10
  else if char = 't'.toNat then 9
  else if char = 'r'.toNat then 13
  else if char = 'f'.toNat then 12
  else if char = 'v'.toNat then 11
  else char

def text (chars : List CodePoint) : String := String.ofList (chars.map Char.ofNat)

def Parser.escape (start : Pos) (inClass : Bool) : Except Stop (Escape × Pos) :=
  let pos := start.skip 1
  match self.peek pos with
  | none => self.fail pos .regexSyntax "trailing backslash"
  | some char =>
    if char = '0'.toNat then self.fail pos .regexUnknownEscape "octal escapes are not allowed"
    else if self.unicode.isdigit char ∨ char = 'k'.toNat then
      self.fail pos .regexBackreference "backreferences are not allowed"
    else
      let pos := pos.skip 1
      if char ∈ codes ['d', 'D', 'w', 'W', 's', 'S'] then .ok (.set char, pos)
      else if char ∈ codes ['b', 'B'] then
        if inClass then
          self.fail start .regexUnknownEscape "\\b and \\B are not allowed in [...]"
        else .ok (.zeroWidth, pos)
      else if char ∈ literalEscapes then .ok (.literal (resolve char), pos)
      else if char = 'x'.toNat ∨ char = 'u'.toNat then
        let width := escapeWidth char
        let digits := (self.p.drop pos.i).take width
        if digits.length ≠ width ∨ !digits.all (· ∈ hexDigits) then
          self.fail start .regexUnknownEscape
            ("\\" ++ text [char] ++ " needs exactly " ++ toString width ++ " hex digits")
        else
          let point := hexNumber digits
          if point < 0x20 then
            self.fail start .patternControlChar "control characters are not allowed, even escaped"
          else if 0xD800 ≤ point ∧ point ≤ 0xDFFF then
            self.fail start .regexUnknownEscape "lone surrogates are not allowed"
          else .ok (.literal point, pos.skip width)
      else
        self.fail start .regexUnknownEscape
          ("\\" ++ text [char] ++ " is outside the allowed escapes")

def Parser.classItem (pos : Pos) :
    Except Stop ((Option CodePoint × List CodePoint × Item) × Pos) :=
  match self.peek pos with
  | none => .ok ((none, [], .literal 0), pos.skip 1)
  | some char =>
    if char = '\\'.toNat then do
      let (escape, pos) ← self.escape pos true
      pure ((escape.resolved, (escape.atom self).chars, escape.item), pos)
    else .ok ((some char, self.literalSet char, .literal char), pos.skip 1)

def Parser.startsSetOp (pos : Pos) : Bool :=
  [codes ['&', '&'], codes ['-', '-'], codes ['~', '~'], codes ['|', '|']].any
    (List.isPrefixOf · (self.p.drop pos.i))

structure Members where
  literal : Bool
  chars : List CodePoint
  items : List Item

def Parser.classLoop (self : Parser) : Nat → Bool → Members → Pos → Except Stop (Members × Pos)
  | 0, _, _, _ => .error .exhausted
  | fuel + 1, first, members, pos =>
    match self.peek pos with
    | none => self.fail pos .regexSyntax "unbalanced '['"
    | some char =>
      if char = ']'.toNat then .ok (members, pos.skip 1)
      else if char = '['.toNat then
        self.fail pos .regexClassUnsupported "nested classes are not allowed in [...]"
      else if self.startsSetOp pos then
        self.fail pos .regexClassUnsupported "set operations (&& -- ~~ ||) are not allowed"
      else do
        let ((lo, loSet, item), pos) ← self.classItem pos
        let literal := members.literal || lo.isSome
        if self.startsSetOp pos then
          self.fail pos .regexClassUnsupported "set operations (&& -- ~~ ||) are not allowed"
        else if self.sees pos '-' ∧ (self.peekAt pos 1).any (· ≠ ']'.toNat) then
          match lo with
          | none => self.fail pos .regexSyntax "a range needs a literal on both ends"
          | some low =>
            if first ∧ char = '-'.toNat then
              self.fail pos .regexSyntax "a range needs a literal on both ends"
            else
              let ((hi, _, _), pos) ← self.classItem (pos.skip 1)
              match hi with
              | none => self.fail pos .regexSyntax "a range needs a literal on both ends"
              | some high =>
                if high < low then self.fail pos .regexSyntax "inverted range in [...]"
                else
                  self.classLoop fuel false
                    { literal
                      chars := members.chars ++ self.rangeSet low high
                      items := members.items ++ [.range low high] } pos
        else
          self.classLoop fuel false
            { literal
              chars := members.chars ++ loSet
              items := members.items ++ [item] } pos

def Parser.class (pos : Pos) : Except Stop (Atom × Pos) := do
  let pos := pos.skip 1
  let negated := self.sees pos '^'
  let pos := if negated then pos.skip 1 else pos
  if self.sees pos ']' then
    self.fail pos .regexClassEmpty "an empty character class is not allowed"
  else
    let (members, pos) ← self.classLoop (self.p.length + 1) true ⟨false, [], []⟩ pos
    pure (
      { kind := .atom
        literal := members.literal && !negated
        chars :=
          if negated then self.alphabet.filter (· ∉ members.chars) else members.chars
        node := .chars (.members negated members.items) }, pos)

end Atoms

-- The variables of `_sequence`, its `seq` among them.
structure Walk where
  startsUnbounded : Bool
  firstSet : List CodePoint
  hasQuantifier : Bool
  hasAlternation : Bool
  literals : Nat
  pendingUnbounded : Bool
  runSet : List CodePoint
  ambiguous : Bool
  seenMandatory : Bool
  nullable : Bool
  firstOpen : Bool
  count : Nat
  front : Regex

def Walk.init : Walk :=
  { startsUnbounded := false
    firstSet := []
    hasQuantifier := false
    hasAlternation := false
    literals := 0
    pendingUnbounded := false
    runSet := []
    ambiguous := false
    seenMandatory := false
    nullable := true
    firstOpen := true
    count := 0
    front := .nil }

section Walks

variable (self : Parser) (pos : Pos) (walk : Walk) (atom : Atom)

def adjacent : String := "two unbounded quantifiers need a mandatory atom between them"

def ambiguousSeparator : String :=
  "an unbounded quantifier followed by another must be closed by an atom it " ++
    "cannot match itself (\\w+-\\w+ is fine; \\w+a\\w+ and .*a.*b are not)"

def Walk.note (quantifier : Option Quantifier) : Walk :=
  { walk with
    count := walk.count + 1
    hasQuantifier := walk.hasQuantifier || (atom.kind = .group && atom.hasQuantifier) ||
      quantifier.isSome
    hasAlternation := walk.hasAlternation || (atom.kind = .group && atom.hasAlternation)
    literals := if atom.literal then walk.literals + 1 else walk.literals
    nullable := walk.nullable && (atom.kind = .zeroWidth || quantifier.any Quantifier.minZero ||
      (atom.kind = .group && atom.nullable))
    firstSet :=
      if atom.kind ≠ .zeroWidth ∧ walk.firstOpen then walk.firstSet ++ atom.chars
      else walk.firstSet
    front := .snoc walk.front atom.node quantifier }

-- An unquantified group, walked by its edges.
def Parser.walkGroup : Except Stop Walk :=
  if walk.pendingUnbounded &&
      (atom.startsUnbounded || !atom.mandatory && atom.hasUnbounded) then
    self.fail pos .regexAdjacentUnbounded adjacent
  else
    let ambiguous := walk.ambiguous ||
      (atom.mandatory && walk.pendingUnbounded && overlap atom.chars walk.runSet)
    if atom.hasUnbounded && ambiguous then
      self.fail pos .regexAmbiguousSeparator ambiguousSeparator
    else .ok { walk with
      ambiguous := ambiguous || atom.ambiguous
      startsUnbounded := walk.startsUnbounded || atom.startsUnbounded && !walk.seenMandatory
      seenMandatory := walk.seenMandatory || atom.mandatory
      firstOpen := walk.firstOpen && !atom.mandatory
      pendingUnbounded := atom.endsUnbounded || walk.pendingUnbounded && !atom.mandatory
      runSet := if atom.endsUnbounded then atom.endSet else walk.runSet }

def Parser.walkUnbounded : Except Stop (Walk × Pos) :=
  if walk.pendingUnbounded then self.fail pos .regexAdjacentUnbounded adjacent
  else if walk.ambiguous then self.fail pos .regexAmbiguousSeparator ambiguousSeparator
  else if maxUnboundedQuantifiers < pos.unboundedCount + 1 then
    self.fail pos .regexTooManyUnbounded
      ("at most " ++ toString maxUnboundedQuantifiers ++ " unbounded quantifiers per pattern")
  else .ok (
    { walk with
      pendingUnbounded := true
      runSet := atom.chars
      startsUnbounded := walk.startsUnbounded || !walk.seenMandatory },
    { pos with unboundedCount := pos.unboundedCount + 1 })

def Walk.close : Walk :=
  { walk with
    ambiguous := walk.ambiguous || (walk.pendingUnbounded && overlap atom.chars walk.runSet)
    pendingUnbounded := false
    seenMandatory := true
    firstOpen := false }

-- One round of the loop of `_sequence`, after its atom and its quantifier.
def Parser.round (quantifier : Option Quantifier) : Except Stop (Walk × Pos) :=
  let noted := walk.note atom quantifier
  if quantifier.isSome ∧ atom.kind = .zeroWidth then
    self.fail pos .regexDanglingQuantifier "a quantifier may not follow ^ $ \\b \\B"
  else if quantifier.isSome ∧ atom.kind = .group ∧ (atom.hasQuantifier ∨ atom.hasAlternation) then
    self.fail pos .regexNestedQuantifier
      "a quantifier may not apply to a group that itself contains a quantifier or '|'"
  else
    match atom.kind, quantifier with
    | .zeroWidth, _ => .ok (noted, pos)
    | .group, none => (self.walkGroup pos noted atom).map (·, pos)
    | _, some (.unbounded _) => self.walkUnbounded pos noted atom
    | _, some .nullable => .ok (noted, pos)
    | _, _ => .ok (noted.close atom, pos)

def Walk.seq : Seq :=
  { startsUnbounded := walk.startsUnbounded
    endsUnbounded := walk.pendingUnbounded
    endSet := if walk.pendingUnbounded then walk.runSet else []
    mandatory := walk.seenMandatory
    nullable := walk.nullable
    firstSet := walk.firstSet
    ambiguous := walk.ambiguous
    hasQuantifier := walk.hasQuantifier
    hasAlternation := walk.hasAlternation
    literals := walk.literals
    regex := walk.front }

end Walks

section Grammar

-- `_atom` at the current depth.
variable (self : Parser) (readAtom : Pos → Except Stop (Atom × Pos))

def Parser.sequenceLoop (self : Parser) (readAtom : Pos → Except Stop (Atom × Pos)) :
    Nat → Walk → Pos → Except Stop (Walk × Pos)
  | 0, _, _ => .error .exhausted
  | fuel + 1, walk, pos =>
    match self.peek pos with
    | none => .ok (walk, pos)
    | some char =>
      if char = '|'.toNat ∨ char = ')'.toNat then .ok (walk, pos)
      else if char ∈ quantifierStarts then
        if char = '{'.toNat ∧ !self.looksLikeBounds pos then
          self.fail pos .regexSyntax "'\x7b' must start a bounded repetition \x7bn,m\x7d"
        else
          self.fail pos .regexDanglingQuantifier "a quantifier needs an atom to repeat"
      else do
        let (atom, pos) ← readAtom pos
        let (quantifier, pos) ← self.quantifier pos
        let (walk, pos) ← self.round pos walk atom quantifier
        self.sequenceLoop readAtom fuel walk pos

def Parser.sequence (pos : Pos) : Except Stop (Seq × Pos) := do
  let (walk, pos) ← self.sequenceLoop readAtom (self.p.length + 1) .init pos
  if walk.count = 0 then self.fail pos .regexSyntax "empty pattern or empty alternative"
  else pure (walk.seq, pos)

def Parser.branches (self : Parser) (readAtom : Pos → Except Stop (Atom × Pos)) :
    Nat → List Seq → Pos → Except Stop (List Seq × Pos)
  | 0, _, _ => .error .exhausted
  | fuel + 1, read, pos =>
    if self.sees pos '|' then do
      let (seq, pos) ← self.sequence readAtom (pos.skip 1)
      self.branches readAtom fuel (read ++ [seq]) pos
    else .ok (read, pos)

def either : List Seq → Regex
  | [] => .nil
  | [seq] => seq.regex
  | seq :: rest => .alt seq.regex (either rest)

def merge (branches : List Seq) : Seq :=
  { startsUnbounded := branches.any Seq.startsUnbounded
    endsUnbounded := branches.any Seq.endsUnbounded
    endSet := branches.flatMap Seq.endSet
    mandatory := branches.all Seq.mandatory
    nullable := branches.any Seq.nullable
    firstSet := branches.flatMap Seq.firstSet
    ambiguous := branches.any Seq.ambiguous
    hasQuantifier := branches.any Seq.hasQuantifier
    hasAlternation := decide (1 < branches.length) || branches.any Seq.hasAlternation
    literals := (branches.map Seq.literals).sum
    regex := either branches }

def Parser.alternationOf (pos : Pos) : Except Stop (Seq × Pos) := do
  let (first, pos) ← self.sequence readAtom pos
  let (branches, pos) ← self.branches readAtom (self.p.length + 1) [first] pos
  pure (merge branches, pos)

-- Past the `(`, and the `?:` of a group that captures nothing.
def Parser.groupStart (pos : Pos) : Except Stop Pos :=
  let pos := pos.skip 1
  let sees := fun k chars => (self.peekAt pos k).any (· ∈ codes chars)
  if !self.sees pos '?' then .ok pos
  else if sees 1 [':'] then .ok (pos.skip 2)
  else if sees 1 ['=', '!'] ∨ sees 1 ['<'] ∧ sees 2 ['=', '!'] then
    self.fail pos .regexLookaround "lookahead / lookbehind is not allowed"
  else if sees 1 ['P', '<'] then
    self.fail pos .regexNamedGroup "named groups are not allowed"
  else if sees 1 ['>'] then
    self.fail pos .regexPossessiveOrAtomic "atomic groups are not allowed"
  else
    self.fail pos .regexInlineFlag "inline flags are only allowed as a single leading (?i)"

-- `_group`, with the `_alternation` of the next depth.
def Parser.group (alternation : Pos → Except Stop (Seq × Pos)) (pos : Pos) :
    Except Stop (Atom × Pos) := do
  let pos ← self.groupStart pos
  if self.sees pos ')' then
    self.fail pos .regexEmptyGroup "an empty group is not allowed"
  else
    let before := pos.unboundedCount
    let (body, pos) ← alternation pos
    if !self.sees pos ')' then self.fail pos .regexSyntax "unbalanced '('"
    else
      pure (
        { kind := .group
          literal := decide (0 < body.literals)
          chars := body.firstSet
          startsUnbounded := body.startsUnbounded
          endsUnbounded := body.endsUnbounded
          endSet := body.endSet
          mandatory := body.mandatory
          nullable := body.nullable
          ambiguous := body.ambiguous
          hasQuantifier := body.hasQuantifier
          hasUnbounded := decide (before < pos.unboundedCount)
          hasAlternation := body.hasAlternation
          node := .group body.regex }, pos.skip 1)

def Parser.atom (group : Pos → Except Stop (Atom × Pos)) (pos : Pos) :
    Except Stop (Atom × Pos) :=
  match self.peek pos with
  | none => .ok ({ kind := .zeroWidth, node := .zeroWidth }, pos.skip 1)
  | some char =>
    if char = '('.toNat then group pos
    else if char = '['.toNat then self.class pos
    else if char = '\\'.toNat then do
      let (escape, pos) ← self.escape pos false
      pure (escape.atom self, pos)
    else if char ∈ codes ['^', '$'] then
      .ok ({ kind := .zeroWidth, node := .zeroWidth }, pos.skip 1)
    else if char = '.'.toNat then
      .ok (
        { kind := .atom
          chars := self.alphabet.filter (· ≠ 10)
          node := .chars .dot }, pos.skip 1)
    else if char = ')'.toNat then self.fail pos .regexSyntax "unbalanced ')'"
    else if char = ']'.toNat then self.fail pos .regexSyntax "unbalanced ']'"
    else if char = '}'.toNat then self.fail pos .regexSyntax "unbalanced '\x7d'"
    else
      .ok (
        { kind := .atom
          literal := true
          chars := self.literalSet char
          node := .chars (.members false [.literal char]) }, pos.skip 1)

-- `_alternation` with the given number of depths left.
def Parser.alternation (self : Parser) : Nat → Pos → Except Stop (Seq × Pos)
  | 0 => self.alternationOf (self.atom fun pos =>
      self.fail pos .regexNestingTooDeep
        ("groups may nest at most " ++ toString maxGroupDepth ++ " levels"))
  | left + 1 => self.alternationOf (self.atom (self.group (self.alternation left)))

def Parser.parse : Except Stop Seq := do
  let (body, pos) ← self.alternation maxGroupDepth ⟨if self.ci then 4 else 0, 0⟩
  if pos.i < self.p.length then self.fail pos .regexSyntax "unbalanced ')'"
  else pure body

end Grammar

-- `:04X`.
def hex4 (point : CodePoint) : String :=
  let digits := (Nat.toDigits 16 point).map Char.toUpper
  String.ofList (List.replicate (4 - digits.length) '0' ++ digits)

-- `validate_safe_regex`; `re.compile` answers the message of the error it raises, if any.
def validateSafeRegex (unicode : Unicode) (compile : List CodePoint → Option String)
    (pattern : List CodePoint) (field : String) (maxChars : Nat) : Except Stop Unit :=
  if maxChars < pattern.length then
    .error (.rejected .patternTooLong (field ++ ": at most " ++ toString maxChars ++
      " characters (" ++ toString pattern.length ++ " given)"))
  else
    match pattern.zipIdx.find? fun entry => entry.1 < 0x20 with
    | some (point, offset) => .error (.rejected .patternControlChar
        (field ++ ": control character U+" ++ hex4 point ++ " at offset " ++ toString offset ++
          "; use an escape such as \\t only if you mean a literal tab"))
    | none => do
      let _ ← (Parser.init unicode pattern field).parse
      match compile pattern with
      | some message => .error (.rejected .regexSyntax (field ++ ": " ++ message))
      | none => pure ()

end MemoryCloud.Triggers
