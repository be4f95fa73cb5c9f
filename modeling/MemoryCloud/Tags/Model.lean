import Mathlib.Data.Bool.Basic
import Mathlib.Data.List.Infix
import Mathlib.Data.List.Sort

set_option autoImplicit false

/-!
# Tags and their spellings

`utils/tag_normalize.py`: the fold of a tag, the two relations on tags that the reads and the
writes use, and the groups of a widened filter; `expand_tag_filter` of
`services/tag_resolution.py`. Texts are sequences of code points. The suggestions and the
specialisations of tags are left out.
-/

namespace MemoryCloud.Tags

abbrev CodePoint := Nat
abbrev Text := List CodePoint
abbrev Tag := Text

def text (literal : String) : Text := literal.toList.map Char.toNat

structure Unicode where
  nfkc : Text → Text
  casefold : Text → Text
  isSpace : CodePoint → Bool
  isDecimal : CodePoint → Bool

section EditDistance

def currentRow (ca : CodePoint) (previous : List Nat) (b : Text) (i : Nat) : List Nat :=
  (b.zipIdx 1).foldl (fun current (cb, j) =>
    current ++ [min (previous.getD j 0 + 1)
      (min (current.getD (j - 1) 0 + 1) (previous.getD (j - 1) 0 + if ca = cb then 0 else 1))]) [i]

def editRows (b : Text) (limit : Nat) : Text → Nat → List Nat → Bool
  | [], _, previous => decide (previous.getLastD 0 ≤ limit)
  | ca :: rest, i, previous =>
      let current := currentRow ca previous b i
      if current.min?.any fun least => decide (limit < least) then false
      else editRows b limit rest (i + 1) current

def editDistanceWithin (a b : Text) (limit : Nat) : Bool :=
  if ((a.length : Int) - b.length).natAbs > limit then false
  else editRows b limit a 1 (List.range (b.length + 1))

end EditDistance

section Fold

-- Hiragana and its two iteration marks stand 0x60 below their katakana.
def toKatakana (folded : Text) : Text :=
  folded.map fun code =>
    if 0x3041 ≤ code ∧ code < 0x3097 ∨ code = 0x309D ∨ code = 0x309E then code + 0x60 else code

def longVowelMark : CodePoint := 0x30FC

def isKatakanaLetter (code : CodePoint) : Bool := decide (0x30A1 ≤ code ∧ code ≤ 0x30FA)

def minLongVowelLen : Nat := 3

-- The final katakana word starts at a letter.
def dropLongVowel (folded : Text) : Text :=
  match folded.reverse with
  | last :: before :: _ =>
      if last = longVowelMark ∧ isKatakanaLetter before then
        let run := (folded.reverse.takeWhile fun code =>
          code == longVowelMark || isKatakanaLetter code).reverse
        let word := run.dropWhile (· == longVowelMark)
        if minLongVowelLen ≤ word.length then folded.dropLast else folded
      else folded
  | _ => folded

def nonPluralEndings : List Text := ["ss", "is", "us", "os", "as"].map text

def neverPlural : List Text := [text "https"]

def stripPlural (folded : Text) : Text :=
  if 4 < folded.length ∧ text "ies" <:+ folded then
    folded.take (folded.length - 3) ++ text "y"
  else if 3 < folded.length ∧ text "s" <:+ folded ∧ folded ∉ neverPlural ∧
      ∀ ending ∈ nonPluralEndings, ¬ ending <:+ folded then
    folded.dropLast
  else folded

variable (unicode : Unicode)

def Unicode.strip (value : Text) : Text :=
  ((value.dropWhile unicode.isSpace).reverse.dropWhile unicode.isSpace).reverse

def isSeparator (code : CodePoint) : Bool :=
  unicode.isSpace code || decide (code ∈ text "_-./")

def foldBeforeLongVowel (tag : Tag) : Text :=
  let folded := toKatakana (unicode.casefold (unicode.strip (unicode.nfkc tag)))
  stripPlural (folded.filter fun code => !isSeparator unicode code)

def normalizeTag (tag : Tag) : Text := dropLongVowel (foldBeforeLongVowel unicode tag)

def rawDigitRuns (tag : Tag) : List Text :=
  ((unicode.nfkc tag).splitOnP fun code => !unicode.isDecimal code).filter (· ≠ [])

def isMechanicalVariant (a b : Tag) : Bool :=
  let folded := normalizeTag unicode a
  if folded = [] ∨ folded ≠ normalizeTag unicode b then false
  else rawDigitRuns unicode a == rawDigitRuns unicode b

end Fold

section Groups

variable (unicode : Unicode)

def maxTagGroups : Nat := 50

-- The stores match at most this many tags.
def listedTags (requested : List Tag) : List Tag := requested.eraseDups.take maxTagGroups

-- A requested tag with the spellings that count for it. The two dictionaries of tags by their fold
-- are read here at the tag's own fold.
def tagGroup (listed expanded : List Tag) (tag : Tag) : List Tag :=
  let folded := normalizeTag unicode tag
  if folded = [] then [tag]
  else
    let peers := listed.filter fun peer => normalizeTag unicode peer = folded
    let same := peers.filter fun peer => peer ≠ tag ∧ isMechanicalVariant unicode tag peer
    let added := expanded.eraseDups.filter fun spelling =>
      normalizeTag unicode spelling = folded ∧ spelling ∉ peers
    -- Another identifier shares the fold.
    let added :=
      if same.length + 1 < peers.length then added.filter (isMechanicalVariant unicode tag)
      else added
    tag :: same ++ added

def sameSet (first second : List Tag) : Bool := decide (first ⊆ second ∧ second ⊆ first)

def emit (groups : List (List Tag)) (group : List Tag) : List (List Tag) :=
  if groups.any (sameSet group) then groups else groups ++ [group]

def tagFilterGroups (requested expanded : List Tag) : List (List Tag) :=
  let listed := listedTags requested
  (listed.map (tagGroup unicode listed expanded)).foldl emit []

def maxExpansionPerTag : Nat := 20

structure Expansion where
  expanded : List Tag
  addedByTag : List (Tag × List Tag)

-- The tags seen are the expanded ones.
def addSpellings (expanded : List Tag) (variants : List Tag) : List Tag × List Tag :=
  variants.foldl (fun (expanded, gained) variant =>
    if variant ∈ expanded then (expanded, gained)
    else (expanded ++ [variant], gained ++ [variant])) (expanded, [])

def expandTag (vocabulary tags : List Tag) (state : Expansion) (requested : Tag) : Expansion :=
  let expanded :=
    if requested ∈ state.expanded then state.expanded else state.expanded ++ [requested]
  let folded := normalizeTag unicode requested
  if folded = [] then { state with expanded }
  else
    let candidates := vocabulary.filter fun stored =>
      normalizeTag unicode stored = folded ∧ stored ∉ tags
    let sorted := candidates.insertionSort fun first second =>
      (!isMechanicalVariant unicode requested first) ≤ !isMechanicalVariant unicode requested second
    let (expanded, gained) := addSpellings expanded (sorted.take maxExpansionPerTag)
    { expanded
      addedByTag :=
        if gained = [] then state.addedByTag else state.addedByTag ++ [(requested, gained)] }

def expandTagFilter (vocabulary : Option (List Tag)) (tags : List Tag) : Expansion :=
  match vocabulary with
  | none => { expanded := tags, addedByTag := [] }
  | some stored =>
      tags.foldl (expandTag unicode stored tags) { expanded := [], addedByTag := [] }

end Groups

end MemoryCloud.Tags
