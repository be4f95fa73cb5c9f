import MemoryCloud.Triggers.Accepted

set_option autoImplicit false

/-!
# Where accepted patterns separate their runs

The parser checks the first separator after a run on its sample alphabet, and
walks a group by its edges. A pattern it accepts keeps its runs apart except
where the check does not look.
-/

namespace MemoryCloud.Triggers

open Separators (Token Bounded Closed closer? depth overlap)

def Consecutive (path : List (Token Element)) (run : Element) (between : List (Token Element)) :
    Prop :=
  ∃ before next after, path = before ++ .element run :: (between ++ .element next :: after) ∧
    unbounded run = true ∧ unbounded next = true ∧
      ∀ element, .element element ∈ between → unbounded element = false

def FirstConsuming (between skipped : List (Token Element)) (element : Element) : Prop :=
  (∃ rest, between = skipped ++ .element element :: rest) ∧
    (∀ other, .element other ∈ skipped → mustConsume other = false) ∧ mustConsume element = true

section Claims

variable (unicode : Unicode) (ci : Bool) (parser : Parser) (run : Element)
  (between : List (Token Element))

def Separated : Prop :=
  ∃ skipped element, FirstConsuming between skipped element ∧ ¬ Shares unicode ci run element

-- A repeated group of zero-width atoms, which the parser takes for a separator.
def emptyCloser (element : Element) : Bool := closes element && !mustConsume element

-- Where the parser does not look: only repeated zero-width groups stand between the runs, or the
-- first element that must consume shares a code point with the run and stands behind such a group,
-- or inside a group that may separate nothing, or shares no sampled character.
def Overlooked : Prop :=
  ((∀ element, .element element ∈ between → mustConsume element = false) ∧
    ∃ element, .element element ∈ between ∧ emptyCloser element = true) ∨
  ∃ skipped element, FirstConsuming between skipped element ∧ Shares unicode ci run element ∧
    ((∃ other, .element other ∈ skipped ∧ emptyCloser other = true) ∨ 0 < depth 0 skipped ∨
      overlap (element.1.sample parser) (run.1.sample parser) = false)

end Claims

section First

variable {between : List (Token Element)}

theorem firstConsuming_or (between : List (Token Element)) :
    (∀ element, .element element ∈ between → mustConsume element = false) ∨
      ∃ skipped element, FirstConsuming between skipped element := by
  induction between with
  | nil => exact .inl fun _ listed => by cases listed
  | cons token rest ih =>
    by_cases first : ∃ element, token = .element element ∧ mustConsume element = true
    next =>
      obtain ⟨element, rfl, must⟩ := first
      exact .inr ⟨[], element, ⟨rest, rfl⟩, fun _ listed => (by cases listed), must⟩
    next =>
      have skip : ∀ element, token = .element element → mustConsume element = false := by
        intro element same
        by_contra must
        rw [Bool.not_eq_false] at must
        exact first ⟨element, same, must⟩
      rcases ih with never | ⟨skipped, element, ⟨more, rfl⟩, before, must⟩
      next =>
        refine .inl fun element listed => ?_
        rcases List.mem_cons.mp listed with here | later
        next => exact skip element here.symm
        next => exact never element later
      next =>
        refine .inr ⟨token :: skipped, element, ⟨more, rfl⟩, fun other listed => ?_, must⟩
        rcases List.mem_cons.mp listed with here | later
        next => exact skip other here.symm
        next => exact before other later

theorem FirstConsuming.unique {skipped skipped' : List (Token Element)} {element element' : Element}
    (one : FirstConsuming between skipped element)
    (two : FirstConsuming between skipped' element') : element = element' := by
  obtain ⟨⟨rest, first⟩, before, must⟩ := one
  obtain ⟨⟨rest', second⟩, before', must'⟩ := two
  rw [first] at second
  rcases Separators.split_append second with ⟨more, early, _⟩ | ⟨lead, early, late⟩
  next =>
    have := before element' (by rw [early]; simp)
    rw [must'] at this
    cases this
  next =>
    cases lead with
    | nil =>
      cases late
      rfl
    | cons head tail =>
      rw [List.cons_append, List.cons.injEq] at late
      have := before' element (by rw [early, ← late.1]; simp)
      rw [must] at this
      cases this

-- The first closer stands at the first consuming element, or an empty one stands before it.
theorem closer?_first (parser : Parser) {skipped : List (Token Element)} {element : Element}
    (first : FirstConsuming between skipped element)
    (bounded : ∀ other, .element other ∈ between → unbounded other = false)
    (outside : depth 0 skipped = 0)
    (clear : ∀ other, .element other ∈ skipped → emptyCloser other = false) :
    closer? (reading parser) 0 between = some element := by
  obtain ⟨⟨rest, rfl⟩, before, must⟩ := first
  have early : closer? (reading parser) 0 skipped = none := by
    cases found : closer? (reading parser) 0 skipped with
    | none => rfl
    | some other =>
      obtain ⟨closer, listed, closing⟩ := Separators.closed_of_closer? found
      have closing : closes closer = true := closing
      have empty := clear closer listed
      simp [emptyCloser, closing, before closer listed] at empty
  have closing : closes element = true := closes_of_mustConsume must (bounded element (by simp))
  rw [Separators.closer?_append, early, outside, Option.none_or, closer?]
  simp [reading, closing]

end First

section Main

variable {unicode : Unicode} {ci : Bool} {parser : Parser}

theorem separated_of_separates {run : Element} {between : List (Token Element)}
    (bounded : ∀ element, .element element ∈ between → unbounded element = false)
    (separates : Separators.Separates (reading parser) run between)
    (seen : ¬ Overlooked unicode ci parser run between) : Separated unicode ci run between := by
  rcases firstConsuming_or between with never | ⟨skipped, element, first⟩
  next =>
    obtain ⟨closer, listed, closing⟩ := separates.1
    have closing : closes closer = true := closing
    exact absurd (.inl ⟨never, closer, listed, by simp [emptyCloser, closing, never closer listed]⟩)
      seen
  next =>
    refine ⟨skipped, element, first, fun shared => seen (.inr ⟨skipped, element, first, shared, ?_⟩)⟩
    by_contra unlooked
    simp only [not_or, not_exists, not_and, Bool.not_eq_true, Nat.not_lt, Nat.le_zero,
      Bool.not_eq_false] at unlooked
    obtain ⟨clear, outside, sampled⟩ := unlooked
    have closer := closer?_first parser first bounded outside clear
    have apart : overlap (element.1.sample parser) (run.1.sample parser) = false :=
      separates.2 element closer
    rw [sampled] at apart
    cases apart

theorem not_overlooked_of_separated {run : Element} {between : List (Token Element)}
    (separated : Separated unicode ci run between) :
    ¬ Overlooked unicode ci parser run between := by
  obtain ⟨skipped, element, first, apart⟩ := separated
  rintro (⟨never, _⟩ | ⟨skipped', element', first', shared, _⟩)
  next =>
    obtain ⟨⟨rest, rfl⟩, _, must⟩ := first
    have := never element (by simp)
    rw [must] at this
    cases this
  next =>
    rw [← first.unique first'] at shared
    exact apart shared

theorem parse_of_accepted {compile : List CodePoint → Option String} {pattern : List CodePoint}
    {field : String} {maxChars : Nat}
    (accepted : validateSafeRegex unicode compile pattern field maxChars = .ok ()) :
    ∃ summary, (Parser.init unicode pattern field).parse = .ok summary := by
  unfold validateSafeRegex at accepted
  split at accepted
  next => cases accepted
  next =>
    split at accepted
    next => cases accepted
    next =>
      cases parsed : (Parser.init unicode pattern field).parse with
      | ok summary => exact ⟨summary, rfl⟩
      | error stop =>
        rw [parsed] at accepted
        cases accepted

-- An accepted pattern has no quantifier or alternative under a quantifier, and it separates any two
-- consecutive runs of a path exactly where the parser looks.
theorem accepted_separates_iff (unicode : Unicode) (compile : List CodePoint → Option String)
    (pattern : List CodePoint) (field : String) (maxChars : Nat)
    (accepted : validateSafeRegex unicode compile pattern field maxChars = .ok ()) :
    ∃ summary, (Parser.init unicode pattern field).parse = .ok summary ∧
      summary.regex.flat = true ∧
      ((∀ path ∈ summary.regex.paths, ∀ run between, Consecutive path run between →
          Separated unicode (Parser.init unicode pattern field).ci run between) ↔
        ∀ path ∈ summary.regex.paths, ∀ run between, Consecutive path run between →
          ¬ Overlooked unicode (Parser.init unicode pattern field).ci
            (Parser.init unicode pattern field) run between) := by
  obtain ⟨summary, parsed⟩ := parse_of_accepted accepted
  obtain ⟨counted, described⟩ := parse_ends.of_ok parsed
  refine ⟨summary, parsed, described.flat, ?_, ?_⟩
  next =>
    intro separated path listed run between consecutive
    exact not_overlooked_of_separated (separated path listed run between consecutive)
  next =>
    intro seen path listed run between consecutive
    obtain ⟨before, next, after, same, starts, follows, bounded⟩ := consecutive
    refine separated_of_separates bounded ?_
      (seen path listed run between ⟨before, next, after, same, starts, follows, bounded⟩)
    exact (described.paths path listed).pairs before run between next after same starts follows
      bounded

-- The tables of `str` and `re` on ASCII, the sampled letters, digits and spaces, and the Devanagari
-- digits.
def someUnicode : Unicode :=
  let digit : CodePoint → Bool := fun char =>
    (0x30 ≤ char ∧ char ≤ 0x39) ∨ char = 0x663 ∨ (0x966 ≤ char ∧ char ≤ 0x96f)
  let lower : CodePoint → CodePoint := fun char =>
    if 0x41 ≤ char ∧ char ≤ 0x5a ∨ char = 0xc9 then char + 0x20 else char
  let upper : CodePoint → CodePoint := fun char =>
    if 0x61 ≤ char ∧ char ≤ 0x7a ∨ char = 0xe9 then char - 0x20 else char
  { isdigit := digit
    isalnum := fun char => digit char || lower char ≠ upper char || char = 0x3042
    isspace := fun char =>
      (9 ≤ char ∧ char ≤ 13) ∨ (0x1c ≤ char ∧ char ≤ 0x20) ∨ char ∈ [0x85, 0xa0, 0x2028]
    lower := fun char => [lower char]
    upper := fun char => [upper char]
    swapcase := fun char => [if lower char = char then upper char else lower char]
    decimal := fun char =>
      if 0x30 ≤ char ∧ char ≤ 0x39 then some (char - 0x30)
      else if char = 0x663 then some 3
      else if 0x966 ≤ char ∧ char ≤ 0x96f then some (char - 0x966)
      else none
    sameCase := fun own char => lower own = lower char }

-- `a+-b+`
def dashed : List CodePoint := codes ['a', '+', '-', 'b', '+']

theorem accepted_separates_dashed :
    ∃ summary, (Parser.init someUnicode dashed "match").parse = .ok summary ∧
      ∀ path ∈ summary.regex.paths, ∀ run between, Consecutive path run between →
        Separated someUnicode false run between := by
  obtain ⟨summary, parsed, _, iff⟩ :=
    accepted_separates_iff someUnicode (fun _ => none) dashed "match" 200 rfl
  refine ⟨summary, parsed, iff.mpr fun path listed run between consecutive => ?_⟩
  cases parsed
  obtain ⟨before, next, after, same, starts, _, bounded⟩ := consecutive
  have members : ∀ element, .element element ∈ path →
      element = (.chars (.members false [.literal 97]), some (.unbounded false)) ∨
      element = (.chars (.members false [.literal 45]), none) ∨
      element = (.chars (.members false [.literal 98]), some (.unbounded false)) := by
    intro element inside
    rw [List.mem_singleton.mp listed] at inside
    simpa using inside
  have within : ∀ element, .element element ∈ between → .element element ∈ path := by
    intro element inside
    rw [same]
    simp [inside]
  rintro (⟨_, element, inside, empty⟩ | ⟨skipped, element, ⟨⟨rest, split⟩, _⟩, shared, _⟩)
  next =>
    rcases members element (within element inside) with rfl | rfl | rfl <;> cases empty
  next =>
    have inside : .element element ∈ between := by
      rw [split]
      simp
    obtain ⟨char, _, one, two⟩ := shared
    change Regex.first someUnicode false _ char = true at two
    have dash : element = (.chars (.members false [.literal 45]), none) := by
      rcases members element (within element inside) with rfl | rfl | rfl
      next => cases bounded _ inside
      next => rfl
      next => cases bounded _ inside
    rw [dash] at two
    have ended : char = 45 := by simpa [Regex.first, CharSet.matches, Item.matches] using two
    rw [ended] at one
    rcases members run (by rw [same]; simp) with rfl | rfl | rfl
    next => cases one
    next => cases starts
    next => cases one

-- `\w+(?:a|b?)-\w+`
def optionalBranch : List CodePoint :=
  codes ['\\', 'w', '+', '(', '?', ':', 'a', '|', 'b', '?', ')', '-', '\\', 'w', '+']

def words : Element := (.chars (.members false [.escape 119]), some (.unbounded false))

def letter (char : CodePoint) : Element := (.chars (.members false [.literal char]), none)

-- The branch `a` follows the run, and the run matches it.
theorem optional_branch_overlooked :
    validateSafeRegex someUnicode (fun _ => none) optionalBranch "match" 200 = .ok () ∧
      ∃ summary path run between,
        (Parser.init someUnicode optionalBranch "match").parse = .ok summary ∧
          path ∈ summary.regex.paths ∧ Consecutive path run between ∧
            ¬ Separated someUnicode false run between := by
  refine ⟨rfl, _, [.element words, .enter, .element (letter 97), .leave, .element (letter 45),
    .element words], words, [.enter, .element (letter 97), .leave, .element (letter 45)], rfl,
    List.mem_cons_self, ⟨[], words, [], rfl, rfl, rfl, ?_⟩, ?_⟩
  next =>
    intro element inside
    have among : element = letter 97 ∨ element = letter 45 := by simpa using inside
    rcases among with rfl | rfl <;> rfl
  next =>
    rintro ⟨skipped, element, first, apart⟩
    have branch : FirstConsuming
        [.enter, .element (letter 97), .leave, .element (letter 45)] [.enter] (letter 97) := by
      refine ⟨⟨_, rfl⟩, fun other listed => ?_, rfl⟩
      simp at listed
    rw [first.unique branch] at apart
    exact apart ⟨97, by decide, rfl, rfl⟩

end Main

end MemoryCloud.Triggers
