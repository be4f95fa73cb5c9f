import MemoryCloud.Shared.SqlLogic

set_option autoImplicit false

/-!
# The text of a filter

The part of SQL that a filter body is written in: comparisons of a column with
a literal, `IN`, `array_has`, `AND`, `OR` and parentheses. A text is cut into
tokens one character at a time, the tokens are parsed by precedence and the
expression is evaluated over a row with nullable columns.
-/

namespace MemoryCloud.SqlText

open SqlLogic

section Lexer

def quote : Char := Char.ofNat 39

inductive Token where
  | word (text : String)
  | string (text : String)
  | op (text : String)
  | lpar
  | rpar
  | comma
  deriving DecidableEq, Repr

-- What has been read of a token, last character first. A quote inside a string may close it or be
-- the first of a doubled one.
inductive Mode where
  | start
  | word (read : List Char)
  | op (read : List Char)
  | text (read : List Char)
  | closing (read : List Char)
  deriving DecidableEq, Repr

def wordChar (c : Char) : Bool := c.isAlphanum || decide (c ∈ ['_', '.', '+', '-'])

def opChar (c : Char) : Bool := decide (c ∈ ['=', '<', '>'])

def spelled (read : List Char) : String := String.ofList read.reverse

def opening (c : Char) : Option (List Token × Mode) :=
  if c = ' ' then some ([], .start)
  else if c = '(' then some ([.lpar], .start)
  else if c = ')' then some ([.rpar], .start)
  else if c = ',' then some ([.comma], .start)
  else if c = quote then some ([], .text [])
  else if opChar c then some ([], .op [c])
  else if wordChar c then some ([], .word [c])
  else none

def ended (token : Token) (c : Char) : Option (List Token × Mode) :=
  (opening c).map fun (tokens, mode) => (token :: tokens, mode)

def lexStep : Mode → Char → Option (List Token × Mode)
  | .start, c => opening c
  | .word read, c =>
    if wordChar c then some ([], .word (c :: read)) else ended (.word (spelled read)) c
  | .op read, c => if opChar c then some ([], .op (c :: read)) else ended (.op (spelled read)) c
  | .text read, c => if c = quote then some ([], .closing read) else some ([], .text (c :: read))
  | .closing read, c =>
    if c = quote then some ([], .text (quote :: read)) else ended (.string (spelled read)) c

def finish : Mode → Option (List Token)
  | .start => some []
  | .word read => some [.word (spelled read)]
  | .op read => some [.op (spelled read)]
  | .text _ => none
  | .closing read => some [.string (spelled read)]

def lexFrom : Mode → List Char → Option (List Token)
  | mode, [] => finish mode
  | mode, c :: rest =>
    match lexStep mode c with
    | none => none
    | some (tokens, next) => (lexFrom next rest).map (tokens ++ ·)

def lex (text : String) : Option (List Token) := lexFrom .start text.toList

def Ends (c : Char) : Prop := wordChar c = false ∧ opChar c = false ∧ c ≠ quote

instance (c : Char) : Decidable (Ends c) :=
  inferInstanceAs (Decidable (wordChar c = false ∧ opChar c = false ∧ c ≠ quote))

def Boundary : List Char → Prop
  | [] => True
  | c :: _ => Ends c

-- The piece is read as the tokens wherever a token may end after it.
def Reads (piece : List Char) (tokens : List Token) : Prop :=
  ∀ rest, Boundary rest → lexFrom .start (piece ++ rest) = (lexFrom .start rest).map (tokens ++ ·)

theorem Reads.lex {text : String} {tokens : List Token} (reads : Reads text.toList tokens) :
    lex text = some tokens := by
  have whole := reads [] trivial
  rw [List.append_nil] at whole
  simpa [SqlText.lex, lexFrom, finish] using whole

theorem lexFrom_silent {mode next : Mode} {c : Char} {rest : List Char}
    (step : lexStep mode c = some ([], next)) : lexFrom mode (c :: rest) = lexFrom next rest := by
  rw [lexFrom, step]
  exact Option.map_id'

theorem reads_nil : Reads [] [] := by
  intro rest _
  rw [List.nil_append]
  cases lexFrom .start rest <;> simp

theorem Reads.through {p q : List Char} {tokens tokens' between : List Token} {c : Char}
    (first : Reads p tokens) (second : Reads q tokens') (ends : Ends c)
    (opens : opening c = some (between, .start)) :
    Reads (p ++ c :: q) (tokens ++ (between ++ tokens')) := by
  intro rest boundary
  rw [List.append_assoc, first _ (show Boundary (c :: q ++ rest) from ends)]
  rw [List.cons_append, lexFrom, lexStep, opens]
  dsimp only
  rw [second rest boundary]
  cases lexFrom .start rest <;> simp

theorem Reads.space {p q : List Char} {tokens tokens' : List Token} (first : Reads p tokens)
    (second : Reads q tokens') : Reads (p ++ ' ' :: q) (tokens ++ tokens') :=
  first.through second (show Ends ' ' by decide) rfl

theorem Reads.lpar {p q : List Char} {tokens tokens' : List Token} (first : Reads p tokens)
    (second : Reads q tokens') : Reads (p ++ '(' :: q) (tokens ++ (.lpar :: tokens')) :=
  first.through second (show Ends '(' by decide) rfl

theorem Reads.rpar {p q : List Char} {tokens tokens' : List Token} (first : Reads p tokens)
    (second : Reads q tokens') : Reads (p ++ ')' :: q) (tokens ++ (.rpar :: tokens')) :=
  first.through second (show Ends ')' by decide) rfl

theorem Reads.comma {p q : List Char} {tokens tokens' : List Token} (first : Reads p tokens)
    (second : Reads q tokens') : Reads (p ++ ',' :: q) (tokens ++ (.comma :: tokens')) :=
  first.through second (show Ends ',' by decide) rfl

theorem lexFrom_ended {mode : Mode} {token : Token} {rest : List Char} (boundary : Boundary rest)
    (last : finish mode = some [token])
    (steps : ∀ c, Ends c → lexStep mode c = ended token c) :
    lexFrom mode rest = (lexFrom .start rest).map ([token] ++ ·) := by
  cases rest with
  | nil =>
    rw [lexFrom, last]
    rfl
  | cons c rest =>
    rw [lexFrom, steps c boundary, lexFrom, lexStep, ended]
    cases opening c with
    | none => rfl
    | some opened =>
      obtain ⟨tokens, next⟩ := opened
      simp only [Option.map_some]
      cases lexFrom next rest <;> simp

theorem lexFrom_word {read word rest : List Char} (letters : ∀ c ∈ word, wordChar c = true)
    (boundary : Boundary rest) :
    lexFrom (.word read) (word ++ rest) =
      (lexFrom .start rest).map ([.word (spelled (word.reverse ++ read))] ++ ·) := by
  induction word generalizing read with
  | nil =>
    refine lexFrom_ended boundary rfl fun c ends => ?_
    rw [lexStep, ends.1]
    rfl
  | cons c word ih =>
    obtain ⟨first, others⟩ := List.forall_mem_cons.mp letters
    have more : lexStep (.word read) c = some ([], .word (c :: read)) := by
      rw [lexStep, if_pos first]
    rw [List.cons_append, lexFrom_silent more, ih others]
    simp

theorem wordChar_opening {c : Char} (letter : wordChar c = true) :
    opening c = some ([], .word [c]) := by
  have apart : ∀ d : Char, wordChar d = false → c ≠ d := by
    intro d not_letter same
    rw [same, not_letter] at letter
    cases letter
  have not_op : opChar c = false := by
    by_contra op
    simp only [opChar, decide_eq_false_iff_not, not_not, List.mem_cons, List.not_mem_nil,
      or_false] at op
    rcases op with same | same | same <;> exact apart _ (by decide) same
  rw [opening, if_neg (apart _ (by decide)), if_neg (apart _ (by decide)),
    if_neg (apart _ (by decide)), if_neg (apart _ (by decide)), if_neg (apart _ (by decide)),
    not_op, letter]
  rfl

theorem reads_word {word : List Char} (some_letters : word ≠ [])
    (letters : ∀ c ∈ word, wordChar c = true) :
    Reads word [.word (String.ofList word)] := by
  intro rest boundary
  cases word with
  | nil => exact absurd rfl some_letters
  | cons c word =>
    obtain ⟨first, others⟩ := List.forall_mem_cons.mp letters
    have begins : lexStep .start c = some ([], .word [c]) := wordChar_opening first
    rw [List.cons_append, lexFrom_silent begins, lexFrom_word others boundary]
    simp [spelled]

def doubled (text : List Char) : List Char :=
  text.flatMap fun c => if c = quote then [quote, quote] else [c]

def quoted (text : List Char) : List Char := quote :: (doubled text ++ [quote])

end Lexer

section Expressions

inductive Comparison where
  | eq
  | ge
  | le
  | gt
  | lt
  deriving DecidableEq, Repr

def Comparison.text : Comparison → String
  | .eq => "="
  | .ge => ">="
  | .le => "<="
  | .gt => ">"
  | .lt => "<"

def Comparison.holds {α : Type} [DecidableEq α] [LT α] [DecidableLT α] :
    Comparison → α → α → Bool
  | .eq, a, b => decide (a = b)
  | .ge, a, b => !decide (a < b)
  | .le, a, b => !decide (b < a)
  | .gt, a, b => decide (b < a)
  | .lt, a, b => decide (a < b)

def comparison? (text : String) : Option Comparison :=
  [Comparison.eq, .ge, .le, .gt, .lt].find? fun op => op.text == text

theorem comparison?_text (op : Comparison) : comparison? op.text = some op := by
  cases op <;> decide

inductive Operand (N : Type) where
  | text (value : String)
  | number (value : N)

inductive Expr (N : Type) where
  | compare (column : String) (op : Comparison) (operand : Operand N)
  | isIn (column : String) (values : List String)
  | arrayHas (column : String) (value : String)
  | and (left right : Expr N)
  | or (left right : Expr N)

inductive Cell (N : Type) where
  | text (value : Option String)
  | number (value : Option N)
  | list (value : Option (List String))

variable {N : Type} [DecidableEq N] [LT N] [DecidableLT N]

def Expr.eval (row : String → Cell N) : Expr N → Tri
  | .compare column op (.text value) =>
    match row column with
    | .text found => found.map fun text => op.holds text value
    | _ => none
  | .compare column op (.number value) =>
    match row column with
    | .number found => found.map fun number => op.holds number value
    | _ => none
  | .isIn column values =>
    match row column with
    | .text found => Tri.isIn found values
    | _ => none
  | .arrayHas column value =>
    match row column with
    | .list found => found.map fun values => decide (value ∈ values)
    | _ => none
  | .and left right => (left.eval row).and (right.eval row)
  | .or left right => (left.eval row).or (right.eval row)

end Expressions

section Parser

variable {N : Type} (read : String → Option N)

-- `OR` binds weaker than `AND`.
inductive Level where
  | any
  | all
  | one
  deriving DecidableEq, Repr

def after (word : String) : List Token → Option (List Token)
  | .word found :: rest => if found = word then some rest else none
  | _ => none

def literals : List Token → Option (List String × List Token)
  | .string value :: .rpar :: rest => some ([value], rest)
  | .string value :: .comma :: rest =>
    (literals rest).map fun (values, others) => (value :: values, others)
  | _ => none

def simple : List Token → Option (Expr N × List Token)
  | .word name :: .lpar :: .word column :: .comma :: .string value :: .rpar :: rest =>
    if name = "array_has" then some (.arrayHas column value, rest) else none
  | .word column :: .op op :: .string value :: rest =>
    (comparison? op).map fun op => (.compare column op (.text value), rest)
  | .word column :: .op op :: .word number :: rest =>
    match comparison? op, read number with
    | some op, some value => some (.compare column op (.number value), rest)
    | _, _ => none
  | .word column :: .word name :: .lpar :: rest =>
    if name = "IN" then
      (literals rest).map fun (values, others) => (.isIn column values, others)
    else none
  | _ => none

def parse : Nat → Level → List Token → Option (Expr N × List Token)
  | 0, _, _ => none
  | fuel + 1, .any, tokens =>
    match parse fuel .all tokens with
    | none => none
    | some (left, rest) =>
      match after "OR" rest with
      | none => some (left, rest)
      | some more => (parse fuel .any more).map fun (right, others) => (.or left right, others)
  | fuel + 1, .all, tokens =>
    match parse fuel .one tokens with
    | none => none
    | some (left, rest) =>
      match after "AND" rest with
      | none => some (left, rest)
      | some more => (parse fuel .all more).map fun (right, others) => (.and left right, others)
  | fuel + 1, .one, .lpar :: rest =>
    match parse fuel .any rest with
    | some (inner, .rpar :: others) => some (inner, others)
    | _ => none
  | _ + 1, .one, tokens => simple read tokens

def parseFilter (text : String) : Option (Expr N) :=
  match lex text with
  | none => none
  | some tokens =>
    match parse read (3 * tokens.length) .any tokens with
    | some (filter, []) => some filter
    | _ => none

inductive Spells : Level → List Token → Expr N → Prop where
  | text (column : String) (op : Comparison) (value : String) :
      Spells .one [.word column, .op op.text, .string value] (.compare column op (.text value))
  | number {text : String} {value : N} (column : String) (op : Comparison)
      (reads : read text = some value) :
      Spells .one [.word column, .op op.text, .word text] (.compare column op (.number value))
  | isIn {tokens : List Token} {values : List String} (column : String)
      (listed : ∀ rest, literals (tokens ++ rest) = some (values, rest)) :
      Spells .one (.word column :: .word "IN" :: .lpar :: tokens) (.isIn column values)
  | arrayHas (column value : String) :
      Spells .one [.word "array_has", .lpar, .word column, .comma, .string value, .rpar]
        (.arrayHas column value)
  | paren {tokens : List Token} {inner : Expr N} (inside : Spells .any tokens inner) :
      Spells .one (.lpar :: (tokens ++ [.rpar])) inner
  | allOne {tokens : List Token} {left : Expr N} (one : Spells .one tokens left) :
      Spells .all tokens left
  | allMore {tokens others : List Token} {left right : Expr N} (one : Spells .one tokens left)
      (more : Spells .all others right) :
      Spells .all (tokens ++ .word "AND" :: others) (.and left right)
  | anyOne {tokens : List Token} {left : Expr N} (one : Spells .all tokens left) :
      Spells .any tokens left
  | anyMore {tokens others : List Token} {left right : Expr N} (one : Spells .all tokens left)
      (more : Spells .any others right) :
      Spells .any (tokens ++ .word "OR" :: others) (.or left right)

def Level.weight : Level → Nat
  | .any => 0
  | .all => 1
  | .one => 2

def Level.Stops (rest : List Token) : Level → Prop
  | .any => after "OR" rest = none ∧ after "AND" rest = none
  | .all => after "AND" rest = none
  | .one => True

variable {read}

theorem Spells.nonempty {level : Level} {tokens : List Token} {filter : Expr N}
    (spells : Spells read level tokens filter) : tokens ≠ [] := by
  induction spells with
  | text | number | isIn | arrayHas | paren => exact List.cons_ne_nil _ _
  | allOne _ ih => exact ih
  | anyOne _ ih => exact ih
  | allMore _ _ ih _ => exact List.append_ne_nil_of_left_ne_nil ih _
  | anyMore _ _ ih _ => exact List.append_ne_nil_of_left_ne_nil ih _

theorem parse_simple {fuel : Nat} {word : String} {tokens rest : List Token} {filter : Expr N}
    (positive : 0 < fuel) (found : simple read (.word word :: tokens) = some (filter, rest)) :
    parse read fuel .one (.word word :: tokens) = some (filter, rest) := by
  obtain ⟨less, rfl⟩ := Nat.exists_eq_succ_of_ne_zero (Nat.ne_of_gt positive)
  rw [parse]
  · exact found
  · intro others same
    cases same

theorem parse_spells {level : Level} {tokens : List Token} {filter : Expr N}
    (spells : Spells read level tokens filter) {fuel : Nat} {rest : List Token}
    (enough : 3 * tokens.length ≤ fuel + level.weight) (stops : level.Stops rest) :
    parse read fuel level (tokens ++ rest) = some (filter, rest) := by
  induction spells generalizing fuel rest with
  | text column op value =>
    simp only [Level.weight, List.length_cons] at enough
    exact parse_simple (by omega) (by simp [simple, comparison?_text])
  | number column op reads =>
    simp only [Level.weight, List.length_cons] at enough
    exact parse_simple (by omega) (by simp [simple, comparison?_text, reads])
  | isIn column listed =>
    simp only [Level.weight, List.length_cons] at enough
    exact parse_simple (by omega) (by simp [simple, listed])
  | arrayHas column value =>
    simp only [Level.weight, List.length_cons] at enough
    exact parse_simple (by omega) (by simp [simple])
  | @paren tokens inner inside ih =>
    simp only [Level.weight, List.length_cons, List.length_append, List.length_nil] at enough
    obtain ⟨less, rfl⟩ := Nat.exists_eq_succ_of_ne_zero (show fuel ≠ 0 by omega)
    have within : parse read less .any (tokens ++ (.rpar :: rest)) = some (inner, .rpar :: rest) :=
      ih (by simp only [Level.weight]; omega) ⟨rfl, rfl⟩
    rw [List.cons_append, List.append_assoc, List.singleton_append, parse, within]
  | allOne one ih =>
    have some_tokens := List.length_pos_of_ne_nil one.nonempty
    simp only [Level.weight] at enough
    obtain ⟨less, rfl⟩ := Nat.exists_eq_succ_of_ne_zero (show fuel ≠ 0 by omega)
    rw [parse, ih (by simp only [Level.weight]; omega) trivial]
    dsimp only
    rw [show after "AND" rest = none from stops]
  | @allMore tokens others left right one more ihOne ihMore =>
    have some_tokens := List.length_pos_of_ne_nil one.nonempty
    simp only [Level.weight, List.length_append, List.length_cons] at enough
    obtain ⟨less, rfl⟩ := Nat.exists_eq_succ_of_ne_zero (show fuel ≠ 0 by omega)
    rw [List.append_assoc, List.cons_append, parse,
      ihOne (by simp only [Level.weight]; omega) trivial]
    dsimp only
    rw [show after "AND" (.word "AND" :: (others ++ rest)) = some (others ++ rest) from rfl]
    dsimp only
    rw [ihMore (by simp only [Level.weight]; omega) stops]
    rfl
  | anyOne one ih =>
    have some_tokens := List.length_pos_of_ne_nil one.nonempty
    simp only [Level.weight] at enough
    obtain ⟨less, rfl⟩ := Nat.exists_eq_succ_of_ne_zero (show fuel ≠ 0 by omega)
    rw [parse, ih (by simp only [Level.weight]; omega) stops.2]
    dsimp only
    rw [stops.1]
  | @anyMore tokens others left right one more ihOne ihMore =>
    have some_tokens := List.length_pos_of_ne_nil one.nonempty
    simp only [Level.weight, List.length_append, List.length_cons] at enough
    obtain ⟨less, rfl⟩ := Nat.exists_eq_succ_of_ne_zero (show fuel ≠ 0 by omega)
    have apart : after "AND" (.word "OR" :: (others ++ rest)) = none := by simp [after]
    rw [List.append_assoc, List.cons_append, parse,
      ihOne (by simp only [Level.weight]; omega) apart]
    dsimp only
    rw [show after "OR" (.word "OR" :: (others ++ rest)) = some (others ++ rest) from rfl]
    dsimp only
    rw [ihMore (by simp only [Level.weight]; omega) stops]
    rfl

theorem parseFilter_spells {text : String} {tokens : List Token} {filter : Expr N}
    (reads : Reads text.toList tokens) (spells : Spells read .any tokens filter) :
    parseFilter read text = some filter := by
  have parsed : parse read (3 * tokens.length) .any (tokens ++ []) = some (filter, []) :=
    parse_spells spells (Nat.le_refl _) ⟨rfl, rfl⟩
  rw [List.append_nil] at parsed
  simp only [parseFilter, reads.lex, parsed]

end Parser

section Texts

variable {N : Type}

-- A literal in single quotes, its quotes doubled.
def sqlStr (value : String) : String := String.ofList (quoted value.toList)

def Denotes (read : String → Option N) (level : Level) (text : String) (filter : Expr N) : Prop :=
  ∃ tokens, Reads text.toList tokens ∧ Spells read level tokens filter

def IsWord (name : String) : Prop := name.toList ≠ [] ∧ ∀ c ∈ name.toList, wordChar c = true

instance (name : String) : Decidable (IsWord name) :=
  haveI := List.decidableBAll (fun c => wordChar c = true) name.toList
  inferInstanceAs (Decidable (name.toList ≠ [] ∧ ∀ c ∈ name.toList, wordChar c = true))

variable {read : String → Option N}

theorem reads_name {name : String} (word : IsWord name) : Reads name.toList [.word name] := by
  simpa using reads_word word.1 word.2

theorem Denotes.paren {text : String} {filter : Expr N} (inside : Denotes read .any text filter) :
    Denotes read .one ("(" ++ text ++ ")") filter := by
  obtain ⟨tokens, reads, spells⟩ := inside
  refine ⟨_, ?_, .paren spells⟩
  have pieces := reads_nil.lpar (reads.rpar reads_nil)
  simpa using pieces

theorem Denotes.all {text : String} {filter : Expr N} (one : Denotes read .one text filter) :
    Denotes read .all text filter := by
  obtain ⟨tokens, reads, spells⟩ := one
  exact ⟨tokens, reads, .allOne spells⟩

theorem Denotes.any {text : String} {filter : Expr N} (all : Denotes read .all text filter) :
    Denotes read .any text filter := by
  obtain ⟨tokens, reads, spells⟩ := all
  exact ⟨tokens, reads, .anyOne spells⟩

variable [DecidableEq N] [LT N] [DecidableLT N]

def Means (read : String → Option N) (level : Level) (row : String → Cell N) (text : String)
    (holds : Prop) : Prop :=
  ∃ filter, Denotes read level text filter ∧ ((filter.eval row).Keeps ↔ holds)

variable {row : String → Cell N}

theorem means_and {α : Type} {items : List α} {clause : α → String} {holds : α → Prop}
    (some_items : items ≠ [])
    (means : ∀ item ∈ items, Means read .one row (clause item) (holds item)) :
    Means read .all row (" AND ".intercalate (items.map clause)) (∀ item ∈ items, holds item) := by
  induction items with
  | nil => exact absurd rfl some_items
  | cons item items ih =>
    obtain ⟨first, others⟩ := List.forall_mem_cons.mp means
    obtain ⟨filter, denotes, keeps⟩ := first
    cases items with
    | nil => exact ⟨filter, by simpa using denotes.all, by simpa using keeps⟩
    | cons next items =>
      obtain ⟨filter', ⟨tokens', reads', spells'⟩, keeps'⟩ := ih (List.cons_ne_nil _ _) others
      obtain ⟨tokens, reads, spells⟩ := denotes
      refine ⟨.and filter filter', ⟨_, ?_, .allMore spells spells'⟩, ?_⟩
      · have keyword : Reads "AND".toList [.word "AND"] := reads_name (by decide)
        have pieces := reads.space (keyword.space reads')
        simpa [String.intercalate_cons_cons] using pieces
      · rw [Expr.eval, and_keeps, keeps, keeps']
        exact List.forall_mem_cons.symm

theorem Means.paren {text : String} {holds : Prop} (inside : Means read .any row text holds) :
    Means read .one row ("(" ++ text ++ ")") holds := by
  obtain ⟨filter, denotes, keeps⟩ := inside
  exact ⟨filter, denotes.paren, keeps⟩

theorem Means.any {text : String} {holds : Prop} (all : Means read .all row text holds) :
    Means read .any row text holds := by
  obtain ⟨filter, denotes, keeps⟩ := all
  exact ⟨filter, denotes.any, keeps⟩

theorem Means.congr {level : Level} {text : String} {holds holds' : Prop}
    (means : Means read level row text holds) (same : holds ↔ holds') :
    Means read level row text holds' := by
  obtain ⟨filter, denotes, keeps⟩ := means
  exact ⟨filter, denotes, keeps.trans same⟩

-- Whether a row satisfies a filter text; a text that does not parse keeps nothing.
def satisfies (read : String → Option N) (row : String → Cell N) (text : String) : Bool :=
  match parseFilter read text with
  | none => false
  | some filter => decide (filter.eval row).Keeps

theorem Means.satisfies_iff {text : String} {holds : Prop} (means : Means read .any row text holds) :
    satisfies read row text = true ↔ holds := by
  obtain ⟨filter, ⟨tokens, reads, spells⟩, keeps⟩ := means
  rw [satisfies, parseFilter_spells reads spells]
  simpa using keeps

theorem Means.kept {text : String} {holds : Prop} (one : Means read .one row text holds) :
    satisfies read row text = true ↔ holds := by
  obtain ⟨filter, denotes, keeps⟩ := one
  exact Means.satisfies_iff ⟨filter, denotes.all.any, keeps⟩

def Clauses (read : String → Option N) (row : String → Cell N) (texts : List String)
    (holds : Prop) : Prop :=
  (∀ text ∈ texts, Means read .one row text (satisfies read row text = true)) ∧
    ((∀ text ∈ texts, satisfies read row text = true) ↔ holds)

theorem Means.clause {text : String} {holds : Prop} (one : Means read .one row text holds) :
    Clauses read row [text] holds := by
  refine ⟨fun other listed => ?_, ?_⟩
  · rw [List.mem_singleton.mp listed]
    exact one.congr one.kept.symm
  · simpa using one.kept

theorem Clauses.append {texts texts' : List String} {holds holds' : Prop}
    (first : Clauses read row texts holds) (second : Clauses read row texts' holds') :
    Clauses read row (texts ++ texts') (holds ∧ holds') := by
  constructor
  · intro text listed
    rcases List.mem_append.mp listed with listed | listed
    · exact first.1 text listed
    · exact second.1 text listed
  · rw [List.forall_mem_append, first.2, second.2]

theorem Clauses.congr {texts : List String} {holds holds' : Prop}
    (clauses : Clauses read row texts holds) (same : holds ↔ holds') :
    Clauses read row texts holds' :=
  ⟨clauses.1, clauses.2.trans same⟩

theorem Clauses.all {texts : List String} {holds : Prop} (clauses : Clauses read row texts holds)
    (some_texts : texts ≠ []) : Means read .all row (" AND ".intercalate texts) holds := by
  have means := (means_and some_texts clauses.1).congr clauses.2
  rwa [List.map_id'] at means

end Texts

end MemoryCloud.SqlText
