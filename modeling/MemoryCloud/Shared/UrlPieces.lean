import MemoryCloud.Shared.Urls

set_option autoImplicit false

/-!
# What the pieces of a URL say of its text

The pieces spell the text up to the letter case of the scheme and the delimiters of empty pieces.
-/

namespace MemoryCloud.Urls

section Spelling

variable {mark character : Char} {text front name url path other : Text} {checks : Checks} {split : Split}

def schemeMark : Text := [':', '/', '/']

def lowered (text : Text) : Text :=
  (text.takeWhile (· ≠ ':')).map Char.toLower ++ text.dropWhile (· ≠ ':')

def Tail.joined (tail : Tail) : Text :=
  tail.path ++ delimited '?' tail.query ++ delimited '#' tail.fragment

def tidied (text : Text) : Text := (splitTail text).joined

def normal (url : Text) : Text := lowered (tidied (clean url))

theorem lowered_append (absent : ':' ∉ name) (text : Text) :
    lowered (name ++ ':' :: text) = name.map Char.toLower ++ ':' :: text := by
  have all : ∀ character ∈ name, decide (character ≠ ':') = true := by
    intro character listed
    exact decide_eq_true fun same => absent (same ▸ listed)
  rw [lowered, List.takeWhile_append_of_pos all, List.dropWhile_append_of_pos all]
  simp

theorem tidied_append (noFragment : '#' ∉ front) (noQuery : '?' ∉ front) (text : Text) :
    tidied (front ++ text) = front ++ tidied text := by
  simp only [tidied, splitTail, cut_append noFragment, cut_append noQuery, Tail.joined, List.append_assoc]

structure Spelled (url : Text) (split : Split) (name tail : Text) : Prop where
  spelling : clean url = name ++ (schemeMark ++ (split.netloc ++ tail))
  scheme : name.map Char.toLower = split.scheme
  schemeChars : ∀ character ∈ name, schemeChar character = true
  netlocChars : ∀ character ∈ split.netloc, ends character = false
  pieces : splitTail tail = split.tail
  start : tail.head?.all ends

theorem splitScheme_spelled (found : (splitScheme text).1 ≠ []) :
    ∃ name, text = name ++ ':' :: (splitScheme text).2 ∧
      name.map Char.toLower = (splitScheme text).1 ∧
      ∀ character ∈ name, schemeChar character = true := by
  revert found
  rw [splitScheme]
  dsimp only
  split
  next accepted =>
    intro _
    exact ⟨_, cut_of_mem accepted.1, rfl, List.all_eq_true.mp accepted.2.2⟩
  next => exact fun found => absurd rfl found

theorem splitNetloc_spelled (found : (splitNetloc text).1 ≠ []) :
    text = '/' :: '/' :: ((splitNetloc text).1 ++ (splitNetloc text).2) ∧
      (∀ character ∈ (splitNetloc text).1, ends character = false) ∧
      (splitNetloc text).2.head?.all ends := by
  revert found
  rw [splitNetloc.eq_def]
  split
  next rest =>
    intro _
    refine ⟨?_, ?_, ?_⟩
    next => rw [List.takeWhile_append_dropWhile]
    next =>
      intro character listed
      simpa using List.mem_takeWhile_imp listed
    next =>
      cases later : (rest.dropWhile fun character => !ends character).head? with
      | none => rfl
      | some character =>
        have stopped := List.head?_dropWhile_not (fun character => !ends character) rest
        rw [later] at stopped
        simpa using stopped
  next => exact fun found => absurd rfl found

theorem urlsplit_spelled (parsed : urlsplit checks url = some split) (scheme : split.scheme ≠ [])
    (netloc : split.netloc ≠ []) : ∃ name tail, Spelled url split name tail := by
  rw [urlsplit] at parsed
  dsimp only at parsed
  split at parsed
  next =>
    cases parsed
    obtain ⟨name, text, lower, chars⟩ := splitScheme_spelled scheme
    obtain ⟨rest, inside, after⟩ := splitNetloc_spelled netloc
    refine ⟨name, _, ?_, lower, chars, inside, rfl, after⟩
    exact text.trans (congrArg (fun rest => name ++ ':' :: rest) rest)
  next => cases parsed

namespace Spelled

variable {tail : Text}

theorem not_mem (spelled : Spelled url split name tail) (scheme : schemeChar mark = false)
    (netloc : ends mark = true) (colon : mark ∉ schemeMark) :
    mark ∉ name ++ schemeMark ++ split.netloc := by
  rw [List.mem_append, List.mem_append]
  rintro ((inName | inMark) | inNetloc)
  next => exact Bool.false_ne_true (scheme.symm.trans (spelled.schemeChars _ inName))
  next => exact colon inMark
  next => exact Bool.false_ne_true ((spelled.netlocChars _ inNetloc).symm.trans netloc)

theorem colon_not_mem (spelled : Spelled url split name tail) : ':' ∉ name := by
  intro listed
  exact absurd (spelled.schemeChars _ listed) (by decide)

theorem normal_eq (spelled : Spelled url split name tail) :
    normal url = split.scheme ++ (schemeMark ++ (split.netloc ++ split.tail.joined)) := by
  have front : clean url = name ++ schemeMark ++ split.netloc ++ tail := by
    rw [spelled.spelling, List.append_assoc, List.append_assoc]
  rw [normal, front, tidied_append (spelled.not_mem rfl rfl (by decide))
    (spelled.not_mem rfl rfl (by decide)), tidied, spelled.pieces]
  simp only [List.append_assoc, schemeMark, List.cons_append]
  rw [lowered_append spelled.colon_not_mem, spelled.scheme]

end Spelled

-- The pieces fix the text but for what `normal` takes away.
theorem normal_of_urlsplit (parsed : urlsplit checks url = some split) (scheme : split.scheme ≠ [])
    (netloc : split.netloc ≠ []) :
    normal url = split.scheme ++ (schemeMark ++ (split.netloc ++ split.tail.joined)) := by
  obtain ⟨name, tail, spelled⟩ := urlsplit_spelled parsed scheme netloc
  exact spelled.normal_eq

theorem delimited_start (marked : ends mark = true) (text : Text) :
    (delimited mark text).head?.all ends := by
  rw [delimited]
  split
  next => rfl
  next => exact marked

theorem head_append_all {p : Char → Bool} (first : front.head?.all p) (second : text.head?.all p) :
    (front ++ text).head?.all p := by
  cases front with
  | nil => exact second
  | cons head rest => exact first

theorem head_cut_all {p : Char → Bool} (mark : Char) (first : text.head?.all p) :
    (cut mark text).1.head?.all p := by
  cases text with
  | nil => exact first
  | cons head rest =>
    rw [cut, List.takeWhile_cons]
    split
    next => exact first
    next => rfl

theorem Spelled.joined_start {tail : Text} (spelled : Spelled url split name tail) :
    split.tail.joined.head?.all ends := by
  have path : split.tail.path.head?.all ends := by
    rw [← spelled.pieces]
    exact head_cut_all '?' (head_cut_all '#' spelled.start)
  exact head_append_all (head_append_all path (delimited_start rfl _)) (delimited_start rfl _)

end Spelling

section Parsing

variable {checks : Checks} {url : Text} {parsed : Parsed}

structure Refines (split : Split) (parsed : Parsed) : Prop where
  scheme : split.scheme = parsed.scheme
  netloc : split.netloc = parsed.netloc
  path : splitParams split.tail.path = (parsed.path, parsed.params)
  query : split.tail.query = parsed.query
  fragment : split.tail.fragment = parsed.fragment

theorem urlsplit_accepted {split : Split} (found : urlsplit checks url = some split) :
    netlocAccepted checks split.netloc = true := by
  rw [urlsplit] at found
  dsimp only at found
  split at found
  next accepted =>
    cases found
    exact accepted
  next => cases found

theorem urlparse_refines (found : urlparse checks url = some parsed)
    (uses : usesParams.contains parsed.scheme) :
    ∃ split, urlsplit checks url = some split ∧ Refines split parsed := by
  rw [urlparse, Option.map_eq_some_iff] at found
  obtain ⟨split, found, rfl⟩ := found
  exact ⟨split, found, rfl, rfl, (if_pos uses).symm, rfl, rfl⟩

end Parsing

section Authority

variable {checks : Checks} {parsed : Parsed}

structure PortOf (parsed : Parsed) (port : Text) : Prop where
  colon : port.head?.all (· = ':')
  digits : port.tail = parsed.hostinfo.2

theorem tail_of_colon {port : Text} (start : port.head?.all (· = ':')) :
    port.tail = (cut ':' port).2 := by
  cases port with
  | nil => rfl
  | cons head rest =>
    have same : head = ':' := of_decide_eq_true start
    subst same
    rfl

theorem hostinfo_spelled (accepted : netlocAccepted checks parsed.netloc = true)
    (noUser : ¬parsed.hasUserinfo) : ∃ port, PortOf parsed port ∧
      ((':' ∉ parsed.hostinfo.1 ∧ parsed.netloc = parsed.hostinfo.1 ++ port) ∨
        (bracketedHost checks parsed.hostinfo.1 = true ∧
          parsed.netloc = '[' :: parsed.hostinfo.1 ++ ']' :: port)) := by
  have whole : afterLast '@' parsed.netloc = parsed.netloc := afterLast_of_not_mem noUser
  by_cases bracket : '[' ∈ parsed.netloc
  next =>
    have inside : parsed.hostinfo = ((cut ']' (cut '[' parsed.netloc).2).1,
        (cut ':' (cut ']' (cut '[' parsed.netloc).2).2).2) := by
      rw [Parsed.hostinfo]
      simp only [whole, if_pos bracket]
    rw [netlocAccepted] at accepted
    simp only [bracket, not_true_eq_false, decide_false, Bool.false_or, Bool.and_eq_true,
      decide_eq_true_eq, true_iff] at accepted
    obtain ⟨⟨closed, host⟩, _⟩ := accepted
    rw [bracketedNetloc] at host
    simp only [whole, if_pos bracket, Bool.and_eq_true, decide_eq_true_eq, Bool.or_eq_true] at host
    obtain ⟨⟨before, after⟩, address⟩ := host
    have opened : parsed.netloc = '[' :: (cut '[' parsed.netloc).2 := by
      have joined := cut_of_mem bracket
      rwa [before] at joined
    have closes : ']' ∈ (cut '[' parsed.netloc).2 := by
      rw [opened] at closed
      exact (List.mem_cons.mp closed).resolve_left (by decide)
    have start : (cut ']' (cut '[' parsed.netloc).2).2.head?.all (· = ':') := by
      rcases after with empty | colon
      next => rw [empty]; rfl
      next => rw [colon]; rfl
    refine ⟨_, ⟨start, ?_⟩, Or.inr ⟨?_, ?_⟩⟩
    next => rw [inside, tail_of_colon start]
    next => rw [inside]; exact address
    next =>
      rw [inside]
      calc parsed.netloc = '[' :: (cut '[' parsed.netloc).2 := opened
        _ = _ := congrArg ('[' :: ·) (cut_of_mem closes)
  next =>
    have inside : parsed.hostinfo = cut ':' parsed.netloc := by
      rw [Parsed.hostinfo]
      simp only [whole, if_neg bracket]
    rw [inside]
    by_cases colon : ':' ∈ parsed.netloc
    next => exact ⟨':' :: (cut ':' parsed.netloc).2, ⟨rfl, inside ▸ rfl⟩,
        Or.inl ⟨not_mem_cut _ _, cut_of_mem colon⟩⟩
    next =>
      refine ⟨[], ⟨rfl, ?_⟩, Or.inl ⟨not_mem_cut _ _, ?_⟩⟩
      next => rw [inside, cut_of_not_mem colon]; rfl
      next => rw [cut_of_not_mem colon, List.append_nil]

end Authority

section Parameters

variable {path other : Text}

theorem splitParams_of_not_mem (absent : ';' ∉ afterLast '/' path) : splitParams path = (path, []) := by
  rw [splitParams, cut_of_not_mem absent]
  exact congrArg (·, []) (throughLast_afterLast '/' path)

theorem splitParams_joined (path : Text) :
    splitParams path = (path, []) ∨ path = (splitParams path).1 ++ ';' :: (splitParams path).2 := by
  by_cases present : ';' ∈ afterLast '/' path
  next =>
    refine Or.inr ?_
    calc path = throughLast '/' path ++ afterLast '/' path := (throughLast_afterLast '/' path).symm
      _ = throughLast '/' path ++ ((cut ';' (afterLast '/' path)).1 ++
          ';' :: (cut ';' (afterLast '/' path)).2) :=
        congrArg (throughLast '/' path ++ ·) (cut_of_mem present)
      _ = _ := (List.append_assoc _ _ _).symm
  next => exact Or.inl (splitParams_of_not_mem present)

def AlikePaths (path other : Text) : Prop :=
  other = path ∨ other = path ++ [';'] ∨ path = other ++ [';']

theorem alikePaths_of_splitParams (same : splitParams path = splitParams other) :
    AlikePaths path other := by
  rcases splitParams_joined path with bare | spelled <;>
    rcases splitParams_joined other with bareOther | spelledOther
  next => exact Or.inl (congrArg Prod.fst (bareOther.symm.trans (same.symm.trans bare)))
  next =>
    rw [← same, bare] at spelledOther
    exact Or.inr (Or.inl spelledOther)
  next =>
    rw [same, bareOther] at spelled
    exact Or.inr (Or.inr spelled)
  next =>
    rw [same, ← spelledOther] at spelled
    exact Or.inl spelled.symm

end Parameters

end MemoryCloud.Urls
