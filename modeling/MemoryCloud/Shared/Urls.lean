import Mathlib.Data.List.TakeWhile
import Mathlib.Data.Nat.Basic

set_option autoImplicit false

/-!
# Splitting a URL into its pieces

The splitting of `urllib.parse`: the characters it drops, the pieces it
returns, and what the pieces say of the text that was split.
-/

namespace MemoryCloud.Urls

abbrev Text := List Char

-- `text.partition(mark)`, without the mark.
def cut (mark : Char) (text : Text) : Text × Text :=
  (text.takeWhile (· ≠ mark), (text.dropWhile (· ≠ mark)).tail)

-- `text.rpartition(mark)[2]`.
def afterLast (mark : Char) (text : Text) : Text := (text.reverse.takeWhile (· ≠ mark)).reverse

def throughLast (mark : Char) (text : Text) : Text := (text.reverse.dropWhile (· ≠ mark)).reverse

def delimited (mark : Char) (text : Text) : Text := if text = [] then [] else mark :: text

section Cuts

variable {mark : Char} {text front : Text}

theorem cut_of_not_mem (absent : mark ∉ text) : cut mark text = (text, []) := by
  have all : ∀ character ∈ text, decide (character ≠ mark) = true := by
    intro character listed
    exact decide_eq_true fun same => absent (same ▸ listed)
  rw [cut, List.takeWhile_eq_self_iff.mpr all, List.dropWhile_eq_nil_iff.mpr all]
  rfl

theorem cut_of_mem (present : mark ∈ text) : text = (cut mark text).1 ++ mark :: (cut mark text).2 := by
  induction text with
  | nil => cases present
  | cons head rest ih =>
    by_cases same : head = mark
    next => simp [cut, same]
    next =>
      have later := ih ((List.mem_cons.mp present).resolve_left (Ne.symm same))
      simpa [cut, same] using later

theorem not_mem_cut (mark : Char) (text : Text) : mark ∉ (cut mark text).1 := by
  intro listed
  simpa using List.mem_takeWhile_imp listed

theorem cut_append (absent : mark ∉ front) (text : Text) :
    cut mark (front ++ text) = (front ++ (cut mark text).1, (cut mark text).2) := by
  have all : ∀ character ∈ front, decide (character ≠ mark) = true := by
    intro character listed
    exact decide_eq_true fun same => absent (same ▸ listed)
  rw [cut, List.takeWhile_append_of_pos all, List.dropWhile_append_of_pos all]
  rfl

theorem afterLast_of_not_mem (absent : mark ∉ text) : afterLast mark text = text := by
  have all : ∀ character ∈ text.reverse, decide (character ≠ mark) = true := by
    intro character listed
    exact decide_eq_true fun same => absent (same ▸ List.mem_reverse.mp listed)
  rw [afterLast, List.takeWhile_eq_self_iff.mpr all, List.reverse_reverse]

theorem throughLast_afterLast (mark : Char) (text : Text) :
    throughLast mark text ++ afterLast mark text = text := by
  rw [throughLast, afterLast, ← List.reverse_append, List.takeWhile_append_dropWhile,
    List.reverse_reverse]

end Cuts

section Parsing

-- What the checks of a network location leave to other modules: `ipaddress` for a host in brackets,
-- `unicodedata` for characters outside ASCII.
structure Checks where
  ipv6 : Text → Bool
  nfkcSafe : Text → Bool

def isAsciiAlpha (character : Char) : Bool := character.isAlpha

def schemeChar (character : Char) : Bool :=
  character.isAlphanum || character ∈ ['+', '-', '.']

-- The text without the characters that are dropped before it is split.
def clean (url : Text) : Text :=
  (url.dropWhile fun character => character.toNat ≤ 32).filter (· ∉ ['\t', '\r', '\n'])

def splitScheme (url : Text) : Text × Text :=
  let (name, rest) := cut ':' url
  if ':' ∈ url ∧ name.head?.any isAsciiAlpha ∧ name.all schemeChar then
    (name.map Char.toLower, rest)
  else ([], url)

def ends (character : Char) : Bool := character ∈ ['/', '?', '#']

def splitNetloc (url : Text) : Text × Text :=
  match url with
  | '/' :: '/' :: rest =>
    (rest.takeWhile fun character => !ends character, rest.dropWhile fun character => !ends character)
  | _ => ([], url)

def hexDigit (character : Char) : Option Nat :=
  if '0' ≤ character ∧ character ≤ '9' then some (character.toNat - 48)
  else if 'a' ≤ character ∧ character ≤ 'f' then some (character.toNat - 87)
  else if 'A' ≤ character ∧ character ≤ 'F' then some (character.toNat - 55)
  else none

-- `v[a-fA-F0-9]+\..+`
def ipvFuture (hostname : Text) : Bool :=
  match hostname with
  | 'v' :: rest =>
    let (version, address) := cut '.' rest
    version ≠ [] && version.all (hexDigit · |>.isSome) && address ≠ []
  | _ => false

variable (checks : Checks)

-- An address of version 6 has three parts between colons at least.
def bracketedHost (hostname : Text) : Bool :=
  if hostname.head? = some 'v' then ipvFuture hostname
  else 2 ≤ hostname.count ':' && checks.ipv6 hostname

def bracketedNetloc (netloc : Text) : Bool :=
  let hostAndPort := afterLast '@' netloc
  if '[' ∈ hostAndPort then
    let (before, bracketed) := cut '[' hostAndPort
    let (hostname, port) := cut ']' bracketed
    before = [] && (port = [] || port.head? = some ':') && bracketedHost checks hostname
  else bracketedHost checks (cut ':' hostAndPort).1

def netlocAccepted (netloc : Text) : Bool :=
  decide ('[' ∈ netloc ↔ ']' ∈ netloc) && (decide ('[' ∉ netloc) || bracketedNetloc checks netloc) &&
    (netloc.all (·.toNat < 128) || checks.nfkcSafe netloc)

-- What follows the network location, at its first `#` and the first `?` before that.
structure Tail where
  path : Text
  query : Text
  fragment : Text

def splitTail (text : Text) : Tail :=
  let (main, fragment) := cut '#' text
  let (path, query) := cut '?' main
  { path, query, fragment }

structure Split where
  scheme : Text
  netloc : Text
  tail : Tail

def urlsplit (url : Text) : Option Split :=
  let (scheme, rest) := splitScheme (clean url)
  let (netloc, tail) := splitNetloc rest
  if netlocAccepted checks netloc then some { scheme, netloc, tail := splitTail tail } else none

def usesParams : List Text :=
  ["", "ftp", "hdl", "prospero", "http", "imap", "https", "shttp", "rtsp", "rtsps", "rtspu", "sip",
    "sips", "mms", "sftp", "tel"].map String.toList

-- The path and its parameters: a `;` of the last segment starts them.
def splitParams (path : Text) : Text × Text :=
  let (segment, params) := cut ';' (afterLast '/' path)
  (throughLast '/' path ++ segment, params)

structure Parsed where
  scheme : Text
  netloc : Text
  path : Text
  params : Text
  query : Text
  fragment : Text
  deriving DecidableEq

def urlparse (url : Text) : Option Parsed :=
  (urlsplit checks url).map fun split =>
    let (path, params) :=
      if usesParams.contains split.scheme then splitParams split.tail.path else (split.tail.path, [])
    { scheme := split.scheme
      netloc := split.netloc
      path
      params
      query := split.tail.query
      fragment := split.tail.fragment }

end Parsing

section Unquoting

-- The octets of the escapes and of ASCII characters; other characters stay.
def octets : Text → List (Nat ⊕ Char)
  | '%' :: high :: low :: rest =>
    match hexDigit high, hexDigit low with
    | some upper, some lower => .inl (16 * upper + lower) :: octets rest
    | _, _ => .inl 37 :: octets (high :: low :: rest)
  | character :: rest =>
    (if character.toNat < 128 then .inl character.toNat else .inr character) :: octets rest
  | [] => []

-- A character of UTF-8 that is not complete: its bits so far and the bounds of the octets that it
-- still needs.
structure Pending where
  bits : Nat
  needs : List (Nat × Nat)

def Pending.start (octet : Nat) : Option Pending :=
  let tail := (0x80, 0xBF)
  if octet < 0x80 then some ⟨octet, []⟩
  else if 0xC2 ≤ octet ∧ octet ≤ 0xDF then some ⟨octet - 0xC0, [tail]⟩
  else if octet = 0xE0 then some ⟨0, [(0xA0, 0xBF), tail]⟩
  else if octet = 0xED then some ⟨0xD, [(0x80, 0x9F), tail]⟩
  else if 0xE1 ≤ octet ∧ octet ≤ 0xEF then some ⟨octet - 0xE0, [tail, tail]⟩
  else if octet = 0xF0 then some ⟨0, [(0x90, 0xBF), tail, tail]⟩
  else if octet = 0xF4 then some ⟨4, [(0x80, 0x8F), tail, tail]⟩
  else if 0xF1 ≤ octet ∧ octet ≤ 0xF3 then some ⟨octet - 0xF0, [tail, tail, tail]⟩
  else none

def replacement : Char := '\uFFFD'

def Pending.settle : Option Pending → Text × Option Pending
  | none => ([replacement], none)
  | some ⟨bits, []⟩ => ([Char.ofNat bits], none)
  | some pending => ([], some pending)

-- An octet that a character can not go on with ends it and starts over.
def Pending.next (pending : Option Pending) (octet : Nat) : Text × Option Pending :=
  match pending with
  | some ⟨bits, (low, high) :: needs⟩ =>
    if low ≤ octet ∧ octet ≤ high then settle (some ⟨64 * bits + octet % 64, needs⟩)
    else ((replacement :: (settle (start octet)).1), (settle (start octet)).2)
  | _ => settle (start octet)

-- `bytes.decode("utf-8", "replace")`, run by run.
def decode : Option Pending → List (Nat ⊕ Char) → Text
  | pending, [] => if pending.isSome then [replacement] else []
  | pending, .inl octet :: rest =>
    let (characters, pending) := Pending.next pending octet
    characters ++ decode pending rest
  | pending, .inr character :: rest =>
    (if pending.isSome then [replacement] else []) ++ character :: decode none rest

def unquote (text : Text) : Text := if '%' ∈ text then decode none (octets text) else text

end Unquoting

section Properties

namespace Parsed

variable (parsed : Parsed)

-- With an `@` the user name is a text, maybe the empty one.
def hasUserinfo : Prop := '@' ∈ parsed.netloc

instance : Decidable parsed.hasUserinfo := inferInstanceAs (Decidable (_ ∈ _))

def hostinfo : Text × Text :=
  let hostinfo := afterLast '@' parsed.netloc
  if '[' ∈ hostinfo then
    let (hostname, port) := cut ']' (cut '[' hostinfo).2
    (hostname, (cut ':' port).2)
  else cut ':' hostinfo

-- The zone of a scoped address keeps its case. Lower case is that of ASCII.
def hostname : Option Text :=
  let name := parsed.hostinfo.1
  if name = [] then none
  else some ((name.takeWhile (· ≠ '%')).map Char.toLower ++ name.dropWhile (· ≠ '%'))

-- `parsed.port`; `none` where it raises `ValueError`.
def port : Option (Option Nat) :=
  let port := parsed.hostinfo.2
  if port = [] then some none
  else if port.all Char.isDigit ∧ port.length ≤ 4300 then
    let number := Nat.ofDigitChars 10 port 0
    if number ≤ 65535 then some (some number) else none
  else none

end Parsed

end Properties

end MemoryCloud.Urls
