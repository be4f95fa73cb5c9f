import Mathlib.Data.List.Infix
import MemoryCloud.Shared.Urls

set_option autoImplicit false

/-!
# Patterns of redirect URIs

A client registers patterns: a URI, or a URI with a trailing wildcard that stands for one more
segment of its path.
-/

namespace MemoryCloud.RedirectUri

open Urls

def wildcardSuffix : Text := ['/', '*']

def loopbackHosts : List Text := ["localhost", "127.0.0.1", "::1"].map String.toList

def http : Text := "http".toList

section Matching

variable (checks : Checks)

def loopbackParts (uri : Text) : Option Parsed :=
  match urlparse checks uri with
  | none => none
  | some parsed =>
    if parsed.scheme ≠ http ∨ ¬loopbackHosts.contains (parsed.hostname.getD []) then none
    else if parsed.hasUserinfo then none
    else if parsed.port = none then none
    else some parsed

def loopbackAuthorityMatches (stored incoming : Parsed) : Bool := stored.hostname = incoming.hostname

-- `pattern[: -len(WILDCARD_SUFFIX)]`
def withoutSuffix (pattern : Text) : Text := pattern.take (pattern.length - wildcardSuffix.length)

def stripSlashes (path : Text) : Text :=
  ((path.dropWhile (· = '/')).reverse.dropWhile (· = '/')).reverse

-- `none` where `urlparse` raises `ValueError`.
def isValidRedirectUriPattern (pattern : Text) : Option Bool :=
  if pattern = [] then some false
  else
    let isWildcard : Bool := wildcardSuffix <:+ pattern
    if '*' ∈ pattern ∧ (isWildcard = false ∨ pattern.count '*' ≠ 1) then some false
    else do
      let parsed ← urlparse checks (if isWildcard then withoutSuffix pattern else pattern)
      if ¬[http, "https".toList].contains parsed.scheme then return false
      if parsed.netloc = [] then return false
      if isWildcard then
        if parsed.query ≠ [] ∨ parsed.fragment ≠ [] then return false
        if stripSlashes parsed.path = [] then return false
      return true

def isSinglePathSegment (segment : Text) : Bool :=
  if segment = [] then false
  else if '/' ∈ segment then false
  else !(decide (segment = ['.']) || decide (['.', '.'] <:+: segment))

def redirectUriMatches (pattern redirectUri : Text) : Option Bool :=
  if pattern = [] then some false
  else if '*' ∈ redirectUri then some false
  else if pattern = redirectUri then some true
  else
    let incomingLoopback := loopbackParts checks redirectUri
    if ¬wildcardSuffix <:+ pattern then
      match loopbackParts checks pattern, incomingLoopback with
      | some stored, some incoming =>
        some (loopbackAuthorityMatches stored incoming && stored.path = incoming.path &&
          stored.params = incoming.params && stored.query = incoming.query &&
          stored.fragment = incoming.fragment)
      | _, _ => some false
    else do
      let stored ← urlparse checks (withoutSuffix pattern)
      let incoming ← urlparse checks redirectUri
      if stored.scheme ≠ incoming.scheme then return false
      match loopbackParts checks (withoutSuffix pattern), incomingLoopback with
      | some storedLoopback, some incomingLoopback =>
        if ¬loopbackAuthorityMatches storedLoopback incomingLoopback then return false
      | _, _ => if stored.netloc ≠ incoming.netloc then return false
      if incoming.query ≠ [] ∨ incoming.fragment ≠ [] then return false
      let pinned := stored.path ++ ['/']
      if ¬pinned <+: incoming.path then return false
      return isSinglePathSegment (unquote (incoming.path.drop pinned.length))

end Matching

end MemoryCloud.RedirectUri
