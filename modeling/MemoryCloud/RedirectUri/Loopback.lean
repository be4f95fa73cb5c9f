import MemoryCloud.RedirectUri.Model
import MemoryCloud.Shared.UrlPieces

set_option autoImplicit false

/-!
# Loopback URIs

A URI that counts as loopback is, in its normal text, `http` on one of three hosts with a port
of digits. Two of them that match have one text but for the host's letter case and the port.
-/

namespace MemoryCloud.RedirectUri

open Urls

section Text

variable {checks : Checks} {uri pattern redirectUri host : Text} {parsed stored incoming : Parsed}

def hostText (host : Text) : Text := if ':' ∈ host then '[' :: host ++ [']'] else host

structure LoopbackText (uri host port path after : Text) : Prop where
  text : normal uri = http ++ (schemeMark ++ (host ++ port ++ (path ++ after)))
  host : host.map Char.toLower ∈ loopbackHosts.map hostText
  port : port.head?.all (· = ':') ∧ port.tail.all Char.isDigit
  start : (path ++ after).head?.all ends

-- One loopback URI, but for the letter case of the host, the port, and a `;` that no parameter
-- follows.
def SameLoopback (uri other : Text) : Prop :=
  ∃ host otherHost port otherPort path otherPath after,
    LoopbackText uri host port path after ∧ LoopbackText other otherHost otherPort otherPath after ∧
    host.map Char.toLower = otherHost.map Char.toLower ∧ AlikePaths path otherPath

theorem loopbackParts_eq_some (found : loopbackParts checks uri = some parsed) :
    urlparse checks uri = some parsed ∧ parsed.scheme = http ∧
      (∃ host ∈ loopbackHosts, parsed.hostname = some host) ∧ ¬parsed.hasUserinfo ∧
      parsed.port ≠ none := by
  rw [loopbackParts] at found
  split at found
  next => cases found
  next other parses =>
    split_ifs at found with outside user unread
    cases found
    rw [not_or, not_not, not_not, List.contains_iff_mem] at outside
    obtain ⟨scheme, host⟩ := outside
    refine ⟨parses, scheme, ?_, user, unread⟩
    cases named : parsed.hostname with
    | none =>
      rw [named] at host
      exact absurd host (by decide)
    | some name =>
      rw [named] at host
      exact ⟨name, host, rfl⟩

theorem hostinfo_lower (named : parsed.hostname = some host) (noZone : '%' ∉ host) :
    parsed.hostinfo.1.map Char.toLower = host := by
  rw [Parsed.hostname] at named
  split at named
  next => cases named
  next =>
    injection named with named
    -- A zone would be in the host.
    have absent : '%' ∉ parsed.hostinfo.1 := by
      intro zone
      have whole := @List.takeWhile_append_dropWhile _ (fun character => character ≠ '%')
        parsed.hostinfo.1
      rcases List.mem_append.mp (whole.symm ▸ zone) with before | after
      next => exact not_mem_cut '%' _ before
      next => exact noZone (named ▸ List.mem_append_right _ after)
    have all : ∀ character ∈ parsed.hostinfo.1, decide (character ≠ '%') = true := by
      intro character listed
      exact decide_eq_true fun same => absent (same ▸ listed)
    rwa [List.takeWhile_eq_self_iff.mpr all, List.dropWhile_eq_nil_iff.mpr all,
      List.append_nil] at named

theorem toLower_colon {character : Char} (lower : character.toLower = ':') : character = ':' := by
  have spelled : character.toLower =
      if _ : character.val ≥ 'A'.val ∧ character.val ≤ 'Z'.val then _ else character := rfl
  rw [spelled] at lower
  split at lower
  next upper =>
    have value : (character.val + 32).toNat = 58 := congrArg (fun other => other.val.toNat) lower
    have least : 65 ≤ character.val.toNat := upper.1
    have greatest : character.val.toNat ≤ 90 := upper.2
    rw [UInt32.toNat_add] at value
    change (character.val.toNat + 32) % 2 ^ 32 = 58 at value
    omega
  next => exact lower

theorem noZone_of_loopback (listed : host ∈ loopbackHosts) : '%' ∉ host := by
  revert host
  decide

theorem no_version_of_loopback (listed : host ∈ loopbackHosts) : host.head? ≠ some 'v' := by
  revert host
  decide

theorem bracketed_colon (address : bracketedHost checks host = true) :
    host.head? = some 'v' ∨ ':' ∈ host := by
  rw [bracketedHost] at address
  split at address
  next version => exact Or.inl version
  next =>
    rw [Bool.and_eq_true, decide_eq_true_eq] at address
    exact Or.inr (List.count_pos_iff.mp (Nat.lt_of_lt_of_le (by decide) address.1))

theorem port_digits (read : parsed.port ≠ none) : parsed.hostinfo.2.all Char.isDigit = true := by
  rw [Parsed.port] at read
  dsimp only at read
  split_ifs at read with empty digits
  next => rw [empty]; rfl
  next => exact digits.1
  next => exact absurd rfl read
  next => exact absurd rfl read

theorem authority_text {port : Text} (listed : host ∈ loopbackHosts)
    (named : parsed.hostname = some host)
    (spelled : (':' ∉ parsed.hostinfo.1 ∧ parsed.netloc = parsed.hostinfo.1 ++ port) ∨
      (bracketedHost checks parsed.hostinfo.1 = true ∧
        parsed.netloc = '[' :: parsed.hostinfo.1 ++ ']' :: port)) :
    ∃ text, parsed.netloc = text ++ port ∧ text.map Char.toLower = hostText host := by
  have lower := hostinfo_lower named (noZone_of_loopback listed)
  rcases spelled with ⟨noColon, text⟩ | ⟨address, text⟩
  next =>
    have absent : ':' ∉ host := by
      rw [← lower, List.mem_map]
      rintro ⟨character, inside, same⟩
      exact noColon (toLower_colon same ▸ inside)
    exact ⟨_, text, lower.trans (if_neg absent).symm⟩
  next =>
    -- The only host that an address in brackets can be is the one with colons.
    have colon : ':' ∈ host := by
      rcases bracketed_colon address with version | colon
      next =>
        have first : host.head? = some 'v' := by rw [← lower, List.head?_map, version]; rfl
        exact absurd first (no_version_of_loopback listed)
      next => exact lower ▸ List.mem_map_of_mem colon
    refine ⟨'[' :: parsed.hostinfo.1 ++ [']'], ?_, ?_⟩
    next => rw [text, List.append_assoc]; rfl
    next =>
      rw [hostText, if_pos colon, ← lower]
      simp

theorem loopback_text (found : loopbackParts checks uri = some parsed) :
    ∃ host port path,
      LoopbackText uri host port path (delimited '?' parsed.query ++ delimited '#' parsed.fragment) ∧
        splitParams path = (parsed.path, parsed.params) ∧
        parsed.hostname.map hostText = some (host.map Char.toLower) := by
  obtain ⟨parses, scheme, ⟨name, listed, named⟩, user, read⟩ := loopbackParts_eq_some found
  obtain ⟨split, splits, pieces⟩ := urlparse_refines parses (by rw [scheme]; decide)
  have netloc : split.netloc ≠ [] := by
    rw [pieces.netloc]
    intro empty
    rw [Parsed.hostname, Parsed.hostinfo, empty] at named
    cases named
  obtain ⟨port, portOf, spelled⟩ :=
    hostinfo_spelled (pieces.netloc ▸ urlsplit_accepted splits) user
  obtain ⟨host, authority, lower⟩ := authority_text listed named spelled
  obtain ⟨_, _, spelling⟩ :=
    urlsplit_spelled splits (by rw [pieces.scheme, scheme]; decide) netloc
  have text := spelling.normal_eq
  have start := spelling.joined_start
  rw [Tail.joined, pieces.query, pieces.fragment, List.append_assoc] at text start
  rw [pieces.scheme, pieces.netloc, scheme, authority] at text
  refine ⟨host, port, split.tail.path, ⟨text, ?_, ⟨portOf.colon, ?_⟩, start⟩, pieces.path, ?_⟩
  next => exact lower ▸ List.mem_map_of_mem listed
  next => exact portOf.digits ▸ port_digits read
  next => rw [named, lower]; rfl

theorem sameLoopback_of_pieces (first : loopbackParts checks pattern = some stored)
    (second : loopbackParts checks uri = some incoming) (hosts : stored.hostname = incoming.hostname)
    (paths : stored.path = incoming.path) (params : stored.params = incoming.params)
    (queries : stored.query = incoming.query) (fragments : stored.fragment = incoming.fragment) :
    SameLoopback pattern uri := by
  obtain ⟨host, port, path, text, split, lower⟩ := loopback_text first
  obtain ⟨otherHost, otherPort, otherPath, otherText, otherSplit, otherLower⟩ := loopback_text second
  rw [queries, fragments] at text
  rw [paths, params, ← otherSplit] at split
  rw [hosts, otherLower] at lower
  exact ⟨host, otherHost, port, otherPort, path, otherPath, _, text, otherText,
    (Option.some.inj lower).symm, alikePaths_of_splitParams split⟩

end Text

end MemoryCloud.RedirectUri
