import MemoryCloud.RedirectUri.Loopback

set_option autoImplicit false

/-!
# What a pattern pins

A pattern that is no loopback URI accepts its own text only. With a wildcard it accepts its own text
and one segment more, as far as parameters stay out of both.
-/

namespace MemoryCloud.RedirectUri

open Urls

section Patterns

variable {checks : Checks} {pattern pinned redirectUri segment : Text} {stored incoming : Parsed}

structure PlainSegment (segment : Text) : Prop where
  nonempty : segment ≠ []
  stays : segment ≠ ['.']
  single : '/' ∉ segment
  climbs : ¬['.', '.'] <:+: segment

theorem isSinglePathSegment_iff : isSinglePathSegment segment = true ↔ PlainSegment segment := by
  rw [isSinglePathSegment]
  constructor
  next =>
    intro accepted
    split_ifs at accepted with empty slash
    rw [Bool.not_eq_true', Bool.or_eq_false_iff, decide_eq_false_iff_not,
      decide_eq_false_iff_not] at accepted
    exact ⟨empty, accepted.1, slash, accepted.2⟩
  next =>
    intro plain
    rw [if_neg plain.nonempty, if_neg plain.single, decide_eq_false plain.stays,
      decide_eq_false plain.climbs]
    rfl

theorem withoutSuffix_append (pinned : Text) : withoutSuffix (pinned ++ wildcardSuffix) = pinned := by
  rw [withoutSuffix, List.length_append, Nat.add_sub_cancel, List.take_left]

theorem suffix_of_wildcard (pinned : Text) : wildcardSuffix <:+ pinned ++ wildcardSuffix :=
  List.suffix_append _ _

theorem guard_passed {refused : Prop} [Decidable refused] {rest : Option Bool}
    (accepted : (if refused then some false else rest) = some true) : ¬refused ∧ rest = some true := by
  split at accepted
  next => cases accepted
  next passed => exact ⟨passed, accepted⟩

theorem redirectUriMatches_exact (exact' : ¬wildcardSuffix <:+ pattern)
    (accepted : redirectUriMatches checks pattern redirectUri = some true) :
    redirectUri = pattern ∨ ∃ stored incoming, loopbackParts checks pattern = some stored ∧
      loopbackParts checks redirectUri = some incoming ∧ stored.hostname = incoming.hostname ∧
      stored.path = incoming.path ∧ stored.params = incoming.params ∧
      stored.query = incoming.query ∧ stored.fragment = incoming.fragment := by
  rw [redirectUriMatches] at accepted
  obtain ⟨_, accepted⟩ := guard_passed accepted
  obtain ⟨_, accepted⟩ := guard_passed accepted
  by_cases same : pattern = redirectUri
  next => exact Or.inl same.symm
  next =>
    dsimp only at accepted
    rw [if_neg same, if_pos exact'] at accepted
    split at accepted
    next stored incoming storedFound incomingFound =>
      simp only [Option.some.injEq, Bool.and_eq_true, decide_eq_true_eq,
        loopbackAuthorityMatches] at accepted
      obtain ⟨⟨⟨⟨host, path⟩, params⟩, query⟩, fragment⟩ := accepted
      exact Or.inr ⟨stored, incoming, storedFound, incomingFound, host, path, params, query, fragment⟩
    next => cases accepted

theorem redirectUriMatches_wildcard (elsewhere : loopbackParts checks pinned = none)
    (accepted : redirectUriMatches checks (pinned ++ wildcardSuffix) redirectUri = some true) :
    ∃ stored incoming segment, urlparse checks pinned = some stored ∧
      urlparse checks redirectUri = some incoming ∧ stored.scheme = incoming.scheme ∧
      stored.netloc = incoming.netloc ∧ incoming.query = [] ∧ incoming.fragment = [] ∧
      incoming.path = stored.path ++ '/' :: segment ∧ PlainSegment (unquote segment) := by
  rw [redirectUriMatches] at accepted
  obtain ⟨_, accepted⟩ := guard_passed accepted
  obtain ⟨star, accepted⟩ := guard_passed accepted
  -- The pattern has a star, the URI has none.
  have other : pinned ++ wildcardSuffix ≠ redirectUri := by
    rintro rfl
    exact star (List.mem_append_right _ (by decide))
  dsimp only at accepted
  rw [if_neg other, if_neg (not_not_intro (suffix_of_wildcard pinned)), withoutSuffix_append,
    elsewhere, Option.bind_eq_bind, Option.bind_eq_some_iff] at accepted
  obtain ⟨stored, storedFound, accepted⟩ := accepted
  rw [Option.bind_eq_some_iff] at accepted
  obtain ⟨incoming, incomingFound, accepted⟩ := accepted
  obtain ⟨scheme, accepted⟩ := guard_passed accepted
  obtain ⟨netloc, accepted⟩ := guard_passed accepted
  obtain ⟨extra, accepted⟩ := guard_passed accepted
  obtain ⟨leads, accepted⟩ := guard_passed accepted
  rw [not_or, not_not, not_not] at extra
  rw [not_not] at scheme netloc leads
  obtain ⟨segment, path⟩ := leads
  rw [← path, List.drop_left] at accepted
  refine ⟨stored, incoming, segment, storedFound, incomingFound, scheme, netloc, extra.1, extra.2,
    ?_, isSinglePathSegment_iff.mp (Option.some.inj accepted)⟩
  rw [← path, List.append_assoc]
  rfl

theorem isValid_wildcard
    (valid : isValidRedirectUriPattern checks (pinned ++ wildcardSuffix) = some true) :
    ∃ stored, urlparse checks pinned = some stored ∧ [http, "https".toList].contains stored.scheme ∧
      stored.netloc ≠ [] ∧ stored.query = [] ∧ stored.fragment = [] := by
  rw [isValidRedirectUriPattern] at valid
  obtain ⟨_, valid⟩ := guard_passed valid
  obtain ⟨_, valid⟩ := guard_passed valid
  rw [decide_eq_true (suffix_of_wildcard pinned), if_pos rfl, withoutSuffix_append,
    Option.bind_eq_bind, Option.bind_eq_some_iff] at valid
  obtain ⟨stored, found, valid⟩ := valid
  obtain ⟨scheme, valid⟩ := guard_passed valid
  obtain ⟨netloc, valid⟩ := guard_passed valid
  obtain ⟨extra, _⟩ := guard_passed valid
  rw [not_or, not_not, not_not] at extra
  exact ⟨stored, found, not_not.mp scheme, netloc, extra.1, extra.2⟩

def carriesParams (checks : Checks) (uri : Text) : Bool :=
  (urlsplit checks uri).any fun split => ';' ∈ afterLast '/' split.tail.path

theorem normal_of_urlparse {uri : Text} {parsed : Parsed} (found : urlparse checks uri = some parsed)
    (scheme : [http, "https".toList].contains parsed.scheme) (netloc : parsed.netloc ≠ [])
    (query : parsed.query = []) (fragment : parsed.fragment = [])
    (plain : carriesParams checks uri = false) :
    normal uri = parsed.scheme ++ (schemeMark ++ (parsed.netloc ++ parsed.path)) := by
  have uses : usesParams.contains parsed.scheme ∧ parsed.scheme ≠ [] := by
    rw [List.contains_iff_mem] at scheme ⊢
    revert scheme
    generalize parsed.scheme = scheme
    revert scheme
    decide
  obtain ⟨split, splits, pieces⟩ := urlparse_refines found uses.1
  have path : split.tail.path = parsed.path := by
    rw [carriesParams, splits] at plain
    have whole := splitParams_of_not_mem (of_decide_eq_false plain)
    exact congrArg Prod.fst (whole.symm.trans pieces.path)
  rw [normal_of_urlsplit splits (pieces.scheme ▸ uses.2) (pieces.netloc ▸ netloc), Tail.joined,
    pieces.scheme, pieces.netloc, pieces.query, pieces.fragment, query, fragment, path]
  simp [delimited]

-- An exact pattern accepts its own text, or one loopback URI accepts another. A wildcard accepts
-- one plain segment after the text before it.
theorem pattern_pins_endpoint
    (valid : isValidRedirectUriPattern checks pattern = some true)
    (accepted : redirectUriMatches checks pattern redirectUri = some true) :
    (¬wildcardSuffix <:+ pattern → loopbackParts checks pattern = none → redirectUri = pattern) ∧
      (¬wildcardSuffix <:+ pattern → (loopbackParts checks pattern).isSome →
        SameLoopback pattern redirectUri) ∧
      ∀ pinned, pattern = pinned ++ wildcardSuffix → loopbackParts checks pinned = none →
        carriesParams checks pinned = false → carriesParams checks redirectUri = false →
          ∃ segment, normal redirectUri = normal pinned ++ '/' :: segment ∧
            PlainSegment (unquote segment) := by
  refine ⟨?_, ?_, ?_⟩
  next =>
    intro exact' elsewhere
    rcases redirectUriMatches_exact exact' accepted with same | ⟨_, _, loopback, _⟩
    next => exact same
    next => cases elsewhere.symm.trans loopback
  next =>
    intro exact' loopback
    rcases redirectUriMatches_exact exact' accepted with
      rfl | ⟨stored, incoming, first, second, host, path, params, query, fragment⟩
    next =>
      obtain ⟨stored, found⟩ := Option.isSome_iff_exists.mp loopback
      exact sameLoopback_of_pieces found found rfl rfl rfl rfl rfl
    next => exact sameLoopback_of_pieces first second host path params query fragment
  next =>
    rintro pinned rfl elsewhere pinnedPlain plain
    obtain ⟨stored, incoming, segment, storedFound, incomingFound, scheme, netloc, query, fragment,
      path, single⟩ := redirectUriMatches_wildcard elsewhere accepted
    obtain ⟨_, found, allowed, located, noQuery, noFragment⟩ := isValid_wildcard valid
    cases storedFound.symm.trans found
    refine ⟨segment, ?_, single⟩
    rw [normal_of_urlparse incomingFound (scheme ▸ allowed) (netloc ▸ located) query fragment plain,
      normal_of_urlparse storedFound allowed located noQuery noFragment pinnedPlain, path, scheme,
      netloc]
    simp only [List.append_assoc]

theorem endpoint_pinned_at_host :
    (∃ segment, normal "https://h/p/x".toList = normal "https://h/p".toList ++ '/' :: segment ∧
        PlainSegment (unquote segment)) ∧
      SameLoopback "http://localhost/cb".toList "http://LocalHost:3000/cb?".toList := by
  let checks : Checks := { ipv6 := fun _ => false, nfkcSafe := fun _ => true }
  constructor
  next =>
    have wildcard := @pattern_pins_endpoint checks "https://h/p/*".toList "https://h/p/x".toList
      (by decide +kernel) (by decide +kernel)
    exact wildcard.2.2 "https://h/p".toList rfl (by decide +kernel) (by decide +kernel)
      (by decide +kernel)
  next =>
    have loopback := @pattern_pins_endpoint checks "http://localhost/cb".toList
      "http://LocalHost:3000/cb?".toList (by decide +kernel) (by decide +kernel)
    exact loopback.2.1 (by decide +kernel) (by decide +kernel)

-- Neither text is the one before the wildcard and a plain segment.
theorem leading_space_and_parameters_accepted :
    let checks : Checks := { ipv6 := fun _ => false, nfkcSafe := fun _ => true }
    let pinned := "https://h/p".toList
    isValidRedirectUriPattern checks (pinned ++ wildcardSuffix) = some true ∧
      loopbackParts checks pinned = none ∧
      ∀ uri ∈ [" https://h/p/x".toList, "https://h/p/x;..".toList],
        redirectUriMatches checks (pinned ++ wildcardSuffix) uri = some true ∧
          ¬∃ segment, lowered (tidied (uri.filter (· ∉ ['\t', '\r', '\n']))) = pinned ++ '/' :: segment ∧
            PlainSegment (unquote segment) := by
  intro checks pinned
  refine ⟨by decide +kernel, by decide +kernel, ?_⟩
  intro uri listed
  rcases List.mem_cons.mp listed with rfl | listed
  next =>
    refine ⟨by decide +kernel, ?_⟩
    rintro ⟨segment, text, _⟩
    cases text
  next =>
    obtain rfl := List.mem_singleton.mp listed
    refine ⟨by decide +kernel, ?_⟩
    rintro ⟨segment, text, plain⟩
    -- The text leaves one segment, and it holds two dots.
    have same : segment = "x;..".toList := by
      have whole : pinned ++ '/' :: "x;..".toList = pinned ++ '/' :: segment := text
      exact (List.cons.inj (List.append_cancel_left whole)).2.symm
    subst same
    exact plain.climbs (by decide)

end Patterns

end MemoryCloud.RedirectUri
