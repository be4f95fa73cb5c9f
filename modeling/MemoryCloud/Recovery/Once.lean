import MemoryCloud.Recovery.Model
import Mathlib.Data.List.Nodup
import Mathlib.Data.List.TakeWhile

set_option autoImplicit false

/-!
# Every recovery code is used at most once

An entry of the stored list keeps its digest through every reservation and every restore, so
the digests of the entries are at all times those of the standing codes not yet used. Each
acceptance takes away the one entry of its code.
-/

namespace MemoryCloud.Recovery

section Text

theorem ne_colon {text : List Char} (plain : ':' ∉ text) :
    ∀ character ∈ text, decide (character ≠ ':') = true := by
  intro character listed
  refine decide_eq_true fun same => plain ?_
  exact same ▸ listed

theorem partition_plain {value : String} (plain : ':' ∉ value.toList) :
    partition value = (value, "") := by
  have passes := ne_colon plain
  rw [partition, List.takeWhile_eq_self_iff.mpr passes, List.dropWhile_eq_nil_iff.mpr passes]
  simp

theorem partition_colon {head : String} (tail : String) (plain : ':' ∉ head.toList) :
    partition (head ++ ":" ++ tail) = (head, tail) := by
  have passes := ne_colon plain
  have spelled : (head ++ ":" ++ tail).toList = head.toList ++ ':' :: tail.toList := by simp
  rw [partition, spelled, List.takeWhile_append_of_pos passes, List.dropWhile_append_of_pos passes,
    List.takeWhile_cons_of_neg (by simp), List.dropWhile_cons_of_neg (by simp)]
  simp

theorem toList_toString (number : Nat) : (toString number).toList = Nat.toDigits 10 number := by
  simp [Nat.toString_eq_repr, Nat.repr]

theorem plain_toString (number : Nat) : ':' ∉ (toString number).toList := by
  rw [toList_toString]
  intro listed
  have digit := Nat.isDigit_of_mem_toDigits (by omega) (by omega) listed
  exact absurd digit (by decide)

theorem isdecimal_toString (number : Nat) : isdecimal (toString number) = true := by
  have filled : (toString number).toList ≠ [] := toList_toString number ▸ Nat.toDigits_ne_nil
  have digits : (toString number).toList.all Char.isDigit = true := by
    rw [toList_toString, List.all_eq_true]
    exact fun character listed => Nat.isDigit_of_mem_toDigits (by omega) (by omega) listed
  have nonempty : (toString number).isEmpty = false := by
    rw [Bool.eq_false_iff]
    intro empty
    exact filled (String.toList_eq_nil_iff.mpr (String.isEmpty_iff.mp empty))
  rw [isdecimal, digits, nonempty]
  rfl

theorem int_toString (number : Nat) : int (toString number) = number := by
  rw [int, toList_toString, Nat.ofDigitChars_ten_toDigits]

end Text

section Entries

def stem (value : String) : String := (partition value).1

theorem stem_plain {value : String} (plain : ':' ∉ value.toList) : stem value = value := by
  rw [stem, partition_plain plain]

theorem partition_marker {digest : String} (plain : ':' ∉ digest.toList) (expires : Nat)
    (nonce : String) :
    partition (marker digest expires nonce) = (digest, toString expires ++ ":" ++ nonce) := by
  have spelled : marker digest expires nonce = digest ++ ":" ++ (toString expires ++ ":" ++ nonce) := by
    simp only [marker, String.append_assoc]
  rw [spelled, partition_colon _ plain]

theorem stem_marker {digest : String} (plain : ':' ∉ digest.toList) (expires : Nat)
    (nonce : String) : stem (marker digest expires nonce) = digest := by
  rw [stem, partition_marker plain]

theorem stem_of_available {now : ℚ} {value digest : String}
    (free : available now value digest = true) : stem value = digest := by
  simp only [available] at free
  split at free
  next => cases free
  next same => exact Decidable.not_not.mp same

theorem available_plain (now : ℚ) {digest : String} (plain : ':' ∉ digest.toList) :
    available now digest digest = true := by
  simp [available, partition_plain plain]

theorem available_marker {now : ℚ} {digest : String} (plain : ':' ∉ digest.toList) (expires : Nat)
    (nonce : String) :
    available now (marker digest expires nonce) digest = true ↔ (expires : ℚ) ≤ now := by
  have reserved : (toString expires ++ ":" ++ nonce).isEmpty = false := by
    rw [Bool.eq_false_iff]
    intro empty
    simpa using congrArg String.toList (String.isEmpty_iff.mp empty)
  simp only [available, partition_marker plain, reserved, isdecimal_toString, int_toString,
    partition_colon nonce (plain_toString expires)]
  simp

theorem stems_without {values : List String} (distinct : (values.map stem).Nodup) {value : String}
    (listed : value ∈ values) :
    (values.map stem).Perm (stem value :: (values.filter fun other => other ≠ value).map stem) := by
  have nodup : values.Nodup := List.Nodup.of_map _ distinct
  have rest : values.erase value = values.filter fun other => other ≠ value := by
    rw [nodup.erase_eq_filter]
    exact List.filter_congr fun other _ => by simp [bne, beq_eq_decide]
  rw [← rest]
  exact (List.perm_cons_erase listed).map stem

theorem entry_unique {values : List String} (distinct : (values.map stem).Nodup)
    {left right : String} (first : left ∈ values) (second : right ∈ values)
    (same : stem left = stem right) : left = right :=
  List.inj_on_of_nodup_map distinct first second same

end Entries

section Invariant

variable (sha256 : String → String)

def State.unused (state : State) : List String :=
  (state.standing.map (digest sha256)).filter fun code => code ∉ state.accepted

structure Holds (state : State) : Prop where
  stems : (state.account.hashes.map stem).Perm (state.unused sha256)
  enabled : state.account.hashes ≠ [] → state.account.totpEnabled = true
  claims : ∀ claim ∈ state.claims, ':' ∉ claim.digest.toList ∧
    ∃ nonce, claim.marker = marker claim.digest claim.expires nonce
  issued : (state.issued.map (digest sha256)).Nodup
  standing : state.standing.Sublist state.issued
  once : state.accepted.Nodup
  accepted : ∀ code ∈ state.accepted, code ∈ state.issued.map (digest sha256)

variable {sha256 : String → String} {state : State}

theorem Holds.unused_nodup (holds : Holds sha256 state) : (state.unused sha256).Nodup :=
  ((holds.standing.map _).nodup holds.issued).filter _

theorem Holds.distinct (holds : Holds sha256 state) : (state.account.hashes.map stem).Nodup :=
  holds.stems.nodup_iff.mpr holds.unused_nodup

theorem unused_accept {code : String} (nodup : (state.unused sha256).Nodup)
    (listed : code ∈ state.unused sha256) :
    (state.unused sha256).Perm (code :: (state.accept code true).unused sha256) := by
  have rest : (state.accept code true).unused sha256 = (state.unused sha256).erase code := by
    rw [nodup.erase_eq_filter]
    simp only [State.unused, State.accept, if_true, List.filter_filter]
    refine List.filter_congr fun other _ => ?_
    simp [and_comm, bne, beq_eq_decide]
  rw [rest]
  exact List.perm_cons_erase listed

theorem Holds.accepting (holds : Holds sha256 state) {account : Account} {value : String}
    (listed : value ∈ state.account.hashes)
    (remaining : account.hashes = state.account.hashes.filter fun other => other ≠ value)
    (same : account.totpEnabled = state.account.totpEnabled) :
    Holds sha256 ({ state with account }.accept (stem value) true) := by
  have open_ : stem value ∈ state.unused sha256 :=
    holds.stems.mem_iff.mp (List.mem_map_of_mem listed)
  have fresh := (List.mem_filter.mp open_).2
  have known : stem value ∈ state.issued.map (digest sha256) :=
    (holds.standing.map _).subset (List.mem_filter.mp open_).1
  constructor
  case stems =>
    have entries := stems_without holds.distinct listed
    rw [← remaining] at entries
    exact ((entries.symm.trans holds.stems).trans
      (unused_accept holds.unused_nodup open_)).cons_inv
  case enabled =>
    intro filled
    refine same.trans (holds.enabled ?_)
    rintro empty
    simp [State.accept, remaining, empty] at filled
  case claims => exact holds.claims
  case issued => exact holds.issued
  case standing => exact holds.standing
  case once =>
    refine List.nodup_append.mpr ⟨holds.once, List.pairwise_singleton _ _, ?_⟩
    rintro code old _ new rfl
    simp [List.mem_singleton.mp new ▸ old] at fresh
  case accepted =>
    intro code listed
    rcases List.mem_append.mp listed with old | new
    next => exact holds.accepted code old
    next => exact List.mem_singleton.mp new ▸ known

end Invariant

section Effects

variable {sha256 : String → String} {state : State} {now : ℚ} {account : Account} {code : String}

theorem exists_available {values : List String}
    (fewer : (values.filter fun value => !available now value code).length ≠ values.length) :
    ∃ value ∈ values, available now value code = true := by
  by_contra none_
  push Not at none_
  refine fewer (congrArg List.length (List.filter_eq_self.mpr fun value listed => ?_))
  simp [none_ value listed]

theorem takeLockedCode_some (distinct : (state.account.hashes.map stem).Nodup)
    (taken : takeLockedCode sha256 now state.account code = some account) :
    ∃ value ∈ state.account.hashes, stem value = digest sha256 code ∧
      account.hashes = (state.account.hashes.filter fun other => other ≠ value) ∧
      account.totpEnabled = state.account.totpEnabled := by
  simp only [takeLockedCode] at taken
  split at taken
  next => cases taken
  split at taken
  next => cases taken
  next fewer =>
    cases taken
    obtain ⟨value, listed, free⟩ := exists_available fewer
    have same := stem_of_available free
    refine ⟨value, listed, same, List.filter_congr fun other known => ?_, rfl⟩
    by_cases equal : other = value
    next => simp [equal, free]
    next =>
      have busy : available now other (digest sha256 code) = false := by
        rw [← Bool.not_eq_true]
        intro also
        exact equal (entry_unique distinct known listed ((stem_of_available also).trans same.symm))
      simp [equal, busy]

theorem Holds.take (holds : Holds sha256 state)
    (taken : takeLockedCode sha256 now state.account code = some account) :
    Holds sha256 ({ state with account }.accept (digest sha256 code) true) := by
  obtain ⟨value, listed, same, remaining, enabled⟩ := takeLockedCode_some holds.distinct taken
  exact same ▸ holds.accepting listed remaining enabled

theorem Holds.verified (holds : Holds sha256 state) {totp taken : Bool}
    (passed : verifyActiveFactor sha256 now state.account code totp = some (account, taken)) :
    Holds sha256 ({ state with account }.accept (digest sha256 code) taken) := by
  simp only [verifyActiveFactor] at passed
  split at passed
  next => cases passed
  split at passed
  next found =>
    cases passed
    exact holds.take found
  next =>
    split at passed
    next =>
      cases passed
      exact holds
    next => cases passed

theorem Holds.settle_audit (holds : Holds sha256 state) {claim : RecoveryClaim}
    (made : claim ∈ state.claims)
    (settled : settleLoginCode now state.account claim true = some account) :
    Holds sha256 ({ state with account }.accept claim.digest true) := by
  obtain ⟨plain, nonce, spelled⟩ := holds.claims claim made
  simp only [settleLoginCode] at settled
  split at settled
  next => cases settled
  next present =>
    split at settled
    next => cases settled
    next =>
      cases settled
      simp only [Bool.not_eq_true', Bool.or_eq_true, decide_eq_true_eq, not_or, not_not,
        Bool.not_eq_false] at present
      have same : stem claim.marker = claim.digest := by rw [spelled, stem_marker plain]
      exact same ▸ holds.accepting present.2 rfl rfl

-- A reservation or a restore keeps the digests of the entries.
theorem Holds.rewriting (holds : Holds sha256 state) {later : ℚ} {claims : List RecoveryClaim}
    (kept : (account.hashes.map stem).Perm (state.account.hashes.map stem))
    (same : account.totpEnabled = state.account.totpEnabled)
    (known : ∀ claim ∈ claims, ':' ∉ claim.digest.toList ∧
      ∃ nonce, claim.marker = marker claim.digest claim.expires nonce) :
    Holds sha256 { state with now := later, account, claims } where
  stems := kept.trans holds.stems
  enabled filled := by
    refine same.trans (holds.enabled ?_)
    rintro empty
    rw [empty] at kept
    exact filled (List.map_eq_nil_iff.mp kept.eq_nil)
  claims := known
  issued := holds.issued
  standing := holds.standing
  once := holds.once
  accepted := holds.accepted

theorem Holds.settle_failed (holds : Holds sha256 state) {claim : RecoveryClaim}
    (made : claim ∈ state.claims)
    (settled : settleLoginCode now state.account claim false = some account) :
    Holds sha256 { state with account } := by
  obtain ⟨plain, nonce, spelled⟩ := holds.claims claim made
  simp only [settleLoginCode] at settled
  split at settled
  next => cases settled
  next present =>
    cases settled
    simp only [Bool.not_eq_true', Bool.or_eq_true, decide_eq_true_eq, not_or, not_not,
      Bool.not_eq_false] at present
    have same : stem claim.marker = stem claim.digest := by
      rw [spelled, stem_marker plain, stem_plain plain]
    refine holds.rewriting ?_ rfl holds.claims
    simp only [Account.hashes, Option.getD_some, Bool.false_eq_true, if_false, List.map_append,
      List.map_cons, List.map_nil]
    refine List.perm_append_comm.trans (List.Perm.symm ?_)
    exact same ▸ stems_without holds.distinct present.2

theorem claimLoginCode_some {markedAt : ℚ} {nonce : String} {claim : RecoveryClaim}
    (claimed : claimLoginCode sha256 now markedAt nonce state.account code = some (claim, account)) :
    ∃ before value after, state.account.hashes = before ++ value :: after ∧
      available now value (digest sha256 code) = true ∧
      claim = ⟨digest sha256 code, marker (digest sha256 code) (⌊markedAt⌋.toNat + 300) nonce,
        ⌊markedAt⌋.toNat + 300⟩ ∧
      account = { state.account with
        totpRecoveryHashes := some (before ++ claim.marker :: after) } := by
  simp only [claimLoginCode] at claimed
  split at claimed
  next => cases claimed
  split at claimed
  next => cases claimed
  split at claimed
  next index found =>
    cases claimed
    obtain ⟨bound, free, _⟩ := List.findIdx?_eq_some_iff_getElem.mp found
    refine ⟨_, _, _, ?_, free, rfl, rfl⟩
    rw [List.cons_getElem_drop_succ, List.take_append_drop]
  next => cases claimed

theorem Holds.claim (hex : ∀ text, ':' ∉ (sha256 text).toList) (holds : Holds sha256 state)
    {markedAt later : ℚ} {nonce : String} {claim : RecoveryClaim}
    (claimed : claimLoginCode sha256 now markedAt nonce state.account code = some (claim, account)) :
    Holds sha256 { state with now := later, account, claims := state.claims ++ [claim] } := by
  obtain ⟨before, value, after, listed, free, rfl, rfl⟩ := claimLoginCode_some claimed
  have plain : ':' ∉ (digest sha256 code).toList := hex _
  refine holds.rewriting ?_ rfl fun claim made => ?_
  next =>
    have same : stem (marker (digest sha256 code) (⌊markedAt⌋.toNat + 300) nonce) = stem value :=
      (stem_marker plain _ _).trans (stem_of_available free).symm
    rw [listed]
    simp only [Account.hashes, Option.getD_some, List.map_append, List.map_cons, same]
    exact .refl _
  next =>
    rcases List.mem_append.mp made with old | new
    next => exact holds.claims claim old
    next =>
      rw [List.mem_singleton.mp new]
      exact ⟨plain, nonce, rfl⟩

theorem Holds.issue (hex : ∀ text, ':' ∉ (sha256 text).toList) (holds : Holds sha256 state)
    {raws : List String}
    (fresh : ((state.issued ++ (issueCodes sha256 raws).1).map (digest sha256)).Nodup) :
    Holds sha256 (state.issue sha256 raws) := by
  have split := List.nodup_append.mp (List.map_append ▸ fresh)
  constructor
  case stems =>
    have stems : ((raws.map dashed).map (digest sha256)).map stem =
        (raws.map dashed).map (digest sha256) := by
      rw [List.map_map]
      exact List.map_congr_left fun code _ => stem_plain (hex _)
    have all : (state.issue sha256 raws).unused sha256 = (raws.map dashed).map (digest sha256) := by
      refine List.filter_eq_self.mpr fun digest listed => ?_
      refine decide_eq_true fun old => ?_
      exact split.2.2 _ (holds.accepted digest old) _ listed rfl
    rw [all]
    exact .of_eq stems
  case enabled => exact fun _ => rfl
  case claims => exact holds.claims
  case issued => exact fresh
  case standing => exact List.sublist_append_right _ _
  case once => exact holds.once
  case accepted =>
    intro code old
    rw [State.issue, List.map_append]
    exact List.mem_append_left _ (holds.accepted code old)

theorem Holds.dropped (holds : Holds sha256 state) : Holds sha256 state.dropped where
  stems := .refl _
  enabled filled := absurd rfl filled
  claims := holds.claims
  issued := holds.issued
  standing := List.nil_sublist _
  once := holds.once
  accepted := holds.accepted

end Effects

section Runs

variable {sha256 : String → String} {state : State}

theorem Holds.step (hex : ∀ text, ':' ∉ (sha256 text).toList) (holds : Holds sha256 state)
    {action : Action} {next : State} (fresh : Unrepeated sha256 state action)
    (taken : step sha256 state action = some next) : Holds sha256 next := by
  cases action with
  | advance elapsed =>
    simp only [Recovery.step] at taken
    split at taken
    next => cases taken
    next =>
      cases taken
      exact ⟨holds.stems, holds.enabled, holds.claims, holds.issued, holds.standing, holds.once,
        holds.accepted⟩
  | claim code nonce elapsed =>
    simp only [Recovery.step] at taken
    split at taken
    next => cases taken
    next =>
      obtain ⟨⟨claim, account⟩, claimed, rfl⟩ := Option.map_eq_some_iff.mp taken
      exact holds.claim hex claimed
  | settle index audit =>
    obtain ⟨claim, found, moved⟩ := Option.bind_eq_some_iff.mp taken
    obtain ⟨account, settled, rfl⟩ := Option.map_eq_some_iff.mp moved
    have made := List.mem_of_getElem? found
    cases audit with
    | true => exact holds.settle_audit made settled
    | false => exact holds.settle_failed made settled
  | take code =>
    obtain ⟨account, accepted, rfl⟩ := Option.map_eq_some_iff.mp taken
    exact holds.take accepted
  | enable raws =>
    simp only [Recovery.step] at taken
    split at taken
    next => cases taken
    next =>
      cases taken
      exact holds.issue hex fresh
  | regenerate code totp raws =>
    obtain ⟨⟨account, accepted⟩, passed, rfl⟩ := Option.map_eq_some_iff.mp taken
    refine (holds.verified passed).issue hex ?_
    cases accepted <;> exact fresh
  | disable code totp =>
    obtain ⟨⟨account, accepted⟩, passed, rfl⟩ := Option.map_eq_some_iff.mp taken
    exact (holds.verified passed).dropped
  | reset =>
    cases taken
    exact holds.dropped

theorem holds_empty : Holds sha256 {} where
  stems := .refl _
  enabled filled := absurd rfl filled
  claims := nofun
  issued := .nil
  standing := List.nil_sublist _
  once := .nil
  accepted := nofun

theorem Holds.reached (hex : ∀ text, ':' ∉ (sha256 text).toList) (reached : Reached sha256 state) :
    Holds sha256 state :=
  reached.invariant (Holds sha256) holds_empty fun _ _ _ holds fresh taken =>
    holds.step hex fresh taken

theorem claimable_iff {account : Account} (enabled : account.totpEnabled = true) {code : String}
    (spelled : isRecoveryCode code = true) (now markedAt : ℚ) (nonce : String) :
    (claimLoginCode sha256 now markedAt nonce account code).isSome = true ↔
      ∃ value ∈ account.hashes, available now value (digest sha256 code) = true := by
  have found : (account.hashes.findIdx? fun value =>
      available now value (digest sha256 code)).isSome = true ↔
      ∃ value ∈ account.hashes, available now value (digest sha256 code) = true := by
    rw [List.findIdx?_isSome, List.any_eq_true]
  rw [← found]
  simp only [claimLoginCode, spelled, enabled, Bool.not_true, Bool.false_eq_true, if_false]
  cases account.hashes.findIdx? fun value => available now value (digest sha256 code) <;> rfl

theorem takeable_of_available {account : Account} {code : String}
    (spelled : isRecoveryCode code = true) {now : ℚ} {value : String}
    (listed : value ∈ account.hashes) (free : available now value (digest sha256 code) = true) :
    (takeLockedCode sha256 now account code).isSome = true := by
  have fewer : (account.hashes.filter fun value =>
      !available now value (digest sha256 code)).length ≠ account.hashes.length := by
    intro same
    have all := List.length_filter_eq_length_iff.mp same value listed
    simp [free] at all
  simp only [takeLockedCode, spelled, Bool.not_true, Bool.false_eq_true, if_false, fewer,
    Option.isSome_some]

structure Promises (sha256 : String → String) (state : State) : Prop where
  once : ∀ code ∈ state.issued, state.accepted.count (digest sha256 code) ≤ 1
  restored : ∀ claim ∈ state.claims, ∀ account,
    settleLoginCode state.now state.account claim false = some account →
    ∀ code, isRecoveryCode code = true → digest sha256 code = claim.digest →
    ∀ later markedAt nonce, (takeLockedCode sha256 later account code).isSome = true ∧
      (claimLoginCode sha256 later markedAt nonce account code).isSome = true
  expired : ∀ claim ∈ state.claims, claim.marker ∈ state.account.hashes →
    ∀ code, isRecoveryCode code = true → digest sha256 code = claim.digest →
    ∀ now markedAt nonce,
      (claimLoginCode sha256 now markedAt nonce state.account code).isSome = true ↔
        (claim.expires : ℚ) ≤ now
  entries : state.account.hashes.length ≤
    (state.standing.filter fun code => digest sha256 code ∉ state.accepted).length

theorem Holds.once_of_issued (holds : Holds sha256 state) (code : String) :
    state.accepted.count (digest sha256 code) ≤ 1 :=
  List.nodup_iff_count_le_one.mp holds.once _

theorem Holds.restored (holds : Holds sha256 state) {claim : RecoveryClaim}
    (made : claim ∈ state.claims) {account : Account}
    (settled : settleLoginCode state.now state.account claim false = some account)
    {code : String} (spelled : isRecoveryCode code = true)
    (same : digest sha256 code = claim.digest) (later markedAt : ℚ) (nonce : String) :
    (takeLockedCode sha256 later account code).isSome = true ∧
      (claimLoginCode sha256 later markedAt nonce account code).isSome = true := by
  obtain ⟨plain, _⟩ := holds.claims claim made
  have written : account.totpEnabled = true ∧ claim.digest ∈ account.hashes := by
    simp only [settleLoginCode] at settled
    split at settled
    next => cases settled
    next present =>
      cases settled
      simp only [Bool.not_eq_true', Bool.or_eq_true, decide_eq_true_eq, not_or, not_not,
        Bool.not_eq_false] at present
      exact ⟨present.1, List.mem_append_right _ (List.mem_singleton_self _)⟩
  have free : available later claim.digest (digest sha256 code) = true := by
    rw [same]
    exact available_plain later plain
  exact ⟨takeable_of_available spelled written.2 free,
    (claimable_iff written.1 spelled later markedAt nonce).mpr ⟨claim.digest, written.2, free⟩⟩

theorem Holds.expired (holds : Holds sha256 state) {claim : RecoveryClaim}
    (made : claim ∈ state.claims) (present : claim.marker ∈ state.account.hashes)
    {code : String} (spelled : isRecoveryCode code = true)
    (same : digest sha256 code = claim.digest) (now markedAt : ℚ) (nonce : String) :
    (claimLoginCode sha256 now markedAt nonce state.account code).isSome = true ↔
      (claim.expires : ℚ) ≤ now := by
  obtain ⟨plain, drawn, written⟩ := holds.claims claim made
  have reserved : available now claim.marker (digest sha256 code) = true ↔
      (claim.expires : ℚ) ≤ now := by
    rw [written, same]
    exact available_marker plain claim.expires drawn
  have enabled := holds.enabled (List.ne_nil_of_mem present)
  rw [claimable_iff enabled spelled, ← reserved]
  constructor
  next =>
    rintro ⟨value, listed, free⟩
    have equal : value = claim.marker := by
      refine entry_unique holds.distinct listed present ((stem_of_available free).trans ?_)
      rw [written, stem_marker plain, same]
    exact equal ▸ free
  next => exact fun free => ⟨claim.marker, present, free⟩

theorem Holds.entries (holds : Holds sha256 state) :
    state.account.hashes.length =
      (state.standing.filter fun code => digest sha256 code ∉ state.accepted).length := by
  have sizes := holds.stems.length_eq
  rw [List.length_map, State.unused, List.filter_map, List.length_map] at sizes
  exact sizes

theorem recovery_codes_keep_promises (hex : ∀ text, ':' ∉ (sha256 text).toList)
    (reached : Reached sha256 state) : Promises sha256 state where
  once code _ := (Holds.reached hex reached).once_of_issued code
  restored _ made _ settled _ spelled same later markedAt nonce :=
    (Holds.reached hex reached).restored made settled spelled same later markedAt nonce
  expired _ made present _ spelled same now markedAt nonce :=
    (Holds.reached hex reached).expired made present spelled same now markedAt nonce
  entries := (Holds.reached hex reached).entries.le

def sampleSha256 (text : String) : String :=
  if text.isEmpty then "" else "60d3be69c39f57a8d60aae193eab8351c1da9ceefb17123889a65542ef4b9e36"

theorem sampleSha256_hex (text : String) : ':' ∉ (sampleSha256 text).toList := by
  unfold sampleSha256
  split <;> decide +kernel

-- The sign-in crashes; its code is claimed again on the second of the expiry and accepted.
def crashedRun : List Action :=
  [.advance (1700000000 + 1 / 2), .enable ["04626f9d3e6802aebbff46697248e0b9"],
    .claim "04626f9d-3e6802ae-bbff4669-7248e0b9" "6d" (1 / 4), .advance (299 + 1 / 4),
    .claim "04626F9D-3E6802AE-BBFF4669-7248E0B9" "6e" 0, .settle 1 true]

def unrepeated (sha256 : String → String) (state : State) : Action → Bool
  | .enable raws | .regenerate _ _ raws =>
    decide ((state.issued ++ (issueCodes sha256 raws).1).map (digest sha256)).Nodup
  | _ => true

theorem unrepeated_sound (sha256 : String → String) (state : State) (action : Action)
    (passed : unrepeated sha256 state action = true) : Unrepeated sha256 state action := by
  cases action with
  | enable | regenerate =>
    simp only [unrepeated, decide_eq_true_eq] at passed
    exact passed
  | _ => trivial

theorem recovery_codes_keep_promises_crashed : ∃ state, Reached sampleSha256 state ∧
    (state.now, state.account.hashes, state.claims.length, state.accepted.length) =
      (1700000300, [], 2, 1) ∧
    Promises sampleSha256 state := by
  have seen : (Runs.run (Runs.checked (step sampleSha256) (unrepeated sampleSha256)) {}
      crashedRun).map (fun state =>
        (state.now, state.account.hashes, state.claims.length, state.accepted.length)) =
      some (1700000300, [], 2, 1) := by decide +kernel
  obtain ⟨state, reached, view⟩ :=
    Runs.Reaches.of_run _ (Runs.allowed_of_always (fun _ _ => trivial) _ _) seen
  have guarded : Reached sampleSha256 state := .of_checked (unrepeated_sound _) reached
  exact ⟨state, guarded, view, recovery_codes_keep_promises sampleSha256_hex guarded⟩

end Runs

end MemoryCloud.Recovery
