import MemoryCloud.Shared.Runs
import Mathlib.Data.Rat.Floor

set_option autoImplicit false

/-!
# MFA recovery codes of one account

`auth/recovery_codes.py` and the transactions of `api/routes/mfa_settings.py` that call it.
Every one of them reads the account under its row lock and holds the lock to its end, so a
transaction is one step; an aborted one leaves nothing. The clock is `time.time()`.
-/

namespace MemoryCloud.Recovery

section Text

-- `value.partition(":")`, without the separator.
def partition (value : String) : String × String :=
  (String.ofList (value.toList.takeWhile (· ≠ ':')),
    String.ofList ((value.toList.dropWhile (· ≠ ':')).drop 1))

-- The only reservations stored are written by `claim_login_code`, in ASCII digits.
def isdecimal (text : String) : Bool := !text.isEmpty && text.toList.all Char.isDigit

def int (text : String) : Nat := Nat.ofDigitChars 10 text.toList 0

def hexDigit (character : Char) : Bool :=
  character.isDigit || ('a' ≤ character && character ≤ 'f') || ('A' ≤ character && character ≤ 'F')

-- `(?:[0-9a-fA-F]{8}-){3}[0-9a-fA-F]{8}`
def isRecoveryCode (code : String) : Bool :=
  code.toList.length == 35 && code.toList.zipIdx.all fun (character, place) =>
    if place % 9 = 8 then character == '-' else hexDigit character

-- `"-".join(raw[i : i + 8] for i in range(0, 32, 8))`
def dashed (raw : String) : String :=
  "-".intercalate ([0, 8, 16, 24].map fun start => String.ofList ((raw.toList.drop start).take 8))

end Text

structure RecoveryClaim where
  digest : String
  marker : String
  expires : Nat
  deriving DecidableEq

structure Account where
  totpEnabled : Bool := false
  totpRecoveryHashes : Option (List String) := none
  deriving DecidableEq

-- `user.totp_recovery_hashes or []`
def Account.hashes (account : Account) : List String := account.totpRecoveryHashes.getD []

variable (sha256 : String → String)

def digest (code : String) : String := sha256 (code.map Char.toLower)

def issueCodes (raws : List String) : List String × List String :=
  (raws.map dashed, (raws.map dashed).map (digest sha256))

def available (now : ℚ) (value digest : String) : Bool :=
  let (stored, reservation) := partition value
  if stored ≠ digest then false
  else if reservation.isEmpty then true
  else
    let (expiry, _) := partition reservation
    isdecimal expiry && decide ((int expiry : ℚ) ≤ now)

-- `none` where the code is refused. Only an entry of the code's own digest reads the clock.
def takeLockedCode (now : ℚ) (account : Account) (code : String) : Option Account :=
  if !isRecoveryCode code then none
  else
    let remaining := account.hashes.filter fun value => !available now value (digest sha256 code)
    if remaining.length = account.hashes.length then none
    else some { account with totpRecoveryHashes := some remaining }

def marker (digest : String) (expires : Nat) (nonce : String) : String :=
  digest ++ ":" ++ toString expires ++ ":" ++ nonce

-- The clock is read once to find the code and once for the expiry.
def claimLoginCode (now markedAt : ℚ) (nonce : String) (account : Account) (code : String) :
    Option (RecoveryClaim × Account) :=
  if !isRecoveryCode code then none
  else if !account.totpEnabled then none
  else
    let digest := digest sha256 code
    let hashes := account.hashes
    match hashes.findIdx? fun value => available now value digest with
    | some index =>
      let expires := ⌊markedAt⌋.toNat + 300
      let claim : RecoveryClaim := ⟨digest, marker digest expires nonce, expires⟩
      some (claim, { account with
        totpRecoveryHashes := some (hashes.take index ++ claim.marker :: hashes.drop (index + 1)) })
    | none => none

def settleLoginCode (now : ℚ) (account : Account) (claim : RecoveryClaim) (audit : Bool) :
    Option Account :=
  if !account.totpEnabled || claim.marker ∉ account.hashes then none
  else if audit && decide ((claim.expires : ℚ) ≤ now) then none
  else
    let values := account.hashes.filter fun value => value ≠ claim.marker
    some { account with
      totpRecoveryHashes := some (if audit then values else values ++ [claim.digest]) }

def verifyActiveFactor (now : ℚ) (account : Account) (code : String) (totp : Bool) :
    Option (Account × Bool) :=
  if !account.totpEnabled then none
  else match takeLockedCode sha256 now account code with
    | some taken => some (taken, true)
    | none => if totp then some (account, false) else none

section Steps

-- `issued` lists every code, `standing` those of the set in force and `accepted` the digests of
-- the codes that were used; `claims` are the reservations that some process holds or lost.
structure State where
  now : ℚ := 0
  account : Account := {}
  claims : List RecoveryClaim := []
  issued : List String := []
  standing : List String := []
  accepted : List String := []

inductive Action
  | advance (elapsed : ℚ)
  | claim (code nonce : String) (elapsed : ℚ)
  | settle (index : Nat) (audit : Bool)
  | take (code : String)
  | enable (raws : List String)
  | regenerate (code : String) (totp : Bool) (raws : List String)
  | disable (code : String) (totp : Bool)
  -- The operator's `reset_password`.
  | reset

def State.issue (state : State) (raws : List String) : State :=
  let (codes, digests) := issueCodes sha256 raws
  { state with
    account := { totpEnabled := true, totpRecoveryHashes := some digests }
    issued := state.issued ++ codes
    standing := codes }

def State.dropped (state : State) : State := { state with account := {}, standing := [] }

def State.accept (state : State) (digest : String) (taken : Bool) : State :=
  if taken then { state with accepted := state.accepted ++ [digest] } else state

def step (state : State) : Action → Option State
  | .advance elapsed => if elapsed < 0 then none else some { state with now := state.now + elapsed }
  | .claim code nonce elapsed =>
    if elapsed < 0 then none
    else
      (claimLoginCode sha256 state.now (state.now + elapsed) nonce state.account code).map
        fun (claim, account) => { state with
          now := state.now + elapsed, account, claims := state.claims ++ [claim] }
  | .settle index audit =>
    (state.claims[index]?).bind fun claim =>
      (settleLoginCode state.now state.account claim audit).map fun account =>
        { state with account }.accept claim.digest audit
  | .take code =>
    (takeLockedCode sha256 state.now state.account code).map fun account =>
      { state with account }.accept (digest sha256 code) true
  | .enable raws => if state.account.totpEnabled then none else some (state.issue sha256 raws)
  | .regenerate code totp raws =>
    (verifyActiveFactor sha256 state.now state.account code totp).map fun (account, taken) =>
      ({ state with account }.accept (digest sha256 code) taken).issue sha256 raws
  | .disable code totp =>
    (verifyActiveFactor sha256 state.now state.account code totp).map fun (account, taken) =>
      ({ state with account }.accept (digest sha256 code) taken).dropped
  | .reset => some state.dropped

-- `secrets.token_hex` and SHA-256: no code that is issued has the digest of another one.
def Unrepeated (state : State) : Action → Prop
  | .enable raws | .regenerate _ _ raws =>
    ((state.issued ++ (issueCodes sha256 raws).1).map (digest sha256)).Nodup
  | _ => True

abbrev Reached (state : State) : Prop := Runs.Reaches (step sha256) (Unrepeated sha256) {} state

end Steps

end MemoryCloud.Recovery
