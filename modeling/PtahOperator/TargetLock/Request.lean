import Mathlib.Algebra.Group.Nat.Defs
import Mathlib.Data.List.Basic

/-!
# Lock requests of `internal/targetlock`

A request names the Lease by a coordination digest, its holder by a hash, the duration of the
Lease and the epoch its caller expects. `validate` checks all of it before the Lease is read.

Durations are `time.Duration`: signed nanoseconds. SHA-256 is a parameter: nothing depends on its
values.
-/

namespace Ptah.TargetLock

/-- One second of a `time.Duration`. -/
def second : Int := 1000000000

def minLeaseDuration : Int := 5 * second

/-- 24 hours and a minute. -/
def maxLeaseDuration : Int := (24 * 60 * 60 + 60) * second

def leaseNamePrefix : String := "ptah-t-"

def maxAttempts : Nat := 5

/-- The errors of the package. Those of the API server keep only what the Locker was doing. -/
inductive LockError where
  /-- `ErrInvalidRequest` -/
  | invalidRequest (detail : String)
  /-- `ErrMalformedLease` -/
  | malformedLease (detail : String)
  /-- `ErrConcurrentUpdate` -/
  | concurrentUpdate (doing : String)
  /-- Any other failure of a call. -/
  | failed (doing : String)
  deriving DecidableEq

structure Holder where
  schemaUID : String
  operationID : String
  deriving DecidableEq

structure Request where
  coordinationNamespace : String
  coordinationDigest : String
  holder : Holder
  duration : Int
  expectedEpoch : String
  deriving DecidableEq

structure ValidatedRequest where
  leaseName : String
  holderIdentity : String
  durationSeconds : Int
  expectedEpoch : String
  deriving DecidableEq

/-! ## Encodings -/

/-- A digit `hex.DecodeString` reads. -/
def isHexDigit (c : Char) : Bool :=
  ('0' ≤ c && c ≤ '9') || ('a' ≤ c && c ≤ 'f') || ('A' ≤ c && c ≤ 'F')

def hexValue (c : Char) : Nat :=
  if '0' ≤ c && c ≤ '9' then c.toNat - '0'.toNat
  else if 'a' ≤ c && c ≤ 'f' then c.toNat - 'a'.toNat + 10
  else c.toNat - 'A'.toNat + 10

/-- `hex.DecodeString`: pairs of digits, and nothing else. -/
def hexDecode : List Char → Option (List Nat)
  | [] => some []
  | [_] => none
  | a :: b :: rest =>
    if isHexDigit a && isHexDigit b then
      (hexDecode rest).map fun bytes => (16 * hexValue a + hexValue b) :: bytes
    else none

def hexDigits : List Char := "0123456789abcdef".toList

/-- `hex.EncodeToString`. -/
def hexEncode (bytes : List UInt8) : List Char :=
  bytes.flatMap fun b =>
    [hexDigits.getD (b.toNat / 16) '0', hexDigits.getD (b.toNat % 16) '0']

theorem isHexDigit_hexDigits : ∀ n < 16, isHexDigit (hexDigits.getD n '0') = true := by decide

theorem hexEncode_length (bytes : List UInt8) : (hexEncode bytes).length = 2 * bytes.length := by
  simp [hexEncode, Nat.mul_comm]

theorem isHexDigit_of_mem_hexEncode {bytes : List UInt8} {c : Char} (h : c ∈ hexEncode bytes) :
    isHexDigit c = true := by
  obtain ⟨b, -, hc⟩ := List.mem_flatMap.1 h
  have hb : b.toNat < 256 := b.toNat_lt
  rcases List.mem_pair.1 hc with rfl | rfl
  · exact isHexDigit_hexDigits _ (by omega)
  · exact isHexDigit_hexDigits _ (by omega)

theorem hexDecode_isSome : ∀ (n : Nat) (cs : List Char), cs.length = 2 * n →
    (∀ c ∈ cs, isHexDigit c = true) → (hexDecode cs).isSome = true
  | 0, [], _, _ => rfl
  | n + 1, a :: b :: cs, hlen, hdigits => by
    have ha := hdigits a (by simp)
    have hb := hdigits b (by simp)
    have hrest := hexDecode_isSome n cs (by simp at hlen; omega)
      fun c hc => hdigits c (by simp [hc])
    simp [hexDecode, ha, hb, hrest]
  | n + 1, [a], hlen, _ => by simp at hlen; omega

theorem utf8Size_of_isHexDigit {c : Char} (h : isHexDigit c = true) : c.utf8Size = 1 := by
  have hle : c.val ≤ 127 := by
    simp only [isHexDigit, Bool.or_eq_true, Bool.and_eq_true, decide_eq_true_eq] at h
    rcases h with (⟨-, h⟩ | ⟨-, h⟩) | ⟨-, h⟩ <;> exact UInt32.le_trans h (by decide)
  exact Char.utf8Size_eq_one_iff.2 hle

theorem utf8ByteSize_of_isHexDigit {cs : List Char} (h : ∀ c ∈ cs, isHexDigit c = true) :
    (String.ofList cs).utf8ByteSize = cs.length := by
  induction cs with
  | nil => rfl
  | cons c cs ih =>
    rw [String.ofList_cons, String.utf8ByteSize_append, String.utf8ByteSize_singleton,
      utf8Size_of_isHexDigit (h c (by simp)), ih fun c hc => h c (by simp [hc]), List.length_cons]
    omega

def base32Digits : List Char := "abcdefghijklmnopqrstuvwxyz234567".toList

/-- The `n` bits of `x`, the most significant first. -/
def bits : Nat → Nat → List Bool
  | 0, _ => []
  | n + 1, x => bits n (x / 2) ++ [decide (x % 2 = 1)]

/-- The base 32 digit of at most five bits, filled with zeros. -/
def base32Digit (group : List Bool) : Char :=
  let v := group.foldl (fun v b => 2 * v + b.toNat) 0
  base32Digits.getD (v * 2 ^ (5 - group.length)) 'a'

/-- The base 32 digits of a bit string, five bits each. -/
def base32Groups : List Bool → List Char
  | [] => []
  | a :: b :: c :: d :: e :: rest => base32Digit [a, b, c, d, e] :: base32Groups rest
  | last => [base32Digit last]

/-- Lower-case base 32 without padding. -/
def base32Lower (bytes : List Nat) : String :=
  String.ofList (base32Groups (bytes.flatMap (bits 8)))

/-! ## Validation -/

/-- A character that may begin or end a DNS label. -/
def isLabelEdge (c : Char) : Bool := ('a' ≤ c && c ≤ 'z') || ('0' ≤ c && c ≤ '9')

/-- `validation.IsDNS1123Label`: at most 63 lower-case letters, digits and inner hyphens. -/
def isDNS1123Label (value : String) : Bool :=
  let cs := value.toList
  cs ≠ [] && value.utf8ByteSize ≤ 63 && cs.all (fun c => isLabelEdge c || c == '-') &&
    cs.head?.all isLabelEdge && cs.getLast?.all isLabelEdge

def invalidDigest : LockError := .invalidRequest "coordination digest must be SHA-256"

def decodeSHA256 (value : String) : Except LockError (List Nat) :=
  let algorithm := value.toList.takeWhile (· ≠ ':')
  let encoded := (value.toList.dropWhile (· ≠ ':')).drop 1
  if ':' ∉ value.toList ∨ algorithm ≠ "sha256".toList ∨ (String.ofList encoded).utf8ByteSize ≠ 64 then
    .error invalidDigest
  else
    match hexDecode encoded with
    | some digest => if digest.length ≠ 32 then .error invalidDigest else .ok digest
    | none => .error invalidDigest

def leaseName (coordinationDigest : String) : Except LockError String := do
  let digest ← decodeSHA256 coordinationDigest
  return leaseNamePrefix ++ base32Lower digest

def bytesOf (s : String) : List UInt8 := s.toUTF8.toList

def validEpoch (value : String) : Bool :=
  value.utf8ByteSize = 35 && "v1-".toList.isPrefixOf value.toList &&
    (hexDecode (value.toList.drop 3)).isSome

section
variable (sha256 : List UInt8 → List UInt8)

/-- The text that stands for a holder in a Lease: a hash of both of its fields. -/
def Holder.identity (h : Holder) : Except LockError String :=
  if h.schemaUID.utf8ByteSize = 0 ∨ 128 < h.schemaUID.utf8ByteSize ∨
      h.operationID.utf8ByteSize = 0 ∨ 256 < h.operationID.utf8ByteSize then
    .error (.invalidRequest "holder is invalid")
  else
    .ok ("ptah-h-" ++
      base32Lower ((sha256 (bytesOf h.schemaUID ++ [0] ++ bytesOf h.operationID)).map UInt8.toNat))

/-- `Locker.validate` of an initialized Locker. -/
def validate (request : Request) : Except LockError ValidatedRequest :=
  if !isDNS1123Label request.coordinationNamespace then
    .error (.invalidRequest "coordination namespace is invalid")
  else
    match leaseName request.coordinationDigest, request.holder.identity sha256 with
    | .error e, _ => .error e
    | .ok _, .error e => .error e
    | .ok leaseName, .ok holderIdentity =>
      if request.duration < minLeaseDuration ∨ maxLeaseDuration < request.duration ∨
          request.duration.tmod second ≠ 0 then
        .error (.invalidRequest "duration must be whole seconds between 5s and 24h1m0s")
      else if request.expectedEpoch ≠ "" ∧ !validEpoch request.expectedEpoch then
        .error (.invalidRequest "expected epoch is invalid")
      else
        .ok { leaseName, holderIdentity, durationSeconds := request.duration.tdiv second,
              expectedEpoch := request.expectedEpoch }

variable {sha256}

theorem Holder.identity_ne_empty {h : Holder} {identity : String}
    (hid : h.identity sha256 = .ok identity) : identity ≠ "" := by
  unfold Holder.identity at hid
  split at hid
  · cases hid
  cases hid
  intro he
  have hlen := congrArg (fun s : String => s.toList.length) he
  simp at hlen

/-- A request is accepted when each of its fields is. -/
theorem validate_eq_ok {request : Request} {name identity : String}
    (hns : isDNS1123Label request.coordinationNamespace)
    (hname : leaseName request.coordinationDigest = .ok name)
    (hid : request.holder.identity sha256 = .ok identity)
    (hmin : minLeaseDuration ≤ request.duration) (hmax : request.duration ≤ maxLeaseDuration)
    (hsec : request.duration.tmod second = 0)
    (hepoch : request.expectedEpoch = "" ∨ validEpoch request.expectedEpoch) :
    validate sha256 request = .ok
      { leaseName := name, holderIdentity := identity,
        durationSeconds := request.duration.tdiv second,
        expectedEpoch := request.expectedEpoch } := by
  have hdur : ¬ (request.duration < minLeaseDuration ∨ maxLeaseDuration < request.duration ∨
      request.duration.tmod second ≠ 0) := by omega
  have hep : ¬ (request.expectedEpoch ≠ "" ∧ !validEpoch request.expectedEpoch) := by
    rcases hepoch with h | h <;> simp [h]
  simp only [validate, hns, hname, hid, hdur, hep, Bool.not_true, Bool.false_eq_true, ↓reduceIte]

theorem of_validate_eq_ok {request : Request} {v : ValidatedRequest}
    (h : validate sha256 request = .ok v) :
    request.holder.identity sha256 = .ok v.holderIdentity ∧
      (minLeaseDuration ≤ request.duration ∧ request.duration ≤ maxLeaseDuration ∧
        request.duration.tmod second = 0) ∧
      (request.expectedEpoch = "" ∨ validEpoch request.expectedEpoch) ∧
      v.durationSeconds = request.duration.tdiv second ∧
      v.expectedEpoch = request.expectedEpoch := by
  unfold validate at h
  split at h
  · cases h
  split at h
  · cases h
  · cases h
  next name identity _ hid =>
    split at h
    · cases h
    next hdur =>
      split at h
      · cases h
      next hep =>
        cases h
        refine ⟨hid, by omega, ?_, rfl, rfl⟩
        by_cases he : request.expectedEpoch = ""
        · exact .inl he
        · exact .inr (by simpa [he] using hep)

end

end Ptah.TargetLock
