import PtahOperator.Migration.Types
import PtahOperator.TargetLock.Request

/-!
# The execution window of an Apply

`spec.execution.activeDeadlineSeconds` decides three bounds that different packages write and
check: the window of the claim, the duration of the Lease the claim asks for, and the deadline of
the Job. `apply_window_usable_iff` says for which specs they fit together.
-/

namespace Ptah.Migration

open TargetLock

/-! ## The bounds -/

def migrationActiveDeadline (spec : Spec) : Int :=
  if 0 < spec.activeDeadlineSeconds then spec.activeDeadlineSeconds else 900

def migrationApplyWindow (spec : Spec) : Int := migrationActiveDeadline spec * second

/-- `workload.JobDeadlineGrace` -/
def jobDeadlineGrace : Int := 60 * second

def migrationApplyLeaseGrace : Int := 60 * second

def migrationLeaseDuration (spec : Spec) : Int :=
  migrationApplyWindow spec + jobDeadlineGrace + migrationApplyLeaseGrace

/-- What the schema of `execution.activeDeadlineSeconds` accepts; zero is a field that is not
set. -/
def AdmittedDeadline (seconds : Int) : Prop := seconds = 0 ∨ (30 ≤ seconds ∧ seconds ≤ 86400)

instance (seconds : Int) : Decidable (AdmittedDeadline seconds) :=
  inferInstanceAs (Decidable (_ ∨ _))

/-- The `sha256:` digest of a text, as `fingerprint.DigestBytes` writes it. -/
def digestBytes (sha256 : List UInt8 → List UInt8) (data : List UInt8) : String :=
  "sha256:" ++ String.ofList (hexEncode (sha256 data))

/-- `newMigrationOperationID`: the digest of the canonical JSON of its two inputs. -/
def newMigrationOperationID (sha256 : List UInt8 → List UInt8) (inputFingerprint nonce : String) :
    String :=
  digestBytes sha256
    (bytesOf ("\x7b\"input\":\"" ++ inputFingerprint ++ "\",\"nonce\":\"" ++ nonce ++ "\"\x7d"))

/-- The epoch an Apply claim expects before its first acquisition:
`"v1-" + strings.TrimPrefix(id, "sha256:")[:32]`. -/
def expectedEpoch (id : String) : String :=
  let digits := if "sha256:".toList.isPrefixOf id.toList then id.toList.drop 7 else id.toList
  "v1-" ++ String.ofList (digits.take 32)

/-- The claim `claimMigrationApply` writes. -/
def applyClaim (spec : Spec) (binding : String) (plan : Plan) (approval : Option Approval)
    (id inputFingerprint jobName : String) (startedAt : Time) : Operation where
  type := .apply
  id := id
  inputFingerprint := inputFingerprint
  jobName := jobName
  startedAt := startedAt
  attempt := 1
  executionBindingID := binding
  coordinationDigest := plan.coordinationDigest
  leaseDurationSeconds := migrationLeaseDuration spec / second
  leaseEpoch := expectedEpoch id
  dispatchNotAfter := some (startedAt + migrationApplyWindow spec)
  executionNotAfter := some (startedAt + migrationApplyWindow spec)
  planRef := some plan.ref
  planFingerprint := plan.fingerprint
  approvalRef := approval.map (·.ref)

/-! ## The requests of a claim -/

/-- The request of `tryMigrationApplyLock`. -/
def acquireRequest (lockNamespace uid : String) (op : Operation) : Request where
  coordinationNamespace := lockNamespace
  coordinationDigest := op.coordinationDigest
  holder := ⟨uid, op.id⟩
  duration := op.leaseDurationSeconds * second
  expectedEpoch := op.leaseEpoch

/-- `OwedRelease` of the claim's lock binding. -/
def owedRelease (op : Operation) : Except String LockRelease :=
  if op.coordinationDigest = "" ∨ op.id = "" ∨ op.leaseEpoch = "" ∨ op.leaseDurationSeconds = 0 then
    .error "persist target lock release: lock binding is incomplete"
  else .ok
    { coordinationDigest := op.coordinationDigest, operationID := op.id
      leaseDurationSeconds := op.leaseDurationSeconds, leaseEpoch := op.leaseEpoch }

/-- The request of `CompleteRelease`. -/
def releaseRequest (lockNamespace uid : String) (release : LockRelease) : Request where
  coordinationNamespace := lockNamespace
  coordinationDigest := release.coordinationDigest
  holder := ⟨uid, release.operationID⟩
  duration := release.leaseDurationSeconds * second
  expectedEpoch := release.leaseEpoch

/-! ## The deadline of the Job -/

def maximumActiveDeadlineSeconds : Int := 86400

def boundedDeadline (fallback : Int) (bounded : Bool) (startedAt : Time) (notAfter : Option Time)
    (grace : Int) : Except String Int :=
  match bounded, notAfter with
  | true, some notAfter =>
    let remaining := (notAfter - startedAt).tdiv second
    if remaining ≤ 0 then .error "operation execution window closed before dispatch"
    else .ok (min (remaining + grace.tdiv second) maximumActiveDeadlineSeconds)
  | _, _ => .ok fallback

/-- `activeDeadlineSeconds` of the builder. -/
def activeDeadlineSeconds (spec : Spec) : Int :=
  if 0 < spec.activeDeadlineSeconds then spec.activeDeadlineSeconds else 900

/-- A `metav1.Time` as the API server stores it: in whole seconds. -/
def storedTime (t : Int) : Int := t / second * second

/-- Whole seconds are kept by the rounding. -/
theorem storedTime_add_sub (t n : Int) :
    storedTime (t + n * second) - storedTime t = n * second := by
  simp only [storedTime, second]
  omega

/-- The deadline of the Job that `BuildMigration` builds for a claim it reads back. -/
def jobDeadline (spec : Spec) (op : Operation) : Except String Int :=
  boundedDeadline (activeDeadlineSeconds spec) op.type.mutating (storedTime op.startedAt)
    (op.executionNotAfter.map storedTime) jobDeadlineGrace

/-! ## The claim's values -/

section
variable {sha256 : List UInt8 → List UInt8} (hsha256 : ∀ data, (sha256 data).length = 32)
include hsha256

omit hsha256 in
theorem utf8ByteSize_sha256_colon : "sha256:".utf8ByteSize = 7 := rfl

omit hsha256 in
theorem utf8ByteSize_v1_dash : "v1-".utf8ByteSize = 3 := rfl

theorem digestBytes_size (data : List UInt8) : (digestBytes sha256 data).utf8ByteSize = 71 := by
  rw [digestBytes, String.utf8ByteSize_append,
    utf8ByteSize_of_isHexDigit fun c hc => isHexDigit_of_mem_hexEncode hc, hexEncode_length,
    hsha256, utf8ByteSize_sha256_colon]

theorem validEpoch_expectedEpoch (data : List UInt8) :
    validEpoch (expectedEpoch (digestBytes sha256 data)) = true := by
  have hdigits : ∀ c ∈ (hexEncode (sha256 data)).take 32, isHexDigit c = true :=
    fun c hc => isHexDigit_of_mem_hexEncode (List.mem_of_mem_take hc)
  have hlen : ((hexEncode (sha256 data)).take 32).length = 2 * 16 := by
    rw [List.length_take, hexEncode_length, hsha256]
    rfl
  have hepoch : expectedEpoch (digestBytes sha256 data) =
      "v1-" ++ String.ofList ((hexEncode (sha256 data)).take 32) := by
    have hprefix : "sha256:".toList.isPrefixOf ("sha256:".toList ++ hexEncode (sha256 data)) = true :=
      List.isPrefixOf_iff_prefix.2 (List.prefix_append _ _)
    simp only [expectedEpoch, digestBytes, String.toList_append, String.toList_ofList, hprefix,
      if_true]
    rw [List.drop_left' (by rfl)]
  have hsize : ("v1-" ++ String.ofList ((hexEncode (sha256 data)).take 32)).utf8ByteSize =
      35 := by
    rw [String.utf8ByteSize_append, utf8ByteSize_of_isHexDigit hdigits, hlen, utf8ByteSize_v1_dash]
  rw [hepoch, validEpoch, hsize]
  simp only [String.toList_append, String.toList_ofList, decide_true, Bool.true_and, Bool.and_eq_true]
  refine ⟨List.isPrefixOf_iff_prefix.2 (List.prefix_append _ _), ?_⟩
  exact hexDecode_isSome 16 _ hlen hdigits

end

/-- The claim's lock requests under the epoch `epoch`: the acquisition or a renewal, and the release
it owes in the end. -/
structure LockUsable (sha256 : List UInt8 → List UInt8) (lockNamespace uid : String)
    (op : Operation) : Prop where
  acquire : ∃ v, validate sha256 (acquireRequest lockNamespace uid op) = .ok v
  release : ∃ release v, owedRelease op = .ok release ∧
    validate sha256 (releaseRequest lockNamespace uid release) = .ok v

theorem leaseDurationSeconds_applyClaim (spec : Spec) (binding : String) (plan : Plan)
    (approval : Option Approval) (id inputFingerprint jobName : String) (startedAt : Time) :
    (applyClaim spec binding plan approval id inputFingerprint jobName
      startedAt).leaseDurationSeconds = migrationActiveDeadline spec + 120 := by
  simp only [applyClaim, migrationLeaseDuration, migrationApplyWindow, jobDeadlineGrace,
    migrationApplyLeaseGrace, second]
  omega

/-- A claim's requests are accepted when its binding is complete and its duration is one a Lease
can have. -/
theorem lockUsable_iff {sha256 : List UInt8 → List UInt8} {lockNamespace uid : String}
    {op : Operation} (hns : isDNS1123Label lockNamespace = true)
    (huid : 0 < uid.utf8ByteSize ∧ uid.utf8ByteSize ≤ 128)
    (hid : 0 < op.id.utf8ByteSize ∧ op.id.utf8ByteSize ≤ 256)
    (hdigest : ∃ digest, decodeSHA256 op.coordinationDigest = .ok digest)
    (hepoch : validEpoch op.leaseEpoch = true) :
    LockUsable sha256 lockNamespace uid op ↔ minLeaseDuration ≤ op.leaseDurationSeconds * second ∧
        op.leaseDurationSeconds * second ≤ maxLeaseDuration := by
  constructor
  · rintro ⟨⟨v, hv⟩, -⟩
    obtain ⟨-, ⟨hmin, hmax, -⟩, -⟩ := of_validate_eq_ok hv
    exact ⟨hmin, hmax⟩
  rintro ⟨hmin, hmax⟩
  obtain ⟨digest, hdigest⟩ := hdigest
  have hname : leaseName op.coordinationDigest = .ok (leaseNamePrefix ++ base32Lower digest) := by
    rw [leaseName, hdigest]
    rfl
  have hholder : ∃ identity, (Holder.mk uid op.id).identity sha256 = .ok identity := by
    have hsizes : ¬ (uid.utf8ByteSize = 0 ∨ 128 < uid.utf8ByteSize ∨
        op.id.utf8ByteSize = 0 ∨ 256 < op.id.utf8ByteSize) := by omega
    exact ⟨_, if_neg hsizes⟩
  obtain ⟨identity, hholder⟩ := hholder
  have hsec : (op.leaseDurationSeconds * second).tmod second = 0 := Int.mul_tmod_left _ _
  have hvalid : validate sha256 (acquireRequest lockNamespace uid op) = .ok _ :=
    validate_eq_ok hns hname hholder hmin hmax hsec (.inr hepoch)
  refine ⟨⟨_, hvalid⟩, ?_⟩
  have hcomplete : ¬ (op.coordinationDigest = "" ∨ op.id = "" ∨ op.leaseEpoch = "" ∨
      op.leaseDurationSeconds = 0) := by
    rintro (h | h | h | h)
    · rw [h] at hdigest
      cases hdigest
    · rw [h] at hid
      exact absurd hid.1 (by decide)
    · rw [h] at hepoch
      exact absurd hepoch (by decide)
    · rw [h] at hmin
      exact absurd hmin (by decide)
  rw [owedRelease, if_neg hcomplete]
  exact ⟨_, _, rfl, hvalid⟩

/-- The Job of a claim ends at or after its window, and before the Lease does by the grace held
back from it. -/
theorem jobDeadline_applyClaim {spec : Spec} (hspec : AdmittedDeadline spec.activeDeadlineSeconds)
    (binding : String) (plan : Plan) (approval : Option Approval)
    (id inputFingerprint jobName : String) (startedAt : Time) :
    ∃ deadline, jobDeadline spec (applyClaim spec binding plan approval id inputFingerprint jobName
        startedAt) = .ok deadline ∧
      migrationActiveDeadline spec ≤ deadline ∧
      deadline * second ≤ migrationLeaseDuration spec - migrationApplyLeaseGrace := by
  have hwindow : 0 < migrationActiveDeadline spec ∧ migrationActiveDeadline spec ≤ 86400 := by
    simp only [migrationActiveDeadline]
    rcases hspec with h | h <;> split <;> omega
  have hremaining : (storedTime (startedAt + migrationApplyWindow spec) -
      storedTime startedAt).tdiv second = migrationActiveDeadline spec := by
    rw [migrationApplyWindow, storedTime_add_sub]
    exact Int.mul_tdiv_cancel _ (by decide)
  refine ⟨min (migrationActiveDeadline spec + 60) maximumActiveDeadlineSeconds, ?_, ?_, ?_⟩
  · simp only [jobDeadline, boundedDeadline, applyClaim, OperationType.mutating, Option.map_some,
      hremaining]
    rw [if_neg (by omega)]
    rfl
  · simp only [maximumActiveDeadlineSeconds]
    omega
  · simp only [migrationLeaseDuration, migrationApplyWindow, jobDeadlineGrace,
      migrationApplyLeaseGrace, maximumActiveDeadlineSeconds, second]
    omega

/-- For every spec the API admits: the bounds of its Apply fit together exactly when the deadline
leaves the two graces below the longest Lease, 86460 seconds. A spec that asks for more has no
lock it could run under. -/
theorem apply_window_usable_iff (sha256 : List UInt8 → List UInt8)
    (hsha256 : ∀ data, (sha256 data).length = 32) (lockNamespace : String)
    (hns : isDNS1123Label lockNamespace = true) (uid : String)
    (huid : 0 < uid.utf8ByteSize ∧ uid.utf8ByteSize ≤ 128) (spec : Spec)
    (hspec : AdmittedDeadline spec.activeDeadlineSeconds) (binding : String) (plan : Plan)
    (hplan : ∃ digest, decodeSHA256 plan.coordinationDigest = .ok digest)
    (approval : Option Approval) (inputFingerprint nonce jobName : String) (startedAt : Time)
    (op : Operation)
    (hop : op = applyClaim spec binding plan approval
      (newMigrationOperationID sha256 inputFingerprint nonce) inputFingerprint jobName startedAt) :
    ((∀ epoch, epoch = op.leaseEpoch ∨ validEpoch epoch = true →
        LockUsable sha256 lockNamespace uid { op with leaseEpoch := epoch }) ∧
      ∃ deadline, jobDeadline spec op = .ok deadline ∧ migrationActiveDeadline spec ≤ deadline ∧
        deadline * second ≤ migrationLeaseDuration spec - migrationApplyLeaseGrace) ↔
      spec.activeDeadlineSeconds ≤ 86340 := by
  subst hop
  have hduration := leaseDurationSeconds_applyClaim spec binding plan approval
    (newMigrationOperationID sha256 inputFingerprint nonce) inputFingerprint jobName startedAt
  have hid : (newMigrationOperationID sha256 inputFingerprint nonce).utf8ByteSize = 71 :=
    digestBytes_size hsha256 _
  have hepoch : validEpoch (expectedEpoch
      (newMigrationOperationID sha256 inputFingerprint nonce)) = true :=
    validEpoch_expectedEpoch hsha256 _
  have husable : ∀ epoch, validEpoch epoch = true →
      (LockUsable sha256 lockNamespace uid { applyClaim spec binding plan approval
          (newMigrationOperationID sha256 inputFingerprint nonce) inputFingerprint jobName startedAt
          with leaseEpoch := epoch } ↔ spec.activeDeadlineSeconds ≤ 86340) := by
    intro epoch he
    rw [lockUsable_iff hns huid ⟨by simp only [applyClaim]; omega, by simp only [applyClaim]; omega⟩
      hplan he, hduration]
    simp only [migrationActiveDeadline, minLeaseDuration, maxLeaseDuration, second]
    rcases hspec with h | h <;> split <;> omega
  constructor
  · rintro ⟨hlock, -⟩
    exact (husable _ hepoch).1 (hlock _ (.inl rfl))
  intro hle
  refine ⟨fun epoch he => (husable epoch ?_).2 hle, jobDeadline_applyClaim hspec ..⟩
  rcases he with rfl | he
  · exact hepoch
  · exact he

/-- A plan of the realm whose digest is all zeros. -/
def samplePlan : Plan where
  name := "plan"
  uid := "plan-uid"
  migrationUID := "uid"
  fingerprint := "sha256:f"
  migrations := 1
  historyFingerprint := "sha256:h"
  coordinationDigest := "sha256:0000000000000000000000000000000000000000000000000000000000000000"
  targetIdentityDigest := "sha256:t"
  executionBindingID := "v1-b"

def sampleHash (_ : List UInt8) : List UInt8 := List.replicate 32 0

/-- The claim of a spec with the deadline `seconds`, at time 0. -/
def sampleClaim (seconds : Int) : Operation :=
  applyClaim { activeDeadlineSeconds := seconds } "v1-b" samplePlan none
    (newMigrationOperationID sampleHash "in" "nonce") "in" "job" 0

/-- The default deadline of the API. -/
theorem apply_window_usable_default : LockUsable sampleHash "ptah-system" "uid" (sampleClaim 900) :=
  ((apply_window_usable_iff sampleHash (fun _ => rfl) "ptah-system" (by decide +kernel) "uid"
    (by decide) { activeDeadlineSeconds := 900 } (by decide +kernel) "v1-b" samplePlan
    ⟨List.replicate 32 0, by decide +kernel⟩ none "in" "nonce" "job" 0 (sampleClaim 900) rfl).2
    (by decide)).1 _ (.inl rfl)

/-- The longest deadline the API admits asks for a Lease of 86520 seconds, which the Locker
refuses. -/
theorem apply_window_refused_at_maximum :
    AdmittedDeadline 86400 ∧ (sampleClaim 86400).leaseDurationSeconds = 86520 ∧
      validate sampleHash (acquireRequest "ptah-system" "uid" (sampleClaim 86400)) =
        .error (.invalidRequest "duration must be whole seconds between 5s and 24h1m0s") := by
  refine ⟨.inr (by decide), by decide +kernel, by decide +kernel⟩

end Ptah.Migration
