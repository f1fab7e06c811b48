import Mathlib.Algebra.Group.Nat.Defs

/-!
# The PtahMigration resource

The parts of a `PtahMigration` that its controller decides from: the claim of the operation in
flight, the record of a run nobody accounted for, the history last read, and the Lease release
still owed. The journal, the source bindings and the provenance copied into `status.lastRun` decide
nothing in the functions modelled here and are left out.
-/

namespace Ptah.Migration

/-- A `time.Time`: nanoseconds from the Unix epoch. -/
abbrev Time := Int

/-- `ImmutableObjectReference` -/
structure ObjectRef where
  name : String
  uid : String
  deriving DecidableEq

/-! ## Claims -/

/-- `MigrationOperationType` -/
inductive OperationType where
  | resolve
  | verify
  | history
  | apply
  deriving DecidableEq

/-- `MigrationPhase`; `unset` is the empty phase of a resource no pass has written to. -/
inductive Phase where
  | unset
  | pending
  | resolving
  | verifying
  | reading
  | planning
  | awaitingApproval
  | blocked
  | applying
  | verifyingHistory
  | inSync
  | suspended
  | failed
  deriving DecidableEq

namespace OperationType

def name : OperationType → String
  | resolve => "Resolve"
  | verify => "Verify"
  | history => "History"
  | apply => "Apply"

/-- `migrationOperations[type].Mutating` -/
def mutating : OperationType → Bool
  | apply => true
  | _ => false

/-- `migrationOperations[type].HoldsLock`: only an Apply has `LockAlways`, and no migration type
has `LockWhileProving`. -/
def holdsLock : OperationType → Bool
  | apply => true
  | _ => false

/-- `migrationOperations[type].Phase` -/
def phase : OperationType → Phase
  | resolve => .resolving
  | verify => .verifying
  | history => .reading
  | apply => .applying

end OperationType

/-- `PodAdmissionSnapshot`: the digest of the Pod template it was captured for, and the digest of
the snapshot itself. -/
structure Snapshot where
  digest : String
  templateDigest : String
  deriving DecidableEq

/-- `MigrationOperationStatus`: the claim of an operation. -/
structure Operation where
  type : OperationType
  id : String
  inputFingerprint : String
  jobName : String
  /-- Empty until a Job is recorded. -/
  jobUID : String := ""
  startedAt : Time
  retryNotBefore : Option Time := none
  attempt : Int := 1
  executionBindingID : String
  coordinationDigest : String := ""
  planRef : Option ObjectRef := none
  planFingerprint : String := ""
  dispatchStarted : Bool := false
  dispatchNotAfter : Option Time := none
  executionNotAfter : Option Time := none
  leaseEpoch : String := ""
  leaseDurationSeconds : Int := 0
  leaseContinuityLost : Bool := false
  approvalRef : Option ObjectRef := none
  admissionSnapshot : Option Snapshot := none
  admissionSnapshotRefreshed : Bool := false
  deriving DecidableEq

/-- The claim's Job may exist: the dispatch was marked, or a Job was recorded. -/
def Operation.mayHaveDispatched (op : Operation) : Bool := op.dispatchStarted || op.jobUID ≠ ""

/-! ## Status -/

inductive RunOutcome where
  | applied
  | upToDate
  | failed
  | partially
  | unknown
  deriving DecidableEq

def RunOutcome.name : RunOutcome → String
  | applied => "Applied"
  | upToDate => "UpToDate"
  | failed => "Failed"
  | partially => "Partial"
  | unknown => "Unknown"

/-- `jobclaim.MigrationRunUnresolved` -/
def RunOutcome.unresolved : RunOutcome → Bool
  | partially => true
  | unknown => true
  | _ => false

structure ManagerRecord where
  controllerImage : String
  controllerRevision : String
  runnerImage : String
  deriving DecidableEq

/-- `MigrationRunVerificationResult` -/
inductive VerificationResult where
  | inSync
  | pending
  | blocked
  deriving DecidableEq

structure RunVerification where
  observedAt : Time
  historyFingerprint : String
  currentVersion : Int
  result : VerificationResult
  deriving DecidableEq

/-- `MigrationRunStatus` -/
structure RunStatus where
  outcome : RunOutcome
  jobName : String := ""
  jobUID : String := ""
  operationID : String := ""
  targetIdentityDigest : String := ""
  startedAt : Time
  finishedAt : Option Time := none
  appliedVersions : List Int := []
  dispatchedBy : Option ManagerRecord := none
  message : String := ""
  verification : Option RunVerification := none
  deriving DecidableEq

/-- `UnresolvedMigrationRunStatus` -/
structure UnresolvedRun where
  outcome : RunOutcome
  operationID : String
  jobName : String
  jobUID : String
  planRef : ObjectRef
  targetIdentityDigest : String
  dispatchedBy : Option ManagerRecord
  recordedAt : Time
  deriving DecidableEq

/-- `MigrationRunResolution` -/
inductive Resolution where
  | historyRead
  | acknowledged
  deriving DecidableEq

/-- `ResolvedMigrationRunStatus` -/
structure ResolvedRun where
  operationID : String
  outcome : RunOutcome
  resolution : Resolution
  acknowledgmentRef : Option ObjectRef := none
  acknowledgedBy : Option String := none
  resolvedAt : Time
  deriving DecidableEq

/-- `MigrationHistoryStatus`. The rows of `revisions` are a copy of the report's and decide
nothing. -/
structure HistoryStatus where
  observedAt : Time
  contractVersion : Int
  currentVersion : Int
  checkpointVersion : Int
  appliedCount : Nat
  pendingCount : Nat
  fingerprint : String
  targetIdentityDigest : String
  dirty : Bool
  modifiedVersions : List Int
  outOfOrderVersions : List Int
  deriving DecidableEq

/-- `TargetLockReleaseStatus`: a Lease release still owed. -/
structure LockRelease where
  coordinationDigest : String
  operationID : String
  leaseDurationSeconds : Int
  leaseEpoch : String
  deriving DecidableEq

/-- `ExecutionBindingStatus` -/
structure ExecutionBinding where
  epoch : String
  controllerStateVersion : Int
  ptahVersion : String
  executorImage : String
  runnerProtocolVersion : Int
  deriving DecidableEq

inductive ConditionType where
  | ready
  | progressing
  | blocked
  | approvalRequired
  | databaseReachable
  | artifactVerified
  deriving DecidableEq

/-- `metav1.ConditionStatus` -/
inductive ConditionStatus where
  | isTrue
  | isFalse
  | unknown
  deriving DecidableEq

/-- `metav1.Condition`, without the generation and the transition time. -/
structure Condition where
  type : ConditionType
  status : ConditionStatus
  reason : String
  message : String
  deriving DecidableEq

/-- `PtahMigrationStatus` -/
structure Status where
  observedGeneration : Int := 0
  phase : Phase := .unset
  conditions : List Condition := []
  /-- The digest of `status.artifact`. -/
  artifact : Option String := none
  executionBinding : Option ExecutionBinding := none
  activeOperation : Option Operation := none
  history : Option HistoryStatus := none
  plan : Option ObjectRef := none
  lastRun : Option RunStatus := none
  unresolvedRun : Option UnresolvedRun := none
  resolvedRun : Option ResolvedRun := none
  pendingLockRelease : Option LockRelease := none
  nextReconciliationTime : Option Time := none
  lastReadRequest : String := ""
  deriving DecidableEq

/-! ## Objects -/

inductive ApplyPolicy where
  | never
  | onApproval
  | always
  deriving DecidableEq

/-- The fields of `PtahMigrationSpec` that decide something here. -/
structure Spec where
  apply : ApplyPolicy := .onApproval
  suspend : Bool := false
  /-- `execution.activeDeadlineSeconds`, zero when it is not set. -/
  activeDeadlineSeconds : Int := 0
  deriving DecidableEq

/-- The value of the annotation `operator.ptah.run/unresolved-run`: the JSON of a record, or
another text. -/
inductive CopyValue where
  | record (run : UnresolvedRun)
  | text (value : String)
  deriving DecidableEq

/-- The resource. -/
structure PtahMigration where
  uid : String
  resourceVersion : Nat := 0
  generation : Int := 1
  /-- `metadata.deletionTimestamp` is set. -/
  deleting : Bool := false
  /-- `migrationOperationFinalizer` is present. -/
  finalizer : Bool := false
  /-- The annotation `operator.ptah.run/unresolved-run`. -/
  unresolvedRunCopy : Option CopyValue := none
  spec : Spec := {}
  status : Status := {}
  deriving DecidableEq

/-- `PtahMigrationPlan`: what the controller reads of a plan again. -/
structure Plan where
  name : String
  uid : String
  deleting : Bool := false
  migrationUID : String
  fingerprint : String
  migrations : Nat
  historyFingerprint : String
  coordinationDigest : String
  targetIdentityDigest : String
  executionBindingID : String
  deriving DecidableEq

def Plan.ref (plan : Plan) : ObjectRef := ⟨plan.name, plan.uid⟩

/-- `PtahMigrationApproval` -/
structure Approval where
  name : String
  uid : String
  deleting : Bool := false
  creationTimestamp : Time := 0
  migrationUID : String
  planUID : String
  planFingerprint : String
  /-- `spec.approver.username` -/
  approver : String
  mutationRequestUID : String
  /-- The condition `Stale` is true. -/
  stale : Bool := false
  /-- The condition `Consumed` is true. -/
  consumed : Bool := false
  deriving DecidableEq

def Approval.ref (approval : Approval) : ObjectRef := ⟨approval.name, approval.uid⟩

/-! ## Texts -/

/-- `unicode.IsSpace` -/
def isSpace (c : Char) : Bool :=
  c ∈ ['\t', '\n', '\x0b', '\x0c', '\r', ' ', '\u0085', '\u00a0', '\u1680',
    '\u2028', '\u2029', '\u202f', '\u205f', '\u3000'] || ('\u2000' ≤ c && c ≤ '\u200a')

/-- `strings.TrimSpace(text) == ""` -/
def blank (text : String) : Bool := text.toList.all isSpace

/-! ## Conditions -/

/-- The longest beginning of a text that has at most `limit` bytes. -/
def boundedChars (limit : Nat) : List Char → List Char
  | [] => []
  | c :: cs => if c.utf8Size ≤ limit then c :: boundedChars (limit - c.utf8Size) cs else []

/-- `bounded`: a text cut to `limit` bytes on a rune boundary. -/
def bounded (text : String) (limit : Nat) : String :=
  if text.utf8ByteSize ≤ limit then text
  else String.ofList (boundedChars limit text.toList) ++ "..."

/-- `meta.SetStatusCondition`: replaces the condition of the same type, or appends. -/
def setStatusCondition (conditions : List Condition) (c : Condition) : List Condition :=
  if conditions.any (·.type = c.type) then
    conditions.map fun old => if old.type = c.type then c else old
  else conditions ++ [c]

namespace Status

/-- `setMigrationCondition` -/
def setCondition (s : Status) (type : ConditionType) (status : ConditionStatus)
    (reason message : String) : Status :=
  let condition : Condition := { type, status, reason, message := bounded message 1024 }
  { s with conditions := setStatusCondition s.conditions condition }

/-- `meta.FindStatusCondition` -/
def findCondition (s : Status) (type : ConditionType) : Option Condition :=
  s.conditions.find? (·.type = type)

/-- `meta.RemoveStatusCondition` -/
def removeCondition (s : Status) (type : ConditionType) : Status :=
  { s with conditions := s.conditions.filter (·.type ≠ type) }

variable (s : Status) (type : ConditionType) (status : ConditionStatus) (reason message : String)

@[simp] theorem setCondition_unresolvedRun :
    (s.setCondition type status reason message).unresolvedRun = s.unresolvedRun := rfl

@[simp] theorem setCondition_resolvedRun :
    (s.setCondition type status reason message).resolvedRun = s.resolvedRun := rfl

end Status

end Ptah.Migration
