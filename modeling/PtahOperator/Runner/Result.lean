import PtahOperator.DataPlane.MigrationStatus
import PtahOperator.Go.Bytes

/-!
# The result of an executor

`Result` of `internal/runner/protocol.go` and what `validateResult` holds it to. A text is its bytes,
as a Go string is.

* `validateResult`: the rules a result has to satisfy before it is framed and after it is read.
-/

namespace Ptah.Runner

open Go (Bytes bytes)

/-! ## The document -/

inductive Operation where
  | resolve
  | verify
  | observe
  | plan
  | apply
  | migrationHistory
  | migrationApply
  /-- A name that is none of the operations. -/
  | unsupported (name : Bytes)
  deriving DecidableEq

def Operation.valid : Operation → Bool
  | unsupported _ => false
  | _ => true

def Operation.mutating : Operation → Bool
  | apply | migrationApply => true
  | _ => false

def operationNeedsDatabase : Operation → Bool
  | .observe | .plan | .apply | .migrationHistory | .migrationApply => true
  | _ => false

inductive PlanOutcome where
  | unset
  | changes
  | noChanges
  | unknown (name : Bytes)
  deriving DecidableEq

def PlanOutcome.valid (o : PlanOutcome) : Bool := o = changes || o = noChanges

structure ResultError where
  code : Bytes
  message : Bytes
  deriving DecidableEq

structure TruncationMetadata where
  stdout : Bool := false
  stdoutBytesDropped : Int := 0
  stderr : Bool := false
  stderrBytesDropped : Int := 0
  deriving DecidableEq

structure DriftFindingSummary where
  category : Bytes
  count : Int
  severity : Bytes
  deriving DecidableEq

structure DriftInventorySummary where
  kind : Bytes
  desired : Int
  observed : Int
  deriving DecidableEq

structure MigrationRunFailure where
  version : Int
  statement : Int
  statements : Int
  sqlState : Bytes := []
  errorNumber : Int := 0
  deriving DecidableEq

/-- `MigrationRunReport`, without the error object, which the runner drops before it frames the
report. -/
structure MigrationRunReport where
  contractVersion : Int
  direction : Bytes
  outcome : Bytes
  planned : List Int := []
  applied : List Int := []
  failure : Option MigrationRunFailure := none
  status : Option DataPlane.MigrationStatusReport := none
  deriving DecidableEq

structure Result where
  protocolVersion : Int
  operation : Operation
  operationID : Bytes
  childExitCode : Int
  stdout : Bytes := []
  coordinationDigest : Bytes := []
  targetIdentityDigest : Bytes := []
  verificationPolicyDigest : Bytes := []
  driftReportDigest : Bytes := []
  observedDialect : Bytes := []
  observedDrift : Bool := false
  highestDriftSeverity : Bytes := []
  driftFindingCount : Int := 0
  driftFindings : List DriftFindingSummary := []
  driftInventory : List DriftInventorySummary := []
  observedArtifactType : Bytes := []
  resolvedDigest : Bytes := []
  resolvedReference : Bytes := []
  resolvedMediaType : Bytes := []
  resolvedSize : Int := 0
  resolvedCommit : Bytes := []
  resolvedContentDigest : Bytes := []
  resolvedContentBytes : Int := 0
  verificationRequirements : List Bytes := []
  planContentDigest : Bytes := []
  planOutcome : PlanOutcome := .unset
  mutationStarted : Bool := false
  uncertain : Bool := false
  migrationHistory : Option DataPlane.MigrationStatusReport := none
  migrationRun : Option MigrationRunReport := none
  error : Option ResultError := none
  truncation : Option TruncationMetadata := none
  deriving DecidableEq

/-- `ParseOptions`, with `none` for an expectation that is not set. -/
structure ParseOptions where
  maxFrameBytes : Int := 0
  expectedOperation : Option Operation := none
  expectedOperationID : Option Bytes := none

def protocolVersion : Int := 1

/-! ## Vocabulary -/

def isLower (c : UInt8) : Bool := 0x61 ≤ c && c ≤ 0x7a

def isUpper (c : UInt8) : Bool := 0x41 ≤ c && c ≤ 0x5a

def lowerHex (c : UInt8) : Bool := Go.isDigit c || 0x61 ≤ c && c ≤ 0x66

/-- `hasControlCharacter`. The runes it looks for are bytes of their own in UTF-8. -/
def hasControlCharacter (value : Bytes) : Bool := value.any fun c => c < 0x20 || c = 0x7f

def validProtocolDigest (value : Bytes) : Bool :=
  value.length = 71 && (bytes "sha256:").isPrefixOf value && (value.drop 7).all lowerHex

def gitCommitID (value : Bytes) : Bool := value.length = 40 && value.all lowerHex

/-- `runnerRequirementPattern` -/
def runnerRequirement : Bytes → Bool
  | [] => false
  | c :: rest => isLower c && rest.length ≤ 63 &&
    rest.all fun d => isLower d || Go.isDigit d || d = 0x5f

def validObservedDialect (value : Bytes) : Bool :=
  [bytes "postgres", bytes "postgresql", bytes "mysql", bytes "mariadb"].contains value

/-- The severities of a drift finding, from the lowest. -/
def driftSeverities : List Bytes :=
  [bytes "safe", bytes "info", bytes "warning", bytes "error", bytes "destructive"]

def validDriftSeverity (value : Bytes) : Bool := driftSeverities.contains value

def driftSeverityRank (value : Bytes) : Nat :=
  match driftSeverities.idxOf? value with
  | some index => index + 1
  | none => 0

def driftFindingCategories : List String :=
  ["columns_added", "columns_modified", "columns_removed", "comments_changed", "constraints_added",
    "constraints_removed", "constraints_validated", "data_rows_deleted", "data_rows_inserted",
    "data_rows_updated", "enum_values_added", "enum_values_removed", "enums_added", "enums_removed",
    "functions_added", "functions_modified", "functions_removed", "grant_options_added",
    "grant_options_removed", "grants_added", "grants_removed", "index_visibility_changed",
    "indexes_added", "indexes_removed", "indexes_renamed", "materialized_views_added",
    "materialized_views_modified", "materialized_views_removed", "rls_enabled_tables_added",
    "rls_enabled_tables_removed", "rls_force_added", "rls_force_removed", "rls_policies_added",
    "rls_policies_modified", "rls_policies_removed", "role_memberships_added",
    "role_memberships_removed", "roles_added", "roles_modified", "roles_removed", "schemas_added",
    "schemas_modified", "schemas_removed", "sequences_added", "sequences_modified",
    "sequences_removed", "table_constraints_added", "table_constraints_removed", "tables_added",
    "tables_removed", "triggers_added", "triggers_modified", "triggers_removed", "undecided",
    "unique_protections_removed", "vector_dimension_changed", "views_added", "views_modified",
    "views_removed"]

/-- `driftFindingCategorySet` -/
def fixedCategory (category : Bytes) : Bool := (driftFindingCategories.map bytes).contains category

def driftFindingQualifiedCategories : List String :=
  ["feature_access_narrowed", "feature_access_unchanged", "feature_access_unknown",
    "feature_access_widened", "feature_changes"]

/-- A label of a dotted domain: letters, digits and dashes, and no dash at an end. -/
def domainLabel (label : Bytes) : Bool :=
  let alnum (c : UInt8) := isLower c || Go.isDigit c
  label.all (fun c => alnum c || c = 0x2d) && label.head?.any alnum && label.getLast?.any alnum

/-- A path segment: letters, digits, underscores, dashes and, not first, dots. -/
def pathSegment (segment : Bytes) : Bool :=
  let word (c : UInt8) := isLower c || isUpper c || Go.isDigit c || c = 0x5f || c = 0x2d
  segment.all (fun c => word c || c = 0x2e) && segment.head?.any word

/-- `driftFindingKindPattern`: a dotted domain of two labels at least, then path segments. -/
def driftFindingKind (kind : Bytes) : Bool :=
  match kind.splitOn 0x2f with
  | domain :: segment :: segments =>
    let labels := domain.splitOn 0x2e
    1 < labels.length && labels.all domainLabel && (segment :: segments).all pathSegment
  | _ => false

def maxDriftFindingKindBytes : Nat := 128

def isKnownDriftFindingCategory (category : Bytes) : Bool :=
  let base := category.takeWhile (· ≠ 0x3a)
  let kind := (category.dropWhile (· ≠ 0x3a)).drop 1
  fixedCategory category || (driftFindingQualifiedCategories.map bytes).contains base &&
    (!category.contains 0x3a || kind.length ≤ maxDriftFindingKindBytes && driftFindingKind kind)

def isKnownDriftInventoryKind (kind : Bytes) : Bool :=
  kind ≠ [] && fixedCategory (kind ++ bytes "_added") && fixedCategory (kind ++ bytes "_removed") ||
    kind.length ≤ maxDriftFindingKindBytes && driftFindingKind kind

/-- `strings.Compare(a, b) < 0` -/
def bytesBefore : Bytes → Bytes → Bool
  | _, [] => false
  | [], _ :: _ => true
  | a :: as, b :: bs => a < b || a = b && bytesBefore as bs

/-! ## Validation -/

/-- A rule that refuses. -/
def refuse (refused : Bool) (reason : String) : Except String Unit :=
  if refused then .error reason else .ok ()

@[simp]
theorem refuse_ok {refused : Bool} {reason : String} :
    refuse refused reason = .ok () ↔ refused = false := by
  cases refused <;> simp [refuse]

@[simp]
theorem bind_ok {first rest : Except String Unit} :
    (first >>= fun _ => rest) = .ok () ↔ first = .ok () ∧ rest = .ok () := by
  cases first <;> simp [bind, Except.bind]

def maxDriftFindings : Nat := 128

def maxDriftInventoryEntries : Nat := 128

/-- The largest value of an `int32`. -/
def maxInt32 : Int := 2 ^ 31 - 1

/-- The loop of `validateDriftFindingSummaries`, with the finding in front, the categories seen and
the count so far. -/
def validateFindings (result : Result) : (previous : Option DriftFindingSummary) →
    (seen : List Bytes) → (carried : Int) → List DriftFindingSummary → Except String Unit
  | _, _, carried, [] =>
    refuse (carried ≠ result.driftFindingCount)
      "drift finding summaries do not match the total count"
  | previous, seen, carried, finding :: findings => do
    refuse (!isKnownDriftFindingCategory finding.category || finding.count ≤ 0 ||
      !validDriftSeverity finding.severity) "drift observation has an invalid finding summary"
    refuse (seen.contains finding.category) "drift observation has duplicate finding summaries"
    let rank := driftSeverityRank finding.severity
    refuse (previous.any fun p => driftSeverityRank p.severity < rank ||
        rank = driftSeverityRank p.severity && !bytesBefore p.category finding.category)
      "drift finding summaries are not in canonical order"
    refuse (previous.isNone && finding.severity ≠ result.highestDriftSeverity)
      "drift finding summaries do not match the highest severity"
    refuse (maxInt32 < carried + finding.count)
      "drift finding summary count exceeds the supported range"
    validateFindings result (some finding) (finding.category :: seen) (carried + finding.count)
      findings

def validateDriftFindingSummaries (result : Result) : Except String Unit :=
  if result.driftFindings.isEmpty then do
    refuse (result.driftFindingCount ≠ 0) "drift finding summaries do not match the total count"
    refuse (result.highestDriftSeverity ≠ bytes "safe")
      "drift finding summaries do not match the highest severity"
  else do
    refuse (maxDriftFindings < result.driftFindings.length)
      "drift observation has an invalid finding summary count"
    validateFindings result none [] 0 result.driftFindings

/-- The loop of `validateDriftInventory`. -/
def validateInventory : (previous : Option DriftInventorySummary) → List DriftInventorySummary →
    Except String Unit
  | _, [] => .ok ()
  | previous, entry :: entries => do
    refuse (!isKnownDriftInventoryKind entry.kind || entry.desired < 0 || entry.observed < 0)
      "drift observation has an invalid inventory entry"
    refuse (previous.any fun p => !bytesBefore p.kind entry.kind)
      "drift inventory is not in kind order"
    validateInventory (some entry) entries

def validateDriftInventory (inventory : List DriftInventorySummary) : Except String Unit := do
  refuse (maxDriftInventoryEntries < inventory.length) "drift observation counts too many kinds"
  validateInventory none inventory

/-- The loop over the verification requirements. -/
def validRequirements : (previous : Option Bytes) → List Bytes → Bool
  | _, [] => true
  | previous, requirement :: requirements =>
    runnerRequirement requirement && previous.all (bytesBefore · requirement) &&
      validRequirements (some requirement) requirements

def TruncationMetadata.valid (t : TruncationMetadata) : Bool :=
  t.stdout = decide (0 < t.stdoutBytesDropped) && t.stderr = decide (0 < t.stderrBytesDropped) &&
    (t.stdout || t.stderr)

def Result.failed (result : Result) (code : String) : Bool :=
  result.error.any (·.code = bytes code)

/-- The result of an operation that was refused before its child was started, and nothing else. -/
def Result.preChild (result : Result) : Result where
  protocolVersion := result.protocolVersion
  operation := result.operation
  operationID := result.operationID
  childExitCode := -1
  error := result.error

/-- A commit or a content digest. -/
def Result.gitResolution (result : Result) : Bool :=
  result.resolvedCommit ≠ [] || result.resolvedContentDigest ≠ []

/-- The digests of a result that may be set, in the order of the source's table. It ranges over a
map, so that of two invalid digests either may be the one it names. -/
def Result.digests (result : Result) : List (String × Bytes) :=
  [("coordination", result.coordinationDigest), ("target identity", result.targetIdentityDigest),
    ("verification policy", result.verificationPolicyDigest),
    ("drift report", result.driftReportDigest), ("resolved source", result.resolvedDigest),
    ("plan content", result.planContentDigest)]

def refuseDigests : List (String × Bytes) → Except String Unit
  | [] => .ok ()
  | (name, digest) :: digests => do
    refuse (digest ≠ [] && !validProtocolDigest digest) s!"invalid {name} digest"
    refuseDigests digests

/-- What `validateResult` asks of a resolution. `validatePinned` is that of package `ocireference`. -/
def validateResolution (validatePinned : Bytes → Bytes → Bool) (result : Result) :
    Except String Unit :=
  if result.operation = .resolve then
    if result.error.isSome then .ok ()
    else if result.gitResolution then do
      refuse (!gitCommitID result.resolvedCommit ||
          !validProtocolDigest result.resolvedContentDigest)
        "successful Git resolution lacks a commit and a content digest"
      refuse (result.resolvedReference ≠ [] || result.resolvedMediaType ≠ [] ||
          result.resolvedDigest ≠ [] || result.resolvedSize ≠ 0)
        "Git resolution carries OCI descriptor metadata"
    else do
      refuse (result.resolvedReference = [] || result.resolvedMediaType = [] ||
          result.resolvedDigest = [] || result.resolvedSize < 0)
        "successful resolution lacks typed descriptor evidence"
      refuse (!validatePinned result.resolvedReference result.resolvedDigest)
        "invalid resolved reference"
  else
    refuse (result.resolvedReference ≠ [] || result.resolvedMediaType ≠ [] ||
        result.resolvedSize ≠ 0 || result.gitResolution)
      "resolved source metadata on a non-resolve operation"

/-- What `validateResult` asks of the requirements of a refused verification. -/
def validateRefusal (result : Result) : Except String Unit := do
  let refused := result.operation = .verify && result.failed "verification_refused"
  refuse (!result.verificationRequirements.isEmpty &&
      (!refused || 64 < result.verificationRequirements.length))
    "verification requirements lack a refusal binding"
  refuse (!validRequirements none result.verificationRequirements)
    "invalid verification requirement set"
  refuse (refused && result.verificationRequirements.isEmpty)
    "verification refusal lacks typed requirements"
  refuse (refused && result.childExitCode ≠ 2 && !(result.childExitCode = 0 &&
      result.verificationRequirements = [bytes "require_digest_pin"]))
    "verification refusal has an invalid child exit binding"

/-- What `validateResult` asks of a plan's outcome. -/
def validatePlan (result : Result) : Except String Unit :=
  if result.operation = .plan && result.error.isNone then
    match result.planOutcome with
    | .changes => refuse (result.stdout = [] || result.planContentDigest = [])
        "changed plan outcome lacks immutable content"
    | .noChanges => refuse (result.stdout ≠ [] || result.planContentDigest ≠ [])
        "no-change plan outcome carries executable content"
    | .unset | .unknown _ => .error "successful plan result lacks an explicit outcome"
  else refuse (result.planOutcome ≠ .unset) "plan outcome is set on a non-successful plan result"

/-- What `validateResult` asks of an observation. -/
def validateObservation (result : Result) : Except String Unit :=
  if result.operation = .observe && result.error.isNone then do
    refuse (result.stdout ≠ [] || result.driftReportDigest = [] ||
        result.targetIdentityDigest = [] || !validObservedDialect result.observedDialect ||
        result.driftFindingCount < 0)
      "successful observation lacks a credential-free summary"
    if result.observedDrift then do
      refuse (!validDriftSeverity result.highestDriftSeverity)
        "drift observation has invalid severity"
      validateDriftFindingSummaries result
    else
      refuse (result.highestDriftSeverity ≠ [] || result.driftFindingCount ≠ 0 ||
        !result.driftFindings.isEmpty) "converged observation carries drift findings"
    validateDriftInventory result.driftInventory
  else
    refuse (result.observedDialect ≠ [] || result.observedDrift ||
        result.highestDriftSeverity ≠ [] || result.driftFindingCount ≠ 0 ||
        !result.driftFindings.isEmpty || !result.driftInventory.isEmpty)
      "observation summary is set on a non-successful observation"

/-- What `validateResult` asks of the header fields, the exit code and the error. -/
def validateEnvelope (result : Result) : Except String Unit := do
  refuse (result.protocolVersion ≠ protocolVersion) "protocol version binding mismatch"
  refuse (!result.operation.valid) "unsupported operation"
  refuse (result.operationID = []) "missing operation ID"
  refuse (256 < result.operationID.length || hasControlCharacter result.operationID)
    "invalid operation ID"
  refuse (result.childExitCode < -1) "invalid child exit code"
  refuse (result.error.any fun e => e.code = [] || e.message = []) "incomplete error metadata"
  refuse (result.truncation.any (!·.valid)) "invalid truncation metadata"
  refuse ((result.failed "invalid_oci_access" || result.failed "invalid_git_access") &&
      !((result.operation = .resolve || result.operation = .verify) && result = result.preChild))
    "invalid source access result lacks an exact pre-child binding"

/-- What `validateResult` asks of success and of a mutation. -/
def validateCompletion (result : Result) : Except String Unit := do
  refuse (result.error.isNone && result.childExitCode ≠ 0)
    "successful result has a nonzero child exit code"
  refuse (result.error.isNone && result.truncation.isSome)
    "successful result carries truncated output"
  refuse (result.error.isNone && result.operation = .apply &&
      (!result.mutationStarted || result.uncertain))
    "successful apply lacks an exact completed mutation"
  refuse (result.uncertain && !result.mutationStarted) "uncertain result without a mutation attempt"
  refuse (!result.operation.mutating && (result.mutationStarted || result.uncertain))
    "mutation metadata on a read-only operation"
  refuse (result.operation ≠ .plan && result.stdout ≠ [])
    "non-plan result carries protected native output"
  refuse (operationNeedsDatabase result.operation && result.error.isNone &&
      result.coordinationDigest = [])
    "successful database result lacks a coordination digest"

/-- What `validateResult` asks of the documents an operation carries. -/
def validateDocuments (result : Result) : Except String Unit := do
  refuse (result.resolvedDigest ≠ [] && result.operation ≠ .resolve && result.operation ≠ .verify)
    "resolved digest on an unrelated operation"
  refuse (result.migrationHistory.isSome && result.operation ≠ .migrationHistory)
    "migration history on an unrelated operation"
  refuse (result.migrationRun.isSome && result.operation ≠ .migrationApply)
    "migration run report on an unrelated operation"
  refuse (result.error.isNone && result.operation = .migrationHistory &&
      result.migrationHistory.isNone)
    "successful migration history lacks its report"
  refuse (result.error.isNone && result.operation = .migrationApply && result.migrationRun.isNone)
    "successful migration run lacks its report"
  refuse (result.observedArtifactType ≠ [] && result.operation ≠ .verify)
    "artifact type on a non-verify operation"

/-- `validateResult`, with the rules in the order of the source. The texts leave out the values that
its errors quote. -/
def validateResult (validatePinned : Bytes → Bytes → Bool) (result : Result)
    (options : ParseOptions) : Except String Unit := do
  validateEnvelope result
  validateCompletion result
  refuseDigests result.digests
  refuse (result.resolvedContentBytes < 0 ||
      result.resolvedContentBytes ≠ 0 && !result.gitResolution)
    "content size without a Git resolution"
  validateResolution validatePinned result
  validateDocuments result
  validateRefusal result
  refuse (result.operation = .verify && result.error.isNone &&
      (result.resolvedDigest = [] || result.observedArtifactType = []))
    "successful verification lacks typed artifact evidence"
  validatePlan result
  validateObservation result
  refuse (options.expectedOperation.any (result.operation ≠ ·)) "operation binding mismatch"
  refuse (options.expectedOperationID.any (result.operationID ≠ ·)) "operation ID binding mismatch"

end Ptah.Runner
