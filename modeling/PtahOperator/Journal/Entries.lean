import PtahOperator.Journal.Record

/-!
# What a status write records

`schemaEntries` and `migrationEntries` (`internal/lifecyclejournal`): the journal entries of a status
write, from the status before it, the status after it and the journal before it. The statuses hold the
fields that the two functions read.
-/

namespace Ptah.Journal

open Migration (Time ObjectRef ConditionStatus RunOutcome)

/-! ## Dates and names -/

/-- The zero `time.Time`. -/
def zeroTime : Time := -62135596800 * 1000000000

def orNow (instant now : Time) : Time := if instant = zeroTime then now else instant

def publishedAt (created : Time) (journal : Option LifecycleJournal) (now : Time) : Time :=
  if (journal.bind (·.entries.getLast?)).any (created < latest ·) then now else orNow created now

def maxUsernameLength : Nat := 512

def boundedUsername (username : String) : String := String.ofList (username.toList.take maxUsernameLength)

def approvalRecorded (journal : Option LifecycleJournal) (approval : String) : Bool :=
  journal.any (·.entries.any fun entry =>
    entry.type = .approvalAccepted && entry.approvalUID = approval)

/-! ## Schemas -/

/-- `ReconciliationPhase`; `unset` is the empty phase. -/
inductive SchemaPhase where
  | unset
  | pending
  | resolving
  | verifying
  | observing
  | planning
  | readyToApply
  | awaitingApproval
  | blocked
  | applying
  | verifyingConvergence
  | inSync
  | suspended
  | failed
  deriving DecidableEq

/-- `OperationType` -/
inductive SchemaOperationType where
  | resolve
  | verify
  | observe
  | plan
  | apply
  deriving DecidableEq

def SchemaOperationType.name : SchemaOperationType → String
  | resolve => "Resolve"
  | verify => "Verify"
  | observe => "Observe"
  | plan => "Plan"
  | apply => "Apply"

/-- `OperationStatus` -/
structure SchemaOperation where
  type : SchemaOperationType
  id : String
  startedAt : Time
  attempt : Int := 1
  deriving DecidableEq

/-- `PendingObservationOutcome` -/
inductive PendingOutcome where
  | applySucceeded
  | outcomeUnknown
  deriving DecidableEq

/-- `PendingObservationStatus` -/
structure PendingObservation where
  outcome : PendingOutcome
  applyOperationID : String
  plan : String
  deriving DecidableEq

/-- The approval that a schema's plan records. -/
structure PlanApproval where
  name : String
  uid : String
  approvedAt : Time
  approver : String
  deriving DecidableEq

/-- `CurrentPlanStatus` -/
structure CurrentPlan where
  name : String
  statementCount : Int
  destructive : Bool
  createdAt : Time
  approval : Option PlanApproval := none
  deriving DecidableEq

inductive SchemaConditionType where
  | approvalRequired
  | ready
  | driftDetected
  | reconciliationFailed
  | other (name : String)
  deriving DecidableEq

structure SchemaCondition where
  type : SchemaConditionType
  status : ConditionStatus
  reason : String
  deriving DecidableEq

/-- `PtahSchemaStatus` -/
structure SchemaStatus where
  phase : SchemaPhase := .unset
  conditions : List SchemaCondition := []
  activeOperation : Option SchemaOperation := none
  pendingObservation : Option PendingObservation := none
  plan : Option CurrentPlan := none
  deriving DecidableEq

/-- `meta.FindStatusCondition` -/
def SchemaStatus.condition (status : SchemaStatus) (type : SchemaConditionType) : Option SchemaCondition :=
  status.conditions.find? (·.type = type)

/-- `meta.IsStatusConditionTrue` -/
def SchemaStatus.isTrue (status : SchemaStatus) (type : SchemaConditionType) : Bool :=
  (status.condition type).any (·.status = .isTrue)

def realmRefusal (reason : String) : Bool := reason = "RealmConflict" || reason = "RealmNotAuthorized"

def replacedPlan (before : SchemaStatus) (journal : Option LifecycleJournal) : String :=
  match journal with
  | none => ""
  | some journal =>
    let (published, approval) := outstanding journal.entries
    match published.bind (journal.entries[·]?) with
    | none => ""
    | some entry =>
      let asked := before.condition .approvalRequired
      if asked.any (·.reason = "NoChanges") then ""
      else if approval.isSome || before.isTrue .approvalRequired then entry.plan
      else if asked.any fun asked => entry.approvalRequired && realmRefusal asked.reason then entry.plan
      else ""

def schemaHeldApproval (before : SchemaStatus) (approval : String) : Bool :=
  before.plan.any fun plan => plan.approval.any (·.uid = approval)

def schemaOperation (before after : SchemaStatus) : String :=
  ((after.activeOperation.or before.activeOperation).map (·.type.name)).getD ""

/-- The first part of `SchemaEntries`: a plan that the write names first. -/
def schemaPublished (before after : SchemaStatus) (journal : Option LifecycleJournal) (now : Time) :
    Option Entry := do
  let plan ← after.plan
  if before.plan.any (·.name = plan.name) || planRecorded journal plan.name then none
  pure {
    type := .planPublished
    atTime := publishedAt plan.createdAt journal now
    plan := plan.name
    statements := plan.statementCount
    destructive := plan.destructive
    approvalRequired := after.isTrue .approvalRequired
    replaced := replacedPlan before journal }

/-- The part of `SchemaEntries` about an accepted approval. -/
def schemaApproved (before after : SchemaStatus) (journal : Option LifecycleJournal) (now : Time) :
    Option Entry := do
  let plan ← after.plan
  let approval ← plan.approval
  if journal.isSome && schemaHeldApproval before approval.uid || approvalRecorded journal approval.uid then
    none
  pure {
    type := .approvalAccepted
    atTime := orNow approval.approvedAt now
    plan := plan.name
    approval := approval.name
    approvalUID := approval.uid
    approver := boundedUsername approval.approver }

/-- The part of `SchemaEntries` about an Apply that ended. -/
def schemaApplied (before after : SchemaStatus) (now : Time) : Option Entry := do
  let operation ← before.activeOperation
  if operation.type ≠ .apply || after.activeOperation.any (·.id = operation.id) then none
  let pending ← after.pendingObservation
  if pending.applyOperationID ≠ operation.id then none
  pure {
    type := .applyFinished
    atTime := now
    startedAt := some operation.startedAt
    plan := pending.plan
    outcome := some (if pending.outcome = .applySucceeded then .succeeded else .unknown) }

def provenOutcome (after : SchemaStatus) : Outcome :=
  if after.phase = .inSync then .inSync
  else if (after.condition .ready).any (·.reason = "ProofSettled") then .unknown
  else if after.phase = .pending || after.phase = .verifying then .superseded
  else if after.isTrue .driftDetected then .driftRemains
  else .superseded

/-- The part of `SchemaEntries` about a proof that settled. -/
def schemaVerified (before after : SchemaStatus) (now : Time) : Option Entry := do
  let pending ← before.pendingObservation
  if after.pendingObservation.isSome then none
  pure {
    type := .verified
    atTime := now
    plan := pending.plan
    outcome := some (provenOutcome after) }

/-- The part of `SchemaEntries` about a failed attempt. -/
def schemaFailed (before after : SchemaStatus) (now : Time) : Option Entry := do
  let failure ← after.condition .reconciliationFailed
  if failure.status ≠ .isTrue then none
  let retried := before.activeOperation.any fun previous => after.activeOperation.any fun current =>
    previous.id = current.id && previous.attempt < current.attempt
  let repeated := (before.condition .reconciliationFailed).any fun previous =>
    previous.status = .isTrue && previous.reason = failure.reason
  if repeated && !retried then none
  pure {
    type := .operationFailed
    atTime := now
    operation := schemaOperation before after
    reason := failure.reason }

def schemaEntries (before after : SchemaStatus) (journal : Option LifecycleJournal) (now : Time) :
    List Entry :=
  (schemaPublished before after journal now).toList ++ (schemaApproved before after journal now).toList ++
    (schemaApplied before after now).toList ++ (schemaVerified before after now).toList ++
    (schemaFailed before after now).toList

/-! ## Migrations -/

/-- `MigrationOperationStatus` -/
structure MigrationOperation where
  type : Migration.OperationType
  id : String
  attempt : Int := 1
  planRef : Option ObjectRef := none
  planFingerprint : String := ""
  approvalRef : Option ObjectRef := none
  /-- The user name of `approvedBy`. -/
  approvedBy : Option String := none
  deriving DecidableEq

/-- `MigrationRunAuthorizationStatus` -/
structure RunAuthorization where
  kind : AuthorizationKind
  approvalRef : Option ObjectRef := none
  /-- The user name of `approver`. -/
  approver : Option String := none
  deriving DecidableEq

/-- `MigrationRunStatus` -/
structure RunStatus where
  outcome : RunOutcome
  jobName : String := ""
  jobUID : String := ""
  operationID : String := ""
  planRef : Option ObjectRef := none
  planFingerprint : String := ""
  authorization : Option RunAuthorization := none
  verification : Option Migration.RunVerification := none
  startedAt : Time
  finishedAt : Option Time := none
  appliedVersions : List Int := []
  failure : Option RunFailure := none
  deriving DecidableEq

/-- `PtahMigrationStatus` -/
structure MigrationStatus where
  phase : Migration.Phase := .unset
  conditions : List Migration.Condition := []
  activeOperation : Option MigrationOperation := none
  plan : Option String := none
  lastRun : Option RunStatus := none
  unresolvedRun : Option Migration.UnresolvedRun := none
  resolvedRun : Option Migration.ResolvedRun := none
  deriving DecidableEq

def runOutcome : RunOutcome → Outcome
  | .applied => .succeeded
  | .upToDate => .upToDate
  | .failed => .failed
  | .partially => .partially
  | .unknown => .unknown

def verificationOutcome : Migration.VerificationResult → Outcome
  | .inSync => .inSync
  | .blocked => .blocked
  | .pending => .pending

def withRunIdentity (entry : Entry) (run : RunStatus) : Entry :=
  let entry := { entry with
    operationID := run.operationID
    jobName := run.jobName
    jobUID := run.jobUID
    planFingerprint := run.planFingerprint }
  let entry := match run.planRef with
    | some ref => { entry with plan := ref.name, planUID := ref.uid }
    | none => entry
  match run.authorization with
  | none => entry
  | some authorization =>
    let entry := { entry with authorization := some authorization.kind }
    let entry := match authorization.approvalRef with
      | some ref => { entry with approval := ref.name, approvalUID := ref.uid }
      | none => entry
    match authorization.approver with
    | some approver => { entry with approver := boundedUsername approver }
    | none => entry

/-- `runFinished`, of a run that finished at `finishedAt`. -/
def runFinished (run : RunStatus) (finishedAt : Time) : Entry :=
  withRunIdentity
    { type := .runFinished
      atTime := finishedAt
      startedAt := some run.startedAt
      outcome := some (runOutcome run.outcome)
      appliedVersions := run.appliedVersions.length
      failure := run.failure } run

def sameRun (previous : Option RunStatus) (current : RunStatus) : Bool :=
  previous.any fun previous => previous.finishedAt.isSome && previous.jobUID = current.jobUID &&
    previous.startedAt = current.startedAt

def accountsFor (run : RunStatus) (hold : Migration.UnresolvedRun) : Bool :=
  run.jobUID = hold.jobUID && run.outcome = hold.outcome

/-- The last run of a status, if it finished. -/
def MigrationStatus.finished (status : MigrationStatus) : Option (RunStatus × Time) := do
  let run ← status.lastRun
  pure (run, ← run.finishedAt)

/-- The part of `finishedRun` about a hold without a new account. -/
def heldRun (before after : MigrationStatus) (journal : Option LifecycleJournal) (now : Time) :
    Option Entry :=
  match after.unresolvedRun with
  | none => none
  | some hold =>
    if before.unresolvedRun.any (·.operationID = hold.operationID) && journal.isSome then none
    else match after.finished.filter fun run => accountsFor run.1 hold with
    | some (run, finishedAt) =>
      if journal.isSome then none
      else some { runFinished run finishedAt with
        operationID := hold.operationID
        plan := hold.planRef.name
        planUID := hold.planRef.uid }
    | none =>
      some {
        type := .runFinished
        atTime := orNow hold.recordedAt now
        operationID := hold.operationID
        outcome := some (runOutcome hold.outcome)
        plan := hold.planRef.name
        planUID := hold.planRef.uid
        jobName := hold.jobName
        jobUID := hold.jobUID }

def finishedRun (before after : MigrationStatus) (journal : Option LifecycleJournal) (now : Time) :
    Option Entry :=
  match after.finished.filter fun run => !sameRun before.lastRun run.1 with
  | some (run, finishedAt) => some (runFinished run finishedAt)
  | none => heldRun before after journal now

def migrationHeldApproval (before : MigrationStatus) (approval : String) : Bool :=
  before.activeOperation.any fun operation => operation.approvalRef.any (·.uid = approval)

def firstMigrationOperation (before after : MigrationStatus) : Option MigrationOperation :=
  after.activeOperation.or before.activeOperation

/-- The first part of `MigrationEntries`: a plan that the write names first. -/
def migrationPublished (before after : MigrationStatus) (journal : Option LifecycleJournal) (now : Time) :
    Option Entry := do
  let plan ← after.plan
  if before.plan = some plan || planRecorded journal plan then none
  pure { type := .planPublished, atTime := now, plan := plan }

/-- The part of `MigrationEntries` about an approval that a claim consumed. -/
def migrationApproved (before after : MigrationStatus) (journal : Option LifecycleJournal) (now : Time) :
    Option Entry := do
  let operation ← after.activeOperation
  if operation.type ≠ .apply then none
  let approval ← operation.approvalRef
  if journal.isSome && migrationHeldApproval before approval.uid || approvalRecorded journal approval.uid then
    none
  pure {
    type := .approvalAccepted
    atTime := now
    approval := approval.name
    approvalUID := approval.uid
    planFingerprint := operation.planFingerprint
    plan := (operation.planRef.map (·.name)).getD ""
    planUID := (operation.planRef.map (·.uid)).getD ""
    approver := (operation.approvedBy.map boundedUsername).getD "" }

/-- The part of `MigrationEntries` about the first reading after a run. -/
def migrationVerified (before after : MigrationStatus) : Option Entry := do
  let run ← after.lastRun
  let verification ← run.verification
  if before.lastRun.any (·.verification.isSome) then none
  pure {
    type := .verified
    atTime := verification.observedAt
    operationID := run.operationID
    outcome := some (verificationOutcome verification.result)
    jobName := run.jobName
    jobUID := run.jobUID
    plan := (run.planRef.map (·.name)).getD ""
    planUID := (run.planRef.map (·.uid)).getD "" }

/-- The part of `MigrationEntries` about an acknowledged run. -/
def migrationAcknowledged (before after : MigrationStatus) (now : Time) : Option Entry := do
  let resolved ← after.resolvedRun
  if resolved.resolution ≠ .acknowledged ||
      before.resolvedRun.any (·.operationID = resolved.operationID) then none
  let held := before.unresolvedRun.filter (·.operationID = resolved.operationID)
  pure {
    type := .runAcknowledged
    atTime := orNow resolved.resolvedAt now
    operationID := resolved.operationID
    outcome := some (runOutcome resolved.outcome)
    plan := (held.map (·.planRef.name)).getD ""
    planUID := (held.map (·.planRef.uid)).getD ""
    jobName := (held.map (·.jobName)).getD ""
    jobUID := (held.map (·.jobUID)).getD ""
    acknowledgment := (resolved.acknowledgmentRef.map (·.name)).getD ""
    acknowledgedBy := (resolved.acknowledgedBy.map boundedUsername).getD "" }

/-- The reason of the `Ready` condition. -/
def MigrationStatus.readyReason (status : MigrationStatus) : String :=
  ((status.conditions.find? (·.type = .ready)).map (·.reason)).getD ""

/-- The part of `MigrationEntries` about a failed attempt. -/
def migrationFailed (before after : MigrationStatus) (now : Time) : Option Entry :=
  let retried := before.activeOperation.any fun previous => after.activeOperation.any fun current =>
    previous.id = current.id && previous.attempt < current.attempt
  if after.phase = .failed &&
      (before.phase ≠ .failed || before.readyReason ≠ after.readyReason || retried) then
    some {
      type := .operationFailed
      atTime := now
      reason := after.readyReason
      operation := ((firstMigrationOperation before after).map (·.type.name)).getD "" }
  else none

def migrationEntries (before after : MigrationStatus) (journal : Option LifecycleJournal) (now : Time) :
    List Entry :=
  (migrationPublished before after journal now).toList ++
    (migrationApproved before after journal now).toList ++ (finishedRun before after journal now).toList ++
    (migrationVerified before after).toList ++ (migrationAcknowledged before after now).toList ++
    (migrationFailed before after now).toList

end Ptah.Journal
