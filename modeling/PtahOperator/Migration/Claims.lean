import PtahOperator.Migration.Approvals
import PtahOperator.Migration.History
import PtahOperator.Migration.Retire

/-!
# Claims

The writes that take a claim (`claimMigration`, `claimMigrationApply`), give it another attempt
(`retryMigrationOperation`) or record why there is none (`migrationOperationFailure`).
-/

namespace Ptah.Migration

open Conc Lifecycle

def due (next : Option Time) (now : Time) : Bool := next.all (· ≤ now)

/-! ## Finalizer -/

def ensureMigrationFinalizer (m : PtahMigration) : Pass PtahMigration :=
  if m.finalizer then pure m else patchFinalizer m.resourceVersion true

def removeMigrationFinalizer (m : PtahMigration) : Pass PtahMigration :=
  if !m.finalizer then pure m
  else
    match m.status.activeOperation, m.status.pendingLockRelease with
    | some op, _ =>
      let type := op.type.name
      throw s!"the migration operation finalizer still protects a live {type} claim"
    | none, some _ =>
      throw "the migration operation finalizer still protects a database release it owes"
    | none, none => patchFinalizer m.resourceVersion false

/-! ## Failures -/

def failureStatus (m : PtahMigration) (s : Status) (failure : String) (next : Time) : Status :=
  ({ s with
    phase := .failed
    observedGeneration := m.generation
    nextReconciliationTime := some next }.setCondition
      .ready .isFalse "OperationFailed" (bounded failure 512)).setCondition
      .progressing .isFalse "OperationFailed" (bounded failure 512)

/-- `recordMigrationOperationFailure`, where `s` is what the caller recorded. -/
def recordMigrationOperationFailure (m : PtahMigration) (s : Status) (failure : String) :
    Pass PtahMigration := do
  let next ← ask .deadline
  match m.status.activeOperation with
  | some op => retireMigrationClaim m op (failureStatus m s failure next) .discard false
  | none => patchMigrationStatus m (failureStatus m s failure next)

def migrationOperationFailure (m : PtahMigration) (failure : String) : Pass PtahMigration :=
  recordMigrationOperationFailure m m.status failure

def unresolvedRunHoldMessage (unresolved : UnresolvedRun) : String :=
  let outcome := unresolved.outcome.name
  s!"A {outcome} run nobody accounted for is recorded against this database; establish what it did before another Apply"

/-- `liftMigrationRefusal`: takes a refusal off the conditions that carry one of its reasons. -/
def liftMigrationRefusal (s : Status) (refusals : List String) (reason message : String) : Status :=
  let held (s : Status) (type : ConditionType) : Bool :=
    (s.findCondition type).any (·.reason ∈ refusals)
  let s :=
    if held s .blocked then
      match s.unresolvedRun with
      | some unresolved =>
        s.setCondition .blocked .isTrue "ApplyOutcomeUnknown" (unresolvedRunHoldMessage unresolved)
      | none => s.setCondition .blocked .isFalse reason message
    else s
  let s :=
    if held s .ready then
      match s.unresolvedRun with
      | some _ => s.setCondition .ready .isFalse "ApplyOutcomeUnknown" unresolvedRunReadyMessage
      | none => s.setCondition .ready .isFalse reason message
    else s
  if held s .approvalRequired then s.setCondition .approvalRequired .isFalse reason message else s

def endMigrationRefusal (s : Status) (reason message : String) : Status :=
  liftMigrationRefusal s ["PolicyRefused"] reason message

def endMigrationRealmRefusal (s : Status) (reason message : String) : Status :=
  liftMigrationRefusal s ["RealmConflict", "RealmNotAuthorized"] reason message

/-- `claimRefused`: a read that failed before its claim was written. -/
def claimRefused (m : PtahMigration) (failure : String) : Pass PtahMigration :=
  recordMigrationOperationFailure m (endMigrationRealmRefusal m.status "OperationFailed"
    "The database realm admits this resource again; the read it let through failed before it started")
    failure

/-- `retryMigrationOperationAs` of the claim `op`: the same claim, a fresh attempt and a fresh
name. -/
def retryMigrationOperation (m : PtahMigration) (op : Operation) (job : Option Job)
    (failure : String) (reason : String := "OperationFailed") : Pass PtahMigration := do
  match job with
  | some j => patchJob j.name
  | none => pure ()
  let startedAt ← now
  let notBefore ← ask .deadline
  let next : Operation := { op with
    attempt := op.attempt + 1
    jobUID := ""
    admissionSnapshot := none
    startedAt := startedAt
    retryNotBefore := some notBefore }
  let type := op.type.name
  match ← ask (.jobName next) with
  | .error e => migrationOperationFailure m s!"name the retried {type} Job: {e}"
  | .ok name =>
    let deadline ← ask .deadline
    let s := { m.status with
      activeOperation := some { next with jobName := name }
      nextReconciliationTime := some (m.status.nextReconciliationTime.getD deadline) }
    patchMigrationStatus m (s.setCondition .progressing .isTrue reason (bounded failure 1024))

def answerMigrationReadRequest (m : PtahMigration) (token : String) (scheduled : Bool) :
    Pass PtahMigration := do
  let answeredAt ← now
  let s := { m.status with lastReadRequest := token }
  patchMigrationStatus m
    (if scheduled then { s with nextReconciliationTime := some answeredAt } else s)

/-! ## The claim of a read -/

def readClaim (type : OperationType) (binding id inputFingerprint coordinationDigest : String)
    (startedAt : Time) : Operation where
  type := type
  id := id
  inputFingerprint := inputFingerprint
  jobName := ""
  startedAt := startedAt
  attempt := 1
  executionBindingID := binding
  coordinationDigest := coordinationDigest

def migrationRealmReadMessage : String :=
  "The database realm admits this resource again, and it is read again"

/-- The status with the claim `op` of a read. -/
def readClaimStatus (m : PtahMigration) (op : Operation) (next : Option Time) : Status :=
  let type := op.type.name
  endMigrationRealmRefusal ({ m.status with
    activeOperation := some op
    observedGeneration := m.generation
    nextReconciliationTime := next
    phase := op.type.phase }.setCondition .progressing .isTrue "OperationInProgress"
      s!"{type} operation is in progress") "OperationInProgress" migrationRealmReadMessage

/-- The write of the claim, once its Job has a name. -/
def writeReadClaim (m : PtahMigration) (op : Operation) : Pass PtahMigration := do
  let type := op.type.name
  match ← ask (.jobName op) with
  | .error e => claimRefused m s!"name {type} Job: {e}"
  | .ok name =>
    let m ← ensureMigrationFinalizer m
    let next ← ask .claimDeadline
    patchMigrationStatus m (readClaimStatus m { op with jobName := name } next)

def migrationSourceResolvedMessage : String := "The source was read, and nothing refuses it"

/-- The write of `resolveMigrationConfigMapSource`, for a source that was read. -/
def configMapResolved (m : PtahMigration) (artifact : String) : Pass PtahMigration := do
  let next ← ask .claimDeadline
  let s := { m.status with
    artifact := some artifact
    observedGeneration := m.generation
    nextReconciliationTime := next
    phase := .reading }
  let s := endMigrationRefusal (s.removeCondition .artifactVerified) "SnapshotTaken"
    migrationSourceResolvedMessage
  let s := endMigrationRealmRefusal s "OperationInProgress" migrationRealmReadMessage
  patchMigrationStatus m (s.setCondition .progressing .isTrue "SnapshotTaken"
    "The ConfigMap was copied into a snapshot; the history is read next")

/-- The inputs and the identity of the claim of a read. -/
def claimRead (m : PtahMigration) (binding : ExecutionBinding) (type : OperationType) :
    Pass PtahMigration := do
  match ← ask (.inputFingerprint type) with
  | .error e => claimRefused m e
  | .ok inputFingerprint =>
    let id ← newOperationID inputFingerprint
    let startedAt ← now
    if type ≠ .resolve && m.status.artifact.isNone then
      claimRefused m "the artifact has not been resolved to a digest"
    else if type = .history then do
      match ← ask .coordinationDigest with
      | .error e => claimRefused m s!"derive coordination digest: {e}"
      | .ok digest =>
        writeReadClaim m (readClaim type binding.epoch id inputFingerprint digest startedAt)
    else writeReadClaim m (readClaim type binding.epoch id inputFingerprint "" startedAt)

def claimMigration (m : PtahMigration) (type : OperationType) : Pass PtahMigration :=
  match m.status.activeOperation, m.status.executionBinding with
  | some _, _ => pure m
  | none, none => pure m
  | none, some binding =>
    if type = .resolve then do
      match ← ask .resolveSource with
      | .error e => throw e
      | .ok (.refused e) => claimRefused m e
      | .ok (.configMap artifact) => configMapResolved m artifact
      | .ok .job => claimRead m binding type
    else claimRead m binding type

/-! ## The claim of an Apply -/

/-- The status with the claim `op` of an Apply of `planned` migrations. -/
def applyClaimStatus (m : PtahMigration) (op : Operation) (planned : Nat) : Status :=
  let migrations := byCount planned "migration" "migrations"
  ({ m.status with
    activeOperation := some op
    observedGeneration := m.generation
    nextReconciliationTime := none
    phase := .applying }.setCondition .progressing .isTrue "ApprovedPlan"
      s!"Applying {planned} planned {migrations}").setCondition
    .approvalRequired .isFalse "Satisfied" "The plan's approval requirements are satisfied"

def claimMigrationApply (m : PtahMigration) (plan : Plan) (approval : Option Approval) :
    Pass PtahMigration :=
  match m.status.activeOperation, m.status.unresolvedRun with
  | some _, _ => pure m
  | none, some unresolved =>
    migrationBlocked m "ApplyOutcomeUnknown" (unresolvedRunHoldMessage unresolved)
  | none, none => do
    match ← ask (.inputFingerprint .apply) with
    | .error e => migrationOperationFailure m e
    | .ok inputFingerprint =>
      let id ← newOperationID inputFingerprint
      let startedAt ← now
      let binding := (m.status.executionBinding.map (·.epoch)).getD ""
      let claim (jobName : String) :=
        applyClaim m.spec binding plan approval id inputFingerprint jobName startedAt
      match ← ask (.jobName (claim "")) with
      | .error e => migrationOperationFailure m s!"name the Apply Job: {e}"
      | .ok name =>
        let m ← ensureMigrationFinalizer m
        patchMigrationStatus m (applyClaimStatus m (claim name) plan.migrations)

def currentMigrationPlan (m : PtahMigration) : Pass Plan :=
  match m.status.plan with
  | none => throw "the migration has no published plan"
  | some reference => do
    match ← getPlan reference.name with
    | none => throw "read the current migration plan: not found"
    | some plan =>
      if plan.uid ≠ reference.uid || plan.deleting then
        throw "the published plan was replaced or is being deleted"
      else
        match m.status.executionBinding, m.status.history, m.status.artifact with
        | some binding, some history, some _ =>
          if plan.historyFingerprint ≠ history.fingerprint then
            throw "the database's history moved after the plan was published"
          else if plan.targetIdentityDigest ≠ history.targetIdentityDigest then
            throw "the database identity changed after the plan was published"
          else if plan.executionBindingID ≠ binding.epoch then
            throw "an execution component changed after the plan was published"
          else do
            match ← ask (.planCurrent plan) with
            | .error e => throw e
            | .ok _ =>
              match ← ask (.policyBinds plan) with
              | .error e => throw e
              | .ok _ => pure plan
        | _, _, _ => throw "the migration lost the evidence its plan was computed from"

def discardMigrationPlan (m : PtahMigration) (failure : String) : Pass PtahMigration :=
  patchMigrationStatus m (({ m.status with plan := none, phase := .pending }.setCondition
    .approvalRequired .isFalse "PlanNoLongerCurrent" (bounded failure 512)).setCondition
    .ready .isFalse "PlanNoLongerCurrent" (bounded failure 512))

def reconcileMigrationApplyDecision (m : PtahMigration) : Pass PtahMigration := do
  match ← (currentMigrationPlan m).attempt with
  | .error e => discardMigrationPlan m e
  | .ok plan =>
    match m.spec.apply with
    | .never => pure m
    | .always => claimMigrationApply m plan none
    | .onApproval =>
      match ← findMigrationApproval m plan with
      | none => pure m
      | some approval => claimMigrationApply m plan (some approval)

end Ptah.Migration
