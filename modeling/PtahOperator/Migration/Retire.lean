import PtahOperator.Migration.Latch
import PtahOperator.Migration.Window

/-!
# The end of a claim

`retireMigrationClaim` drops the active claim in one status write, which carries what the caller
recorded and the release the claim owes. `dispatchedApplyMayStillWrite` decides whether the database
may be handed back.
-/

namespace Ptah.Migration

open Conc Lifecycle TargetLock

/-! ## Pods of a Job -/

def podsOwnedByJob (jobName jobUID : String) : Pass (List Pod) :=
  if jobName = "" || jobUID = "" then pure []
  else do
    let pods ← listPods
    pure (pods.filter fun pod => pod.jobName = jobName && pod.jobUID = jobUID)

def podsStopped (jobName jobUID : String) : Pass Bool := do
  let pods ← podsOwnedByJob jobName jobUID
  pure (pods.all (·.finished))

/-- The last reads of `dispatchedApplyMayStillWrite`: the Job `job`, if it is the one of that UID,
and the Pods of the Job `jobName` with that UID. -/
def workloadMayStillWrite (jobName jobUID : String) (job : Option Job) : Pass Bool :=
  if job.any fun j => j.uid = jobUID && !j.terminal then pure true
  else do
    match ← (podsOwnedByJob jobName jobUID).attempt with
    | .error _ => pure true
    | .ok pods => pure (pods.any (!·.finished))

/-- `dispatchedApplyMayStillWrite`: what the claim `op` dispatched could still be executing. `job`
is the Job the caller read. -/
def dispatchedApplyMayStillWrite (op : Operation) (job : Option Job) : Pass Bool :=
  let named := if op.jobUID = "" then job.map fun j => (j.name, j.uid) else none
  let (jobName, jobUID) := named.getD (op.jobName, op.jobUID)
  if jobUID = "" && jobName = "" then pure false
  else if job.any (·.uid = jobUID) then workloadMayStillWrite jobName jobUID job
  else if jobName = "" then workloadMayStillWrite jobName jobUID none
  else do
    match ← (getJob jobName).attempt with
    | .error _ => pure true
    | .ok none =>
      if jobUID = "" then pure false else workloadMayStillWrite jobName jobUID none
    | .ok (some dispatched) =>
      if jobUID = "" || dispatched.uid = jobUID then
        workloadMayStillWrite dispatched.name dispatched.uid (some dispatched)
      else workloadMayStillWrite jobName jobUID none

/-! ## The lock -/

/-- What one attempt at the Lease came to. -/
inductive LockAttempt where
  | acquired
  /-- Another operation holds the Lease. -/
  | contended
  /-- The pass recorded an epoch and ends. -/
  | recorded
  deriving DecidableEq

def epochStatus (s : Status) (op : Operation) (result : LockResult) : Status :=
  let changed := op.leaseEpoch = "" || result.continuityLost || result.epoch ≠ op.leaseEpoch
  -- The first acquisition assigns an epoch the claim could not have known.
  let lost := changed && (op.leaseEpoch = "" || op.mayHaveDispatched)
  let claim := { op with leaseEpoch := result.epoch, leaseContinuityLost := lost }
  let s := { s with activeOperation := some claim }
  let type := op.type.name
  let s :=
    if (s.findCondition .progressing).any (·.reason = "WaitingForDatabaseLock") then
      s.setCondition .progressing .isTrue "OperationInProgress" s!"{type} operation is in progress"
    else s
  if lost then
    s.setCondition .ready .isFalse "LeaseContinuityLost"
      "The database lock epoch changed under the running operation"
  else s

def tryMigrationApplyLock (m : PtahMigration) (op : Operation) :
    Pass (LockAttempt × PtahMigration) :=
  if !op.type.holdsLock then pure (.acquired, m)
  else if op.coordinationDigest = "" || op.leaseDurationSeconds < 1 then
    throw "the Apply claim carries no database lock binding"
  else do
    let result ← acquire m.uid op
    if !result.acquired then pure (.contended, m)
    else if result.epoch = op.leaseEpoch && !result.continuityLost then pure (.acquired, m)
    else do
      let m ← patchMigrationStatus m (epochStatus m.status op result)
      pure (.recorded, m)

def migrationLockWaitMessage (op : Operation) : String :=
  let lease :=
    match leaseName op.coordinationDigest with
    | .ok name => name
    | .error _ => "of this database's realm"
  let type := op.type.name
  if op.mayHaveDispatched then
    s!"{type} is waiting for the database lock it lost, and Job {op.jobName} may still be running: another operation on this database holds Lease {lease}. It asks again every 5s"
  else
    s!"{type} is waiting for the database lock: another operation on this database holds Lease {lease}. It asks again every 5s"

/-- `waitForMigrationApplyLock`: the Lease is held, or the pass ends. -/
def waitForMigrationApplyLock (m : PtahMigration) (op : Operation) : Pass (Bool × PtahMigration) := do
  match ← tryMigrationApplyLock m op with
  | (.acquired, m) => pure (true, m)
  | (.recorded, m) => pure (false, m)
  | (.contended, m) =>
    let m ← patchMigrationStatus m (m.status.setCondition .progressing .isTrue
      "WaitingForDatabaseLock" (migrationLockWaitMessage op))
    pure (false, m)

/-! ## Retirement -/

/-- `stageMigrationLockRelease`. A release that cannot be recorded is left to expire. -/
def stageMigrationLockRelease (s : Status) (op : Operation) : Status :=
  if op.leaseEpoch = "" then s
  else
    match owedRelease op with
    | .error _ => s
    | .ok owed => if s.pendingLockRelease.isSome then s else { s with pendingLockRelease := some owed }

/-- The release `CompleteRelease` asks for, when a release is owed. -/
def releaseOwed (m : PtahMigration) (owed : LockRelease) : Pass Unit :=
  if owed.coordinationDigest = "" || owed.operationID = "" || owed.leaseEpoch = "" ||
      owed.leaseDurationSeconds = 0 then
    throw "release database target lock: persisted lock binding is incomplete"
  else release m.uid owed

def releasedStatus (s : Status) : Status := { s with pendingLockRelease := none }

def completeMigrationPendingLockRelease (m : PtahMigration) (owed : LockRelease) :
    Pass PtahMigration := do
  releaseOwed m owed
  patchMigrationStatus m (releasedStatus m.status)

def migrationRealmClaim (op : Operation) : RealmClaim where
  mutating := op.type.mutating
  servesProof := false
  locked := op.leaseEpoch ≠ ""
  proofOutstanding := false

/-- The status a retirement of `op` writes: `s` with the release it owes, and without the claim
unless what it dispatched may still write. -/
def retiredStatus (op : Operation) (s : Status) (disposition : Disposition) (mayStillWrite : Bool) :
    Status :=
  let retirement : Retirement := { claim := migrationRealmClaim op, disposition, mayStillWrite }
  let s := if retirement.releases = .claim then stageMigrationLockRelease s op else s
  { s with
    activeOperation :=
      if disposition = .unaccounted && mayStillWrite then some op else none }

/-- `retireMigrationClaim` of the claim `op` of `m`, where `s` is what the caller recorded. The
release that follows the write is best effort: a release that failed stays recorded for the next
pass, and so does one whose record could not be cleared. -/
def retireMigrationClaim (m : PtahMigration) (op : Operation) (s : Status)
    (disposition : Disposition) (mayStillWrite : Bool) : Pass PtahMigration := do
  let m ← patchMigrationStatus m (retiredStatus op s disposition mayStillWrite)
  match m.status.pendingLockRelease with
  | none => pure m
  | some owed =>
    match ← (releaseOwed m owed).attempt with
    | .error _ => pure m
    | .ok _ =>
      match ← (patchMigrationStatus m (releasedStatus m.status)).attempt with
      | .error _ => pure { m with status := releasedStatus m.status }
      | .ok m => pure m

def discardMigrationOperation (m : PtahMigration) (op : Operation) (failure : String) :
    Pass PtahMigration :=
  retireMigrationClaim m op ({ m.status with phase := .pending }.setCondition
    .progressing .isFalse "InputsChanged" (bounded failure 512)) .discard false

/-! ## Runs -/

/-- `migrationRunTarget`: the database a record names. -/
def migrationRunTarget (s : Status) (reportedTarget : String) : String :=
  if sha256Digest reportedTarget then reportedTarget
  else (s.history.map (·.targetIdentityDigest)).getD ""

/-- `dispatcherRecord`: the manager a Job records, if it is one status admits. -/
def dispatcherRecord (job : Job) : Option ManagerRecord :=
  if validManagerRecord job.manager && !job.manager.controllerRevision.toList.any (fun c =>
      c.toNat < 32 || (127 ≤ c.toNat && c.toNat < 160)) then some job.manager
  else none

/-- `recordUnresolvedMigrationRun`. A claim that names no plan has no record; the one place that
writes an Apply claim names its plan. -/
def recordUnresolvedMigrationRun (s : Status) (op : Operation) (run : RunStatus)
    (reportedTarget : String) (recordedAt : Time) : Status :=
  match op.planRef with
  | none => s
  | some planRef =>
    let unresolved : UnresolvedRun :=
      { outcome := run.outcome
        operationID := op.id
        jobName := run.jobName
        jobUID := run.jobUID
        planRef := planRef
        targetIdentityDigest := migrationRunTarget s reportedTarget
        dispatchedBy := run.dispatchedBy
        recordedAt := recordedAt }
    { s with unresolvedRun := some unresolved }

/-- `recordMigrationRunProvenance`, of the fields that are read again. -/
def recordMigrationRunProvenance (run : RunStatus) (op : Operation) (reportedTarget : String) :
    RunStatus :=
  { run with
    operationID := op.id
    targetIdentityDigest :=
      if sha256Digest reportedTarget then reportedTarget else run.targetIdentityDigest }

/-- The run of an Apply that nobody accounted for, with the Job it can name. -/
def uncertainRun (op : Operation) (job : Option Job) (failure reportedTarget : String)
    (finishedAt : Time) : RunStatus :=
  let run : RunStatus :=
    { outcome := .unknown, startedAt := op.startedAt, finishedAt := some finishedAt
      message := bounded failure 1024 }
  let claimed : RunStatus :=
    if op.jobUID ≠ "" then { run with jobName := op.jobName, jobUID := op.jobUID } else run
  let run :=
    match job with
    | some j =>
      if op.jobUID = "" || j.uid = op.jobUID then
        { run with jobName := j.name, jobUID := j.uid, dispatchedBy := dispatcherRecord j }
      else claimed
    | none => claimed
  recordMigrationRunProvenance run op reportedTarget

def uncertainStatus (s : Status) (op : Operation) (job : Option Job) (failure reportedTarget : String)
    (finishedAt recordedAt next : Time) : Status :=
  let run := uncertainRun op job failure reportedTarget finishedAt
  let s := recordUnresolvedMigrationRun { s with lastRun := some run } op run reportedTarget recordedAt
  (({ s with plan := none, phase := .blocked, nextReconciliationTime := some next }.setCondition
    .blocked .isTrue "ApplyOutcomeUnknown" (bounded failure 1024)).setCondition
    .ready .isFalse "ApplyOutcomeUnknown"
      "What the dispatched run did is unknown until the database is read").setCondition
    .progressing .isFalse "ApplyOutcomeUnknown"
      "The dispatched run's outcome is unknown and may not be retried"

/-- `retireUncertainMigrationApply`. The cleanup of the Job is best effort. -/
def retireUncertainMigrationApply (m : PtahMigration) (op : Operation) (job : Option Job)
    (failure reportedTarget : String) (mayStillWrite : Bool) : Pass PtahMigration := do
  match job with
  | some j => let _ ← (patchJob j.name).attempt
  | none => pure ()
  let finishedAt ← now
  let recordedAt ← now
  let next ← ask .deadline
  retireMigrationClaim m op
    (uncertainStatus m.status op job failure reportedTarget finishedAt recordedAt next)
    .unaccounted mayStillWrite

def finishUncertainMigrationApply (m : PtahMigration) (op : Operation) (job : Option Job)
    (failure reportedTarget : String) : Pass PtahMigration := do
  let mayStillWrite ← dispatchedApplyMayStillWrite op job
  retireUncertainMigrationApply m op job failure reportedTarget mayStillWrite

def runStatus (s : Status) (op : Operation) (job : Job) (run : RunAccount) (reportedTarget : String)
    (finishedAt recordedAt next : Time) : Status :=
  let last := recordMigrationRunProvenance
    { outcome := run.outcome, jobName := job.name, jobUID := job.uid, startedAt := op.startedAt
      finishedAt := some finishedAt, appliedVersions := run.applied
      dispatchedBy := dispatcherRecord job, message := bounded run.message 1024 } op reportedTarget
  let s := { s with lastRun := some last, plan := none }
  let s :=
    if run.openedTarget then
      s.setCondition .databaseReachable .isTrue "Observed" "The Apply opened the database"
    else s
  if run.outcome.unresolved then
    let s := recordUnresolvedMigrationRun s op last reportedTarget recordedAt
    (({ s with phase := .blocked, nextReconciliationTime := some next }.setCondition
      .blocked .isTrue "ApplyOutcomeUnknown" (bounded run.message 1024)).setCondition
      .ready .isFalse "ApplyOutcomeUnknown"
        "The database has to be read by a person before anything else runs").setCondition
      .progressing .isFalse "ApplyOutcomeUnknown" "The run stopped and may not be retried"
  else if run.stoppedBeforeSelecting then
    ({ s with phase := .failed, nextReconciliationTime := some next }.setCondition
      .ready .isFalse "OperationFailed" (bounded run.message 1024)).setCondition
      .progressing .isFalse "OperationFailed" (bounded run.message 1024)
  else
    { s with phase := .verifyingHistory }.setCondition .progressing .isTrue
      "VerifyingConvergence" "Reading the history back to confirm what the run did"

def recordMigrationRun (m : PtahMigration) (op : Operation) (job : Job) (run : RunAccount)
    (reportedTarget : String) : Pass PtahMigration := do
  patchJob job.name
  let finishedAt ← now
  let recordedAt ← now
  let next ← ask .deadline
  retireMigrationClaim m op
    (runStatus m.status op job run reportedTarget finishedAt recordedAt next) .accounted false

def settleMigrationApply (m : PtahMigration) (op : Operation) (job : Job)
    (reported : ReportedApply) : Pass PtahMigration :=
  match reported.run with
  | none =>
    finishUncertainMigrationApply m op (some job) reported.failure reported.targetIdentityDigest
  | some run =>
    let planned := (m.status.history.map (·.targetIdentityDigest)).getD ""
    if !reported.uncertain && (reported.coordinationDigest ≠ op.coordinationDigest ||
        reported.targetIdentityDigest ≠ planned) then
      finishUncertainMigrationApply m op (some job)
        "the Apply ran against a database other than the one it was planned for"
        reported.targetIdentityDigest
    else recordMigrationRun m op job run reported.targetIdentityDigest

end Ptah.Migration
