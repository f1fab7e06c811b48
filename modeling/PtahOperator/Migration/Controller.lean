import PtahOperator.Migration.Dispatch
import PtahOperator.MigrationPlan.Sequence

/-!
# The reconcile pass

`reconcile` is one pass of the migration controller: what it owes first, then the claim it finds,
then the decision about the next one. Delays, events and telemetry are left out: they decide
nothing that is stored.
-/

namespace Ptah.Migration

open Conc DataPlane Lifecycle

/-! ## The result of a Job -/

/-- A result without a frame, once `awaitFrameArrival` no longer waits for one. -/
def noFrame : Pass Reading := do
  let wait : Bool ← ask .frameMayArrive
  pure (if wait then .later else .unread "the result frame was not found" none)

/-- `migrationTerminalLogs`, and the parse of what it read. -/
def readTerminalResult (op : Operation) (job : Job) : Pass Reading := do
  let pods ← podsOwnedByJob job.name job.uid
  match pods with
  | _ :: _ :: _ => pure (.notItsClaim "the terminal Job owns more than one Pod")
  | [] =>
    if job.durable then do
      match ← ask (.durableBinding job) with
      | .error e => pure (.unread e none)
      | .ok _ => ask (.readResult job none)
    else do
      let graceOver : Bool ← ask .podGraceOver
      if graceOver then noFrame else pure .later
  | [pod] =>
    if op.admissionSnapshot.isNone then
      pure (.notItsClaim "active operation admission binding is missing")
    else do
      match ← ask (.podIntent pod) with
      | .error e => pure (.notItsClaim e)
      | .ok _ =>
        if job.durable then do
          match ← ask (.durableBinding job) with
          | .error e => pure (.unread e none)
          | .ok _ =>
            if !pod.executorTerminated && pod.phase ≠ .failed then pure .later
            else ask (.readResult job (some pod))
        else if !pod.executorTerminated then noFrame
        else ask (.readResult job (some pod))

def recordMigrationRunVerification (s : Status) : Status :=
  match s.lastRun, s.history with
  | some run, some history =>
    if run.finishedAt.isNone || run.operationID = "" || run.verification.isSome ||
        run.targetIdentityDigest ≠ history.targetIdentityDigest then s
    else
      let result : VerificationResult :=
        match s.phase with
        | .inSync => .inSync
        | .blocked => .blocked
        | _ => .pending
      let verification : RunVerification :=
        { observedAt := history.observedAt, historyFingerprint := history.fingerprint
          currentVersion := history.currentVersion, result }
      { s with lastRun := some { run with verification := some verification } }
  | _, _ => s

def endMigrationApprovalRequirement (s : Status) : Status :=
  if (s.findCondition .approvalRequired).isNone then s
  else
    let reason := ((s.findCondition .ready).map (·.reason)).getD "PlanNoLongerCurrent"
    s.setCondition .approvalRequired .isFalse reason
      "This reading published no plan, so nothing waits for an approval"

/-- The status of a History reading, with what follows from where it ended. -/
def readingStatus (s : Status) : Status :=
  let s := (recordMigrationRunVerification s).setCondition .databaseReachable .isTrue "Observed"
    "The migration history was read"
  if s.phase = .planning then s else endMigrationApprovalRequirement { s with plan := none }

def applyMigrationPolicyPhase (policy : ApplyPolicy) (s : Status) (planned : Nat) : Status :=
  let are := byCount planned "migration is" "migrations are"
  let migrations := byCount planned "migration" "migrations"
  let need := byCount planned "migration needs" "migrations need"
  match policy with
  | .never =>
    ((s.setCondition .approvalRequired .isFalse "NotRequired"
      "The apply policy is Never, so no approval is consulted").setCondition
      .ready .isFalse "ApplyDisabled"
        (migrationsPending planned ++ " and the apply policy is Never")).setCondition
      .progressing .isFalse "ApplyDisabled" "The apply policy is Never, so nothing runs from here"
  | .always =>
    ((s.setCondition .approvalRequired .isFalse "NotRequired"
      "The apply policy is Always, so no approval is required").setCondition
      .ready .isFalse "ApplyPending" s!"{planned} {are} planned").setCondition
      .progressing .isTrue "ApplyPending"
        s!"An Apply of {planned} planned {migrations} is what happens next"
  | .onApproval =>
    (({ s with phase := .awaitingApproval }.setCondition .approvalRequired .isTrue
      "AwaitingApproval" s!"{planned} planned {need} an approval naming this plan").setCondition
      .ready .isFalse "AwaitingApproval"
        "The plan is waiting for the approval its policy requires").setCondition
      .progressing .isFalse "AwaitingApproval" "Nothing runs until a person writes the approval"

/-- `publishMigrationPlan`: the plan that is stored, and the number of migrations planned. -/
def publishMigrationPlan (m : PtahMigration) (report : MigrationStatusReport) : Pass Plan :=
  if m.status.executionBinding.isNone || m.status.history.isNone || m.status.artifact.isNone then
    throw "a plan needs a resolved artifact, a read history, and an execution binding"
  else do
    match ← ask (.desiredPlan report) with
    | .error e => throw e
    | .ok desired =>
      match ← createPlan desired with
      | some published => pure published
      | none =>
        match ← getPlan desired.name with
        | none => throw "read the already published migration plan: not found"
        | some existing =>
          if existing.fingerprint ≠ desired.fingerprint || existing.migrationUID ≠ m.uid then
            throw "a different plan already holds this plan's deterministic name"
          else pure existing

/-- The end of a History reading that a plan follows: the plan is published, and the status that
names it written. -/
def publishReading (m : PtahMigration) (report : MigrationStatusReport) : Pass Unit := do
  match ← (publishMigrationPlan m report).attempt with
  | .error e =>
    let _ ← migrationOperationFailure m e
  | .ok plan =>
    let s := applyMigrationPolicyPhase m.spec.apply { m.status with plan := some plan.ref }
      plan.migrations
    markMigrationApprovalsStale m (some plan.ref)
    let _ ← patchMigrationStatus m s

section

variable (digestHistory : MigrationStatusReport → String)

/-- `consumeMigrationResult` of a History operation. -/
def consumeHistory (m : PtahMigration) (op : Operation) (job : Job) (report : MigrationStatusReport)
    (target : String) : Pass Unit := do
  let retry (failure : String) : Pass Unit := do
    let _ ← retryMigrationOperation m op (some job) failure
  if !sha256Digest target then retry "the history result carries no target identity"
  else do
    let observedAt ← now
    match recordMigrationHistory digestHistory m.status report target observedAt with
    | .error e => retry e
    | .ok s =>
      let s := readingStatus s
      let next ← ask .deadline
      let s := { s with nextReconciliationTime := some next }
      patchJob job.name
      if s.phase ≠ .planning then markMigrationApprovalsStale m none else pure ()
      let m ← retireMigrationClaim m op s .accounted false
      if s.phase = .planning then publishReading m report else pure ()

/-- `consumeMigrationResult` of an operation that hands on to the next read. -/
def consumeHandoff (m : PtahMigration) (op : Operation) (job : Job) (s : Status) : Pass Unit := do
  let next ← ask .deadline
  patchJob job.name
  let _ ← retireMigrationClaim m op { s with nextReconciliationTime := some next } .accounted false

def resolvedStatus (s : Status) (digest : String) (git : Bool) : Status :=
  let moved := s.artifact.any (· ≠ digest)
  let s := { s with artifact := some digest }
  if git then
    (endMigrationRefusal ({ s with phase := .reading }.removeCondition .artifactVerified)
      "CommitResolved" migrationSourceResolvedMessage).setCondition .progressing .isTrue
      "CommitResolved" s!"The Git ref resolved to commit {digest}; the history is read next"
  else
    let s := { s with phase := .verifying }.setCondition .artifactVerified .unknown "DigestPinned"
      "The artifact resolved to a digest and has not been verified yet"
    if moved then
      endMigrationRefusal s "DigestPinned"
        "The reference resolved to another digest, and nothing has refused that artifact"
    else s

def verifiedStatus (s : Status) : Status :=
  endMigrationRefusal ({ s with phase := .reading }.setCondition .artifactVerified .isTrue
    "PolicySatisfied" "The resolved artifact satisfied its verification policy") "PolicySatisfied"
    "The resolved artifact satisfied its verification policy, and nothing refuses it"

/-- The status of an artifact its verification policy refused. -/
def refusedStatus (m : PtahMigration) (message : String) (next : Time) : Status :=
  (((({ m.status with
    nextReconciliationTime := some next
    observedGeneration := m.generation
    plan := none
    phase := .blocked }.setCondition .artifactVerified .isFalse "PolicyRefused" message).setCondition
    .blocked .isTrue "PolicyRefused" message).setCondition
    .ready .isFalse "PolicyRefused"
      "Artifact verification policy must be satisfied before database access").setCondition
    .progressing .isFalse "PolicyRefused"
      "Nothing runs while the verification policy refuses the artifact").setCondition
    .approvalRequired .isFalse "PolicyRefused" "No plan may be used for an artifact refused by policy"

def refuseMigrationArtifact (m : PtahMigration) (op : Operation) (job : Job) (message : String) :
    Pass Unit := do
  patchJob job.name
  markMigrationApprovalsStale m none
  let next ← ask .deadline
  let _ ← retireMigrationClaim m op (refusedStatus m (bounded message 512) next) .accounted false

/-- The result of a read-only operation. A result that is not of the claim's type is retried. -/
def consumeMigrationResult (m : PtahMigration) (op : Operation) (job : Job) (result : ReadResult) :
    Pass Unit :=
  let retry (failure : String) : Pass Unit := do
    let _ ← retryMigrationOperation m op (some job) failure
  match op.type, result with
  | _, .failed failure => retry failure
  | _, .protocolRefused failure => do
    let _ ← retryMigrationOperation m op (some job) failure "RunnerProtocolMismatch"
  | .verify, .policyRefused message => refuseMigrationArtifact m op job message
  | .resolve, .resolved digest git =>
    consumeHandoff m op job (resolvedStatus m.status digest git)
  | .verify, .verified => consumeHandoff m op job (verifiedStatus m.status)
  | .history, .history report target => consumeHistory digestHistory m op job report target
  | _, _ => retry "the result is not one of the operation"

/-! ## The active claim -/

/-- `expectedMigrationJob`, where the inputs of the claim still hold: its error, if it has one. -/
def rebuildJob (op : Operation) : Pass (Except String Unit) := do
  match ← ask (.inputFingerprint op.type) with
  | .error _ => pure (.ok ())
  | .ok fingerprint =>
    if fingerprint ≠ op.inputFingerprint then pure (.ok ())
    else do
      match ← (migrationPlanForJob op).attempt with
      | .error e => pure (.error e)
      | .ok plan =>
        match ← ask (.build op plan) with
        | .error e => pure (.error e)
        | .ok _ => pure (.ok ())

/-- `holdMigrationJobToItsClaim`: the Job is the claim's, or the claim was settled. -/
def holdMigrationJobToItsClaim (m : PtahMigration) (op : Operation) (job : Job) : Pass Bool := do
  let settle (failure : String) : Pass Bool :=
    if op.type.mutating then do
      let _ ← finishUncertainMigrationApply m op (some job) failure ""
      pure false
    else do
      let _ ← retryMigrationOperation m op none failure
      pure false
  match ← rebuildJob op with
  | .error e => settle s!"rebuild immutable Job intent: {e}"
  | .ok _ =>
    match ← matchJob op job with
    | .error e => settle s!"active Job is not its claim's: {e}"
    | .ok _ => pure true

/-- A terminal Job whose inputs still hold. -/
def harvest (m : PtahMigration) (op : Operation) (job : Job) : Pass Unit := do
  let retry (failure : String) : Pass Unit := do
    let _ ← retryMigrationOperation m op (some job) failure
  let uncertain (failure : String) : Pass Unit := do
    let _ ← finishUncertainMigrationApply m op (some job) failure ""
  match ← readTerminalResult op job with
  | .later => pure ()
  | .failed e => throw e
  | .notItsClaim e => if op.type.mutating then uncertain e else retry e
  | .unread e summary =>
    if op.type.mutating then
      match summary with
      | none => uncertain s!"read the Apply result: {e}"
      | some reported => do
        let _ ← settleMigrationApply m op job reported
    else retry e
  | .apply reported =>
    if op.type.mutating then do
      let _ ← settleMigrationApply m op job reported
    else retry "the result is not one of the operation"
  | .read result =>
    if op.type.mutating then uncertain "the result is not one of the operation"
    else consumeMigrationResult digestHistory m op job result

/-- A Job that is the claim's. -/
def superviseJob (m : PtahMigration) (op : Operation) (job : Job) : Pass Unit :=
  if !job.terminal then do
    let type := op.type.name
    match ← ask (.podAdmission job) with
    | .error e => throw e
    | .ok none => pure ()
    | .ok (some (refused, reason, message)) =>
      let s :=
        if refused then m.status.setCondition .progressing .isFalse reason message
        else m.status.setCondition .progressing .isTrue "OperationInProgress"
          s!"{type} operation is in progress"
      let _ ← patchMigrationStatus m s
  else do
    match ← ask (.inputFingerprint op.type) with
    | .ok fingerprint =>
      if fingerprint = op.inputFingerprint then harvest digestHistory m op job
      else inputsMoved m op job "the operation inputs changed while the Job was running"
    | .error e => inputsMoved m op job e
where
  /-- A terminal Job whose inputs moved is not harvested. -/
  inputsMoved (m : PtahMigration) (op : Operation) (job : Job) (failure : String) : Pass Unit :=
    if op.type.mutating then do
      let _ ← finishUncertainMigrationApply m op (some job) failure ""
    else do
      patchJob job.name
      let _ ← discardMigrationOperation m op failure

def unaccountedMigrationJobReason : JobCause → String
  | .replaced => "the dispatched Apply Job was replaced"
  | .disowned => "the dispatched Apply Job lost its owner"
  | _ => "the dispatched Apply Job is missing and will not be recreated"

def retriedMigrationJobReason : JobCause → String
  | .disowned => "the active Job is not owned by this migration"
  | _ => "the active Job was replaced"

def jobClaim (op : Operation) (job : Option Job) : JobClaim where
  mutating := op.type.mutating
  dispatchStarted := op.dispatchStarted
  recordedJobUID := op.jobUID
  found := job.isSome
  foundJobUID := (job.map (·.uid)).getD ""
  ownedExactly := job.any (·.ownedExactly)

/-- The part of `reconcileActiveMigration` behind the verdict `adopt` or `supervise`. -/
def superviseClaim (m : PtahMigration) (op : Operation) (job : Job) (adopt : Bool) : Pass Unit := do
  if ← holdMigrationJobToItsClaim m op job then
    if adopt then do
      let op := { op with
        jobUID := job.uid, dispatchStarted := op.dispatchStarted || op.type.mutating }
      let m ← patchOperation m op
      superviseJob digestHistory m op job
    else superviseJob digestHistory m op job
  else pure ()

/-- The verdict on the Job under the claim's name, once the Lease is held. -/
def actOnVerdict (m : PtahMigration) (op : Operation) (job : Option Job) :
    JobVerdict × JobCause → Pass Unit
  | (.unaccounted, cause) => do
    let _ ← finishUncertainMigrationApply m op job (unaccountedMigrationJobReason cause) ""
  | (.retry, cause) => do
    let _ ← retryMigrationOperation m op job (retriedMigrationJobReason cause)
  | (verdict, _) =>
    match job with
    | none => pure ()
    | some job => superviseClaim digestHistory m op job (verdict = .adopt)

def reconcileActiveMigration (m : PtahMigration) (op : Operation) : Pass Unit :=
  if op.leaseContinuityLost then do
    let _ ← finishUncertainMigrationApply m op none
      "the database lock epoch changed under the dispatched run" ""
  else do
    let job ← getJob op.jobName
    if job.isSome && m.spec.suspend && !op.type.mutating then do
      let _ ← discardMigrationOperation m op "reconciliation was suspended while the operation ran"
    else
      let verdict := verdictFor (jobClaim op job)
      if verdict.1 = .dispatch then migrationDispatch.dispatch m
      else if op.type.holdsLock then do
        let (held, m) ← waitForMigrationApplyLock m op
        if held then withOperation m fun op => actOnVerdict digestHistory m op job verdict
        else pure ()
      else actOnVerdict digestHistory m op job verdict

/-! ## The pass -/

/-- `reconcileUnaccountedMigrationApply`: the claim of an unresolved run, kept while what it
dispatched may still write. -/
def reconcileUnaccountedMigrationApply (m : PtahMigration) (op : Operation) : Pass Unit := do
  if ← dispatchedApplyMayStillWrite op none then do
    let _ ← tryMigrationApplyLock m op
  else do
    let _ ← retireMigrationClaim m op m.status .unaccounted false

def dispatchedMigrationApplyJob (op : Operation) : Pass (Option Job) := do
  let job ← getJob op.jobName
  pure (job.filter fun j => op.jobUID = "" || j.uid = op.jobUID)

def reconcileMigrationDeletion (m : PtahMigration) : Pass Unit :=
  let discard (op : Operation) : Pass Unit := do
    let m ← retireMigrationClaim m op m.status .discard false
    let _ ← removeMigrationFinalizer m
  match m.status.activeOperation with
  | none => do
    let _ ← removeMigrationFinalizer m
  | some op =>
    if !op.type.mutating then discard op
    else do
      let job ← dispatchedMigrationApplyJob op
      if ← dispatchedApplyMayStillWrite op job then do
        let _ ← tryMigrationApplyLock m op
      else if op.mayHaveDispatched || job.isSome then do
        let _ ← retireUncertainMigrationApply m op job
          "the PtahMigration was deleted while a dispatched Apply was in flight" "" false
      else discard op

/-- `executionBindingComponentsEqual` -/
def ExecutionBinding.sameComponents (a b : ExecutionBinding) : Bool :=
  a.controllerStateVersion = b.controllerStateVersion && a.ptahVersion = b.ptahVersion &&
    a.executorImage = b.executorImage && a.runnerProtocolVersion = b.runnerProtocolVersion

def rejectUnsupportedStoredControllerState (m : PtahMigration) : Pass Unit :=
  match m.status.executionBinding with
  | none => pure ()
  | some binding => do
    let configured : ExecutionBinding ← ask .configuredBinding
    if binding.controllerStateVersion < 0 then
      throw (s!"stored status.executionBinding controller state version {binding.controllerStateVersion} is " ++
        "invalid; refusing to interpret or write PtahMigration state")
    else if binding.controllerStateVersion > configured.controllerStateVersion then
      throw (s!"stored status.executionBinding controller state version {binding.controllerStateVersion} exceeds " ++
        s!"supported version {configured.controllerStateVersion}; refusing to interpret or write " ++
        "PtahMigration state")
    else pure ()

def applyUncertainUnderBindingChange (m : PtahMigration) (op : Operation) : Pass Unit := do
  let job ← if op.jobUID = "" then pure none else getJob op.jobName
  let _ ← finishUncertainMigrationApply m op (job.filter (·.uid = op.jobUID))
    "an execution component changed while the Apply was dispatched" ""

def reboundStatus (s : Status) (binding : ExecutionBinding) : Status :=
  let rebound := { s with executionBinding := some binding }
  if s.executionBinding.isSome then
    rebound.setCondition .databaseReachable .unknown "ExecutionBindingChanged"
      "The last reading of the target is historical evidence from the previous execution binding"
  else rebound

/-- `reconcileMigrationExecutionBinding`. `true` says that the pass ends here. -/
def reconcileMigrationExecutionBinding (m : PtahMigration) : Pass Bool := do
  let configured : ExecutionBinding ← ask .configuredBinding
  if m.status.executionBinding.any (·.sameComponents configured) then pure false
  else do
    let epoch : String ← ask .bindingEpoch
    let s := reboundStatus m.status { configured with epoch }
    match m.status.activeOperation with
    | none => do
      let _ ← patchMigrationStatus m s
      pure true
    | some op =>
      if op.type.mutating && op.mayHaveDispatched then do
        applyUncertainUnderBindingChange m op
        pure true
      else do
        let _ ← retireMigrationClaim m op ({ s with phase := .pending }.setCondition
          .progressing .isFalse "ExecutionBindingChanged"
            "The operation was retired because an execution component changed") .discard false
        pure true

def migrationPublicationUnfinished (s : Status) : Bool :=
  (s.findCondition .progressing).any (·.reason = "MigrationsPending")

/-- What the phase of a resource without a claim asks for. -/
def reconcilePhase (m : PtahMigration) : Pass Unit := do
  let claim (type : OperationType) : Pass Unit := do
    let _ ← claimMigration m type
  let decide : Pass Unit := do
    let _ ← reconcileMigrationApplyDecision m
  let instant ← now
  let isDue := due m.status.nextReconciliationTime instant
  match m.status.phase with
  | .verifying => claim .verify
  | .reading => claim .history
  | .verifyingHistory => claim .history
  | .awaitingApproval => if isDue then claim .resolve else decide
  | .planning =>
    if isDue || migrationPublicationUnfinished m.status then claim .resolve else decide
  | .inSync => if isDue then claim .resolve else pure ()
  | .blocked => if isDue then claim .resolve else pure ()
  | .failed => if isDue then claim .resolve else pure ()
  | _ => claim .resolve

def migrationRealmBlocked (m : PtahMigration) (reason message approval : String) :
    Pass PtahMigration := do
  let next ← ask .deadline
  patchMigrationStatus m (((({ m.status with
    phase := .blocked
    observedGeneration := m.generation
    nextReconciliationTime := some next }.setCondition .blocked .isTrue reason message).setCondition
    .ready .isFalse reason message).setCondition .progressing .isFalse reason message).setCondition
    .approvalRequired .isFalse reason approval)

/-- A resource without a claim, whose acknowledgments are answered. -/
def reconcileIdle (m : PtahMigration) : Pass Unit := do
  let supported : Bool ← ask .engineSupported
  if !supported then do
    let _ ← migrationBlocked m "UnsupportedEngine" "Database engine is not supported by this operator"
  else if m.spec.suspend then do
    let _ ← patchMigrationStatus m (({ m.status with
      phase := .suspended, observedGeneration := m.generation }.setCondition
      .progressing .isFalse "Suspended" "New migration operations are suspended").setCondition
      .ready .isFalse "Suspended" "Reconciliation is suspended")
  else do
    match ← ask .realmRefusal with
    | .error e => throw e
    | .ok (some (reason, message, approval)) => do
      let _ ← migrationRealmBlocked m reason message approval
    | .ok none =>
      if m.status.observedGeneration ≠ m.generation then do
        let _ ← claimMigration m .resolve
      else do
        match ← ask .sourceMoved with
        | .error e => throw e
        | .ok true => do
          let _ ← claimMigration m .resolve
        | .ok false =>
          match ← ask .readRequest with
          | some (token, scheduled) => do
            let _ ← answerMigrationReadRequest m token scheduled
          | none => reconcilePhase m

/-- The part of a pass behind the finalizer. -/
def reconcileUnclaimed (m : PtahMigration) : Pass Unit := do
  let m ← reconcileRunAcknowledgments m
  reconcileIdle m

/-- A pass that found no release owed, no unaccounted Apply and no deletion. -/
def reconcileLive (m : PtahMigration) : Pass Unit := do
  let (handled, m) ← reconcileUnresolvedRunCopy m
  if handled then pure ()
  else do
    if ← reconcileMigrationExecutionBinding m then pure ()
    else
      match m.status.activeOperation with
      | some op => reconcileActiveMigration digestHistory m op
      | none =>
        if m.finalizer then do
          let _ ← removeMigrationFinalizer m
          match ← getMigration with
          | none => pure ()
          | some m => do
            rejectUnsupportedStoredControllerState m
            reconcileUnclaimed m
        else reconcileUnclaimed m

/-- The claim of an unresolved run that is still active. -/
def unaccountedClaim (s : Status) : Option Operation :=
  s.activeOperation.filter fun op =>
    op.type.mutating && s.unresolvedRun.any (·.operationID = op.id)

def reconcile : Pass Unit := do
  match ← getMigration with
  | none => pure ()
  | some m => do
    rejectUnsupportedStoredControllerState m
    match m.status.pendingLockRelease, unaccountedClaim m.status with
    | some owed, _ => do
      let _ ← completeMigrationPendingLockRelease m owed
    | none, some op => reconcileUnaccountedMigrationApply m op
    | none, none =>
      if m.deleting then reconcileMigrationDeletion m
      else reconcileLive digestHistory m

end

end Ptah.Migration
