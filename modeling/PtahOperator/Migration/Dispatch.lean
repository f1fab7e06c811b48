import PtahOperator.Migration.Claims

/-!
# Dispatch

`mutationlifecycle.Driver` takes a claim whose Job does not exist toward its one permitted create,
step by step (`order`). A family supplies the steps (`Family`); `migrationDispatch` is the family of
the PtahMigration.

A step that stops the pass answers `none`.
-/

namespace Ptah.Migration

open Conc Lifecycle

/-! ## The driver -/

/-- `mutationlifecycle.Claim`: what the driver reads about the claim at each step. -/
structure Claim where
  type : OperationType
  mutating : Bool
  holdsLock : Bool
  dispatchStarted : Bool
  jobUID : String
  snapshot : Option Snapshot
  snapshotRefreshed : Bool
  deriving DecidableEq

/-- `Step` -/
inductive DispatchStep where
  | authorize
  | lease
  | stage
  | snapshot
  | consume
  | mark
  | create
  | confirm
  | record
  deriving DecidableEq

/-- The sequence of a zero Driver. -/
def order : List DispatchStep :=
  [.authorize, .lease, .stage, .snapshot, .consume, .mark, .create, .confirm, .record]

/-- `Family`: one resource family's side of the sequence, over a state `σ`. -/
structure Family (σ : Type) where
  claim : σ → Claim
  authorize : σ → Pass (Option σ)
  acquireLease : σ → Pass (Option σ)
  stage : σ → Pass (Option σ)
  /-- The Job the claim names; `none` when the claim was refused. -/
  build : σ → Pass (Option Job)
  saveSnapshot : σ → Snapshot → Pass Unit
  refreshSnapshot : σ → Pass Unit
  refuse : σ → String → Pass Unit
  consume : σ → Pass (Option σ)
  mark : σ → Pass σ
  withdraw : σ → Pass Unit
  intent : σ → Job → Pass (Except String Unit)
  record : σ → Job → Pass Unit
  unaccounted : σ → Option Job → String → Pass Unit
  retry : σ → String → Pass Unit

structure DispatchPass (σ : Type) where
  state : σ
  expected : Option Job := none
  created : Option Job := none

namespace Family

variable {σ : Type} (f : Family σ)

/-- `dispatchPass.build`: the Job is built once per pass. -/
def buildOnce (p : DispatchPass σ) : Pass (Option (Job × DispatchPass σ)) :=
  match p.expected with
  | some job => pure (some (job, p))
  | none => do
    match ← f.build p.state with
    | none => pure none
    | some job => pure (some (job, { p with expected := some job }))

/-- `dispatchPass.snapshot` on the Job that was built. -/
def holdToSnapshot (p : DispatchPass σ) (job : Job) : Pass (Option (DispatchPass σ)) :=
  match (f.claim p.state).snapshot with
  | none => do
    match ← ask (.resolveSnapshot job) with
    | .error e => f.refuse p.state s!"resolve Pod admission snapshot: {e}"
    | .ok snapshot => f.saveSnapshot p.state snapshot
    pure none
  | some snapshot => do
    match ← ask (.digestTemplate job) with
    | .error e => do
      f.refuse p.state s!"digest the rebuilt Job Pod template: {e}"
      pure none
    | .ok _ =>
      if job.templateDigest = snapshot.templateDigest then pure (some p)
      else if (f.claim p.state).snapshotRefreshed then do
        f.refuse p.state "the rebuilt Job Pod template differs from the admission snapshot it was already resolved again for"
        pure none
      else do
        f.refreshSnapshot p.state
        pure none

/-- `dispatchPass.snapshot` -/
def snapshotStep (p : DispatchPass σ) : Pass (Option (DispatchPass σ)) := do
  let valid ← match (f.claim p.state).snapshot with
    | none => pure (.ok ())
    | some snapshot => ask (.validateSnapshot snapshot)
  match valid with
  | .error e => do
    f.refuse p.state s!"validate persisted Pod admission snapshot: {e}"
    pure none
  | .ok _ =>
    match ← f.buildOnce p with
    | none => pure none
    | some (job, p) => f.holdToSnapshot p job

def createFailed (p : DispatchPass σ) (e : CreateError) : Pass Unit :=
  let claim := f.claim p.state
  let type := claim.type.name
  match dispatchFailure .create claim.mutating (classifyCreate e) with
  | .unaccounted => f.unaccounted p.state none s!"the {type} Job create result is uncertain"
  | .withdraw => do
    f.withdraw p.state
    throw s!"the API server refused the {type} Job create before storing it; dispatch withdrawn"
  | .retry => f.retry p.state "the claimed Job name was occupied during dispatch"
  | _ => throw s!"create {type} Job"

/-- `dispatchPass.create` -/
def createStep (p : DispatchPass σ) : Pass (Option (DispatchPass σ)) := do
  match ← f.buildOnce p with
  | none => pure none
  | some (job, p) =>
    match ← send (.createJob job) with
    | .error e => do
      f.createFailed p e
      pure none
    | .ok _ => pure (some { p with created := some job })

/-- `dispatchPass.confirm` -/
def confirmStep (p : DispatchPass σ) : Pass (Option (DispatchPass σ)) :=
  let claim := f.claim p.state
  let type := claim.type.name
  match p.created with
  | none => throw s!"no created {type} Job to confirm"
  | some job => do
    let answer ← (getJob job.name).attempt
    match answer.toOption.join with
    | none =>
      if dispatchFailure .confirm claim.mutating .unknown = .unaccounted then do
        f.unaccounted p.state none s!"cannot confirm the dispatched {type} Job"
        pure none
      else throw s!"read created {type} Job"
    | some read =>
      match ← f.intent p.state read with
      | .ok _ => pure (some { p with created := some read })
      | .error e => do
        let failure := s!"the created {type} Job failed immutable intent validation: {e}"
        if dispatchFailure .intent claim.mutating .unknown = .unaccounted then
          f.unaccounted p.state (some read) failure
        else f.retry p.state failure
        pure none

def recordStep (p : DispatchPass σ) : Pass (Option (DispatchPass σ)) :=
  match p.created with
  | none => throw "no created Job to record"
  | some job => do
    f.record p.state job
    pure (some p)

def onState (p : DispatchPass σ) (step : σ → Pass (Option σ)) : Pass (Option (DispatchPass σ)) := do
  let state ← step p.state
  pure (state.map fun state => { p with state })

/-- `dispatchPass.run` -/
def run (p : DispatchPass σ) : DispatchStep → Pass (Option (DispatchPass σ))
  | .authorize => onState p f.authorize
  | .lease => if (f.claim p.state).holdsLock then onState p f.acquireLease else pure (some p)
  | .stage => onState p f.stage
  | .snapshot => f.snapshotStep p
  | .consume => if (f.claim p.state).mutating then onState p f.consume else pure (some p)
  | .mark =>
    if (f.claim p.state).holdsLock then do
      let state ← f.mark p.state
      pure (some { p with state })
    else pure (some p)
  | .create => f.createStep p
  | .confirm => f.confirmStep p
  | .record => f.recordStep p

/-- The loop of `Dispatch`. A pass that is being stopped does not start a dispatch. -/
def runSteps : List DispatchStep → DispatchPass σ → Pass Unit
  | [], _ => pure ()
  | step :: rest, p => do
    if step = .mark && (f.claim p.state).holdsLock then contextErr else pure ()
    match ← f.run p step with
    | none => pure ()
    | some p => runSteps rest p

/-- `Driver.Dispatch` of the zero Driver. -/
def dispatch (state : σ) : Pass Unit :=
  let claim := f.claim state
  if claim.mutating && mayHaveDispatched claim.dispatchStarted claim.jobUID then
    throw "a mutating claim that may already have dispatched is never dispatched again"
  else f.runSteps order { state }

end Family

/-! ## The family of the PtahMigration -/

/-- The active claim. -/
def withOperation {α : Type} (m : PtahMigration) (k : Operation → Pass α) : Pass α :=
  match m.status.activeOperation with
  | some op => k op
  | none => throw "the active migration operation is missing"

/-- A step that ends the pass. -/
def stop {α β : Type} (p : Pass α) : Pass (Option β) := do
  let _ ← p
  pure none

def claimedApplyPolicyStillBinds (op : Operation) : Pass Unit :=
  match op.planRef with
  | none => throw "the Apply claim names no plan to check the verification policy against"
  | some reference => do
    match ← getPlan reference.name with
    | none => throw "read the plan the Apply claim named: not found"
    | some plan =>
      if plan.uid ≠ reference.uid then throw "the plan the Apply claim named was replaced"
      else do
        match ← ask (.policyBinds plan) with
        | .error e => throw e
        | .ok _ => pure ()

/-- `migrationPlanForJob`: the plan an Apply names, read again. -/
def migrationPlanForJob (op : Operation) : Pass (Option Plan) :=
  if op.type ≠ .apply then pure none
  else
    match op.planRef with
    | none => throw "the Apply claim names no immutable plan"
    | some reference =>
      if reference.name = "" || reference.uid = "" then
        throw "the Apply claim names no immutable plan"
      else do
        match ← getPlan reference.name with
        | none => throw "read the Apply plan: not found"
        | some plan =>
          if plan.uid ≠ reference.uid || plan.deleting then
            throw "the Apply plan was replaced or is being deleted"
          else pure (some plan)

/-- `jobclaim.Match` of a Job with the claim `op`. -/
def matchJob (op : Operation) (job : Job) : Pass (Except String Unit) :=
  if job.uid = "" then pure (.error "the Job has no API-assigned identity")
  else if job.name ≠ op.jobName then
    pure (.error "the Job's name or namespace is not the one the claim reserved")
  else if op.jobUID ≠ "" && job.uid ≠ op.jobUID then
    pure (.error "the Job's UID is not the one the claim recorded")
  else if !job.ownedExactly then pure (.error "the Job is not controlled by the claim's owner")
  else if job.operationID ≠ op.id then
    pure (.error "the Job's annotations are not the ones the claim fixes")
  else if op.admissionSnapshot.all (·.templateDigest ≠ job.templateDigest) then
    pure (.error "the Job's Pod template does not match the persisted admission snapshot")
  else ask (.jobMatch job)

/-- The end of `Authorize`, for a claim no failed read gives way from. -/
def authorizeInputs (m : PtahMigration) (op : Operation) : Pass (Option PtahMigration) := do
  let current ← ask (.inputFingerprint op.type)
  let instant ← now
  let edited := m.generation ≠ m.status.observedGeneration
  match current with
  | .error e =>
    if !edited && !due op.retryNotBefore instant then pure none
    else stop (discardMigrationOperation m op e)
  | .ok fingerprint =>
    if edited || fingerprint ≠ op.inputFingerprint then
      stop (discardMigrationOperation m op "the operation inputs changed after the claim")
    else if !due op.retryNotBefore instant then pure none
    else if op.type = .apply then do
      match ← (claimedApplyPolicyStillBinds op).attempt with
      | .error e => stop (discardMigrationOperation m op e)
      | .ok _ => pure (some m)
    else pure (some m)

/-- `migrationDispatch.Authorize` -/
def authorize (m : PtahMigration) : Pass (Option PtahMigration) :=
  withOperation m fun op =>
    if m.spec.suspend then
      stop (discardMigrationOperation m op "reconciliation was suspended before dispatch")
    else if op.type.mutating || op.retryNotBefore.isNone then authorizeInputs m op
    else do
      match ← ask .unreadableRequest with
      | some token => stop (answerMigrationReadRequest m token false)
      | none =>
        if op.jobUID ≠ "" then authorizeInputs m op
        else do
          match ← ask .failedReadGivesWay with
          | .error e => throw e
          | .ok (some reason) =>
            stop (discardMigrationOperation m op s!"the failed read gave way: {reason}")
          | .ok none => authorizeInputs m op

/-- `migrationDispatch.Build` -/
def buildJob (m : PtahMigration) : Pass (Option Job) :=
  withOperation m fun op =>
    let type := op.type.name
    if op.jobUID ≠ "" then do
      -- A recorded UID is an attempt that crossed its dispatch boundary: a fresh one follows.
      if ← podsStopped op.jobName op.jobUID then
        stop (retryMigrationOperation m op none
          s!"{type} Job \"{op.jobName}\" with persisted UID \"{op.jobUID}\" is missing")
      else pure none
    else do
      match ← (migrationPlanForJob op).attempt with
      | .error e => stop (discardMigrationOperation m op e)
      | .ok plan =>
        match ← ask (.build op plan) with
        | .error e => stop (migrationOperationFailure m s!"build {type} Job: {e}")
        | .ok job =>
          if job.name ≠ op.jobName then
            throw "the Job builder returned an object outside the operation claim"
          else pure (some job)

/-- A write of the active claim. -/
def patchOperation (m : PtahMigration) (op : Operation) : Pass PtahMigration :=
  patchMigrationStatus m { m.status with activeOperation := some op }

def migrationDispatch : Family PtahMigration where
  claim m :=
    match m.status.activeOperation with
    | none =>
      { type := .resolve, mutating := false, holdsLock := false, dispatchStarted := false
        jobUID := "", snapshot := none, snapshotRefreshed := false }
    | some op =>
      { type := op.type
        mutating := op.type.mutating
        holdsLock := op.type.holdsLock
        dispatchStarted := op.dispatchStarted
        jobUID := op.jobUID
        snapshot := op.admissionSnapshot
        snapshotRefreshed := op.admissionSnapshotRefreshed }
  authorize := authorize
  acquireLease m := withOperation m fun op => do
    let (held, m) ← waitForMigrationApplyLock m op
    pure (if held then some m else none)
  stage m := pure (some m)
  build := buildJob
  saveSnapshot m snapshot := withOperation m fun op => do
    let _ ← patchOperation m { op with admissionSnapshot := some snapshot }
  refreshSnapshot m := withOperation m fun op => do
    let _ ← patchOperation m
      { op with admissionSnapshot := none, admissionSnapshotRefreshed := true }
  refuse m failure := do
    let _ ← migrationOperationFailure m failure
  consume m := withOperation m fun op => do
    if ← consumeMigrationApproval m op.approvalRef then pure (some m)
    else
      stop (discardMigrationOperation m op
        "the approval this Apply was claimed under was deleted or replaced before dispatch")
  mark m := withOperation m fun op => patchOperation m { op with dispatchStarted := true }
  withdraw m := withOperation m fun op => do
    let _ ← patchOperation m { op with dispatchStarted := false }
  intent m job := withOperation m fun op => matchJob op job
  record m job := withOperation m fun op => do
    let _ ← patchOperation m { op with jobUID := job.uid }
  unaccounted m job failure := withOperation m fun op => do
    let _ ← finishUncertainMigrationApply m op job failure ""
  retry m failure := withOperation m fun op => do
    let _ ← retryMigrationOperation m op none failure

end Ptah.Migration
