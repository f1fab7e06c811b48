import PtahOperator.Conc.Proc
import PtahOperator.DataPlane.MigrationStatus
import PtahOperator.Lifecycle.Decisions
import PtahOperator.Migration.Types

/-!
# What a reconcile pass calls

A pass of the migration controller is a program over the calls below: reads and writes of the API
server, the database lock, the clock, and questions about code that is not modelled (`Question`).
An answer `.error` of a write says nothing about whether the write landed.

Every write of the PtahMigration carries the resource version it was read at, and lands only on
that version.
-/

namespace Ptah.Migration

open Conc DataPlane Lifecycle

/-! ## The objects beside the PtahMigration -/

/-- A Job under a claim's reserved name. -/
structure Job where
  name : String
  /-- Empty until the API server stores the Job. -/
  uid : String := ""
  /-- `exactControllerOwner`: its only controller is this PtahMigration. -/
  ownedExactly : Bool := true
  /-- The annotation that names the claim it was built for. -/
  operationID : String
  templateDigest : String
  manager : ManagerRecord
  /-- `durableDeliveryRequested` -/
  durable : Bool := false
  /-- `jobTerminal` -/
  terminal : Bool := false
  deriving DecidableEq

inductive PodPhase where
  | pending
  | running
  | succeeded
  | failed
  | unknown
  deriving DecidableEq

structure Pod where
  uid : String
  /-- The name and UID of the Job that is its exact controller. -/
  jobName : String
  jobUID : String
  phase : PodPhase
  /-- The status of the executor container says that it terminated. -/
  executorTerminated : Bool
  deriving DecidableEq

def Pod.finished (pod : Pod) : Bool := pod.phase = .succeeded || pod.phase = .failed

/-- `PtahMigrationRunAcknowledgment` -/
structure Acknowledgment where
  name : String
  uid : String
  deleting : Bool := false
  creationTimestamp : Time := 0
  migrationUID : String
  operationID : String
  /-- `spec.acknowledgedBy.username` -/
  acknowledgedBy : String
  mutationRequestUID : String
  /-- `none` is the zero time. -/
  acknowledgedAt : Option Time
  consumed : Bool := false
  stale : Bool := false
  deriving DecidableEq

/-- `targetlock.AcquireResult` -/
structure LockResult where
  acquired : Bool
  epoch : String := ""
  continuityLost : Bool := false
  deriving DecidableEq

/-! ## Results of Jobs -/

/-- `migrationRunAccount` -/
structure RunAccount where
  outcome : RunOutcome
  applied : List Int := []
  message : String := ""
  stoppedBeforeSelecting : Bool := false
  openedTarget : Bool := false
  deriving DecidableEq

/-- `reportedMigrationApply` -/
structure ReportedApply where
  run : Option RunAccount
  failure : String := ""
  uncertain : Bool := false
  coordinationDigest : String := ""
  targetIdentityDigest : String := ""
  deriving DecidableEq

/-- What the result of a read-only operation comes to. -/
inductive ReadResult where
  /-- No result that can be used: it was not read, the Job failed, the runner reported an error, or
  the document was cut or refused. -/
  | failed (failure : String)
  /-- `runnerProtocolRefusal` -/
  | protocolRefused (failure : String)
  | policyRefused (message : String)
  /-- A Resolve gave a digest; a Git source goes to the history read without a Verify. -/
  | resolved (digest : String) (git : Bool)
  | verified
  | history (report : MigrationStatusReport) (target : String)
  deriving DecidableEq

/-- What reading a terminal Job's result came to. -/
inductive Reading where
  /-- Not yet: the read is cooling down, will be tried again, or the frame may still arrive. -/
  | later
  | failed (e : String)
  /-- `errTerminalPodIntent` -/
  | notItsClaim (e : String)
  /-- No frame could be parsed. The termination summary may stand in for an Apply's. -/
  | unread (e : String) (summary : Option ReportedApply)
  | apply (reported : ReportedApply)
  | read (result : ReadResult)
  deriving DecidableEq

/-! ## Calls -/

/-- How a Resolve starts. -/
inductive ResolveSource where
  | job
  /-- The source policy refuses the source. -/
  | refused (failure : String)
  /-- The manager read a ConfigMap source into a snapshot. -/
  | configMap (artifact : String)
  deriving DecidableEq

/-- Questions that code outside this model answers. -/
inductive Question where
  /-- The components `r.Jobs.ExecutionBinding` names. -/
  | configuredBinding
  /-- The epoch `newExecutionBinding` draws. -/
  | bindingEpoch
  /-- `migrationInputFingerprint` -/
  | inputFingerprint (type : OperationType)
  /-- `Jobs.NameForMigration` -/
  | jobName (op : Operation)
  /-- `Jobs.BuildMigration` -/
  | build (op : Operation) (plan : Option Plan)
  /-- `podintent.Resolve` of a Job's Pod template -/
  | resolveSnapshot (job : Job)
  /-- `podintent.ValidateSnapshot` -/
  | validateSnapshot (snapshot : Snapshot)
  /-- `podintent.DigestTemplate`: its error, if it has one. -/
  | digestTemplate (job : Job)
  /-- `verificationPolicyStillBinds` -/
  | policyBinds (plan : Plan)
  /-- The checks of `currentMigrationPlan` on the source, the components and the policy. -/
  | planCurrent (plan : Plan)
  /-- What `jobclaim.Match` checks beside the identity of the Job: its epoch, its labels and
  annotations, and the Job the claim builds. -/
  | jobMatch (job : Job)
  /-- `validatePodIntent` -/
  | podIntent (pod : Pod)
  /-- The grace a terminal Job's Pod has to appear in is over. -/
  | podGraceOver
  /-- `awaitFrameArrival` -/
  | frameMayArrive
  /-- The binding of a durable result to the resource and its Job. -/
  | durableBinding (job : Job)
  | readResult (job : Job) (pod : Option Pod)
  /-- `judgePodAdmission` of a running Job: a change of what the resource says of its Pod, whether
  it is a refusal, and the reason and message. -/
  | podAdmission (job : Job)
  /-- `unreadableRequestOfFailedMigrationRead` -/
  | unreadableRequest
  /-- `failedMigrationReadGivesWay` -/
  | failedReadGivesWay
  /-- `databaseEngineSupported` -/
  | engineSupported
  /-- The refusal of the realm census: its reason, its message, and what it says of the approval. -/
  | realmRefusal
  /-- `configMapSourceMoved` and `sourcePolicyMoved` -/
  | sourceMoved
  /-- A pending read request that is answered without a read: its token, and whether a read is
  scheduled now. -/
  | readRequest
  | resolveSource
  /-- `coordination.Digest` -/
  | coordinationDigest
  /-- The plan `publishMigrationPlan` builds for a report. -/
  | desiredPlan (report : MigrationStatusReport)
  /-- `claimDeadline` -/
  | claimDeadline
  /-- A deadline some interval from now. -/
  | deadline
  deriving DecidableEq

abbrev Question.Ans : Question → Type
  | configuredBinding => ExecutionBinding
  | bindingEpoch => String
  | inputFingerprint _ => Except String String
  | jobName _ => Except String String
  | build _ _ => Except String Job
  | resolveSnapshot _ => Except String Snapshot
  | validateSnapshot _ => Except String Unit
  | digestTemplate _ => Except String Unit
  | policyBinds _ => Except String Unit
  | planCurrent _ => Except String Unit
  | jobMatch _ => Except String Unit
  | podIntent _ => Except String Unit
  | podGraceOver => Bool
  | frameMayArrive => Bool
  | durableBinding _ => Except String Unit
  | readResult _ _ => Reading
  | podAdmission _ => Except String (Option (Bool × String × String))
  | unreadableRequest => Option String
  | failedReadGivesWay => Except String (Option String)
  | engineSupported => Bool
  | realmRefusal => Except String (Option (String × String × String))
  | sourceMoved => Except String Bool
  | readRequest => Option (String × Bool)
  | resolveSource => Except String ResolveSource
  | coordinationDigest => Except String String
  | desiredPlan _ => Except String Plan
  | claimDeadline => Option Time
  | deadline => Time

/-- A mark the controller sets on an approval. -/
inductive ApprovalMark where
  | consumed
  | stale
  deriving DecidableEq

inductive Call where
  | getMigration
  | patchFinalizer (resourceVersion : Nat) (present : Bool)
  /-- The metadata patch of the annotation `operator.ptah.run/unresolved-run`. -/
  | patchCopy (resourceVersion : Nat) (value : Option CopyValue)
  | patchStatus (resourceVersion : Nat) (status : Status)
  | getJob (name : String)
  | createJob (job : Job)
  | patchJob (name : String)
  | listPods
  | getPlan (name : String)
  /-- `none` is a name that is taken. -/
  | createPlan (plan : Plan)
  | listApprovals
  | getApproval (name : String)
  /-- A status patch of an approval; `false` is an approval that is gone. -/
  | patchApproval (approval : Approval) (mark : ApprovalMark)
  | listAcknowledgments
  | getAcknowledgment (name : String)
  | patchAcknowledgment (acknowledgment : Acknowledgment) (consumed : Bool)
  /-- `Locks.Acquire` with the claim's request. -/
  | acquire (uid : String) (op : Operation)
  /-- `Locks.Release` with the request of a release. -/
  | release (uid : String) (release : LockRelease)
  | now
  /-- `newMigrationOperationID`, over a fresh nonce. -/
  | newOperationID (inputFingerprint : String)
  /-- `ctx.Err()`, which a dispatch asks between the steps Consume and Mark. -/
  | contextErr
  | ask (q : Question)
  deriving DecidableEq

/-- The answers of a call. `Except.ok none` is an object that is not there. -/
abbrev Call.Ans : Call → Type
  | getMigration => Except String (Option PtahMigration)
  | patchFinalizer _ _ => Except String PtahMigration
  | patchCopy _ _ => Except String PtahMigration
  | patchStatus _ _ => Except String PtahMigration
  | getJob _ => Except String (Option Job)
  | createJob _ => Except CreateError Unit
  | patchJob _ => Except String Unit
  | listPods => Except String (List Pod)
  | getPlan _ => Except String (Option Plan)
  | createPlan _ => Except String (Option Plan)
  | listApprovals => Except String (List Approval)
  | getApproval _ => Except String (Option Approval)
  | patchApproval _ _ => Except String Bool
  | listAcknowledgments => Except String (List Acknowledgment)
  | getAcknowledgment _ => Except String (Option Acknowledgment)
  | patchAcknowledgment _ _ => Except String Unit
  | acquire _ _ => Except String LockResult
  | release _ _ => Except String Unit
  | now => Time
  | newOperationID _ => String
  | contextErr => Except String Unit
  | ask q => q.Ans

def api : Iface := ⟨Call, Call.Ans⟩

/-- A part of a reconcile pass. An error ends the pass. -/
abbrev Pass (α : Type) := Proc api String α

/-- One call whose answer cannot be an error. -/
def send (c : Call) : Pass c.Ans := Proc.req (I := api) c

def sendOk {α : Type} (c : Call) (h : c.Ans = Except String α) : Pass α :=
  send c >>= fun a => Proc.ofExcept (cast h a)

def ask (q : Question) : Pass q.Ans := send (.ask q)

/-! ## The calls by name -/

def getMigration : Pass (Option PtahMigration) := sendOk .getMigration rfl

def patchFinalizer (resourceVersion : Nat) (present : Bool) : Pass PtahMigration :=
  sendOk (.patchFinalizer resourceVersion present) rfl

def patchCopy (resourceVersion : Nat) (value : Option CopyValue) : Pass PtahMigration :=
  sendOk (.patchCopy resourceVersion value) rfl

def patchStatus (resourceVersion : Nat) (s : Status) : Pass PtahMigration :=
  sendOk (.patchStatus resourceVersion s) rfl

def getJob (name : String) : Pass (Option Job) := sendOk (.getJob name) rfl

def patchJob (name : String) : Pass Unit := sendOk (.patchJob name) rfl

def listPods : Pass (List Pod) := sendOk .listPods rfl

def getPlan (name : String) : Pass (Option Plan) := sendOk (.getPlan name) rfl

def createPlan (plan : Plan) : Pass (Option Plan) := sendOk (.createPlan plan) rfl

def listApprovals : Pass (List Approval) := sendOk .listApprovals rfl

def getApproval (name : String) : Pass (Option Approval) := sendOk (.getApproval name) rfl

def patchApproval (approval : Approval) (mark : ApprovalMark) : Pass Bool :=
  sendOk (.patchApproval approval mark) rfl

def listAcknowledgments : Pass (List Acknowledgment) := sendOk .listAcknowledgments rfl

def getAcknowledgment (name : String) : Pass (Option Acknowledgment) :=
  sendOk (.getAcknowledgment name) rfl

def patchAcknowledgment (acknowledgment : Acknowledgment) (consumed : Bool) : Pass Unit :=
  sendOk (.patchAcknowledgment acknowledgment consumed) rfl

def acquire (uid : String) (op : Operation) : Pass LockResult := sendOk (.acquire uid op) rfl

def release (uid : String) (owed : LockRelease) : Pass Unit := sendOk (.release uid owed) rfl

def now : Pass Time := send .now

def newOperationID (inputFingerprint : String) : Pass String := send (.newOperationID inputFingerprint)

def contextErr : Pass Unit := sendOk .contextErr rfl

end Ptah.Migration
