import PtahOperator.Conc.Solo
import PtahOperator.Migration.Controller

/-!
# The world a pass runs in

The API server's store of one PtahMigration with the Jobs, Pods and approvals beside it, and a log
of what the controller did to it.

- A write of the PtahMigration lands only on the version it was computed from. A write that landed
  can be answered by an error, and so can one that did not (`Written`).
- A create that is answered as refused stored nothing.
- `Env` is what happens without the controller: edits of the resource, Jobs that finish or are
  deleted, Pods, approvals, and restores that drop the whole status and keep the annotations.

Plans, acknowledgments and what `Question` asks for are not part of the world: their answers are
free, within what the API server and the builder of Jobs guarantee.
-/

namespace Ptah.Migration

open Conc DataPlane Lifecycle

/-! ## The log -/

structure StatusWrite where
  before : Status
  after : Status
  copy : Option CopyValue
  jobs : List Job
  /-- The history report the running pass has read, and the database it is of. -/
  reading : Option (MigrationStatusReport × String)
  deriving DecidableEq

inductive Event where
  | status (write : StatusWrite)
  /-- A create request, the claim that was stored when it was sent, and whether its answer said
  that nothing was stored. -/
  | create (claim : Option Operation) (job : Job) (refused : Bool)
  /-- An approval was marked as consumed, while the approvals `others` existed. -/
  | consumed (approval : Approval) (others : List Approval)
  /-- A dispatch went on behind its step Consume. -/
  | passedConsume (claim : Option Operation)
  | acquired (operationID epoch : String)
  | released (owed : LockRelease)
  deriving DecidableEq

/-! ## The world -/

structure World where
  migration : PtahMigration
  jobs : List Job := []
  /-- Every Job that was ever stored, as it was stored. -/
  everJobs : List Job := []
  pods : List Pod := []
  approvals : List Approval := []
  /-- Every UID an approval ever had. -/
  approvalUIDs : List String := []
  /-- The operation IDs drawn so far. -/
  ids : List String := []
  /-- The history report the running pass has read. -/
  reading : Option (MigrationStatusReport × String) := none
  /-- Newest first. -/
  log : List Event := []
  deriving DecidableEq

/-- A text the API server takes as the name of a Job. -/
def JobName (name : String) : Prop := name ≠ "" ∧ name.utf8ByteSize ≤ 253

namespace World

/-- A new version of the resource. -/
def store (w : World) (m : PtahMigration) : World :=
  { w with migration := { m with resourceVersion := w.migration.resourceVersion + 1 } }

def note (w : World) (e : Event) : World := { w with log := e :: w.log }

def writeFinalizer (w : World) (present : Bool) : World :=
  w.store { w.migration with finalizer := present }

def writeCopy (w : World) (value : Option CopyValue) : World :=
  w.store { w.migration with unresolvedRunCopy := value }

/-- What the log says of a status write. -/
def statusWrite (w : World) (s : Status) : StatusWrite where
  before := w.migration.status
  after := s
  copy := w.migration.unresolvedRunCopy
  jobs := w.jobs
  reading := w.reading

def writeStatus (w : World) (s : Status) : World :=
  (w.store { w.migration with status := s }).note (.status (w.statusWrite s))

def addJob (w : World) (job : Job) : World :=
  { w with jobs := job :: w.jobs, everJobs := job :: w.everJobs }

/-- A Job can be stored under the name. -/
def NameFree (w : World) (name : String) : Prop := JobName name ∧ ∀ j ∈ w.jobs, j.name ≠ name

/-- A UID the API server never gave a Job. -/
def NewJobUID (w : World) (uid : String) : Prop :=
  uid ≠ "" ∧ (∀ j ∈ w.everJobs, j.uid ≠ uid) ∧ ∀ p ∈ w.pods, p.jobUID ≠ uid

def markApproval (w : World) (uid : String) (mark : ApprovalMark) : World :=
  { w with approvals := w.approvals.map fun a =>
      if a.uid = uid then
        match mark with
        | .consumed => { a with consumed := true }
        | .stale => { a with stale := true }
      else a }

end World

/-! ## Serving a call -/

/-- A write based on version `resourceVersion` that would leave `landed`. -/
def Written (w : World) (resourceVersion : Nat) (landed : World) (a : Except String PtahMigration)
    (w' : World) : Prop :=
  (w' = w ∧ ∃ e, a = .error e) ∨ (resourceVersion = w.migration.resourceVersion ∧ w' = landed ∧
      ∀ m, a = .ok m → m = landed.migration)

/-- The answer of a create says that nothing was stored. -/
def createRefused : Except CreateError Unit → Bool
  | .ok _ => false
  | .error e => classifyCreate e = .refused

/-- The names the API server gives an object. -/
def Named (name uid : String) : Prop := blank name = false ∧ blank uid = false

/-- The effect of a question: only the reading of a result is noted. -/
def Answered (w : World) : (q : Question) → q.Ans → World → Prop
  | .jobName _, a, w' => w' = w ∧ ∀ name, a = .ok name → name.utf8ByteSize ≤ 253
  | .build op _, a, w' =>
    w' = w ∧ ∀ job, a = .ok job → job.operationID = op.id ∧ job.ownedExactly = true
  | .readResult _ _, a, w' =>
    w' = { w with reading :=
      match a with
      | .read (.history report target) => some (report, target)
      | _ => none }
  | _, _, w' => w' = w

/-- The effect of each call. -/
def serve (w : World) : (c : Call) → c.Ans → World → Prop
  | .getMigration, a, w' =>
    w' = w ∧ ∀ r, a = .ok r → r = some w.migration ∨
      (r = none ∧ w.migration.deleting = true ∧ w.migration.finalizer = false)
  | .patchFinalizer version present, a, w' => Written w version (w.writeFinalizer present) a w'
  | .patchCopy version value, a, w' => Written w version (w.writeCopy value) a w'
  | .patchStatus version s, a, w' => Written w version (w.writeStatus s) a w'
  | .getJob name, a, w' => w' = w ∧ ∀ r, a = .ok r → r = w.jobs.find? (·.name = name)
  | .createJob job, a, w' =>
    let sent := w.note (.create w.migration.status.activeOperation job (createRefused a))
    (w' = sent ∧ a ≠ .ok ()) ∨ (createRefused a = false ∧ w.NameFree job.name ∧
        ∃ uid, w.NewJobUID uid ∧ w' = sent.addJob { job with uid, terminal := false })
  | .patchJob _, _, w' => w' = w
  | .listPods, a, w' => w' = w ∧ ∀ r, a = .ok r → r = w.pods
  | .getPlan _, a, w' => w' = w ∧ ∀ plan, a = .ok (some plan) → Named plan.name plan.uid
  | .createPlan _, a, w' => w' = w ∧ ∀ plan, a = .ok (some plan) → Named plan.name plan.uid
  | .listApprovals, a, w' => w' = w ∧ ∀ r, a = .ok r → r = w.approvals
  | .getApproval name, a, w' => w' = w ∧ ∀ r, a = .ok r → r = w.approvals.find? (·.name = name)
  | .patchApproval approval mark, a, w' =>
    (w' = w ∧ ∀ r, a = .ok r → r = false ∧ ∀ b ∈ w.approvals, b.uid ≠ approval.uid) ∨
      ((∃ b ∈ w.approvals, b.uid = approval.uid) ∧ (∀ r, a = .ok r → r = true) ∧
        w' = match mark with
          | .consumed =>
            (w.note (.consumed approval w.approvals)).markApproval approval.uid .consumed
          | .stale => w.markApproval approval.uid .stale)
  | .listAcknowledgments, _, w' => w' = w
  | .getAcknowledgment _, _, w' => w' = w
  | .patchAcknowledgment _ _, _, w' => w' = w
  | .acquire _ op, a, w' =>
    w' = match a with
      | .ok result => if result.acquired then w.note (.acquired op.id result.epoch) else w
      | .error _ => w
  | .release _ owed, a, w' =>
    w' = match a with
      | .ok _ => w.note (.released owed)
      | .error _ => w
  | .now, a, w' => w' = w ∧ a ≠ (0 : Int)
  | .newOperationID _, id, w' =>
    id ∉ w.ids ∧ sha256Digest id = true ∧ w' = { w with ids := id :: w.ids }
  | .contextErr, _, w' => w' = w.note (.passedConsume w.migration.status.activeOperation)
  | .ask q, a, w' => Answered w q a w'

def server : Server api Unit World := ⟨fun _ => serve⟩

/-! ## What happens without the controller -/

/-- The Pod executes nothing from here on: it finished, or its executor did. -/
def Pod.stopped (pod : Pod) : Bool := pod.finished || pod.executorTerminated

/-- A Pod moves on: what ended stays ended. -/
structure Pod.Moves (pod pod' : Pod) : Prop where
  jobName : pod'.jobName = pod.jobName
  jobUID : pod'.jobUID = pod.jobUID
  finished : pod.finished = true → pod'.finished = true
  executor : pod.executorTerminated = true → pod'.executorTerminated = true

inductive Env (restores : Bool) : World → World → Prop where
  /-- The resource is edited, or its deletion is asked for. Only the manager writes its status and
  the copy. -/
  | edit {w : World} (m : PtahMigration) (huid : m.uid = w.migration.uid)
      (hstatus : m.status = w.migration.status)
      (hcopy : m.unresolvedRunCopy = w.migration.unresolvedRunCopy) : Env restores w (w.store m)
  /-- The resource is recreated without its status. -/
  | restore {w : World} (m : PtahMigration) (h : restores = true) (hstatus : m.status = {})
      (hcopy : m.unresolvedRunCopy = w.migration.unresolvedRunCopy) : Env restores w (w.store m)
  /-- Somebody else creates a Job. It is not controlled by the resource. -/
  | foreignJob {w : World} (job : Job) (howned : job.ownedExactly = false)
      (hname : w.NameFree job.name) (huid : w.NewJobUID job.uid) : Env restores w (w.addJob job)
  /-- A Job reaches a terminal condition. -/
  | jobDone {w : World} (uid : String) :
      Env restores w { w with jobs := w.jobs.map fun j =>
        if j.uid = uid then { j with terminal := true } else j }
  /-- A Job is deleted. Its Pods may outlive it. -/
  | jobGone {w : World} (uid : String) :
      Env restores w { w with jobs := w.jobs.filter (·.uid ≠ uid) }
  | podStart {w : World} (job : Job) (pod : Pod) (hjob : job ∈ w.jobs)
      (hrun : job.terminal = false) (hname : pod.jobName = job.name) (huid : pod.jobUID = job.uid) :
      Env restores w { w with pods := pod :: w.pods }
  | podMove {w : World} (pod pod' : Pod) (h : pod.Moves pod') :
      Env restores w { w with pods := w.pods.map fun p => if p = pod then pod' else p }
  | podGone {w : World} (pod : Pod) : Env restores w { w with pods := w.pods.filter (· ≠ pod) }
  /-- Somebody approves a plan. -/
  | approve {w : World} (a : Approval) (huid : a.uid ∉ w.approvalUIDs) :
      Env restores w { w with
        approvals := a :: w.approvals, approvalUIDs := a.uid :: w.approvalUIDs }
  /-- The deletion of an approval is asked for. -/
  | withdrawing {w : World} (uid : String) :
      Env restores w { w with approvals := w.approvals.map fun a =>
        if a.uid = uid then { a with deleting := true } else a }
  | withdrawn {w : World} (uid : String) :
      Env restores w { w with approvals := w.approvals.filter (·.uid ≠ uid) }

/-! ## Runs -/

/-- A resource with no operation behind it: nothing claimed, recorded or owed, and no Job of its
own. What it knows of its source, its database and its plan is free. -/
structure Fresh (w : World) : Prop where
  active : w.migration.status.activeOperation = none
  unresolved : w.migration.status.unresolvedRun = none
  resolved : w.migration.status.resolvedRun = none
  owed : w.migration.status.pendingLockRelease = none
  history : ∀ h, w.migration.status.history = some h → sha256Digest h.targetIdentityDigest = true
  copy : w.migration.unresolvedRunCopy = none
  jobs : ∀ j ∈ w.jobs, j ∈ w.everJobs
  names : (w.jobs.map (·.name)).Nodup
  foreign : ∀ j ∈ w.everJobs, j.ownedExactly = false ∧ j.uid ≠ "" ∧ JobName j.name
  uids : (w.everJobs.map (·.uid)).Nodup
  pods : ∀ p ∈ w.pods, ∀ j ∈ w.everJobs, p.jobUID = j.uid → p.jobName = j.name
  approvals : ∀ a ∈ w.approvals, a.uid ∈ w.approvalUIDs
  approvalUIDs : (w.approvals.map (·.uid)).Nodup
  log : w.log = []

/-- A pass starts: it has read nothing yet. -/
def enter (w : World) : World := { w with reading := none }

end Ptah.Migration
