import PtahOperator.Migration.World
import Mathlib.Logic.Relation

/-!
# What a pass may do to the world

An abstract transition system over the same world. It says once what each kind of write can do:
a status write moves the latch (`LatchStep`), the claim (`ClaimStep`) and the owed release
(`OwedStep`); a copy is written ahead of its record or removed behind its settlement (`CopyStep`);
a create is sent only by a marked claim (`MayCreate`). The invariants are proved over this system
(`Reach`), and the programs of the controller are shown to take only its steps.

A `Mode` says which runs are meant: with restores or without, and careful runs, where no pass
starts between the write that retires a claim and the removal of its copy (`justRetired`).
-/

namespace Ptah.Migration

open Conc Lifecycle

/-- Which runs are meant. -/
structure Mode where
  restores : Bool
  careful : Bool

/-! ## Vocabulary -/

namespace Status

variable (s : Status) (id : String)

/-- `status.activeOperation` is the claim `id`. -/
def activeIs : Bool := s.activeOperation.any (·.id = id)

/-- `status.unresolvedRun` names `id`. -/
def unresolvedIs : Bool := s.unresolvedRun.any (·.operationID = id)

/-- `status.resolvedRun` names `id`. -/
def resolvedIs : Bool := s.resolvedRun.any (·.operationID = id)

end Status

/-- The write retired the claim `id` and stored no record of it. -/
def StatusWrite.retires (e : StatusWrite) (id : String) : Bool :=
  e.before.activeIs id && e.after.activeOperation.isNone && !e.after.unresolvedIs id

/-- The status writes of a log, newest first. -/
def statuses (log : List Event) : List StatusWrite :=
  log.filterMap fun
    | .status e => some e
    | _ => none

@[simp] theorem mem_statuses {log : List Event} {e : StatusWrite} :
    e ∈ statuses log ↔ .status e ∈ log := by
  simp only [statuses, List.mem_filterMap]
  constructor
  · rintro ⟨a, ha, he⟩
    split at he <;> simp_all
  · exact fun h => ⟨_, h, rfl⟩

def lastStatus (log : List Event) : Option StatusWrite := (statuses log).head?

/-- The last status write retired the claim the copy names, and the copy still stands. -/
def justRetired (w : World) : Bool :=
  match w.migration.unresolvedRunCopy, lastStatus w.log with
  | some (.record x), some e => e.retires x.operationID
  | _, _ => false

def StatusWrite.claimed (e : StatusWrite) : Option Operation :=
  if e.before.activeOperation.isNone then e.after.activeOperation else none

/-- The IDs of the claims that were written. -/
def claimedIDs (log : List Event) : List String :=
  (statuses log).filterMap fun e => e.claimed.map (·.id)

/-- A status write stored `status.unresolvedRun` for `id`. -/
def Latched (log : List Event) (id : String) : Prop :=
  ∃ e ∈ statuses log, e.after.unresolvedIs id = true

/-- A status write stored `status.resolvedRun` naming `id`. -/
def Settled (log : List Event) (id : String) : Prop :=
  ∃ e ∈ statuses log, e.after.resolvedIs id = true

/-- Every create request for `id` was refused. -/
def NoneCreated (log : List Event) (id : String) : Prop :=
  ∀ claim job refused, .create claim job refused ∈ log → job.operationID = id → refused = true

/-- The copy agrees with the record: both or none. -/
def CopySettled (m : PtahMigration) : Prop :=
  m.unresolvedRunCopy = m.status.unresolvedRun.map .record

/-! ## Jobs and Pods of a claim -/

/-- The Jobs stored for the claim `id`. -/
def World.jobsOf (w : World) (id : String) : List Job :=
  w.everJobs.filter fun j => j.ownedExactly && j.operationID = id

/-- Nothing of the Job `uid` runs, and nothing of it will: it is terminal or gone, and its Pods
have stopped. -/
def World.JobQuiet (w : World) (uid : String) : Prop :=
  (∀ j ∈ w.jobs, j.uid = uid → j.terminal = true) ∧ ∀ p ∈ w.pods, p.jobUID = uid → p.stopped = true

/-- No Pod owned by a Job of the claim `id` can run. -/
def World.Quiet (w : World) (id : String) : Prop := ∀ j ∈ w.jobsOf id, w.JobQuiet j.uid

/-- A Job stored for the claim is no longer in `jobs`. -/
def World.JobLost (w : World) (id : String) (jobs : List Job) : Prop :=
  ∃ j ∈ w.jobsOf id, ∀ k ∈ jobs, k.uid ≠ j.uid

/-- What a retirement of the claim `op` rests on. The exception is the one the controller cannot
see: no UID was recorded, and the Job is gone. -/
def World.Retirable (w : World) (op : Operation) : Prop :=
  w.Quiet op.id ∨ (op.jobUID = "" ∧ w.JobLost op.id w.jobs)

/-! ## Approvals -/

/-- No approval with this UID can authorize a run of the migration, now or later. -/
def World.Dead (w : World) (uid : String) : Prop :=
  uid ∈ w.approvalUIDs ∧
    ∀ a ∈ w.approvals, a.uid = uid → a.migrationUID = w.migration.uid → a.standing = false

/-- The approval with this UID was consumed, whether it still stands or not. -/
def World.Consumed (w : World) (uid : String) : Prop :=
  uid ∈ w.approvalUIDs ∧ ∀ a ∈ w.approvals, a.uid = uid → a.consumed = true

/-- The claim was written under the approval `uid`. -/
def Operation.under (op : Operation) (uid : String) : Bool := op.approvalRef.any (·.uid = uid)

/-- `uid` is another approval of the plan that existed when the approval `spent` was consumed. -/
def Rival (log : List Event) (spent uid : String) : Prop :=
  ∃ approval others b, .consumed approval others ∈ log ∧ approval.uid = spent ∧ b ∈ others ∧
    b.planUID = approval.planUID ∧ b.uid = uid ∧ b.uid ≠ spent

/-- What a dispatch behind its step Consume rests on. -/
def World.Spent (w : World) (op : Operation) : Prop :=
  ∀ uid, op.under uid = true → w.Consumed uid ∧ ∀ other, Rival w.log uid other → w.Dead other

/-- The approval of a claim was not spent on a run, and no other approval of its plan was. -/
def Unspent (log : List Event) (op : Operation) : Prop :=
  ∀ uid, op.under uid = true →
    (∀ claim job refused, .create (some claim) job refused ∈ log → claim.under uid = false) ∧
    ∀ claim spent, .passedConsume (some claim) ∈ log → claim.under spent = true →
      ¬ Rival log spent uid

/-! ## Status writes -/

/-- What a write does to the records of runs. -/
inductive LatchStep (w : World) (s : Status) : Prop where
  | keep (hu : s.unresolvedRun = w.migration.status.unresolvedRun)
      (hr : s.resolvedRun = w.migration.status.resolvedRun)
  /-- The run of the active Apply is recorded, behind its copy. -/
  | record (op : Operation) (run : UnresolvedRun)
      (hactive : w.migration.status.activeOperation = some op) (htype : op.type = .apply)
      (hnone : w.migration.status.unresolvedRun = none) (hid : run.operationID = op.id)
      (hcopy : w.migration.unresolvedRunCopy = some (.record run)) (hok : run.Decodes)
      (hu : s.unresolvedRun = some run) (hr : s.resolvedRun = w.migration.status.resolvedRun)
      (hafter : s.activeOperation = none ∨ s.activeOperation = some op)
      (hphase : s.phase = .blocked)
  /-- The record of a copy is put back. -/
  | restore (run : UnresolvedRun) (hnone : w.migration.status.unresolvedRun = none)
      (hcopy : w.migration.unresolvedRunCopy = some (.record run)) (hok : run.Decodes)
      (hresolved : w.migration.status.resolvedIs run.operationID = false)
      (hactive : w.migration.status.activeIs run.operationID = false)
      (hu : s.unresolvedRun = some run) (hr : s.resolvedRun = w.migration.status.resolvedRun)
      (hsame : s.activeOperation = w.migration.status.activeOperation)
      (hphase : s.phase = .blocked)
  /-- An acknowledgment settles the record. -/
  | acknowledge (run : UnresolvedRun) (resolved : ResolvedRun)
      (hrun : w.migration.status.unresolvedRun = some run) (hu : s.unresolvedRun = none)
      (hr : s.resolvedRun = some resolved) (hid : resolved.operationID = run.operationID)
      (hack : resolved.resolution = .acknowledged)
      (hsame : s.activeOperation = w.migration.status.activeOperation)
  /-- A reading settles the record. -/
  | settle (run : UnresolvedRun) (resolved : ResolvedRun)
      (report : DataPlane.MigrationStatusReport) (target : String)
      (hrun : w.migration.status.unresolvedRun = some run) (hu : s.unresolvedRun = none)
      (hr : s.resolvedRun = some resolved) (hid : resolved.operationID = run.operationID)
      (hread : resolved.resolution = .historyRead) (hreading : w.reading = some (report, target))
      (hsettles : Settles report target run)

/-- How a write changes the claim of an Apply that stays. -/
inductive ApplyTended (restores : Bool) (w : World) (op op' : Operation) : Prop where
  /-- The lock or the snapshot. -/
  | tend (epoch : String) (lost : Bool) (snapshot : Option Snapshot) (refreshed : Bool)
      (h : op' = { op with
        leaseEpoch := epoch, leaseContinuityLost := lost, admissionSnapshot := snapshot
        admissionSnapshotRefreshed := refreshed })
      (hepoch : epoch = op.leaseEpoch ∨ .acquired op.id epoch ∈ w.log)
  | mark (h : op' = { op with dispatchStarted := true }) (hnot : op.mayHaveDispatched = false)
  | withdraw (h : op' = { op with dispatchStarted := false }) (huid : op.jobUID = "")
      (hnone : restores = false → NoneCreated w.log op.id)
  | record (job : Job) (h : op' = { op with jobUID := job.uid, dispatchStarted := true })
      (hstarted : op.jobUID = "")
      (hjob : restores = false → ∃ j ∈ w.jobsOf op.id, j.uid = job.uid)

/-- The claim of an Apply is one whose record a copy decodes to. -/
structure ApplyOK (op : Operation) : Prop where
  id : sha256Digest op.id = true
  plan : ∃ reference, op.planRef = some reference ∧ Named reference.name reference.uid
  jobName : op.jobName.utf8ByteSize ≤ 253

/-- A read is under no approval, and has no lock to lose. -/
def Operation.Reads (op : Operation) : Prop :=
  op.approvalRef = none ∧ op.leaseContinuityLost = false

/-- What a write does to the claim. -/
inductive ClaimStep (restores : Bool) (w : World) (s : Status) : Prop where
  | keep (h : s.activeOperation = w.migration.status.activeOperation)
  | take (op : Operation) (hnone : w.migration.status.activeOperation = none)
      (h : s.activeOperation = some op) (hid : op.id ∈ w.ids) (hnew : op.id ∉ claimedIDs w.log)
      (hstart : op.mayHaveDispatched = false) (hcopy : CopySettled w.migration)
      (hu : s.unresolvedRun = w.migration.status.unresolvedRun)
      (hr : s.resolvedRun = w.migration.status.resolvedRun)
      (happly : op.type = .apply →
        w.migration.status.unresolvedRun = none ∧ ApplyOK op ∧ (restores = false → Unspent w.log op))
      (hread : op.type ≠ .apply → op.Reads)
  | tend (op op' : Operation) (hop : w.migration.status.activeOperation = some op)
      (h : s.activeOperation = some op') (hid : op'.id = op.id) (htype : op'.type = op.type)
      (happly : op.type = .apply → ApplyTended restores w op op')
      (hread : op.type ≠ .apply → op.Reads → op'.Reads)
  /-- A retirement: the release is staged wherever it can be recorded. -/
  | retire (op : Operation) (hop : w.migration.status.activeOperation = some op)
      (h : s.activeOperation = none)
      (happly : op.type = .apply → (restores = false → w.Retirable op) ∧
        ∀ owed, owedRelease op = .ok owed → w.migration.status.pendingLockRelease = none →
          s.pendingLockRelease = some owed)

/-- What a write does to the owed release. -/
inductive OwedStep (w : World) (s : Status) : Prop where
  | keep (h : s.pendingLockRelease = w.migration.status.pendingLockRelease)
  | stage (op : Operation) (owed : LockRelease)
      (hop : w.migration.status.activeOperation = some op) (htype : op.type = .apply)
      (howed : owedRelease op = .ok owed) (hnone : w.migration.status.pendingLockRelease = none)
      (h : s.pendingLockRelease = some owed) (hretire : s.activeOperation = none)
  | clear (owed : LockRelease) (hsome : w.migration.status.pendingLockRelease = some owed)
      (h : s.pendingLockRelease = none) (hreleased : .released owed ∈ w.log)

def Status.Identified (s : Status) : Prop :=
  ∀ h, s.history = some h → sha256Digest h.targetIdentityDigest = true

/-- A reading that ends a History claim and does not settle the record refuses to go on, or it was
not recorded. -/
def ReadingRefused (w : World) (s : Status) : Prop :=
  ∀ op report target run, w.migration.status.activeOperation = some op → op.type = .history →
    s.activeOperation = none → w.reading = some (report, target) →
    w.migration.status.unresolvedRun = some run → ¬ Settles report target run →
    s.unresolvedRun = some run ∧
      (s.phase = .blocked ∨ (s.phase = .failed ∧ s.history = w.migration.status.history))

structure StatusStep (md : Mode) (w : World) (s : Status) : Prop where
  latch : LatchStep w s
  claim : ClaimStep md.restores w s
  owed : OwedStep w s
  identified : w.migration.status.Identified → s.Identified
  /-- While a record stands the phase does not become one that goes on without it. -/
  calm : s.unresolvedRun.isSome = true → (s.phase ≠ .planning ∧ s.phase ≠ .inSync) ∨
    (w.migration.status.unresolvedRun.isSome = true ∧ s.phase = w.migration.status.phase)
  reading : ReadingRefused w s
  /-- In a careful run nothing is written before a retired claim's copy is gone. -/
  gate : md.careful = true → justRetired w = false

/-! ## Copies -/

inductive CopyStep (w : World) : Option CopyValue → Prop where
  /-- The copy of a record that stands. -/
  | repair (run : UnresolvedRun) (h : w.migration.status.unresolvedRun = some run) :
      CopyStep w (some (.record run))
  /-- The copy of the record the next write stores. -/
  | ahead (op : Operation) (run : UnresolvedRun)
      (hactive : w.migration.status.activeOperation = some op) (htype : op.type = .apply)
      (hnone : w.migration.status.unresolvedRun = none) (hid : run.operationID = op.id)
      (hok : run.Decodes) : CopyStep w (some (.record run))
  /-- The copy of a run that is settled, or whose claim the last write retired. -/
  | drop (run : UnresolvedRun) (hcopy : w.migration.unresolvedRunCopy = some (.record run))
      (hnone : w.migration.status.unresolvedRun = none)
      (h : w.migration.status.resolvedIs run.operationID = true ∨
        ∃ e, lastStatus w.log = some e ∧ e.retires run.operationID = true) : CopyStep w none

/-! ## Creates -/

/-- What the create of an Apply's Job rests on. -/
structure ApplyMayCreate (w : World) (op : Operation) (job : Job) : Prop where
  marked : op.dispatchStarted = true
  unrecorded : op.jobUID = ""
  snapshot : ∃ snapshot, op.admissionSnapshot = some snapshot ∧
    snapshot.templateDigest = job.templateDigest
  first : NoneCreated w.log op.id
  spent : ∀ uid, op.under uid = true → w.Consumed uid

/-- A create is sent for the stored claim. -/
def MayCreate (w : World) (job : Job) : Prop :=
  ∃ op, w.migration.status.activeOperation = some op ∧ job.operationID = op.id ∧
    job.ownedExactly = true ∧ job.name = op.jobName ∧
    (op.type = .apply → ApplyMayCreate w op job)

/-! ## The system -/

/-- Steps that no log shows: the environment's, a drawn ID, and a result that was read. -/
inductive Silent (md : Mode) : World → World → Prop where
  | env {w w' : World} (h : Env md.restores w w') : Silent md w w'
  | draw {w : World} (id : String) (hnew : id ∉ w.ids) : Silent md w { w with ids := id :: w.ids }
  | read {w : World} (reading : Option (DataPlane.MigrationStatusReport × String)) :
      Silent md w { w with reading }

inductive Move (md : Mode) : World → World → Prop where
  | silent {w w' : World} (h : Silent md w w') : Move md w w'
  | finalizer {w : World} (present : Bool) : Move md w (w.writeFinalizer present)
  | copy {w : World} (value : Option CopyValue) (h : CopyStep w value) : Move md w (w.writeCopy value)
  | status {w : World} (s : Status) (h : StatusStep md w s) : Move md w (w.writeStatus s)
  /-- A create that stored nothing. -/
  | create {w : World} (job : Job) (refused : Bool) (h : md.restores = false → MayCreate w job) :
      Move md w (w.note (.create w.migration.status.activeOperation job refused))
  | stored {w : World} (job : Job) (uid : String) (h : md.restores = false → MayCreate w job)
      (hname : w.NameFree job.name) (huid : w.NewJobUID uid) :
      Move md w ((w.note (.create w.migration.status.activeOperation job false)).addJob
        { job with uid, terminal := false })
  | consume {w : World} (approval : Approval)
      (h : md.restores = false → ∃ a ∈ w.approvals, a.uid = approval.uid ∧ a.consumed = false ∧
        a.planUID = approval.planUID) :
      Move md w ((w.note (.consumed approval w.approvals)).markApproval approval.uid .consumed)
  | stale {w : World} (uid : String) : Move md w (w.markApproval uid .stale)
  | passed {w : World}
      (h : md.restores = false → ∀ op, w.migration.status.activeOperation = some op → w.Spent op) :
      Move md w (w.note (.passedConsume w.migration.status.activeOperation))
  | acquired {w : World} (operationID epoch : String) :
      Move md w (w.note (.acquired operationID epoch))
  | released {w : World} (owed : LockRelease) : Move md w (w.note (.released owed))

/-- The worlds the system reaches from a fresh resource. -/
inductive Reach (md : Mode) : World → Prop where
  | init {w : World} (h : Fresh w) : Reach md w
  | step {w w' : World} (h : Reach md w) (hs : Move md w w') : Reach md w'

/-- Silent steps, one after another. -/
abbrev Drift (md : Mode) : World → World → Prop := Relation.ReflTransGen (Silent md)

theorem Drift.keep {md : Mode} {F : World → Prop}
    (hF : ∀ w w', Silent md w w' → F w → F w') {w w' : World} (h : Drift md w w') (hw : F w) :
    F w' := by
  induction h with
  | refl => exact hw
  | tail _ hs ih => exact hF _ _ hs ih

/-- What can happen between two calls of a pass: silent steps that read no result. -/
def Still (md : Mode) (w w' : World) : Prop := Drift md w w' ∧ w'.reading = w.reading

theorem Reach.induct {md : Mode} {I : World → Prop} (hinit : ∀ w, Fresh w → I w)
    (hstep : ∀ w w', Reach md w → I w → Move md w w' → I w') {w : World} (h : Reach md w) : I w := by
  induction h with
  | init hw => exact hinit _ hw
  | step hr hs ih => exact hstep _ _ hr ih hs

end Ptah.Migration
