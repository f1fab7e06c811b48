import PtahOperator.Migration.Api

/-!
# The record of an unresolved run and its copy

`status.unresolvedRun` names a run nobody accounted for. A copy of it stands in an annotation, where
a restore without status keeps it. `patchMigrationStatus` writes the copy before the status that
stores the record and removes it after the status that settles it, and `reconcileUnresolvedRunCopy`
holds the two to each other at the start of a pass.

In this model `m` is the resource as the pass last read it, and `s` the status it is about to write
over `m.status`. A function that writes returns the resource as it stands after the write.
-/

namespace Ptah.Migration

open Conc

/-! ## The copy -/

def isLowerHex (c : Char) : Bool := ('0' ≤ c && c ≤ '9') || ('a' ≤ c && c ≤ 'f')

/-- The characters of `sha256:` and 64 hexadecimal digits. -/
def isSHA256 (cs : List Char) : Bool :=
  cs.take 7 = "sha256:".toList && (cs.drop 7).length = 64 && (cs.drop 7).all isLowerHex

/-- `sha256Digest.MatchString` -/
def sha256Digest (value : String) : Bool := isSHA256 value.toList

/-- `digestPinnedImage.MatchString`: a name without blanks and `@`, and a digest after an `@`. -/
def digestPinnedImage (image : String) : Bool :=
  let name := image.toList.takeWhile (· ≠ '@')
  let digest := (image.toList.dropWhile (· ≠ '@')).drop 1
  name ≠ [] && name.all (fun c => c ∉ ['\t', '\n', '\x0b', '\x0c', '\r', ' ']) && isSHA256 digest

/-- `strings.TrimSpace(text) == text` -/
def trimmed (text : String) : Bool :=
  !text.toList.head?.any isSpace && !text.toList.getLast?.any isSpace

def validManagerRecord (record : ManagerRecord) : Bool :=
  digestPinnedImage record.controllerImage && record.controllerImage.utf8ByteSize ≤ 512 &&
    digestPinnedImage record.runnerImage && record.runnerImage.utf8ByteSize ≤ 512 &&
    record.controllerRevision ≠ "" && record.controllerRevision.utf8ByteSize ≤ 128 &&
    trimmed record.controllerRevision

/-- The checks of `decodeUnresolvedRunCopy`, on a value that is the JSON of a record. -/
def checkUnresolvedRun (record : UnresolvedRun) : Except String UnresolvedRun :=
  if !record.outcome.unresolved then
    .error s!"outcome \"{record.outcome.name}\" leaves nothing unresolved"
  else if !sha256Digest record.operationID then .error "operationID is not an operation ID"
  else if blank record.planRef.name || blank record.planRef.uid then .error "planRef names no plan"
  else if record.targetIdentityDigest ≠ "" && !sha256Digest record.targetIdentityDigest then
    .error "targetIdentityDigest is not a digest"
  else if record.jobName.utf8ByteSize > 253 then .error "jobName is longer than a Job name"
  else if record.recordedAt = 0 then .error "recordedAt is missing"
  else if record.dispatchedBy.any (!validManagerRecord ·) then
    .error "dispatchedBy is not a manager record"
  else .ok record

def decodeUnresolvedRunCopy : CopyValue → Except String UnresolvedRun
  | .record run => checkUnresolvedRun run
  | .text _ => .error "the value is not an unresolved-run record"

/-- A record its own copy decodes to. -/
def UnresolvedRun.Decodes (run : UnresolvedRun) : Prop := checkUnresolvedRun run = .ok run

theorem decodeUnresolvedRunCopy_ok {value : CopyValue} {run : UnresolvedRun}
    (h : decodeUnresolvedRunCopy value = .ok run) : value = .record run ∧ run.Decodes := by
  cases value with
  | text value => cases h
  | record run' =>
    simp only [decodeUnresolvedRunCopy] at h
    have hrun : run' = run := by
      unfold checkUnresolvedRun at h
      repeat' split at h
      all_goals first | cases h; rfl | cases h
    subst hrun
    exact ⟨rfl, h⟩

/-- The copy decodes to `record`. -/
def unresolvedRunCopyMatches (m : PtahMigration) (record : UnresolvedRun) : Bool :=
  match m.unresolvedRunCopy with
  | none => false
  | some value =>
    match decodeUnresolvedRunCopy value with
    | .ok stored => stored = record
    | .error _ => false

theorem unresolvedRunCopyMatches_iff {m : PtahMigration} {record : UnresolvedRun} :
    unresolvedRunCopyMatches m record = true ↔
      m.unresolvedRunCopy = some (.record record) ∧ record.Decodes := by
  unfold unresolvedRunCopyMatches
  constructor
  · intro h
    cases hcopy : m.unresolvedRunCopy with
    | none => simp [hcopy] at h
    | some value =>
      simp only [hcopy] at h
      cases hdecode : decodeUnresolvedRunCopy value with
      | error e => simp [hdecode] at h
      | ok stored =>
        simp only [hdecode, decide_eq_true_eq] at h
        subst h
        obtain ⟨rfl, hok⟩ := decodeUnresolvedRunCopy_ok hdecode
        exact ⟨rfl, hok⟩
  · rintro ⟨hcopy, hok⟩
    have hdecode : decodeUnresolvedRunCopy (.record record) = .ok record := hok
    simp [hcopy, hdecode]

/-! ## Writes -/

def setUnresolvedRunCopy (m : PtahMigration) (value : Option CopyValue) : Pass PtahMigration :=
  if m.unresolvedRunCopy = value then pure m
  else do
    let patched ← patchCopy m.resourceVersion value
    pure { m with
      resourceVersion := patched.resourceVersion
      unresolvedRunCopy := patched.unresolvedRunCopy }

/-- The base of the status patch: the resource with the copy of the record `s` stores. -/
def copyUnresolvedRunBeforeStatus (m : PtahMigration) (s : Status) : Pass PtahMigration :=
  match s.unresolvedRun with
  | none => pure m
  | some record =>
    if unresolvedRunCopyMatches m record then pure m
    else setUnresolvedRunCopy m (some (.record record))

/-- The status of `after`, written over `before`, accounts for the run `stored` names: it is
settled, or its claim was retired. -/
def accountsFor (before after : Status) (stored : UnresolvedRun) : Bool :=
  after.resolvedRun.any (·.operationID = stored.operationID) ||
    (before.activeOperation.any (·.id = stored.operationID) && after.activeOperation.isNone)

def dropSettledUnresolvedRunCopy (before : Status) (after : PtahMigration) : Pass PtahMigration :=
  match after.unresolvedRunCopy with
  | none => pure after
  | some value =>
    if after.status.unresolvedRun.isSome then pure after
    else
      match decodeUnresolvedRunCopy value with
      | .error _ => pure after
      | .ok stored =>
        if accountsFor before after.status stored then setUnresolvedRunCopy after none
        else pure after

def patchMigrationStatus (m : PtahMigration) (s : Status) : Pass PtahMigration :=
  if m.status = s then pure m
  else do
    let base ← copyUnresolvedRunBeforeStatus m s
    let after ← patchStatus base.resourceVersion s
    dropSettledUnresolvedRunCopy m.status after

/-! ## The start of a pass -/

def migrationBlocked (m : PtahMigration) (reason message : String) : Pass PtahMigration :=
  let s := { m.status with phase := .blocked, observedGeneration := m.generation }
  let s := ((s.setCondition .blocked .isTrue reason message).setCondition
    .ready .isFalse reason message).setCondition .progressing .isFalse reason message
  let s :=
    if reason = "UnsupportedEngine" then
      s.setCondition .databaseReachable .unknown reason
        "Database access is disabled for an unsupported engine"
    else s
  patchMigrationStatus m s

def unresolvedRunAnnotation : String := "operator.ptah.run/unresolved-run"

/-- The status with the record of a copy put back. -/
def restoredStatus (s : Status) (stored : UnresolvedRun) : Status :=
  let outcome := stored.outcome.name
  let message := s!"A {outcome} run nobody accounted for was restored from the {unresolvedRunAnnotation} annotation; establish what it did before another Apply"
  (({ s with unresolvedRun := some stored, plan := none, phase := .blocked }.setCondition
    .blocked .isTrue "ApplyOutcomeUnknown" message).setCondition
    .ready .isFalse "ApplyOutcomeUnknown"
      "What the recorded run did is unknown until the database is read").setCondition
    .progressing .isFalse "ApplyOutcomeUnknown" "The recorded run may not be retried"

/-- Holds the copy and the record to each other. `true` says that the pass ends here. -/
def reconcileUnresolvedRunCopy (m : PtahMigration) : Pass (Bool × PtahMigration) :=
  match m.status.unresolvedRun, m.unresolvedRunCopy with
  | some record, _ =>
    if unresolvedRunCopyMatches m record then pure (false, m)
    else do
      let m ← setUnresolvedRunCopy m (some (.record record))
      pure (false, m)
  | none, none => pure (false, m)
  | none, some value =>
    match decodeUnresolvedRunCopy value with
    | .error e => do
      let refusal := bounded e 256
      let m ← migrationBlocked m "ApplyOutcomeUnknown"
        s!"The {unresolvedRunAnnotation} annotation records a run nobody accounted for, and this manager cannot read it ({refusal}); nothing runs while it stands"
      pure (true, m)
    | .ok stored =>
      if m.status.resolvedRun.any (·.operationID = stored.operationID) then do
        let m ← setUnresolvedRunCopy m none
        pure (false, m)
      else if m.status.activeOperation.any (·.id = stored.operationID) then pure (false, m)
      else do
        let m ← patchMigrationStatus m (restoredStatus m.status stored)
        pure (true, m)

/-! ## Acknowledgments -/

def acknowledgmentJudged (a : Acknowledgment) : Bool := a.consumed || a.stale

def acknowledgmentStamped (a : Acknowledgment) : Bool :=
  !blank a.acknowledgedBy && !blank a.mutationRequestUID && a.acknowledgedAt.isSome

def Acknowledgment.sameSpec (a b : Acknowledgment) : Bool :=
  a.migrationUID = b.migrationUID && a.operationID = b.operationID &&
    a.acknowledgedBy = b.acknowledgedBy && a.mutationRequestUID = b.mutationRequestUID &&
    a.acknowledgedAt = b.acknowledgedAt

def judgeAcknowledgment (a : Acknowledgment) (consumed : Bool) : Pass Unit :=
  patchAcknowledgment a consumed

/-- The status in which an acknowledgment has settled the record. -/
def acknowledgedStatus (s : Status) (unresolved : UnresolvedRun) (a : Acknowledgment) (now : Time) :
    Status :=
  let who := bounded a.acknowledgedBy 256
  let outcome := unresolved.outcome.name
  { s with
    unresolvedRun := none
    resolvedRun := some
      { operationID := unresolved.operationID
        outcome := unresolved.outcome
        resolution := .acknowledged
        acknowledgmentRef := some ⟨a.name, a.uid⟩
        acknowledgedBy := some a.acknowledgedBy
        resolvedAt := now }
    nextReconciliationTime := some now }.setCondition .blocked .isFalse "RunAcknowledged"
      s!"{who} acknowledged the {outcome} run; the database is read again before anything is planned"

def settleUnresolvedRunByAcknowledgment (m : PtahMigration) (unresolved : UnresolvedRun)
    (candidate : Acknowledgment) : Pass PtahMigration := do
  match ← getAcknowledgment candidate.name with
  | none => pure m
  | some a =>
    if a.uid ≠ candidate.uid || a.deleting || !a.sameSpec candidate || acknowledgmentJudged a then
      pure m
    else do
      let settledAt ← now
      let m ← patchMigrationStatus m (acknowledgedStatus m.status unresolved a settledAt)
      judgeAcknowledgment a true
      pure m

/-- Answers the acknowledgments of `acknowledgments`, and gives the oldest that names the
unresolved run. -/
def judgeAcknowledgments (m : PtahMigration) : List Acknowledgment → Pass (Option Acknowledgment)
  | [] => pure none
  | a :: rest =>
    if a.migrationUID ≠ m.uid || a.deleting || acknowledgmentJudged a then
      judgeAcknowledgments m rest
    else if acknowledgmentStamped a &&
        m.status.unresolvedRun.any (·.operationID = a.operationID) then do
      let _ ← judgeAcknowledgments m rest
      pure (some a)
    else do
      judgeAcknowledgment a (m.status.resolvedRun.any fun r =>
        r.acknowledgmentRef.any (·.uid = a.uid))
      judgeAcknowledgments m rest

def reconcileRunAcknowledgments (m : PtahMigration) : Pass PtahMigration := do
  let acknowledgments ← listAcknowledgments
  let sorted := acknowledgments.mergeSort fun a b => a.creationTimestamp ≤ b.creationTimestamp
  match ← judgeAcknowledgments m sorted, m.status.unresolvedRun with
  | some candidate, some unresolved => settleUnresolvedRunByAcknowledgment m unresolved candidate
  | _, _ => pure m

end Ptah.Migration
