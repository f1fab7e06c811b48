import PtahOperator.Migration.Latch
import PtahOperator.ResultCleanup.Runs

/-!
# Evidence and the copy of an unresolved run

The controller of migrations restores an unresolved run from an annotation that it decodes strictly
(`internal/controller/migration_unresolved_run.go`). Retention decodes the same annotation in its own way
(`checkUnpinned`). What the controller may still restore, retention keeps.

* `Reader`: the strict reading of `encoding/json`, beside the lenient one of `Documents`.
* `released_never_restored`: evidence that retention releases is named by no record, and by none that a pass
  may restore.
-/

namespace Ptah.ResultCleanup

open Conc
open Go (Bytes bytes)
open PlanStore (sha256Pattern)
open ResultStore

/-- `json.Decoder` with unknown fields refused. -/
structure Reader (docs : Documents) where
  /-- `Decode`: the record at the front of a text, and the text behind it. -/
  decodeFirst : Bytes → Option (UnresolvedRun × Bytes)
  /-- `dispatchedBy`, which is among the fields that retention does not read. -/
  dispatchedBy : UnresolvedRun → Option Migration.ManagerRecord
  /-- A text that is one document and its first document are read alike. -/
  agrees : ∀ value run first rest, docs.decodeRun value = some run →
    decodeFirst value = some (first, rest) → first = run

/-- `strings.TrimSpace(text) == ""` -/
def blank (text : Bytes) : Bool := (Go.fields text).isEmpty

/-- `More`: another value follows. A closing bracket does not count as one. -/
def more (rest : Bytes) : Bool :=
  match rest.dropWhile ([0x20, 0x09, 0x0a, 0x0d].contains ·) with
  | [] => false
  | c :: _ => c ≠ 0x5d && c ≠ 0x7d

section

variable {docs : Documents} (reader : Reader docs)

def decodeUnresolvedRunCopy (value : Bytes) : Except String UnresolvedRun :=
  match reader.decodeFirst value with
  | none => .error "the value is not an unresolved-run record"
  | some (record, rest) =>
    if more rest then .error "the value carries more than one record"
    else if record.outcome ≠ bytes "Partial" ∧ record.outcome ≠ bytes "Unknown" then
      .error "the outcome leaves nothing unresolved"
    else if !sha256Pattern record.operationID then .error "operationID is not an operation ID"
    else if blank record.planName || blank record.planUID then .error "planRef names no plan"
    else if record.targetIdentityDigest ≠ [] ∧ !sha256Pattern record.targetIdentityDigest then
      .error "targetIdentityDigest is not a digest"
    else if record.jobName.length > 253 then .error "jobName is longer than a Job name"
    else if record.recordedAt.isNone then .error "recordedAt is missing"
    else if (reader.dispatchedBy record).any (!Migration.validManagerRecord ·) then
      .error "dispatchedBy is not a manager record"
    else .ok record

/-- What a pass writes over the resource it read. -/
inductive CopyWrite where
  | nothing
  /-- The annotation is the copy of the record in status. -/
  | copy (record : UnresolvedRun)
  | removeCopy
  /-- Status says that the annotation cannot be read. -/
  | blocked
  /-- Status has the record again. -/
  | restore (record : UnresolvedRun)

/-- The record that a write leaves on the resource. -/
def CopyWrite.record : CopyWrite → Option UnresolvedRun
  | .copy record | .restore record => some record
  | .nothing | .removeCopy | .blocked => none

def unresolvedRunCopyMatches (m : Migration) (record : UnresolvedRun) : Bool :=
  m.unresolvedRunCopy.any fun value => (decodeUnresolvedRunCopy reader value).toOption = some record

/-- `reconcileUnresolvedRunCopy`, with the record of `status.unresolvedRun`. -/
def reconcileUnresolvedRunCopy (m : Migration) : (record : Option UnresolvedRun) → CopyWrite
  | some record => if unresolvedRunCopyMatches reader m record then .nothing else .copy record
  | none =>
    match m.unresolvedRunCopy with
    | none => .nothing
    | some value =>
      match decodeUnresolvedRunCopy reader value with
      | .error _ => .blocked
      | .ok stored =>
        if m.resolvedRun = some stored.operationID then .removeCopy
        else if m.activeOperation = some stored.operationID then .nothing
        else .restore stored

variable {reader} {value : Bytes} {run : UnresolvedRun} {b : Binding} {m : Migration}

theorem decodeFirst_of_decode (h : decodeUnresolvedRunCopy reader value = .ok run) :
    ∃ rest, reader.decodeFirst value = some (run, rest) := by
  unfold decodeUnresolvedRunCopy at h
  cases hfirst : reader.decodeFirst value with
  | none =>
    rw [hfirst] at h
    cases h
  | some read =>
    obtain ⟨record, rest⟩ := read
    simp only [hfirst] at h
    split_ifs at h
    cases h
    exact ⟨rest, rfl⟩

theorem copyPins_of_decode (h : decodeUnresolvedRunCopy reader value = .ok run)
    (hid : run.operationID = b.operationID) : copyPins docs b value = true := by
  obtain ⟨rest, hfirst⟩ := decodeFirst_of_decode h
  unfold copyPins
  cases hrun : docs.decodeRun value with
  | none => rfl
  | some lenient =>
    obtain rfl := reader.agrees value lenient run rest hrun hfirst
    simp [hid]

/-- The record that a pass writes is the one of status, or one that it read from the annotation. -/
theorem reconcile_record {record : Option UnresolvedRun}
    (h : (reconcileUnresolvedRunCopy reader m record).record = some run) : record = some run ∨
      ∃ value, m.unresolvedRunCopy = some value ∧ decodeUnresolvedRunCopy reader value = .ok run := by
  cases record with
  | some record =>
    simp only [reconcileUnresolvedRunCopy] at h
    split at h
    · cases h
    · exact .inl h
  | none =>
    cases hvalue : m.unresolvedRunCopy with
    | none =>
      simp only [reconcileUnresolvedRunCopy, hvalue] at h
      cases h
    | some value =>
      cases hstored : decodeUnresolvedRunCopy reader value with
      | error e =>
        simp only [reconcileUnresolvedRunCopy, hvalue, hstored] at h
        cases h
      | ok stored =>
        simp only [reconcileUnresolvedRunCopy, hvalue, hstored] at h
        split_ifs at h
        · cases h
        · cases h
        · cases h
          exact .inr ⟨value, rfl, hstored⟩

/-- Evidence that `checkUnpinned` releases: no record of the status names its operation, no pass over the
resource leaves a record that does, and no annotation that the controller reads is for it. -/
theorem released_never_restored (reader : Reader docs) {w : World} (hkind : b.kind = bytes "PtahMigration")
    (hm : w.migrations (b.ns, b.name) = some m) (huid : m.uid = b.uid)
    (h : Answers w (checkUnpinned docs b) ()) :
    (m.activeOperation ≠ some b.operationID ∧ m.unresolvedRun ≠ some b.operationID ∧
      m.resolvedRun ≠ some b.operationID ∧ m.pendingLockRelease ≠ some b.operationID) ∧
    (∀ record run, record.map UnresolvedRun.operationID = m.unresolvedRun →
      (reconcileUnresolvedRunCopy reader m record).record = some run → run.operationID ≠ b.operationID) ∧
    ∀ value run, m.unresolvedRunCopy = some value → decodeUnresolvedRunCopy reader value = .ok run →
      run.operationID ≠ b.operationID := by
  have hpins : m.pins docs b = false := by
    rcases checkUnpinned_answers h with ⟨hschema, -⟩ | ⟨-, hpins⟩
    · rw [hkind] at hschema
      exact absurd hschema (by decide)
    · exact hpins m hm huid
  simp only [Migration.pins, Bool.or_eq_false_iff, decide_eq_false_iff_not] at hpins
  obtain ⟨⟨⟨⟨⟨hactive, hunresolved⟩, hresolved⟩, hrelease⟩, -⟩, hcopy⟩ := hpins
  have hread : ∀ value run, m.unresolvedRunCopy = some value →
      decodeUnresolvedRunCopy reader value = .ok run → run.operationID ≠ b.operationID := by
    intro value run hvalue hdecode hid
    rw [hvalue, Option.any_some, copyPins_of_decode hdecode hid] at hcopy
    cases hcopy
  refine ⟨⟨hactive, hunresolved, hresolved, hrelease⟩, fun record run hrecord hwritten hid => ?_, hread⟩
  rcases reconcile_record hwritten with rfl | ⟨value, hvalue, hdecode⟩
  · exact hunresolved (hrecord.symm.trans (congrArg some hid))
  · exact hread value run hvalue hdecode hid

end

/-! ## An example -/

def sampleRun : UnresolvedRun where
  outcome := bytes "Unknown"
  operationID := bytes "sha256:" ++ List.replicate 64 0x61
  jobName := bytes "orders-apply"
  planName := bytes "plan"
  planUID := bytes "plan-uid"
  targetIdentityDigest := bytes "sha256:" ++ List.replicate 64 0x62
  recordedAt := some 1
  others := []

/-- The first value of a text, as `readRun` reads it. -/
def sampleReader : Reader sampleDocs where
  decodeFirst value := (Go.Json.read (value.length + 1) value).bind fun r => (readRun r.1).map (·, r.2)
  dispatchedBy _ := none
  agrees value run first rest hrun hfirst := by
    obtain ⟨⟨document, behind⟩, hread, hfirst⟩ := Option.bind_eq_some_iff.1 hfirst
    obtain ⟨found, hfound, heq⟩ := Option.map_eq_some_iff.1 hfirst
    cases heq
    change (Go.Json.parse value).bind readRun = some run at hrun
    rw [Go.Json.parse, hread] at hrun
    cases behind with
    | nil => exact Option.some.inj (hfound.symm.trans hrun)
    | cons c behind => cases hrun

def sampleCopy : Bytes := sampleRun.document.write

def sampleMigration : Migration where
  uid := bytes "schema"
  activeOperation := none
  unresolvedRun := none
  resolvedRun := none
  pendingLockRelease := none
  lastRun := none
  unresolvedRunCopy := some sampleCopy

def sampleMigrationBinding : Binding :=
  { sampleBinding with kind := bytes "PtahMigration", operation := bytes "migration-apply" }

def sampleMigrationWorld : World :=
  { sampleWorld with migrations := fun _ => some sampleMigration }

/-- Evidence of another operation than the one that the annotation is for. -/
theorem released_never_restored_copy :
    decodeUnresolvedRunCopy sampleReader sampleCopy = .ok sampleRun ∧
    sampleRun.operationID ≠ sampleMigrationBinding.operationID := by
  have hdecode : decodeUnresolvedRunCopy sampleReader sampleCopy = .ok sampleRun := by decide +kernel
  have h : Answers sampleMigrationWorld (checkUnpinned sampleDocs sampleMigrationBinding) () :=
    answers_of_exec (by decide +kernel)
  exact ⟨hdecode, (@released_never_restored _ sampleMigrationBinding sampleMigration sampleReader
    sampleMigrationWorld rfl rfl rfl h).2.2 _ _ rfl hdecode⟩

end Ptah.ResultCleanup
