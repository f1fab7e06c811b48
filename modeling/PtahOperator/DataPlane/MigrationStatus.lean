import Mathlib.Data.List.Nodup

/-!
# The migration status document of `internal/dataplane`

Ptah reports a database's migration history as one document. It names each migration of the
artifact with the state the database has it in, and, as a list of its own, the versions its next
run would execute.

- **`decodeMigrationStatus`** refuses a document it cannot account for.
- **`MigrationStatusReport.pending`** is the list Ptah reports. Only a document without one is
  read by its states.
-/

namespace Ptah.DataPlane

def supportedMigrationStatusContract : Int := 2

def migrationStatusCommand : String := "migrations status"

/-- A value of `migrationStates`, or another name a document carries. -/
inductive MigrationState where
  | applied
  | modified
  | dirty
  | pending
  | outOfOrder
  | checkpointCovered
  /-- A name that is not in `migrationStates`. -/
  | unknown (name : String)
  deriving DecidableEq

def MigrationState.name : MigrationState → String
  | applied => "applied"
  | modified => "modified"
  | dirty => "dirty"
  | pending => "pending"
  | outOfOrder => "out-of-order"
  | checkpointCovered => "checkpoint-covered"
  | unknown name => name

/-- The state is one of `migrationStates`. -/
def MigrationState.known : MigrationState → Bool
  | unknown _ => false
  | _ => true

structure MigrationRecord where
  version : Int
  versionKey : String := ""
  description : String := ""
  checksum : String := ""
  appliedChecksum : String := ""
  checkpoint : Bool := false
  transactionMode : String := ""
  appliedAt : Option Int := none
  executionMs : Option Int := none
  state : MigrationState
  deriving DecidableEq

def MigrationRecord.hasRevisionRow (m : MigrationRecord) : Bool :=
  m.state = .applied || m.state = .modified || m.state = .dirty

def maxMigrationDescriptionBytes : Nat := 255

def maxMigrationChecksumBytes : Nat := 128

structure MigrationDirty where
  version : Int
  applied : Int
  total : Int
  error : String := ""
  deriving DecidableEq

structure MigrationStatusReport where
  contractVersion : Int
  currentVersion : Int
  checkpointVersion : Int := 0
  totalMigrations : Int
  hasPendingChanges : Bool
  /-- `none` when the document carries no `pending_migrations`. -/
  pendingMigrations : Option (List Int)
  migrations : List MigrationRecord := []
  dirtyRevision : Option MigrationDirty := none
  deriving DecidableEq

namespace MigrationStatusReport

/-- The versions of the records in one of the states `states`, in the document's order. -/
def versionsIn (r : MigrationStatusReport) (states : List MigrationState) : List Int :=
  (r.migrations.filter (·.state ∈ states)).map (·.version)

def pending (r : MigrationStatusReport) : List Int :=
  r.pendingMigrations.getD (r.versionsIn [.pending, .outOfOrder])

def lastVersion (r : MigrationStatusReport) : Int :=
  r.migrations.foldl (fun last record => if last < record.version then record.version else last) 0

def modified (r : MigrationStatusReport) : List Int := r.versionsIn [.modified]

def outOfOrder (r : MigrationStatusReport) : List Int := r.versionsIn [.outOfOrder]

end MigrationStatusReport

/-! ## Decoding -/

def MigrationRecord.validateRow (m : MigrationRecord) : Except String Unit :=
  if maxMigrationDescriptionBytes < m.description.utf8ByteSize then
    .error s!"migration status reports a description of {m.description.utf8ByteSize} bytes for version {m.version}, longer than a file name holds"
  else if maxMigrationChecksumBytes < m.checksum.utf8ByteSize ∨
      maxMigrationChecksumBytes < m.appliedChecksum.utf8ByteSize then
    .error s!"migration status reports a checksum longer than {maxMigrationChecksumBytes} bytes for version {m.version}"
  else if (m.appliedAt.isSome ∨ m.executionMs.isSome) ∧ ¬ m.hasRevisionRow then
    .error s!"migration status reports when version {m.version} ran, and its state \"{m.state.name}\" has no revision row"
  else if m.executionMs.isSome ∧ m.appliedAt = none then
    .error s!"migration status reports how long version {m.version} ran and not when"
  else if m.executionMs.any (· < 0) then
    .error s!"migration status reports version {m.version} ran for {m.executionMs.getD 0} milliseconds"
  else .ok ()

/-- The loop of `validate` over the records, with the versions it has seen. -/
def validateRecords (seen : List Int) : List MigrationRecord → Except String Unit
  | [] => .ok ()
  | record :: records =>
    if record.version ≤ 0 then .error "migration status lists a migration with no version"
    else if record.version ∈ seen then
      .error s!"migration status lists version {record.version} twice"
    else if ¬ record.state.known then
      .error s!"migration status reports state \"{record.state.name}\" for version {record.version}, which this operator does not know"
    else
      match record.validateRow with
      | .error e => .error e
      | .ok () => validateRecords (record.version :: seen) records

def MigrationStatusReport.validate (r : MigrationStatusReport) : Except String Unit :=
  if r.contractVersion ≠ supportedMigrationStatusContract then
    .error s!"migration status contract version {r.contractVersion} is not the {supportedMigrationStatusContract} this operator reads"
  else if r.currentVersion < 0 ∨ r.checkpointVersion < 0 ∨ r.totalMigrations < 0 then
    .error "migration status reports a negative count or version"
  else if r.totalMigrations < r.migrations.length then
    .error s!"migration status lists {r.migrations.length} migrations and counts {r.totalMigrations}"
  else
    match validateRecords [] r.migrations with
    | .error e => .error e
    | .ok () =>
      if r.dirtyRevision.any (·.version ≤ 0) then
        .error "migration status reports a dirty revision with no version"
      else .ok ()

/-- What `encoding/json` reads out of one document: its envelope and the report's fields. -/
structure StatusDocument where
  command : String
  /-- The document carries an `error` object. -/
  failure : Bool
  report : MigrationStatusReport
  deriving DecidableEq

/-- `DecodeMigrationStatus`, on bytes that are a JSON document. -/
def decodeMigrationStatus (document : StatusDocument) : Except String MigrationStatusReport :=
  if document.command ≠ migrationStatusCommand then
    .error s!"migration status names another command than {migrationStatusCommand}"
  else if document.failure then .error "migration status is a failure document"
  else
    match document.report.validate with
    | .error e => .error e
    | .ok () => .ok document.report

/-! ## What an accepted document has -/

theorem validateRecords_ok {seen : List Int} {records : List MigrationRecord}
    (h : validateRecords seen records = .ok ()) :
    (records.map (·.version)).Nodup ∧
      ∀ r ∈ records, 0 < r.version ∧ r.version ∉ seen ∧ r.state.known = true := by
  induction records generalizing seen with
  | nil => simp
  | cons record records ih =>
    simp only [validateRecords] at h
    split at h
    · cases h
    split at h
    · cases h
    rename_i hnew
    split at h
    · cases h
    rename_i hknown
    split at h
    · cases h
    obtain ⟨hnodup, hrest⟩ := ih h
    have hfresh : record.version ∉ records.map (·.version) := by
      rintro hmem
      obtain ⟨r, hr, heq⟩ := List.mem_map.1 hmem
      exact (hrest r hr).2.1 (by simp [heq])
    refine ⟨by simpa using ⟨by simpa using hfresh, hnodup⟩, fun r hr => ?_⟩
    rcases hr with _ | ⟨_, hr⟩
    · exact ⟨by omega, hnew, by simpa using hknown⟩
    · obtain ⟨hpos, hseen, hk⟩ := hrest r hr
      exact ⟨hpos, fun hs => hseen (.tail _ hs), hk⟩

theorem decodeMigrationStatus_ok {document : StatusDocument} {report : MigrationStatusReport}
    (h : decodeMigrationStatus document = .ok report) :
    (report.migrations.map (·.version)).Nodup ∧
      ∀ r ∈ report.migrations, 0 < r.version ∧ r.state.known = true := by
  simp only [decodeMigrationStatus] at h
  split at h
  · cases h
  split at h
  · cases h
  split at h
  · cases h
  rename_i hvalid
  cases h
  simp only [MigrationStatusReport.validate] at hvalid
  split at hvalid
  · cases hvalid
  split at hvalid
  · cases hvalid
  split at hvalid
  · cases hvalid
  split at hvalid
  · cases hvalid
  rename_i hrecords
  obtain ⟨hnodup, hrest⟩ := validateRecords_ok hrecords
  exact ⟨hnodup, fun r hr => ⟨(hrest r hr).1, (hrest r hr).2.2⟩⟩

end Ptah.DataPlane
