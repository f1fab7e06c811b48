import PtahOperator.Migration.History

/-!
# The sequence a plan carries

`migrationplan.Sequence` selects the migrations of a plan by the states of the report's records,
while `Pending` is the selection Ptah reports. `sequence_versions_eq_pending_iff` says for which
reports the two are the same list.
-/

namespace Ptah.MigrationPlan

open DataPlane Migration

structure PlannedMigration where
  version : Int
  versionKey : String
  description : String
  checksum : String
  checkpoint : Bool
  transactionMode : String
  deriving DecidableEq

def maxMigrations : Nat := 256

/-- `workload.MaxEncodedMigrationSequence` -/
def maxEncodedMigrationSequence : Nat := 120 * 2 ^ 10

def plannedOf (record : MigrationRecord) : PlannedMigration where
  version := record.version
  versionKey := record.versionKey
  description := record.description
  checksum := record.checksum
  checkpoint := record.checkpoint
  transactionMode := record.transactionMode

/-- The loop of `Sequence` over the records. -/
def selectPlanned : List MigrationRecord → Except String (List PlannedMigration)
  | [] => .ok []
  | record :: records =>
    if record.state ≠ .pending ∧ record.state ≠ .outOfOrder then selectPlanned records
    else if record.version < 1 then
      .error s!"migration version {record.version} is not positive"
    else if blank record.checksum then .error s!"migration {record.version} carries no checksum"
    else if record.transactionMode ∉ ["", "file", "none"] then
      .error s!"migration {record.version} declares an unknown transaction mode \"{record.transactionMode}\""
    else
      match selectPlanned records with
      | .error e => .error e
      | .ok planned => .ok (plannedOf record :: planned)

section Sequence

-- The length of the JSON an Apply Job carries a sequence in.
variable (encodedBytes : List PlannedMigration → Nat)

/-- `migrationplan.Sequence` -/
def sequence (report : MigrationStatusReport) : Except String (List PlannedMigration) :=
  match selectPlanned report.migrations with
  | .error e => .error e
  | .ok planned =>
    if planned = [] then .error "the history reports nothing pending"
    else if maxMigrations < planned.length then
      .error s!"the pending sequence is {planned.length} migrations, over the {maxMigrations} a plan may carry"
    else if maxEncodedMigrationSequence < encodedBytes planned then
      .error s!"the approved sequence encodes to {encodedBytes planned} bytes, over the {maxEncodedMigrationSequence} an Apply Job can carry"
    else .ok planned

end Sequence

/-- Ptah's selection, where the report carries one, is the records in state pending, in the
report's order. -/
def SelectionAgrees (report : MigrationStatusReport) : Prop :=
  ∀ listed, report.pendingMigrations = some listed →
    listed.Sublist (report.migrations.map (·.version)) ∧
      ∀ r ∈ report.migrations, r.version ∈ listed ↔ r.state = .pending

theorem selectPlanned_versions {records : List MigrationRecord} {planned : List PlannedMigration}
    (h : selectPlanned records = .ok planned) :
    planned.map (·.version) =
      (records.filter (·.state ∈ [.pending, .outOfOrder])).map (·.version) := by
  induction records generalizing planned with
  | nil =>
    cases h
    rfl
  | cons record records ih =>
    simp only [selectPlanned] at h
    split at h
    · rename_i hskip
      rw [ih h, List.filter_cons_of_neg (by simpa using hskip)]
    rename_i hselected
    have hmem : record.state ∈ [MigrationState.pending, .outOfOrder] := by
      simp only [List.mem_cons, List.not_mem_nil, or_false]
      by_contra hne
      exact hselected (not_or.1 hne)
    split at h
    · cases h
    split at h
    · cases h
    split at h
    · cases h
    split at h
    · cases h
    rename_i rest hrest
    cases h
    rw [List.filter_cons_of_pos (by simpa using hmem), List.map_cons, List.map_cons, ih hrest]
    rfl

theorem sequence_versions {encodedBytes : List PlannedMigration → Nat}
    {report : MigrationStatusReport} {planned : List PlannedMigration}
    (h : sequence encodedBytes report = .ok planned) :
    planned.map (·.version) = report.versionsIn [.pending, .outOfOrder] := by
  simp only [sequence] at h
  split at h
  · cases h
  rename_i hselect
  split at h
  · cases h
  split at h
  · cases h
  split at h
  · cases h
  cases h
  exact selectPlanned_versions hselect

/-- A sublist of a list without repetitions is the elements it has, in the list's order. -/
theorem eq_filter_of_sublist {l m : List Int} (h : l.Sublist m) (hm : m.Nodup) :
    l = m.filter (· ∈ l) := by
  induction h with
  | slnil => rfl
  | @cons l m a hs ih =>
    have hnew : a ∉ l := fun ha => (List.nodup_cons.1 hm).1 (hs.subset ha)
    rw [List.filter_cons_of_neg (by simpa using hnew), ← ih (List.nodup_cons.1 hm).2]
  | @cons_cons l m a hs ih =>
    obtain ⟨hnew, hm⟩ := List.nodup_cons.1 hm
    rw [List.filter_cons_of_pos (by simp)]
    congr 1
    have hrest : m.filter (· ∈ a :: l) = m.filter (· ∈ l) := by
      refine List.filter_congr fun x hx => ?_
      have hxa : x ≠ a := fun h => hnew (h ▸ hx)
      simp [hxa]
    rw [hrest]
    exact ih hm

/-- The records whose version a list names, when the list agrees with their states. -/
theorem versionsIn_pending_eq_iff {report : MigrationStatusReport} {listed : List Int}
    (hnodup : (report.migrations.map (·.version)).Nodup) :
    report.versionsIn [.pending] = listed ↔ listed.Sublist (report.migrations.map (·.version)) ∧
        ∀ r ∈ report.migrations, r.version ∈ listed ↔ r.state = .pending := by
  have hpending : report.versionsIn [.pending] =
      (report.migrations.filter (·.state = .pending)).map (·.version) := by
    simp [MigrationStatusReport.versionsIn]
  rw [hpending]
  constructor
  · rintro rfl
    refine ⟨List.filter_sublist.map _, fun r hr => ⟨fun hmem => ?_, fun hstate => ?_⟩⟩
    · obtain ⟨r', hr', heq⟩ := List.mem_map.1 hmem
      obtain ⟨hr'mem, hr'state⟩ := List.mem_filter.1 hr'
      obtain rfl := List.inj_on_of_nodup_map hnodup hr'mem hr heq
      simpa using hr'state
    · exact List.mem_map.2 ⟨r, List.mem_filter.2 ⟨hr, by simpa using hstate⟩, rfl⟩
  · rintro ⟨hsub, hstates⟩
    rw [eq_filter_of_sublist hsub hnodup, List.filter_map]
    congr 1
    refine List.filter_congr fun r hr => ?_
    simpa using (hstates r hr).symm

/-- For every report that is accepted and planned: the plan carries what Ptah selects exactly when
the report's states agree with Ptah's selection. -/
theorem sequence_versions_eq_pending_iff (digestHistory : MigrationStatusReport → String)
    (encodedBytes : List PlannedMigration → Nat) (document : StatusDocument)
    (report : MigrationStatusReport) (s s' : Status) (target : String) (now : Time)
    (planned : List PlannedMigration) (hdecode : decodeMigrationStatus document = .ok report)
    (hrecord : recordMigrationHistory digestHistory s report target now = .ok s')
    (hphase : s'.phase = .planning) (hsequence : sequence encodedBytes report = .ok planned) :
    planned.map (·.version) = report.pending ↔ SelectionAgrees report := by
  have hinOrder : report.outOfOrder = [] := by
    cases (recordMigrationHistory_cases hrecord).2 with
    | refused h => rw [hphase] at h; cases h
    | matched h => rw [hphase] at h; cases h
    | planned _ hreport => exact hreport.inOrder
  -- A planned report has no record out of order, so both selections are about `pending`.
  have hpending : report.versionsIn [.pending, .outOfOrder] = report.versionsIn [.pending] := by
    simp only [MigrationStatusReport.outOfOrder, MigrationStatusReport.versionsIn,
      List.map_eq_nil_iff, List.filter_eq_nil_iff] at hinOrder
    simp only [MigrationStatusReport.versionsIn]
    congr 1
    refine List.filter_congr fun r hr => ?_
    have hstate : r.state ≠ .outOfOrder := by simpa using hinOrder r hr
    simp [hstate]
  rw [sequence_versions hsequence, hpending]
  cases hlisted : report.pendingMigrations with
  | none => simp [MigrationStatusReport.pending, SelectionAgrees, hlisted, hpending]
  | some listed =>
    simp only [MigrationStatusReport.pending, SelectionAgrees, hlisted, Option.getD_some,
      Option.some.injEq, forall_eq']
    exact versionsIn_pending_eq_iff (decodeMigrationStatus_ok hdecode).1

/-- A document of four migrations, the first `applied` of them applied, with the selection
`selected`. -/
def sampleDocument (applied : List Int) (selected : List Int) : StatusDocument where
  command := migrationStatusCommand
  failure := false
  report :=
    { contractVersion := 2, currentVersion := 3, checkpointVersion := 3, totalMigrations := 4
      hasPendingChanges := true, pendingMigrations := some selected
      migrations := [1, 2, 3, 4].map fun v =>
        { version := v, checksum := "sum", checkpoint := v = 3
          state := if v ∈ applied then .applied else .pending } }

/-- The status a reading of `document` leaves on a new resource. -/
def sampleReading (document : StatusDocument) : Except String Status :=
  recordMigrationHistory (fun _ => "") {} document.report "sha256:t" 0

/-- A history where states and selection agree. -/
theorem sequence_of_agreeing_history : SelectionAgrees (sampleDocument [1, 2, 3] [4]).report :=
  (sequence_versions_eq_pending_iff (fun _ => "") (fun _ => 0) (sampleDocument [1, 2, 3] [4])
    (sampleDocument [1, 2, 3] [4]).report {} _ "sha256:t" 0 _ rfl rfl rfl rfl).1 rfl

/-- A database that was bootstrapped from the checkpoint 3: the versions 1 and 2 that the
checkpoint replaced are reported pending, and Ptah selects 4 alone. The report is accepted and
planned, and its plan carries 1 and 2 as well. -/
theorem sequence_ne_pending_after_checkpoint :
    decodeMigrationStatus (sampleDocument [3] [4]) = .ok (sampleDocument [3] [4]).report ∧
      (sampleReading (sampleDocument [3] [4])).toOption.map (·.phase) = some .planning ∧
      (sequence (fun _ => 0) (sampleDocument [3] [4]).report).toOption.map
        (·.map (·.version)) = some [1, 2, 4] ∧
      (sampleDocument [3] [4]).report.pending = [4] := by
  decide +kernel

end Ptah.MigrationPlan
