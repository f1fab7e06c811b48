import PtahOperator.DataPlane.MigrationStatus
import PtahOperator.Migration.Types

/-!
# Recording a reading of the history

`recordMigrationHistory` turns one status report into the phase of the resource. A record of a run
nobody accounted for (`status.unresolvedRun`) holds the resource, and one kind of reading lifts it.

- **`recordMigrationHistory_cases`** says all a reading can do: refuse, match or plan.
- **`Settles`** are the readings that lift a record.
-/

namespace Ptah.Migration

open DataPlane

/-- The longest list of versions `status.history` carries. -/
def maxHistoryVersions : Nat := 64

def boundedVersions (versions : List Int) (limit : Nat) : List Int := versions.take limit

def byCount (count : Nat) (one other : String) : String := if count = 1 then one else other

def migrationsPending (count : Nat) : String :=
  let are := byCount count "migration is" "migrations are"
  s!"{count} {are} pending"

def unresolvedRunReadyMessage : String :=
  "What the last run did is unknown until the database is read by a person"

def migrationUnresolvedRunSettledBy (unresolved : Option UnresolvedRun)
    (history : Option HistoryStatus) (pending : List Int) : Bool :=
  if pending ≠ [] then false
  else
    match unresolved with
    | none => true
    | some run =>
      run.targetIdentityDigest = "" ||
        history.any (·.targetIdentityDigest = run.targetIdentityDigest)

section Record

-- The digest of the canonical JSON of what `HistoryFingerprint` takes from a report.
variable (digestHistory : MigrationStatusReport → String)

/-- `migrationplan.HistoryFingerprint` -/
def historyFingerprint (report : MigrationStatusReport) : Except String String :=
  if report.contractVersion ≠ supportedMigrationStatusContract then
    .error s!"unsupported migration status contract version {report.contractVersion}"
  else .ok (digestHistory report)

/-- The `status.history` of a reading. -/
def readingOf (report : MigrationStatusReport) (fingerprint target : String) (now : Time) :
    HistoryStatus where
  observedAt := now
  contractVersion := report.contractVersion
  currentVersion := report.currentVersion
  checkpointVersion := report.checkpointVersion
  appliedCount := (report.versionsIn [.applied, .checkpointCovered]).length
  pendingCount := report.pending.length
  fingerprint := fingerprint
  targetIdentityDigest := target
  dirty := report.dirtyRevision.isSome
  modifiedVersions := boundedVersions report.modified maxHistoryVersions
  outOfOrderVersions := boundedVersions report.outOfOrder maxHistoryVersions

/-- The three conditions of a reading that refuses: `Blocked` with its own message, and the two
that follow from it. -/
def refuseReading (s : Status) (reason refusal ready progressing : String) : Status :=
  (({ s with phase := .blocked }.setCondition .blocked .isTrue reason refusal).setCondition
    .ready .isFalse reason ready).setCondition .progressing .isFalse reason progressing

/-- What the record says of the run a reading did not settle. -/
def unsettledMessage (unresolved : UnresolvedRun) (pending : List Int) : String :=
  if pending = [] then
    s!"Nothing is pending here, but this is a different database from the one the {unresolved.outcome.name} run addressed, so it does not say what that run did"
  else
    let may := byCount pending.length "it may not" "none may"
    s!"{migrationsPending pending.length} and the last run's outcome was {unresolved.outcome.name}, so {may} run again"

/-- The branch of a reading with nothing left to apply. -/
def matchReading (s : Status) (now : Time) : Status :=
  let s := { s with
    resolvedRun := match s.unresolvedRun with
      | some run => some
          { operationID := run.operationID, outcome := run.outcome
            resolution := .historyRead, resolvedAt := now }
      | none => s.resolvedRun
    unresolvedRun := none
    phase := .inSync }
  ((s.setCondition .blocked .isFalse "HistoryMatched"
      "The history continues this artifact").setCondition
    .ready .isTrue "HistoryMatched" "The database has every migration this artifact carries").setCondition
    .progressing .isFalse "HistoryMatched" "Nothing is pending"

/-- The branch of a reading that a plan follows. -/
def planReading (s : Status) (pending : List Int) : Status :=
  let migrations := byCount pending.length "migration" "migrations"
  (({ s with phase := .planning }.setCondition .blocked .isFalse "HistoryMatched"
      "The history continues this artifact").setCondition
    .ready .isFalse "MigrationsPending" (migrationsPending pending.length)).setCondition
    .progressing .isTrue "MigrationsPending"
    s!"A plan for {pending.length} pending {migrations} is being published"

def recordMigrationHistory (s : Status) (report : MigrationStatusReport) (target : String)
    (now : Time) : Except String Status :=
  match historyFingerprint digestHistory report with
  | .error e => .error e
  | .ok fingerprint =>
    let pending := report.pending
    let modified := report.modified
    let outOfOrder := report.outOfOrder
    let history := readingOf report fingerprint target now
    let s := { s with history := some history }
    match report.dirtyRevision with
    | some dirty => .ok <| refuseReading s "HistoryDirty"
        s!"Revision {dirty.version} is recorded dirty; a person has to decide what the interrupted run did"
        "The revision table holds a dirty row"
        "Nothing runs while a revision is recorded dirty"
    | none =>
      if modified ≠ [] then
        let refusal := byCount modified.length
          "applied migration no longer matches its file; restore the file"
          "applied migrations no longer match their files; restore the files"
        .ok <| refuseReading s "HistoryModified"
          s!"{modified.length} {refusal} the database recorded, or publish an artifact whose history matches it"
          "An applied migration was modified after it ran"
          "Nothing runs while an applied migration no longer matches its file"
      else if outOfOrder ≠ [] then
        let sorts := byCount outOfOrder.length "migration sorts" "migrations sort"
        let them := byCount outOfOrder.length "it" "them"
        .ok <| refuseReading s "HistoryOutOfOrder"
          (s!"{outOfOrder.length} {sorts} below applied version {report.currentVersion}; linear execution refuses " ++
            s!"{them}, so renumber {them} above that version or publish {them} to a database that has not passed " ++
            "that version")
          "A migration arrived below the version the database has applied"
          "Nothing runs while a migration sorts below the applied version"
      else
        match s.unresolvedRun.filter
            (fun run => !migrationUnresolvedRunSettledBy (some run) (some history) pending) with
        | some run => .ok <| refuseReading s "ApplyOutcomeUnknown" (unsettledMessage run pending)
            unresolvedRunReadyMessage
            "The dispatched run is over and may not be retried"
        | none =>
          if report.lastVersion < report.currentVersion then
            .ok <| refuseReading s "HistoryAhead"
              (s!"The database is at version {report.currentVersion} and this artifact ends at version " ++
                s!"{report.lastVersion}; publish an artifact that carries the versions the database already " ++
                "applied, because nothing here rolls it back")
              "The database records a migration this artifact does not carry"
              "Nothing runs while the database is ahead of the artifact"
          else if pending = [] then .ok (matchReading s now)
          else .ok (planReading s pending)

end Record

/-! ## What a reading can do -/

/-- The readings with nothing to refuse and nothing left to apply. -/
structure Matches (report : MigrationStatusReport) : Prop where
  clean : report.dirtyRevision = none
  unmodified : report.modified = []
  inOrder : report.outOfOrder = []
  notAhead : report.currentVersion ≤ report.lastVersion
  nothingPending : report.pending = []

/-- A reading of the database `target` that lifts the record of `run`. -/
structure Settles (report : MigrationStatusReport) (target : String) (run : UnresolvedRun) :
    Prop extends Matches report where
  sameDatabase : run.targetIdentityDigest ≠ "" → target = run.targetIdentityDigest

/-- The readings a plan follows. -/
structure Plans (report : MigrationStatusReport) : Prop where
  clean : report.dirtyRevision = none
  unmodified : report.modified = []
  inOrder : report.outOfOrder = []
  notAhead : report.currentVersion ≤ report.lastVersion
  somePending : report.pending ≠ []

/-- All a reading can do to a status: what it leaves alone, and its three outcomes. -/
inductive Recorded (report : MigrationStatusReport) (target : String) (s s' : Status) : Prop where
  /-- The reading refuses. -/
  | refused (hphase : s'.phase = .blocked) (hrun : s'.unresolvedRun = s.unresolvedRun)
      (hresolved : s'.resolvedRun = s.resolvedRun)
  /-- Nothing is left to apply, and a record that stood is lifted. -/
  | matched (hphase : s'.phase = .inSync) (hreport : Matches report)
      (hrun : s'.unresolvedRun = none)
      (hsettles : ∀ run, s.unresolvedRun = some run → Settles report target run ∧
        ∃ resolved, s'.resolvedRun = some resolved ∧ resolved.operationID = run.operationID ∧
          resolved.resolution = .historyRead)
      (hresolved : s.unresolvedRun = none → s'.resolvedRun = s.resolvedRun)
  /-- Something is left to apply, and no record stands. -/
  | planned (hphase : s'.phase = .planning) (hreport : Plans report)
      (hrun : s.unresolvedRun = none) (hrun' : s'.unresolvedRun = none)
      (hresolved : s'.resolvedRun = s.resolvedRun)

/-- What a reading leaves alone. -/
structure Unread (target : String) (s s' : Status) : Prop where
  activeOperation : s'.activeOperation = s.activeOperation
  pendingLockRelease : s'.pendingLockRelease = s.pendingLockRelease
  plan : s'.plan = s.plan
  history : ∃ h, s'.history = some h ∧ h.targetIdentityDigest = target

section Cases

variable {digestHistory : MigrationStatusReport → String} {s s' : Status}
  {report : MigrationStatusReport} {target : String} {now : Time}

theorem refuseReading_recorded (reason refusal ready progressing : String)
    (history : HistoryStatus) :
    Recorded report target s
      (refuseReading { s with history := some history } reason refusal ready progressing) :=
  .refused rfl rfl rfl

theorem matchReading_recorded (history : HistoryStatus) (hreport : Matches report)
    (hsettles : ∀ run, s.unresolvedRun = some run → Settles report target run) :
    Recorded report target s (matchReading { s with history := some history } now) := by
  refine .matched rfl hreport rfl (fun run hrun => ⟨hsettles run hrun, ?_⟩) (fun hrun => ?_)
  · simp [matchReading, hrun]
  · simp [matchReading, hrun]

/-- A record stands after a reading unless the reading settles it. -/
theorem settledBy_iff {run : UnresolvedRun} {history : HistoryStatus} {pending : List Int} :
    migrationUnresolvedRunSettledBy (some run) (some history) pending = true ↔
      pending = [] ∧ (run.targetIdentityDigest ≠ "" →
        history.targetIdentityDigest = run.targetIdentityDigest) := by
  by_cases hp : pending = []
  · by_cases ht : run.targetIdentityDigest = "" <;> simp [migrationUnresolvedRunSettledBy, hp, ht]
  · simp [migrationUnresolvedRunSettledBy, hp]

theorem recordMigrationHistory_cases
    (h : recordMigrationHistory digestHistory s report target now = .ok s') :
    Unread target s s' ∧ Recorded report target s s' := by
  unfold recordMigrationHistory at h
  cases hf : historyFingerprint digestHistory report with
  | error e => simp [hf] at h
  | ok fingerprint =>
    simp only [hf] at h
    cases hdirty : report.dirtyRevision with
    | some dirty =>
      simp only [hdirty, Except.ok.injEq] at h
      subst h
      exact ⟨⟨rfl, rfl, rfl, _, rfl, rfl⟩, refuseReading_recorded ..⟩
    | none =>
      simp only [hdirty] at h
      by_cases hmod : report.modified = []
      · by_cases hord : report.outOfOrder = []
        · simp only [hmod, hord, ne_eq, not_true_eq_false, if_false] at h
          split at h
          · cases h
            exact ⟨⟨rfl, rfl, rfl, _, rfl, rfl⟩, refuseReading_recorded ..⟩
          rename_i hsettled
          -- No record stands that this reading does not settle.
          have hrun : ∀ run, s.unresolvedRun = some run → report.pending = [] ∧
              (run.targetIdentityDigest ≠ "" → target = run.targetIdentityDigest) := by
            intro run hrun
            rw [hrun, Option.filter_some, ite_eq_right_iff] at hsettled
            by_contra hne
            have hnot : migrationUnresolvedRunSettledBy (some run)
                (some (readingOf report fingerprint target now)) report.pending = false :=
              Bool.eq_false_iff.2 fun hs => hne (settledBy_iff.1 hs)
            exact absurd (hsettled (by rw [hnot]; rfl)) (by simp)
          by_cases hahead : report.lastVersion < report.currentVersion
          · simp only [hahead, if_true, Except.ok.injEq] at h
            subst h
            exact ⟨⟨rfl, rfl, rfl, _, rfl, rfl⟩, refuseReading_recorded ..⟩
          simp only [hahead, if_false] at h
          have hle : report.currentVersion ≤ report.lastVersion := by omega
          by_cases hpend : report.pending = []
          · simp only [hpend, if_true, Except.ok.injEq] at h
            subst h
            exact ⟨⟨rfl, rfl, rfl, _, rfl, rfl⟩,
              matchReading_recorded _ ⟨hdirty, hmod, hord, hle, hpend⟩
                fun run hr => ⟨⟨hdirty, hmod, hord, hle, hpend⟩, (hrun run hr).2⟩⟩
          · simp only [hpend, if_false, Except.ok.injEq] at h
            subst h
            have hnone : s.unresolvedRun = none := by
              cases hr : s.unresolvedRun with
              | none => rfl
              | some run => exact absurd (hrun run hr).1 hpend
            exact ⟨⟨rfl, rfl, rfl, _, rfl, rfl⟩,
              .planned rfl ⟨hdirty, hmod, hord, hle, hpend⟩ hnone hnone rfl⟩
        · simp only [hmod, hord, ne_eq, not_true_eq_false, not_false_eq_true, if_false, if_true,
            Except.ok.injEq] at h
          subst h
          exact ⟨⟨rfl, rfl, rfl, _, rfl, rfl⟩, refuseReading_recorded ..⟩
      · simp only [hmod, ne_eq, not_false_eq_true, if_true, Except.ok.injEq] at h
        subst h
        exact ⟨⟨rfl, rfl, rfl, _, rfl, rfl⟩, refuseReading_recorded ..⟩

end Cases

end Ptah.Migration
