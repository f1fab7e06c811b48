import PtahOperator.Migration.Walk.Writes

/-!
# The kinds of status writes

Each write of a pass is one of a few: it touches no claim and no record (`Plain`), takes a claim,
tends one, or retires one (`retiredStatus`). For each kind this module says what the write has to
be shown to be, and gives the rule for it.
-/

namespace Ptah.Migration

open Conc Lifecycle

variable {md : Mode} {w w' : World} {m : PtahMigration} {s s₀ : Status} {op : Operation}

@[simp] theorem OperationType.mutating_iff {t : OperationType} : t.mutating = true ↔ t = .apply := by
  cases t <;> simp [OperationType.mutating]

@[simp] theorem OperationType.holdsLock_iff {t : OperationType} :
    t.holdsLock = true ↔ t = .apply := by
  cases t <;> simp [OperationType.holdsLock]

/-! ## Writes that keep the records -/

/-- A phase that does not go on without the record. -/
def Phase.calm (phase : Phase) : Prop := phase ≠ .planning ∧ phase ≠ .inSync

instance (phase : Phase) : Decidable phase.calm := by
  unfold Phase.calm
  infer_instance

/-- A write that keeps what is recorded of runs and of the database. -/
structure Steady (s₀ s : Status) : Prop where
  unresolvedRun : s.unresolvedRun = s₀.unresolvedRun
  resolvedRun : s.resolvedRun = s₀.resolvedRun
  history : s.history = s₀.history
  phase : s.phase = s₀.phase ∨ s.phase.calm

/-- A write that keeps the claim and the owed release, too. -/
structure Plain (s₀ s : Status) : Prop extends Steady s₀ s where
  activeOperation : s.activeOperation = s₀.activeOperation
  pendingLockRelease : s.pendingLockRelease = s₀.pendingLockRelease

namespace Steady

theorem latch (h : Steady w.migration.status s) : LatchStep w s := .keep h.unresolvedRun h.resolvedRun

theorem identified (h : Steady s0 s) : s0.Identified → s.Identified := by
  unfold Status.Identified
  rw [h.history]
  exact id

theorem calm (h : Steady s0 s) (hu : s.unresolvedRun.isSome = true) :
    (s.phase ≠ .planning ∧ s.phase ≠ .inSync) ∨
      (s0.unresolvedRun.isSome = true ∧ s.phase = s0.phase) := by
  rcases h.phase with hp | hp
  · exact .inr ⟨h.unresolvedRun ▸ hu, hp⟩
  · exact .inl hp

theorem recordOK (h : Steady m.status s) : RecordOK m s :=
  fun _ hrun => .inl (h.unresolvedRun ▸ hrun)

/-- The step of a write that keeps the records and does not end a History claim. -/
theorem step (h : Steady w.migration.status s) (hgate : Gate md w)
    (hclaim : ClaimStep md.restores w s) (howed : OwedStep w s) (hreading : ReadingRefused w s) :
    StatusStep md w s :=
  ⟨h.latch, hclaim, howed, h.identified, h.calm, hreading, hgate⟩

end Steady

theorem ReadingRefused.of_some (h : s.activeOperation ≠ none) : ReadingRefused w s :=
  fun _ _ _ _ _ _ hnone => absurd hnone h

theorem ReadingRefused.of_type (hop : w.migration.status.activeOperation = some op)
    (htype : op.type ≠ .history) : ReadingRefused w s := by
  intro op' _ _ _ hop' ht
  cases hop.symm.trans hop'
  exact absurd ht htype

theorem ReadingRefused.of_none (h : w.migration.status.activeOperation = none) :
    ReadingRefused w s := by
  intro op' _ _ _ hop'
  rw [h] at hop'
  cases hop'

theorem ReadingRefused.of_failed (h : Steady w.migration.status s) (hphase : s.phase = .failed) :
    ReadingRefused w s :=
  fun _ _ _ _ _ _ _ _ hrun _ => ⟨h.unresolvedRun.trans hrun, .inr ⟨hphase, h.history⟩⟩

theorem ReadingRefused.of_unread (h : w.reading = none) : ReadingRefused w s := by
  intro _ _ _ _ _ _ _ hread
  rw [h] at hread
  cases hread

theorem Plain.step (h : Plain w.migration.status s) (hgate : Gate md w) : StatusStep md w s := by
  refine h.toSteady.step hgate (.keep h.activeOperation) (.keep h.pendingLockRelease) ?_
  intro op' _ _ _ hop' _ hnone
  rw [h.activeOperation, hop'] at hnone
  cases hnone

theorem patchPlain_spec (hm : At md w m) (h : Plain m.status s) :
    Follows md (patchMigrationStatus m s) (Patched md w m s) w :=
  patchMigrationStatus_spec hm h.recordOK fun _ _ _ hstatus _ hgate =>
    Plain.step (hstatus ▸ h) hgate

/-! ## Writes that tend a claim -/

theorem patchTend_spec (hm : At md w m) (h : Steady m.status s) {op' : Operation}
    (hop : m.status.activeOperation = some op) (hop' : s.activeOperation = some op')
    (howed : s.pendingLockRelease = m.status.pendingLockRelease) (hid : op'.id = op.id)
    (htype : op'.type = op.type)
    (happly : op.type = .apply → ∀ w1, Reach md w1 → Unlogged md w w1 →
      w1.migration.status = m.status → ApplyTended md.restores w1 op op')
    (hread : op.type ≠ .apply → op.Reads → op'.Reads) :
    Follows md (patchMigrationStatus m s) (Patched md w m s) w := by
  refine patchMigrationStatus_spec hm h.recordOK fun w1 hi1 hul hstatus _ hgate => ?_
  have hclaim : ClaimStep md.restores w1 s :=
    .tend op op' (hstatus ▸ hop) hop' hid htype (fun ht => happly ht w1 hi1 hul hstatus) hread
  exact Steady.step (hstatus ▸ h) hgate hclaim (.keep (hstatus ▸ howed)) (.of_some (by simp [hop']))

/-! ## Retirements -/

section Retired

variable (op : Operation) (s : Status) (disposition : Disposition) (mayStillWrite : Bool)

theorem stageMigrationLockRelease_eq :
    ∃ owed, stageMigrationLockRelease s op = { s with pendingLockRelease := owed } := by
  unfold stageMigrationLockRelease
  repeat' split
  all_goals exact ⟨_, rfl⟩

theorem retiredStatus_eq : ∃ owed, retiredStatus op s disposition mayStillWrite = { s with
    activeOperation := if disposition = .unaccounted && mayStillWrite then some op else none
    pendingLockRelease := owed } := by
  simp only [retiredStatus]
  split
  · obtain ⟨owed, h⟩ := stageMigrationLockRelease_eq op s
    exact ⟨owed, by rw [h]⟩
  · exact ⟨_, rfl⟩

@[simp] theorem retiredStatus_unresolvedRun :
    (retiredStatus op s disposition mayStillWrite).unresolvedRun = s.unresolvedRun := by
  obtain ⟨_, h⟩ := retiredStatus_eq op s disposition mayStillWrite
  rw [h]

@[simp] theorem retiredStatus_resolvedRun :
    (retiredStatus op s disposition mayStillWrite).resolvedRun = s.resolvedRun := by
  obtain ⟨_, h⟩ := retiredStatus_eq op s disposition mayStillWrite
  rw [h]

@[simp] theorem retiredStatus_history :
    (retiredStatus op s disposition mayStillWrite).history = s.history := by
  obtain ⟨_, h⟩ := retiredStatus_eq op s disposition mayStillWrite
  rw [h]

@[simp] theorem retiredStatus_phase :
    (retiredStatus op s disposition mayStillWrite).phase = s.phase := by
  obtain ⟨_, h⟩ := retiredStatus_eq op s disposition mayStillWrite
  rw [h]

theorem retiredStatus_activeOperation :
    (retiredStatus op s disposition mayStillWrite).activeOperation =
      if disposition = .unaccounted && mayStillWrite then some op else none := rfl

end Retired

theorem Steady.retired (h : Steady s0 s) (op : Operation) (disposition : Disposition)
    (mayStillWrite : Bool) : Steady s0 (retiredStatus op s disposition mayStillWrite) := by
  refine ⟨?_, ?_, ?_, ?_⟩
  · rw [retiredStatus_unresolvedRun, h.unresolvedRun]
  · rw [retiredStatus_resolvedRun, h.resolvedRun]
  · rw [retiredStatus_history, h.history]
  · rw [retiredStatus_phase]
    exact h.phase

/-- How a retirement ends: the dispositions the controller uses, and whether the claim stays. -/
inductive Ending : Disposition → Bool → Prop where
  | accounted : Ending .accounted false
  | discard : Ending .discard false
  | unaccounted (mayStillWrite : Bool) : Ending .unaccounted mayStillWrite

section Retired

variable {disposition : Disposition} {mayStillWrite : Bool}

/-- A retirement releases what an Apply holds, unless its claim stays. -/
theorem releases_iff (he : Ending disposition mayStillWrite) :
    Retirement.releases { claim := migrationRealmClaim op, disposition, mayStillWrite } = .claim ↔
      op.type = .apply ∧ op.leaseEpoch ≠ "" ∧
        ¬ (disposition = .unaccounted ∧ mayStillWrite = true) := by
  by_cases ht : op.type = .apply <;> by_cases hl : op.leaseEpoch = "" <;> cases he <;>
    simp_all [Retirement.releases, realmHeldBy, migrationRealmClaim, OperationType.mutating]

theorem owedRelease_epoch {owed : LockRelease} (h : owedRelease op = .ok owed) :
    op.leaseEpoch ≠ "" := by
  unfold owedRelease at h
  split at h
  · cases h
  · rename_i hnot
    exact fun he => hnot (.inr (.inr (.inl he)))

/-- What a retirement does to the owed release. -/
theorem retiredStatus_owed (op : Operation) (s : Status) (he : Ending disposition mayStillWrite) :
    (retiredStatus op s disposition mayStillWrite).pendingLockRelease = s.pendingLockRelease ∨
      ∃ owed, op.type = .apply ∧ owedRelease op = .ok owed ∧ s.pendingLockRelease = none ∧
        (retiredStatus op s disposition mayStillWrite).pendingLockRelease = some owed ∧
        (retiredStatus op s disposition mayStillWrite).activeOperation = none := by
  by_cases hr : Retirement.releases
      { claim := migrationRealmClaim op, disposition, mayStillWrite } = .claim
  · obtain ⟨ht, hl, hgone⟩ := (releases_iff he).1 hr
    simp only [retiredStatus, hr, if_true, stageMigrationLockRelease, hl, if_false]
    cases howed : owedRelease op with
    | error e => exact .inl rfl
    | ok owed =>
      cases hp : s.pendingLockRelease with
      | some other => exact .inl (by simp [hp])
      | none => exact .inr ⟨owed, ht, rfl, rfl, by simp, by simpa using hgone⟩
  · simp only [retiredStatus, hr, if_false]
    exact .inl trivial

theorem retiredStatus_staged (he : Ending disposition mayStillWrite) (ht : op.type = .apply)
    (hgone : (retiredStatus op s disposition mayStillWrite).activeOperation = none)
    {owed : LockRelease} (howed : owedRelease op = .ok owed) (hnone : s.pendingLockRelease = none) :
    (retiredStatus op s disposition mayStillWrite).pendingLockRelease = some owed := by
  have hl := owedRelease_epoch howed
  have hr : Retirement.releases { claim := migrationRealmClaim op, disposition, mayStillWrite } =
      .claim := by
    refine (releases_iff he).2 ⟨ht, hl, ?_⟩
    rw [retiredStatus_activeOperation] at hgone
    simpa using hgone
  simp only [retiredStatus, hr, if_true, stageMigrationLockRelease, hl, if_false, howed, hnone,
    Option.isSome_none, Bool.false_eq_true]

/-- What a retirement of `op` does to the claim and the owed release. -/
theorem retired_steps (md : Mode) (he : Ending disposition mayStillWrite)
    (hop : w.migration.status.activeOperation = some op)
    (howed : s.pendingLockRelease = w.migration.status.pendingLockRelease)
    (hquiet : op.type = .apply → md.restores = false →
      ¬ (disposition = .unaccounted ∧ mayStillWrite = true) → w.Retirable op) :
    ClaimStep md.restores w (retiredStatus op s disposition mayStillWrite) ∧
      OwedStep w (retiredStatus op s disposition mayStillWrite) := by
  constructor
  · by_cases hstay : disposition = .unaccounted ∧ mayStillWrite = true
    · refine .keep ?_
      rw [retiredStatus_activeOperation, hop, if_pos (by simpa using hstay)]
    have hnone : (retiredStatus op s disposition mayStillWrite).activeOperation = none := by
      rw [retiredStatus_activeOperation, if_neg (by simpa using hstay)]
    refine .retire op hop hnone fun ht => ⟨fun hmd => hquiet ht hmd hstay, ?_⟩
    exact fun owed ho hp => retiredStatus_staged he ht hnone ho (howed.trans hp)
  · rcases retiredStatus_owed op s he with h | ⟨owed, ht, ho, hp, hsome, hnone⟩
    · exact .keep (h.trans howed)
    · exact .stage op owed hop ht ho (howed ▸ hp) hsome hnone

end Retired

end Ptah.Migration
