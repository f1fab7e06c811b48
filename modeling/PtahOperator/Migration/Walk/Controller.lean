import PtahOperator.Migration.Walk.Results

/-!
# A pass follows the system

The rules for the active claim and for the whole pass: `reconcile_spec` says that every call of
`reconcile` is a step of the system, whatever the answers are and wherever the pass stops.
-/

namespace Ptah.Migration

open Conc DataPlane Lifecycle

variable {md : Mode} {w w' : World} {m : PtahMigration} {op : Operation} {job : Job}

/-! ## The active claim -/

/-- What a pass knows of the active claim it goes on with. -/
structure Claimed (md : Mode) (w : World) (m : PtahMigration) (op : Operation) : Prop where
  holds : At md w m
  active : m.status.activeOperation = some op
  unrecorded : op.type = .apply → m.status.unresolvedRun = none
  owed : m.status.pendingLockRelease = none
  reading : w.reading = none

namespace Claimed

theorem still (h : Claimed md w m op) (hs : Still md w w') : Claimed md w' m op :=
  ⟨h.holds.still hs, h.active, h.unrecorded, h.owed, hs.2.trans h.reading⟩

theorem dispatched (h : Claimed md w m op) (ht : op.type = .apply) : Dispatched md w m op :=
  ⟨h.holds, h.active, ht, h.unrecorded ht⟩

theorem uncertain (h : Claimed md w m op) (hi : Reach md w) (ht : op.type = .apply)
    {job : Option Job} (hjob : ∀ j, job = some j → w.Found op.id op.jobName j) (failure : String) :
    Walks md (do let _ ← finishUncertainMigrationApply m op job failure "") w :=
  SafeProc.ends (finishUncertainMigrationApply_spec hi (h.dispatched ht) hjob failure "")

theorem retry (h : Claimed md w m op) (ht : op.type ≠ .apply) (job : Option Job)
    (failure reason : String) :
    Walks md (do let _ ← retryMigrationOperation m op job failure reason) w :=
  SafeProc.ends (retryMigrationOperation_spec h.holds h.active ht job failure reason)

end Claimed

/-- The Job of a claim is built again to be compared, and not created. -/
theorem rebuildJob_spec (op : Operation) : Quietly md (rebuildJob op) w := by
  refine (ask_free (.inputFingerprint op.type)).bind fun r _ _ _ _ => ?_
  cases r with
  | error e => exact .done
  | ok fingerprint =>
    simp only
    split
    · exact .done
    refine (migrationPlanForJob_spec op).attempt.bind fun r _ _ _ _ => ?_
    cases r with
    | error e => exact .done
    | ok plan =>
      refine (build_spec op plan).bind fun r _ _ _ _ => ?_
      cases r with
      | error e => exact .done
      | ok _ => exact .done

/-- A Job that a pass goes on with is the one that its claim describes. The claim of another one is ended. -/
theorem holdMigrationJobToItsClaim_spec (h : Claimed md w m op)
    (hjob : w.Found op.id op.jobName job) :
    Follows md (holdMigrationJobToItsClaim m op job) (fun r w' => r = true →
      Claimed md w' m op ∧ Owns w' op job) w := by
  have hsettle {w1 : World} (hi1 : Reach md w1) (h1 : Still md w w1) failure :
      Follows md (if op.type.mutating then do
          let _ ← finishUncertainMigrationApply m op (some job) failure ""
          pure false
        else do
          let _ ← retryMigrationOperation m op none failure
          pure false) (fun r w' => r = true → Claimed md w' m op ∧ Owns w' op job) w1 := by
    have hjob1 := h1.1.kept.found hjob
    split
    · rename_i ht
      refine .bind (finishUncertainMigrationApply_spec hi1
        ((h.still h1).dispatched (OperationType.mutating_iff.1 ht)) ?_ failure "")
        fun _ _ _ _ => .pure fun _ _ _ hr => by cases hr
      rintro j ⟨⟩
      exact hjob1
    · rename_i ht
      exact .bind (retryMigrationOperation_spec (h.holds.still h1) h.active
        (fun ha => ht (OperationType.mutating_iff.2 ha)) none failure _)
        fun _ _ _ _ => .pure fun _ _ _ hr => by cases hr
  refine (rebuildJob_spec op).follows fun r w1 hi1 h1 _ => ?_
  cases r with
  | error e => exact hsettle hi1 h1 _
  | ok _ =>
    refine matchJob_spec.follows fun r w2 hi2 h2 hmatch => ?_
    cases r with
    | error e => exact hsettle hi2 (h1.trans h2) _
    | ok _ =>
      obtain ⟨hid, howned, _⟩ := hmatch rfl
      refine .pure fun w3 _ h3 _ => ?_
      have hw3 := (h1.trans h2).trans h3
      exact ⟨h.still hw3, hw3.1.kept.found hjob, hid, howned⟩

section Supervise

variable {digestHistory : MigrationStatusReport → String}

/-- What becomes of a claim whose Job is over, by what could be read of the result. -/
theorem harvest_spec (hi : Reach md w) (h : Claimed md w m op)
    (hjob : w.Found op.id op.jobName job) (hterm : job.terminal = true)
    (huid : op.jobUID = job.uid) : Walks md (harvest digestHistory m op job) w := by
  refine .bind (readTerminalResult_spec hi hjob hterm) fun r w1 hi1 hr => ?_
  have hm1 := h.holds.drift hr.drift
  have hjob1 := (Drift.kept hr.drift).found hjob
  have hdisp ht : Dispatched md w1 m op :=
    ⟨hm1, h.active, OperationType.mutating_iff.1 ht, h.unrecorded (OperationType.mutating_iff.1 ht)⟩
  have hretry (ht : ¬ op.type.mutating = true) (failure reason) :
      Walks md (do let _ ← retryMigrationOperation m op (some job) failure reason) w1 :=
    SafeProc.ends (retryMigrationOperation_spec hm1 h.active
      (fun ha => ht (OperationType.mutating_iff.2 ha)) (some job) failure reason)
  have huncertain (ht : op.type.mutating = true) failure :
      Walks md (do let _ ← finishUncertainMigrationApply m op (some job) failure "") w1 := by
    refine .ends (finishUncertainMigrationApply_spec hi1 (hdisp ht) ?_ failure "")
    rintro j ⟨⟩
    exact hjob1
  have hsettle ht reported hquiet :
      Walks md (do let _ ← settleMigrationApply m op job reported) w1 :=
    SafeProc.ends (settleMigrationApply_spec hi1 (hdisp ht) hjob1 reported fun hmd =>
      ((hdisp ht).claimJobs hi1 hmd).retirable_of_found hjob1 (.inr huid) hquiet)
  -- A result that is read comes from a Job that is quiet, so it settles an Apply; anything else leaves the Apply
  -- uncertain.
  cases r with
  | later => exact .done
  | failed e => exact .throw
  | notItsClaim e =>
    by_cases ht : op.type.mutating = true
    · simp only [ht, if_true]
      exact huncertain ht _
    · simp only [ht]
      exact hretry ht _ _
  | unread e summary =>
    by_cases ht : op.type.mutating = true
    · simp only [ht, if_true]
      cases summary with
      | none => exact huncertain ht _
      | some reported => exact hsettle ht reported (hr.quiet ⟨reported, .inr ⟨e, rfl⟩⟩)
    · simp only [ht]
      exact hretry ht _ _
  | apply reported =>
    by_cases ht : op.type.mutating = true
    · simp only [ht, if_true]
      exact hsettle ht reported (hr.quiet ⟨reported, .inl rfl⟩)
    · simp only [ht]
      exact hretry ht _ _
  | read result =>
    by_cases ht : op.type.mutating = true
    · simp only [ht, if_true]
      exact huncertain ht _
    simp only [ht]
    refine consumeMigrationResult_spec hm1 h.active
      (fun ha => ht (OperationType.mutating_iff.2 ha)) h.owed job ?_
    rintro report target rfl
    exact hr.history report target rfl

/-- The inputs moved under a Job that is over: a reading is dropped, and nobody knows what an Apply did. -/
theorem inputsMoved_spec (hi : Reach md w) (h : Claimed md w m op)
    (hjob : w.Found op.id op.jobName job) (failure : String) :
    Walks md (superviseJob.inputsMoved m op job failure) w := by
  unfold superviseJob.inputsMoved
  by_cases ht : op.type.mutating = true
  · rw [if_pos ht]
    refine h.uncertain hi (OperationType.mutating_iff.1 ht) ?_ failure
    rintro j ⟨⟩
    exact hjob
  · rw [if_neg ht]
    refine (patchJob_spec job.name).follows fun _ w1 _ h1 _ => ?_
    exact .ends (discardMigrationOperation_spec (h.holds.still h1) h.active failure
      (fun ha => absurd (OperationType.mutating_iff.2 ha) ht)
      fun _ => h1.2.trans h.reading)

/-- A Job that runs is left alone, up to a condition on its Pod. -/
theorem superviseJob_spec (h : Claimed md w m op)
    (hjob : w.Found op.id op.jobName job) (huid : op.jobUID = job.uid) :
    Walks md (superviseJob digestHistory m op job) w := by
  unfold superviseJob
  by_cases hterm : job.terminal = true
  · simp only [hterm, Bool.not_true, Bool.false_eq_true, if_false]
    refine (ask_free (.inputFingerprint op.type)).follows fun r w1 hi1 h1 _ => ?_
    have hjob1 := h1.1.kept.found hjob
    cases r with
    | error e => exact inputsMoved_spec hi1 (h.still h1) hjob1 e
    | ok fingerprint =>
      simp only
      split
      · exact harvest_spec hi1 (h.still h1) hjob1 hterm huid
      · exact inputsMoved_spec hi1 (h.still h1) hjob1 _
  · simp only [hterm, Bool.not_false, if_true]
    refine (ask_free (.podAdmission job)).follows fun r w1 _ h1 _ => ?_
    cases r with
    | error e => exact .throw
    | ok verdict =>
      cases verdict with
      | none => exact .done
      | some verdict =>
        have hplain : Plain m.status m.status := ⟨⟨rfl, rfl, rfl, .inl rfl⟩, rfl, rfl⟩
        refine .ends (patchPlain_spec (h.holds.still h1) ?_)
        split
        · exact hplain.setCondition _ _ _ _
        · exact hplain.setCondition _ _ _ _

/-- The UID of a Job that is adopted is recorded before anything is read from it. -/
theorem superviseClaim_spec (h : Claimed md w m op) (hjob : w.Found op.id op.jobName job)
    {adopt : Bool} (hadopt : adopt = true → op.jobUID = "")
    (hsame : adopt = false → op.jobUID = job.uid) :
    Walks md (superviseClaim digestHistory m op job adopt) w := by
  refine .bind (holdMigrationJobToItsClaim_spec h hjob) fun r w1 _ hr => ?_
  cases r with
  | false => exact .done
  | true =>
    obtain ⟨h1, howns⟩ := hr rfl
    cases adopt with
    | false => exact superviseJob_spec h1 howns.found (hsame rfl)
    | true =>
      refine .bind (patchRecorded_spec h1.holds h1.active (hadopt rfl) howns _ fun ht => by
        simp [OperationType.mutating_iff.2 ht]) fun m2 w2 _ h2 => ?_
      -- The write changed the claim's Job UID and nothing else that the claim rests on.
      refine superviseJob_spec ⟨h2.holds, by rw [h2.status], fun ht => ?_, ?_, ?_⟩
        (h2.wrote.found howns.found) rfl
      · rw [h2.status]
        exact h1.unrecorded ht
      · rw [h2.status]
        exact h1.owed
      · exact h2.wrote.reading.trans h1.reading

/-- Each verdict on the Job of a claim is acted on by a step of the system. -/
theorem actOnVerdict_spec (hi : Reach md w) (h : Claimed md w m op) {found : Option Job}
    (hjob : ∀ j, found = some j → w.Found op.id op.jobName j) {verdict : JobVerdict}
    (hjudged : Judged (jobClaim op found) verdict) (cause : JobCause) :
    Walks md (actOnVerdict digestHistory m op found (verdict, cause)) w := by
  cases hjudged with
  | unaccounted ht =>
    exact h.uncertain hi (OperationType.mutating_iff.1 ht) hjob _
  | retry ht =>
    refine h.retry (fun ha => ?_) found _ _
    have hmut : op.type.mutating = true := OperationType.mutating_iff.2 ha
    rw [show op.type.mutating = false from ht] at hmut
    cases hmut
  | dispatch hfound _ =>
    cases found with
    | none => exact .done
    | some job => cases hfound
  | adopt _ hnone =>
    cases found with
    | none => exact .done
    | some job => exact superviseClaim_spec h (hjob job rfl) (fun _ => hnone) fun hf => by cases hf
  | supervise _ _ hsame =>
    cases found with
    | none => exact .done
    | some job => exact superviseClaim_spec h (hjob job rfl) (fun hf => by cases hf) fun _ => hsame

/-- A pass with an active claim. -/
theorem reconcileActiveMigration_spec (hi : Reach md w) (h : Claimed md w m op) :
    Walks md (reconcileActiveMigration digestHistory m op) w := by
  unfold reconcileActiveMigration
  split
  · rename_i hlost
    -- Only an Apply holds a Lease that it can lose.
    have ht : op.type = .apply := by
      by_contra hne
      obtain ⟨w0, hi0, hw0⟩ := h.holds.seen
      have hreads := hi0.claim.reads op (hw0 ▸ h.active) hne
      rw [hreads.2] at hlost
      cases hlost
    exact h.uncertain hi ht (fun j hj => by cases hj) _
  · refine (getJob_spec op.id op.jobName).follows fun job w1 hi1 h1 hread => ?_
    have hw1 := h.still h1
    split
    · rename_i hsuspend
      refine .ends (discardMigrationOperation_spec hw1.holds hw1.active _ (fun ha => ?_)
        fun _ => hw1.reading)
      simp [OperationType.mutating_iff.2 ha] at hsuspend
    -- The verdict is about the Job as it was read; the Lease is waited for afterwards.
    have hjudged := verdictFor_judged (jobClaim op job)
    dsimp only
    split
    · rename_i hdispatch
      rw [hdispatch] at hjudged
      cases hjudged with
      | dispatch hfound hnot =>
        exact dispatch_spec ⟨hw1.holds, hw1.active,
          fun ha => hnot (OperationType.mutating_iff.2 ha), hw1.unrecorded, hw1.reading⟩ hi1
    · split
      · refine .bind (waitForMigrationApplyLock_spec hw1.holds hw1.active)
          fun r w2 hi2 hr => ?_
        obtain ⟨held, m2⟩ := r
        obtain ⟨hm2, hspared, hsame⟩ := hr
        cases held with
        | false => exact .done
        | true =>
          cases hsame rfl
          rw [withOperation_eq hw1.active]
          exact actOnVerdict_spec hi2 ⟨hm2, hw1.active, hw1.unrecorded, hw1.owed,
            hspared.reading.trans hw1.reading⟩ (fun j hj => hspared.found (hread.1 j hj)) hjudged _
      · exact actOnVerdict_spec hi1 hw1 hread.1 hjudged _

end Supervise

/-! ## Claims a pass only ends -/

theorem removeMigrationFinalizer_spec (hm : At md w m) :
    Follows md (removeMigrationFinalizer m) (fun m' w' => At md w' m' ∧ Unlogged md w w' ∧
      m'.status = m.status ∧ m'.unresolvedRunCopy = m.unresolvedRunCopy) w := by
  unfold removeMigrationFinalizer
  split
  · exact .pure fun w' _ h' => ⟨hm.still h', h'.unlogged, rfl, rfl⟩
  split
  · exact .throw
  · exact .throw
  · exact patchFinalizer_spec hm false

/-- The claim of an Apply whose run is recorded as unresolved is retired once nothing can write any more. -/
theorem reconcileUnaccountedMigrationApply_spec (hi : Reach md w) (hm : At md w m)
    (hop : m.status.activeOperation = some op) (ht : op.type = .apply) :
    Walks md (reconcileUnaccountedMigrationApply m op) w := by
  refine (dispatchedApplyMayStillWrite_spec hi
    (fun hmd => hi.claimJobs hmd ((hm.held hmd).1 ▸ hop) ht) fun j hj => by cases hj).follows
    fun may w1 _ h1 hquiet => ?_
  have hm1 := hm.still h1
  cases may with
  | true =>
    exact .ends (tryMigrationApplyLock_spec hm1 hop)
  | false =>
    refine .ends (retireSteady_spec hm1 (.unaccounted false) hop ⟨rfl, rfl, rfl, .inl rfl⟩
      rfl (fun _ hmd _ => hquiet hmd rfl) fun w2 _ hstatus => .of_type (hstatus ▸ hop) ?_)
    rw [ht]
    decide

/-- The Job under the claim's name, if it was made for the claim. -/
theorem dispatchedMigrationApplyJob_spec (op : Operation) :
    Silently md (dispatchedMigrationApplyJob op)
      (fun job w' => ∀ j, job = some j → w'.Found op.id op.jobName j) w := by
  refine (getJob_spec op.id op.jobName).bind fun job w1 _ _ hread => ?_
  refine .pure fun w2 _ h2 j hj => h2.1.kept.found (hread.1 j ?_)
  exact (Option.filter_eq_some_iff.1 hj).1

/-- A deletion waits for an Apply that may still write, and records one that was dispatched. -/
theorem reconcileMigrationDeletion_spec (hm : At md w m)
    (hclaimed : ∀ op, m.status.activeOperation = some op → Claimed md w m op) :
    Walks md (reconcileMigrationDeletion m) w := by
  have hdiscard {op : Operation} {w1 : World} (h : Claimed md w1 m op)
      (hquiet : op.type = .apply → md.restores = false → w1.Retirable op) : Walks md (do
        let m ← retireMigrationClaim m op m.status .discard false
        let _ ← removeMigrationFinalizer m) w1 := by
    refine .bind (retireSteady_spec h.holds .discard h.active ⟨rfl, rfl, rfl, .inl rfl⟩ rfl
      (fun ht hmd _ => hquiet ht hmd) fun w2 hread _ => .of_unread (hread.trans h.reading))
      fun m2 w2 _ _ => ?_
    refine .bind (Q := fun _ _ => True) ?_ fun _ _ _ _ => .done
    unfold removeMigrationFinalizer
    split
    · exact .done
    split
    · exact .throw
    · exact .throw
    · exact patchFinalizer_free _ _
  unfold reconcileMigrationDeletion
  cases hop : m.status.activeOperation with
  | none =>
    exact .ends (removeMigrationFinalizer_spec hm)
  | some op =>
    have h := hclaimed op hop
    by_cases ht : op.type.mutating = true
    · simp only [ht, Bool.not_true, Bool.false_eq_true, if_false]
      have ha := OperationType.mutating_iff.1 ht
      refine (dispatchedMigrationApplyJob_spec op).follows fun job w1 hi1 h1 hjob => ?_
      have hw1 := h.still h1
      refine (dispatchedApplyMayStillWrite_spec hi1
        ((hw1.dispatched ha).claimJobs hi1) hjob).follows
        fun may w2 hi2 h2 hquiet => ?_
      have hw2 := hw1.still h2
      cases may with
      | true =>
        exact .ends (tryMigrationApplyLock_spec hw2.holds hw2.active)
      | false =>
        simp only [Bool.false_eq_true, if_false]
        split
        · exact .ends (retireUncertainMigrationApply_spec hi2 (hw2.dispatched ha)
            (fun j hj => h2.1.kept.found (hjob j hj)) _ _ fun hmd _ => hquiet hmd rfl)
        · exact hdiscard hw2 fun _ hmd => hquiet hmd rfl
    · simp only [ht, Bool.not_false, if_true]
      exact hdiscard h fun ha => absurd (OperationType.mutating_iff.2 ha) ht

/-! ## The execution binding -/

/-- A status of another contract stops the pass before it writes. -/
theorem rejectUnsupportedStoredControllerState_spec (m : PtahMigration) :
    Quietly md (rejectUnsupportedStoredControllerState m) w := by
  unfold rejectUnsupportedStoredControllerState
  cases m.status.executionBinding with
  | none => exact .done
  | some binding =>
    refine (ask_free .configuredBinding).bind fun configured _ _ _ _ => ?_
    split
    · exact .throw
    split
    · exact .throw
    · exact .done

/-- A change of the execution binding leaves a dispatched Apply uncertain. -/
theorem applyUncertainUnderBindingChange_spec (hi : Reach md w) (h : Claimed md w m op)
    (ht : op.type = .apply) : Walks md (applyUncertainUnderBindingChange m op) w := by
  unfold applyUncertainUnderBindingChange
  split
  · exact h.uncertain hi ht (fun j hj => by cases hj) _
  refine (getJob_spec op.id op.jobName).follows fun job w1 hi1 h1 hread => ?_
  refine (h.still h1).uncertain hi1 ht (fun j hj => hread.1 j ?_) _
  exact (Option.filter_eq_some_iff.1 hj).1

theorem reboundStatus_plain (s : Status) (binding : ExecutionBinding) :
    Plain s (reboundStatus s binding) := by
  unfold reboundStatus
  split
  · exact ⟨⟨rfl, rfl, rfl, .inl rfl⟩, rfl, rfl⟩
  · exact ⟨⟨rfl, rfl, rfl, .inl rfl⟩, rfl, rfl⟩

/-- A pass goes on only under the binding that it is configured with. -/
theorem reconcileMigrationExecutionBinding_spec (hm : At md w m)
    (hclaimed : ∀ op, m.status.activeOperation = some op → Claimed md w m op) :
    Follows md (reconcileMigrationExecutionBinding m) (fun r w' => r = false → Still md w w') w := by
  refine (ask_free .configuredBinding).follows fun configured w1 _ h1 _ => ?_
  split
  · exact .pure fun w2 _ h2 _ => h1.trans h2
  refine (ask_free .bindingEpoch).follows fun epoch w2 hi2 h2 _ => ?_
  have hw2 := h1.trans h2
  have hplain := reboundStatus_plain m.status { configured with epoch := epoch }
  cases hop : m.status.activeOperation with
  | none =>
    exact .bind (patchPlain_spec (hm.still hw2) hplain)
      fun _ _ _ _ => .pure fun _ _ _ hr => by cases hr
  | some op =>
    have h := (hclaimed op hop).still hw2
    simp only
    split
    · rename_i hsent
      rw [Bool.and_eq_true] at hsent
      exact .bind (applyUncertainUnderBindingChange_spec hi2 h
        (OperationType.mutating_iff.1 hsent.1))
        fun _ _ _ _ => .pure fun _ _ _ hr => by cases hr
    · rename_i hsent
      refine .bind (retireSteady_spec h.holds .discard h.active
        ⟨hplain.unresolvedRun, hplain.resolvedRun, hplain.history,
          .inr (show Phase.pending.calm by decide)⟩ hplain.pendingLockRelease
        (fun ht hmd _ => ?_) fun w3 hread _ => .of_unread (hread.trans h.reading))
        fun _ _ _ _ => .pure fun _ _ _ hr => by cases hr
      -- An Apply that was not dispatched has no Job that could write.
      refine hi2.retirable_of_undispatched hmd ((h.holds.held hmd).1 ▸ h.active) ht ?_
      simpa [OperationType.mutating_iff.2 ht] using hsent

/-! ## A resource without a claim -/

/-- The phase picks the next operation. -/
theorem reconcilePhase_spec (hm : At md w m) (hidle : Idle m) : Walks md (reconcilePhase m) w := by
  refine now_spec.follows fun instant w1 _ h1 _ => ?_
  have hm1 := hm.still h1
  have hclaim {type : OperationType} ht : Walks md (do let _ ← claimMigration m type) w1 :=
    SafeProc.ends (claimMigration_spec hm1 hidle ht)
  have hdecide : Walks md (do let _ ← reconcileMigrationApplyDecision m) w1 :=
    SafeProc.ends (reconcileMigrationApplyDecision_spec hm1 hidle)
  have hwhen {c : Prop} [Decidable c] :
      Walks md (if c then (do let _ ← claimMigration m .resolve) else pure ()) w1 := by
    split
    · exact hclaim (by decide)
    · exact .done
  have hor {c : Prop} [Decidable c] : Walks md (if c then (do let _ ← claimMigration m .resolve)
        else (do let _ ← reconcileMigrationApplyDecision m)) w1 := by
    split
    · exact hclaim (by decide)
    · exact hdecide
  cases m.status.phase with
  | verifying => exact hclaim (by decide)
  | reading => exact hclaim (by decide)
  | verifyingHistory => exact hclaim (by decide)
  | awaitingApproval => exact hor
  | planning => exact hor
  | inSync => exact hwhen
  | blocked => exact hwhen
  | failed => exact hwhen
  | _ => exact hclaim (by decide)

theorem migrationRealmBlocked_spec (hm : At md w m) (reason message approval : String) :
    Walks md (migrationRealmBlocked m reason message approval) w := by
  refine (ask_free .deadline).follows fun next w1 _ h1 _ => ?_
  exact .forget (patchPlain_spec (hm.still h1)
    ⟨⟨rfl, rfl, rfl, .inr (show Phase.blocked.calm by decide)⟩, rfl, rfl⟩)

/-- A pass without a claim, from the engine to the requested reading. -/
theorem reconcileIdle_spec (hm : At md w m) (hidle : Idle m) : Walks md (reconcileIdle m) w := by
  have hresolve {w1 : World} h1 : Walks md (do let _ ← claimMigration m .resolve) w1 :=
    SafeProc.ends (claimMigration_spec (hm.still h1) hidle (by decide))
  refine (ask_free .engineSupported).follows fun supported w1 _ h1 _ => ?_
  split
  · exact .ends (migrationBlocked_spec (hm.still h1) _ _)
  split
  · exact .ends (patchPlain_spec (hm.still h1)
      ⟨⟨rfl, rfl, rfl, .inr (show Phase.suspended.calm by decide)⟩, rfl, rfl⟩)
  refine (ask_free .realmRefusal).follows fun r w2 _ h2 _ => ?_
  have hw2 := h1.trans h2
  cases r with
  | error e => exact .throw
  | ok refusal =>
    cases refusal with
    | some refusal =>
      obtain ⟨reason, message, approval⟩ := refusal
      exact .ends (migrationRealmBlocked_spec (hm.still hw2) reason message approval)
    | none =>
      simp only
      split
      · exact hresolve hw2
      refine (ask_free .sourceMoved).follows fun r w3 _ h3 _ => ?_
      have hw3 := hw2.trans h3
      cases r with
      | error e => exact .throw
      | ok moved =>
        cases moved with
        | true => exact hresolve hw3
        | false =>
          refine (ask_free .readRequest).follows fun r w4 _ h4 _ => ?_
          have hm4 := hm.still (hw3.trans h4)
          cases r with
          | none => exact reconcilePhase_spec hm4 hidle
          | some request =>
            obtain ⟨token, scheduled⟩ := request
            exact .ends (answerMigrationReadRequest_spec hm4 token scheduled)

theorem reconcileUnclaimed_spec (hm : At md w m) (hidle : Idle m) :
    Walks md (reconcileUnclaimed m) w := by
  exact .bind (reconcileRunAcknowledgments_spec hm hidle)
    fun m1 w1 _ h1 => reconcileIdle_spec h1.1 h1.2

/-! ## The pass -/

/-- A resource read again after a write that kept its status has no claim either. -/
theorem Idle.reloaded {m' : PtahMigration} (hidle : Idle m) (hm : Holds md w m)
    (hw : w.migration = m') : Idle m' := by
  subst hw
  rcases hm.status with hs | hs
  · refine ⟨by rw [hs]; exact hidle.active, fun hb => ?_⟩
    rw [hs] at hb
    rw [CopySettled, hm.copy, hs]
    exact hidle.settled hb
  · refine ⟨by rw [hs], fun hb => ?_⟩
    rw [hs] at hb
    exact absurd rfl hb

/-- A pass over a resource that is not deleted: the copy, the binding, the claim. -/
theorem reconcileLive_spec {digestHistory : MigrationStatusReport → String} (hm : At md w m)
    (hread : w.reading = none) (howed : m.status.pendingLockRelease = none)
    (hnone : ∀ op, m.status.activeOperation = some op → op.type = .apply →
      m.status.unresolvedRun = none) : Walks md (reconcileLive digestHistory m) w := by
  refine .bind (reconcileUnresolvedRunCopy_spec hm) fun r w1 _ hr => ?_
  obtain ⟨handled, m1⟩ := r
  cases handled with
  | true => exact .done
  | false =>
    obtain ⟨hm1, hul, hstatus, hset⟩ := hr rfl
    have hclaimed op (hop : m1.status.activeOperation = some op) :
        Claimed md w1 m1 op := by
      rw [hstatus] at hop
      exact ⟨hm1, hstatus ▸ hop, (hstatus ▸ hnone op hop), hstatus ▸ howed, hul.reading.trans hread⟩
    refine .bind (reconcileMigrationExecutionBinding_spec hm1 hclaimed)
      fun r w2 hi2 h2 => ?_
    cases r with
    | true => exact .done
    | false =>
      have hst := h2 rfl
      have hm2 := hm1.still hst
      simp only [Bool.false_eq_true, if_false]
      cases hop : m1.status.activeOperation with
      | some op => exact reconcileActiveMigration_spec hi2 ((hclaimed op hop).still hst)
      | none =>
        have hidle : Idle m1 := ⟨hop, fun _ => hset (hstatus ▸ hop)⟩
        simp only
        split
        · refine .bind (removeMigrationFinalizer_spec hm2) fun m3 w3 _ h3 => ?_
          obtain ⟨hm3, -, hs3, hc3⟩ := h3
          have hidle3 : Idle m3 := by
            refine ⟨by rw [hs3]; exact hop, fun hb => ?_⟩
            rw [CopySettled, hc3, hs3]
            exact hidle.settled (hs3 ▸ hb)
          refine getMigration_spec.follows fun r w4 _ h4 hread4 => ?_
          cases r with
          | none => exact .done
          | some m5 =>
            -- The resource is read again without its finalizer; another actor may have dropped its status.
            have hholds := (hread4 m5 rfl).holds
            obtain ⟨w0, _, h0, hw0, _⟩ := hread4 m5 rfl
            have hidle5 : Idle m5 := hidle3.reloaded (hm3.still h0).toHolds hw0
            refine (rejectUnsupportedStoredControllerState_spec m5).follows fun _ w5 _ h5 _ => ?_
            exact reconcileUnclaimed_spec (At.still ⟨hholds, (hm3.still h4).gate⟩ h5) hidle5
        · exact reconcileUnclaimed_spec hm2 hidle

/-- **A pass follows the system**, from any state in which its gate is open and nothing is read. -/
theorem reconcile_spec {digestHistory : MigrationStatusReport → String} (hgate : Gate md w)
    (hread : w.reading = none) : Walks md (reconcile digestHistory) w := by
  refine getMigration_spec.follows fun r w1 _ h1 hread1 => ?_
  cases r with
  | none => exact .done
  | some m =>
    have hm : At md w1 m := ⟨(hread1 m rfl).holds,
      Drift.keep (fun _ _ hs hg => hs.gate hg) h1.1 hgate⟩
    refine (rejectUnsupportedStoredControllerState_spec m).follows fun _ w2 hi2 h2 _ => ?_
    have hm2 := hm.still h2
    have hread2 : w2.reading = none := h2.2.trans (h1.2.trans hread)
    cases howed : m.status.pendingLockRelease with
    | some owed =>
      exact .ends (completeMigrationPendingLockRelease_spec hm2 howed)
    | none =>
      cases hclaim : unaccountedClaim m.status with
      | some op =>
        obtain ⟨hop, hmine⟩ := Option.filter_eq_some_iff.1 hclaim
        rw [Bool.and_eq_true] at hmine
        exact reconcileUnaccountedMigrationApply_spec hi2 hm2 hop
          (OperationType.mutating_iff.1 hmine.1)
      | none =>
        -- The record under the claim of an Apply is its own, so here there is none.
        have hnone op (hop : m.status.activeOperation = some op)
            (ht : op.type = .apply) : m.status.unresolvedRun = none := by
          cases hu : m.status.unresolvedRun with
          | none => rfl
          | some run =>
            obtain ⟨w0, hi0, rfl⟩ := hm.seen
            have hid := hi0.latch.own op run hop ht (hi0.latch.copied run hu)
            simp [unaccountedClaim, hop, hu, ht, hid] at hclaim
        simp only
        split
        · exact reconcileMigrationDeletion_spec hm2 fun op hop =>
            ⟨hm2, hop, hnone op hop, howed, hread2⟩
        · exact reconcileLive_spec hm2 hread2 howed hnone

end Ptah.Migration
