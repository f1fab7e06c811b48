import PtahOperator.Migration.Walk.Retire

/-!
# Claims follow the system

The rules for the start of a pass (the copy, the acknowledgments), for the writes that take a claim
or give it another attempt, and for approvals. A claim is taken by a resource whose copy and record
agree (`Idle`), with a fresh ID, and for an Apply under an approval that was not spent
(`findMigrationApproval_spec`).
-/

namespace Ptah.Migration

open Conc Lifecycle

variable {md : Mode} {w w' : World} {m : PtahMigration} {op : Operation}

/-! ## The start of a pass -/

theorem patchFinalizer_free (resourceVersion : Nat) (present : Bool) :
    Walks md (patchFinalizer resourceVersion present) w := by
  refine .sendOk _ fun w1 a w2 hi h1 hs => ?_
  rcases hs with ⟨rfl, e, rfl⟩ | ⟨hv, rfl, hok⟩
  · exact ⟨hi, fun _ _ _ _ _ => trivial⟩
  · exact ⟨hi.step (.finalizer present), fun _ _ _ _ _ => trivial⟩

/-- A refusal of the configuration changes the phase and the conditions only. -/
theorem migrationBlocked_spec (hm : At md w m) (reason message : String) :
    Walks md (migrationBlocked m reason message) w := by
  refine .forget (patchPlain_spec hm ?_)
  split <;> exact ⟨⟨rfl, rfl, rfl, .inr (show Phase.blocked.calm by decide)⟩, rfl, rfl⟩

/-- The record is put back from its copy, after the status was dropped. -/
theorem patchRestored_spec (hm : At md w m) {stored : UnresolvedRun}
    (hnone : m.status.unresolvedRun = none) (hcopy : m.unresolvedRunCopy = some (.record stored))
    (hok : stored.Decodes) (hresolved : m.status.resolvedIs stored.operationID = false)
    (hactive : m.status.activeIs stored.operationID = false) :
    Walks md (patchMigrationStatus m (restoredStatus m.status stored)) w := by
  have hrec : (restoredStatus m.status stored).unresolvedRun = some stored := rfl
  refine .forget (patchMigrationStatus_spec hm (fun run hrun => ?_)
    fun w1 _ _ hstatus hcp hgate => ?_)
  · cases hrun
    exact .inr ⟨hnone, hok, .inl hcopy⟩
  refine ⟨.restore stored (hstatus ▸ hnone) hcp hok (hstatus ▸ hresolved) (hstatus ▸ hactive) hrec
    (hstatus ▸ rfl) (hstatus ▸ rfl) rfl, .keep (hstatus ▸ rfl), .keep (hstatus ▸ rfl), ?_, ?_, ?_,
    hgate⟩
  · rw [hstatus]
    exact id
  · exact fun _ => .inl (show Phase.blocked.calm by decide)
  intro op' _ _ _ hop' _ hgone
  rw [hstatus] at hop'
  rw [show (restoredStatus m.status stored).activeOperation = m.status.activeOperation from rfl,
    hop'] at hgone
  cases hgone

/-- After the copy was looked at, a pass that goes on has the same status, and a copy that agrees with it if
there is no claim. -/
theorem reconcileUnresolvedRunCopy_spec (hm : At md w m) :
    Follows md (reconcileUnresolvedRunCopy m) (fun r w' => r.1 = false → At md w' r.2 ∧
      Unlogged md w w' ∧ r.2.status = m.status ∧
      (m.status.activeOperation = none → CopySettled r.2)) w := by
  -- The resource was read from a state that the system reached, and the latch held there.
  obtain ⟨w0, hi0, hw0⟩ := hm.seen
  have hl := hi0.latch
  rw [show w0 = { w0 with migration := m } by rw [← hw0]] at hl
  have hpure hset : Follows md (pure (false, m)) (fun r w' => r.1 = false → At md w' r.2 ∧
        Unlogged md w w' ∧ r.2.status = m.status ∧
        (m.status.activeOperation = none → CopySettled r.2)) w :=
    SafeProc.pure fun w' _ h' _ => ⟨hm.still h', h'.unlogged, rfl, hset⟩
  unfold reconcileUnresolvedRunCopy
  cases hu : m.status.unresolvedRun with
  | some record =>
    have hcopy := hl.copied record hu
    obtain ⟨run, he, hok⟩ := hl.decodes _ hcopy
    cases he
    have hmatch : unresolvedRunCopyMatches m record = true :=
      unresolvedRunCopyMatches_iff.2 ⟨hcopy, hok⟩
    simp only [hmatch, if_true]
    exact hpure fun _ => by rw [CopySettled, hu]; exact hcopy
  | none =>
    cases hcopy : m.unresolvedRunCopy with
    | none => exact hpure fun _ => by rw [CopySettled, hu, hcopy]; rfl
    | some value =>
      obtain ⟨stored, rfl, hok⟩ := hl.decodes value hcopy
      have hdecode : decodeUnresolvedRunCopy (.record stored) = .ok stored := hok
      simp only [hdecode]
      -- A copy without a record is left over from a run that was settled, ahead of a record that is not written
      -- yet, or what a dropped status left behind.
      by_cases hres : m.status.resolvedRun.any (·.operationID = stored.operationID) = true
      · rw [if_pos hres]
        refine .bind (setUnresolvedRunCopy_spec hm.toHolds none fun _ w1 _ _ hw1 => ?_)
          fun m' w1 _ hset => ?_
        · exact .drop stored (by rw [hw1]; exact hcopy) (by rw [hw1]; exact hu)
            (.inl (by rw [hw1]; exact hres))
        obtain ⟨hh, hul, hst, hcp, -⟩ := hset
        refine .pure fun w' _ h' _ => ⟨At.still ⟨hh, fun _ => ?_⟩ h',
          hul.trans h'.unlogged, hst, fun _ => ?_⟩
        · refine justRetired_eq_false fun run e hrun _ => ?_
          rw [hh.copy, hcp] at hrun
          cases hrun
        · rw [CopySettled, hst, hu, hcp]
          rfl
      · rw [if_neg hres]
        split
        · rename_i hact
          refine hpure fun hnone => ?_
          rw [hnone] at hact
          cases hact
        · rename_i hact
          refine .bind (patchRestored_spec hm hu hcopy hok (Bool.eq_false_iff.2 hres)
            (Bool.eq_false_iff.2 hact)) fun _ _ _ _ => ?_
          exact .pure fun _ _ _ h => by cases h

/-- A resource without a claim, whose copy and record agree unless its status was dropped. -/
structure Idle (m : PtahMigration) : Prop where
  active : m.status.activeOperation = none
  settled : m.status.executionBinding ≠ none → CopySettled m

/-- The acknowledgments are judged one after another, and none of this is a write to the migration. -/
theorem judgeAcknowledgments_spec (m : PtahMigration) (l : List Acknowledgment) :
    Quietly md (judgeAcknowledgments m l) w := by
  induction l generalizing w with
  | nil => exact .done
  | cons a rest ih =>
    unfold judgeAcknowledgments
    split
    · exact ih
    split
    · exact ih.bind fun _ _ _ _ _ => .done
    · exact (patchAcknowledgment_spec a _).bind fun _ _ _ _ _ => ih

/-- An acknowledgment settles the record that it names. -/
theorem patchAcknowledged_spec (hm : At md w m) {unresolved : UnresolvedRun}
    (hu : m.status.unresolvedRun = some unresolved) (a : Acknowledgment) (settledAt : Time) :
    Follows md (patchMigrationStatus m (acknowledgedStatus m.status unresolved a settledAt))
      (Patched md w m (acknowledgedStatus m.status unresolved a settledAt)) w := by
  refine patchMigrationStatus_spec hm (fun run hrun => by cases hrun) fun w1 _ _ hstatus _ hgate => ?_
  refine ⟨.acknowledge unresolved _ (hstatus ▸ hu) rfl rfl rfl rfl (hstatus ▸ rfl),
    .keep (hstatus ▸ rfl), .keep (hstatus ▸ rfl), ?_, (fun h => by cases h), ?_, hgate⟩
  · rw [hstatus]
    exact id
  intro op' _ _ _ hop' _ hgone
  rw [hstatus] at hop'
  rw [show (acknowledgedStatus m.status unresolved a settledAt).activeOperation =
    m.status.activeOperation from rfl, hop'] at hgone
  cases hgone

/-- The resource has no claim after the acknowledgments either. -/
theorem reconcileRunAcknowledgments_spec (hm : At md w m) (hidle : Idle m) :
    Follows md (reconcileRunAcknowledgments m) (fun m' w' => At md w' m' ∧ Idle m') w := by
  have hpure {w1 : World} (hm1 : At md w1 m) :
      Follows md (pure m) (fun m' w' => At md w' m' ∧ Idle m') w1 :=
    SafeProc.pure fun w' _ h' => ⟨hm1.still h', hidle⟩
  refine listAcknowledgments_spec.follows fun acknowledgments w1 _ h1 _ => ?_
  refine (judgeAcknowledgments_spec m _).follows fun candidate w2 _ h2 _ => ?_
  have hm2 := (hm.still h1).still h2
  cases candidate with
  | none => exact hpure hm2
  | some candidate =>
    cases hu : m.status.unresolvedRun with
    | none => exact hpure hm2
    | some unresolved =>
      refine (getAcknowledgment_spec candidate.name).follows fun r w3 _ h3 _ => ?_
      have hm3 := hm2.still h3
      cases r with
      | none => exact hpure hm3
      | some a =>
        simp only
        split
        · exact hpure hm3
        refine now_spec.follows fun settledAt w4 _ h4 _ => ?_
        refine .bind (patchAcknowledged_spec (hm3.still h4) hu a settledAt)
          fun m' w5 _ hp => ?_
        refine (patchAcknowledgment_spec a true).follows fun _ w6 _ h6 _ => ?_
        refine .pure fun w' _ h' => ⟨(hp.holds.still h6).still h', ?_, fun hb => ?_⟩
        · rw [hp.status]
          exact hidle.active
        · refine hp.settled (hidle.settled ?_)
          rw [hp.status] at hb
          exact hb

/-! ## Failures and retries -/

/-- The end of a refusal is a change of conditions. -/
theorem liftMigrationRefusal_eq (s : Status) (refusals : List String) (reason message : String) :
    ∃ conditions, liftMigrationRefusal s refusals reason message =
      { s with conditions := conditions } := by
  simp only [liftMigrationRefusal]
  repeat' split
  all_goals exact ⟨_, rfl⟩

/-- The record of a failure, where `s` differs from the status that was read in conditions only. -/
theorem recordMigrationOperationFailure_spec (hm : At md w m) {s : Status}
    (hs : ∃ conditions, s = { m.status with conditions := conditions }) (failure : String)
    (hquiet : ∀ op, m.status.activeOperation = some op → op.type = .apply → md.restores = false →
      w.Retirable op) : Walks md (recordMigrationOperationFailure m s failure) w := by
  obtain ⟨conditions, hs⟩ := hs
  have hsteady next : Steady m.status (failureStatus m s failure next) := by
    subst hs
    exact ⟨rfl, rfl, rfl, .inr (show Phase.failed.calm by decide)⟩
  have hactive next :
      (failureStatus m s failure next).activeOperation = m.status.activeOperation := by
    subst hs
    rfl
  have howed next :
      (failureStatus m s failure next).pendingLockRelease = m.status.pendingLockRelease := by
    subst hs
    rfl
  refine (ask_free .deadline).follows fun next w1 _ h1 _ => ?_
  have hm1 := hm.still h1
  cases hop : m.status.activeOperation with
  | none =>
    exact .forget (patchPlain_spec hm1 ⟨hsteady next, hactive next, howed next⟩)
  | some op =>
    refine .forget (retireSteady_spec hm1 .discard hop (hsteady next) (howed next)
      (fun ht hmd _ => h1.1.kept.retirable (hquiet op hop ht hmd)) fun w2 _ hstatus => ?_)
    exact .of_failed (hstatus ▸ (hsteady next).retired op .discard false)
      (retiredStatus_phase op _ .discard false)

theorem migrationOperationFailure_spec (hm : At md w m) (failure : String)
    (hquiet : ∀ op, m.status.activeOperation = some op → op.type = .apply → md.restores = false →
      w.Retirable op) : Walks md (migrationOperationFailure m failure) w :=
  recordMigrationOperationFailure_spec hm ⟨_, rfl⟩ failure hquiet

/-- A claim that cannot be taken is recorded as a failure, and nothing is retired. -/
theorem claimRefused_spec (hm : At md w m) (hidle : Idle m) (failure : String) :
    Walks md (claimRefused m failure) w := by
  refine recordMigrationOperationFailure_spec hm (liftMigrationRefusal_eq _ _ _ _) failure
    fun op hop => ?_
  rw [hidle.active] at hop
  cases hop

/-- A reading operation goes on under the same claim, with the name of another Job. -/
theorem retryMigrationOperation_spec (hm : At md w m) (hop : m.status.activeOperation = some op)
    (ht : op.type ≠ .apply) (job : Option Job) (failure reason : String) :
    Walks md (retryMigrationOperation m op job failure reason) w := by
  have hquiet {w1 : World} : ∀ op', m.status.activeOperation = some op' → op'.type = .apply →
      md.restores = false → w1.Retirable op' := by
    intro op' hop' ht'
    cases hop.symm.trans hop'
    exact absurd ht' ht
  -- The Job of the attempt that failed is marked first, if there is one.
  have hrest {w1 : World} (h1 : Still md w w1) :
      Walks md (retryMigrationOperation m op none failure reason) w1 := by
    refine now_spec.follows fun startedAt w2 _ h2 _ => ?_
    refine (ask_free .deadline).follows fun notBefore w3 _ h3 _ => ?_
    refine (jobName_spec _).follows fun name w4 _ h4 _ => ?_
    have hm4 := (((hm.still h1).still h2).still h3).still h4
    cases name with
    | error e => exact migrationOperationFailure_spec hm4 _ hquiet
    | ok name =>
      refine (ask_free .deadline).follows fun deadline w5 _ h5 _ => ?_
      exact .forget (patchTend_spec (hm4.still h5) ⟨rfl, rfl, rfl, .inl rfl⟩ hop rfl rfl rfl
        rfl (fun h => absurd h ht) fun _ h => h)
  cases job with
  | none => exact hrest (.refl w)
  | some j => exact (patchJob_spec j.name).follows fun _ _ _ h1 _ => hrest h1

theorem answerMigrationReadRequest_spec (hm : At md w m) (token : String) (scheduled : Bool) :
    Walks md (answerMigrationReadRequest m token scheduled) w := by
  refine now_spec.follows fun answeredAt w1 _ h1 _ => ?_
  refine .forget (patchPlain_spec (hm.still h1) ?_)
  split <;> exact ⟨⟨rfl, rfl, rfl, .inl rfl⟩, rfl, rfl⟩

/-! ## Taking a claim -/

/-- The write that takes a claim: the ID is fresh, and the claim of an Apply is under an approval that was not
spent. -/
theorem patchTake_spec (hm : At md w m) {s : Status} (hs : Steady m.status s)
    (hop : s.activeOperation = some op)
    (howed : s.pendingLockRelease = m.status.pendingLockRelease)
    (hnone : m.status.activeOperation = none) (hset : CopySettled m) (hd : w.Drawn op.id)
    (hstart : op.mayHaveDispatched = false)
    (happly : op.type = .apply → m.status.unresolvedRun = none ∧ ApplyOK op ∧
      (md.restores = false → Unspent w.log op))
    (hread : op.type ≠ .apply → op.Reads) : Walks md (patchMigrationStatus m s) w := by
  refine .forget (patchMigrationStatus_spec hm hs.recordOK
    fun w1 _ hul hstatus hcopy hgate => ?_)
  have hd1 := hul.drawn hd
  have hset1 : CopySettled w1.migration := by
    rw [CopySettled, hstatus, hcopy, copyBefore, hs.unresolvedRun]
    cases hu : m.status.unresolvedRun with
    | none => simpa [CopySettled, hu] using hset
    | some run => rfl
  refine Steady.step (hstatus ▸ hs) hgate ?_ (.keep (hstatus ▸ howed)) (.of_none (hstatus ▸ hnone))
  refine .take op (hstatus ▸ hnone) hop hd1.drawn hd1.unclaimed hstart hset1
    (hstatus ▸ hs.unresolvedRun) (hstatus ▸ hs.resolvedRun) (fun ht => ?_) hread
  obtain ⟨hu, hok, hun⟩ := happly ht
  exact ⟨hstatus ▸ hu, hok, (by rw [hul.log]; exact hun)⟩

theorem ensureMigrationFinalizer_spec (hm : At md w m) :
    Follows md (ensureMigrationFinalizer m) (fun m' w' => At md w' m' ∧ Unlogged md w w' ∧
      m'.status = m.status ∧ m'.unresolvedRunCopy = m.unresolvedRunCopy) w := by
  unfold ensureMigrationFinalizer
  split
  · exact .pure fun w' _ h' => ⟨hm.still h', h'.unlogged, rfl, rfl⟩
  · exact patchFinalizer_spec hm true

theorem readClaimStatus_eq (m : PtahMigration) (op : Operation) (next : Option Time) :
    ∃ conditions, readClaimStatus m op next = { m.status with
      activeOperation := some op
      observedGeneration := m.generation
      nextReconciliationTime := next
      phase := op.type.phase
      conditions := conditions } := by
  obtain ⟨conditions, h⟩ := liftMigrationRefusal_eq
    ({ m.status with
      activeOperation := some op
      observedGeneration := m.generation
      nextReconciliationTime := next
      phase := op.type.phase }.setCondition .progressing .isTrue "OperationInProgress"
        (toString op.type.name ++ " operation is in progress"))
    ["RealmConflict", "RealmNotAuthorized"] "OperationInProgress" migrationRealmReadMessage
  exact ⟨conditions, h⟩

/-- What the claim of a reading operation has to be. -/
structure ReadClaim (w : World) (op : Operation) : Prop where
  drawn : w.Drawn op.id
  type : op.type ≠ .apply
  start : op.mayHaveDispatched = false
  reads : op.Reads

theorem OperationType.phase_calm (t : OperationType) : t.phase.calm := by
  cases t <;> decide

theorem writeReadClaim_spec (hm : At md w m) (hidle : Idle m)
    (hbound : m.status.executionBinding ≠ none) (hop : ReadClaim w op) :
    Walks md (writeReadClaim m op) w := by
  refine (jobName_spec op).follows fun name w1 _ h1 _ => ?_
  have hm1 := hm.still h1
  cases name with
  | error e => exact claimRefused_spec hm1 hidle _
  | ok name =>
    refine .bind (ensureMigrationFinalizer_spec hm1) fun m2 w2 _ ⟨hm2, hul, hst, hcp⟩ => ?_
    refine (ask_free .claimDeadline).follows fun next w3 _ h3 _ => ?_
    obtain ⟨conditions, heq⟩ := readClaimStatus_eq m2 { op with jobName := name } next
    rw [heq]
    have hset : CopySettled m2 := by
      rw [CopySettled, hst, hcp]
      exact hidle.settled hbound
    refine patchTake_spec (hm2.still h3) ⟨rfl, rfl, rfl, .inr op.type.phase_calm⟩ rfl rfl
      (hst ▸ hidle.active) hset ?_ hop.start (fun ht => absurd ht hop.type) fun _ => hop.reads
    exact ((h1.unlogged.trans hul).trans h3.unlogged).drawn hop.drawn

/-- A claim of a reading operation is taken, or the attempt is recorded as a failure. -/
theorem claimRead_spec (hm : At md w m) (hidle : Idle m) {binding : ExecutionBinding}
    (hbound : m.status.executionBinding = some binding) {type : OperationType}
    (ht : type ≠ .apply) : Walks md (claimRead m binding type) w := by
  have hb : m.status.executionBinding ≠ none := by simp [hbound]
  refine (ask_free (.inputFingerprint type)).follows fun r w1 _ h1 _ => ?_
  have hm1 := hm.still h1
  cases r with
  | error e => exact claimRefused_spec hm1 hidle _
  | ok inputFingerprint =>
    refine (newOperationID_spec inputFingerprint).follows fun id w2 _ h2 hd => ?_
    refine now_spec.follows fun startedAt w3 _ h3 _ => ?_
    have hm3 := (hm1.still h2).still h3
    have hd3 := h3.unlogged.drawn hd
    split
    · exact claimRefused_spec hm3 hidle _
    split
    · refine (ask_free .coordinationDigest).follows fun r w4 _ h4 _ => ?_
      have hm4 := hm3.still h4
      cases r with
      | error e => exact claimRefused_spec hm4 hidle _
      | ok digest =>
        exact writeReadClaim_spec hm4 hidle hb ⟨h4.unlogged.drawn hd3, ht, rfl, rfl, rfl⟩
    · exact writeReadClaim_spec hm3 hidle hb ⟨hd3, ht, rfl, rfl, rfl⟩

/-- A source in a ConfigMap is resolved without a Job, and so without a claim. -/
theorem configMapResolved_spec (hm : At md w m) (artifact : String) :
    Walks md (configMapResolved m artifact) w := by
  refine (ask_free .claimDeadline).follows fun next w1 _ h1 _ => ?_
  simp only [endMigrationRefusal, endMigrationRealmRefusal]
  obtain ⟨c1, h⟩ := liftMigrationRefusal_eq ({ m.status with
      artifact := some artifact
      observedGeneration := m.generation
      nextReconciliationTime := next
      phase := .reading }.removeCondition .artifactVerified) ["PolicyRefused"] "SnapshotTaken"
    migrationSourceResolvedMessage
  rw [h]
  obtain ⟨c2, h⟩ := liftMigrationRefusal_eq { ({ m.status with
      artifact := some artifact
      observedGeneration := m.generation
      nextReconciliationTime := next
      phase := .reading }.removeCondition .artifactVerified) with conditions := c1 }
    ["RealmConflict", "RealmNotAuthorized"] "OperationInProgress" migrationRealmReadMessage
  rw [h]
  exact .forget (patchPlain_spec (hm.still h1)
    ⟨⟨rfl, rfl, rfl, .inr (show Phase.reading.calm by decide)⟩, rfl, rfl⟩)

theorem claimMigration_spec (hm : At md w m) (hidle : Idle m) {type : OperationType}
    (ht : type ≠ .apply) : Walks md (claimMigration m type) w := by
  unfold claimMigration
  rw [hidle.active]
  cases hb : m.status.executionBinding with
  | none => exact .done
  | some binding =>
    simp only
    split
    · refine (ask_free .resolveSource).follows fun r w1 _ h1 _ => ?_
      have hm1 := hm.still h1
      cases r with
      | error e => exact .throw
      | ok source =>
        cases source with
        | refused e => exact claimRefused_spec hm1 hidle _
        | configMap artifact => exact configMapResolved_spec hm1 artifact
        | job => exact claimRead_spec hm1 hidle hb ht
    · exact claimRead_spec hm hidle hb ht

/-! ## The claim of an Apply -/

/-- No run was made under the approval that is found, and none under another approval of its plan
that was there then. -/
theorem findMigrationApproval_spec (hm : At md w m) (plan : Plan) :
    Silently md (findMigrationApproval m plan) (fun r w' => ∀ a, r = some a → md.restores = false →
      ∀ op : Operation, op.approvalRef = some a.ref → Unspent w'.log op) w := by
  refine listApprovals_spec.bind fun approvals w1 _ h1 hread => ?_
  refine .pure fun w' _ h' a ha hmd op hop uid hu => ?_
  obtain ⟨w2, hi2, h2, rfl, h3⟩ := hread
  obtain ⟨hmem, hauth⟩ := List.mem_filter.1 (oldestApproval_mem ha)
  have hstanding : a.standing = true ∧ a.migrationUID = m.uid := by
    simp only [Approval.authorizes, Bool.and_eq_true, decide_eq_true_eq] at hauth
    exact ⟨hauth.1.1.1.1.1.1, hauth.1.1.1.1.1.2⟩
  have huid : uid = a.uid := by
    simp only [Operation.under, hop, Option.any_some, decide_eq_true_eq] at hu
    exact hu.symm
  subst huid
  have hinv := hi2.approval hmd
  have hlog : w'.log = w2.log := (h3.trans h').unlogged.log
  rw [hlog]
  -- A run under the approval would have consumed it, and a retired claim would have spent it.
  refine ⟨fun claim job refused he => ?_, fun claim spent he hs hr => ?_⟩
  · by_contra hunder
    have hcons := (hinv.created claim job refused a.uid he (by simpa using hunder)).2 a hmem rfl
    simp [Approval.standing, hcons] at hstanding
  · have hdead := ((hinv.passed claim spent he hs).2 a.uid hr).2 a hmem rfl
      (hstanding.2.trans ((hm.still h2).held hmd).2.symm)
    rw [hdead] at hstanding
    cases hstanding.1

/-- The claim of an Apply is taken only if no run is unresolved. -/
theorem claimMigrationApply_spec (hm : At md w m) (hidle : Idle m)
    (hbound : m.status.executionBinding ≠ none) {plan : Plan} (hplan : Named plan.name plan.uid)
    {approval : Option Approval}
    (happroval : ∀ a, approval = some a → md.restores = false →
      ∀ op : Operation, op.approvalRef = some a.ref → Unspent w.log op) :
    Walks md (claimMigrationApply m plan approval) w := by
  have hfree {w1 : World} : ∀ op, m.status.activeOperation = some op → op.type = .apply →
      md.restores = false → w1.Retirable op := by
    intro op hop
    rw [hidle.active] at hop
    cases hop
  unfold claimMigrationApply
  rw [hidle.active]
  cases hu : m.status.unresolvedRun with
  | some unresolved => exact migrationBlocked_spec hm _ _
  | none =>
    refine (ask_free (.inputFingerprint .apply)).follows fun r w1 _ h1 _ => ?_
    have hm1 := hm.still h1
    cases r with
    | error e => exact migrationOperationFailure_spec hm1 _ hfree
    | ok inputFingerprint =>
      refine (newOperationID_spec inputFingerprint).follows fun id w2 _ h2 hd => ?_
      refine now_spec.follows fun startedAt w3 _ h3 _ => ?_
      refine (jobName_spec _).follows fun r w4 _ h4 hname => ?_
      have hm4 := ((hm1.still h2).still h3).still h4
      cases r with
      | error e => exact migrationOperationFailure_spec hm4 _ hfree
      | ok name =>
        refine .bind (ensureMigrationFinalizer_spec hm4)
          fun m5 w5 _ ⟨hm5, hul, hst, hcp⟩ => ?_
        have hset : CopySettled m5 := by
          rw [CopySettled, hst, hcp]
          exact hidle.settled hbound
        -- Nothing was claimed since the ID was drawn.
        have hdraw : w5.Drawn id := (((h3.trans h4).unlogged).trans hul).drawn hd
        refine patchTake_spec hm5 ⟨rfl, rfl, rfl, .inr (show Phase.applying.calm by decide)⟩ rfl rfl
          (hst ▸ hidle.active) hset hdraw rfl (fun _ => ⟨hst ▸ hu, ⟨hdraw.digest, ?_, ?_⟩, ?_⟩)
          (absurd rfl)
        · exact ⟨plan.ref, rfl, hplan⟩
        · exact hname name rfl
        intro hmd
        have hlog : w5.log = w.log := ((((h1.trans h2).trans h3).trans h4).unlogged.trans hul).log
        rw [hlog]
        cases approval with
        | none => exact fun uid hunder => by cases hunder
        | some a => exact happroval a rfl hmd _ rfl

/-- The plan that is current names the object it was stored in. -/
theorem currentMigrationPlan_spec :
    Silently md (currentMigrationPlan m) (fun plan _ => Named plan.name plan.uid ∧
      m.status.executionBinding ≠ none) w := by
  unfold currentMigrationPlan
  split
  · exact .throw
  rename_i reference _
  refine (getPlan_spec reference.name).bind fun r w1 _ _ hr => ?_
  cases r with
  | none => exact .throw
  | some plan =>
    have hnamed := hr plan rfl
    simp only
    split
    · exact .throw
    split
    · rename_i hbound _ _
      split
      · exact .throw
      split
      · exact .throw
      split
      · exact .throw
      refine (ask_free (.planCurrent plan)).bind fun r w2 _ _ _ => ?_
      cases r with
      | error e => exact .throw
      | ok _ =>
        refine (ask_free (.policyBinds plan)).bind fun r w3 _ _ _ => ?_
        cases r with
        | error e => exact .throw
        | ok _ => exact .pure fun _ _ _ => ⟨hnamed, by simp [hbound]⟩
    · exact .throw

/-- An Apply starts without an approval only if the policy asks for none. -/
theorem reconcileMigrationApplyDecision_spec (hm : At md w m) (hidle : Idle m) :
    Walks md (reconcileMigrationApplyDecision m) w := by
  refine currentMigrationPlan_spec.attempt.follows fun r w1 _ h1 hr => ?_
  have hm1 := hm.still h1
  cases r with
  | error e =>
    exact .forget (patchPlain_spec hm1 ⟨⟨rfl, rfl, rfl,
      .inr (show Phase.pending.calm by decide)⟩, rfl, rfl⟩)
  | ok plan =>
    obtain ⟨hnamed, hbound⟩ := hr plan rfl
    simp only
    split
    · exact .done
    · exact claimMigrationApply_spec hm1 hidle hbound hnamed fun a h => by cases h
    refine (findMigrationApproval_spec hm1 plan).follows fun r w2 _ h2 hr => ?_
    cases r with
    | none => exact .done
    | some approval =>
      refine claimMigrationApply_spec (hm1.still h2) hidle hbound hnamed fun a h => ?_
      cases h
      exact hr approval rfl

end Ptah.Migration
