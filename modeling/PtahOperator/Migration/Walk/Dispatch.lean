import PtahOperator.Migration.Walk.Approvals
import PtahOperator.Migration.Walk.Claims

/-!
# A dispatch follows the system

One rule for each step of the sequence, up to `dispatch_spec`. In front of the mark the claim is one
that never dispatched (`Undispatched`), so it may be discarded. Behind it (`Marked`) the log holds no
create of the claim that was not refused, its approval is spent, and the Job to create is the one its
snapshot was taken of.
-/

namespace Ptah.Migration

open Conc Lifecycle

variable {md : Mode} {w w' : World} {m : PtahMigration} {op : Operation}

theorem withOperation_eq {α : Type} (hop : m.status.activeOperation = some op)
    (k : Operation → Pass α) : withOperation m k = k op := by
  rw [withOperation, hop]

section Stop

variable {α β : Type} {p : Pass α} {P : β → World → Prop}

theorem none_spec : Follows md (pure none) (fun r w' => ∀ b, r = some b → P b w') w :=
  SafeProc.pure fun _ _ _ _ h => by cases h

theorem stop_spec (h : Walks md p w) :
    Follows md (stop p) (fun r w' => ∀ b, r = some b → P b w') w :=
  SafeProc.bind h fun _ _ _ _ => none_spec

end Stop

/-! ## In front of the mark -/

/-- What a pass knows of a claim it has not marked. -/
structure Undispatched (md : Mode) (w : World) (m : PtahMigration) (op : Operation) : Prop where
  holds : At md w m
  active : m.status.activeOperation = some op
  undispatched : op.type = .apply → op.mayHaveDispatched = false
  unrecorded : op.type = .apply → m.status.unresolvedRun = none
  reading : w.reading = none

namespace Undispatched

variable (h : Undispatched md w m op)
include h

theorem still (hs : Still md w w') : Undispatched md w' m op :=
  ⟨h.holds.still hs, h.active, h.undispatched, h.unrecorded, hs.2.trans h.reading⟩

theorem quiet (hi : Reach md w) (ht : op.type = .apply) (hmd : md.restores = false) :
    w.Retirable op :=
  hi.retirable_of_undispatched hmd ((h.holds.held hmd).1 ▸ h.active) ht (h.undispatched ht)

theorem discard (hi : Reach md w) (failure : String) :
    Walks md (discardMigrationOperation m op failure) w :=
  discardMigrationOperation_spec h.holds h.active failure (h.quiet hi) fun _ => h.reading

theorem fail (hi : Reach md w) (failure : String) :
    Walks md (migrationOperationFailure m failure) w := by
  refine migrationOperationFailure_spec h.holds failure fun op' hop' ht hmd => ?_
  cases h.active.symm.trans hop'
  exact h.quiet hi ht hmd

end Undispatched

theorem claimedApplyPolicyStillBinds_spec (op : Operation) :
    Quietly md (claimedApplyPolicyStillBinds op) w := by
  unfold claimedApplyPolicyStillBinds
  split
  · exact .throw
  refine (getPlan_spec _).bind fun r w1 _ _ _ => ?_
  cases r with
  | none => exact .throw
  | some plan =>
    simp only
    split
    · exact .throw
    refine (ask_free (.policyBinds plan)).bind fun r w2 _ _ _ => ?_
    cases r with
    | error e => exact .throw
    | ok _ => exact .done

theorem migrationPlanForJob_spec (op : Operation) : Quietly md (migrationPlanForJob op) w := by
  unfold migrationPlanForJob
  split
  · exact .done
  split
  · exact .throw
  split
  · exact .throw
  refine (getPlan_spec _).bind fun r w1 _ _ _ => ?_
  cases r with
  | none => exact .throw
  | some plan =>
    simp only
    split
    · exact .throw
    · exact .done

/-- A step that leaves the claim as it is, or ends the pass. -/
def Stays (md : Mode) (m : PtahMigration) (op : Operation) (r : Option PtahMigration) (w : World) :
    Prop :=
  ∀ m', r = some m' → m' = m ∧ Undispatched md w m op

theorem authorizeInputs_spec (h : Undispatched md w m op) :
    Follows md (authorizeInputs m op) (Stays md m op) w := by
  have hgo {w1 : World} (h1 : Undispatched md w1 m op) :
      Follows md (pure (some m)) (Stays md m op) w1 :=
    SafeProc.pure fun w' _ h' m' hm' => ⟨(Option.some.inj hm').symm, h1.still h'⟩
  refine (ask_free (.inputFingerprint op.type)).follows fun r w1 _ h1 _ => ?_
  refine now_spec.follows fun instant w2 hi2 h2 _ => ?_
  have hu := (h.still h1).still h2
  cases r with
  | error e =>
    simp only
    split
    · exact none_spec
    · exact stop_spec (hu.discard hi2 _)
  | ok fingerprint =>
    simp only
    split
    · exact stop_spec (hu.discard hi2 _)
    split
    · exact none_spec
    split
    · refine (claimedApplyPolicyStillBinds_spec op).attempt.follows fun r w3 hi3 h3 _ => ?_
      cases r with
      | error e => exact stop_spec ((hu.still h3).discard hi3 _)
      | ok _ => exact hgo (hu.still h3)
    · exact hgo hu

theorem authorize_spec (hi : Reach md w) (h : Undispatched md w m op) :
    Follows md (authorize m) (Stays md m op) w := by
  rw [authorize, withOperation_eq h.active]
  split
  · exact stop_spec (h.discard hi _)
  split
  · exact authorizeInputs_spec h
  refine (ask_free .unreadableRequest).follows fun r w1 _ h1 _ => ?_
  have h1 := h.still h1
  cases r with
  | some token =>
    exact stop_spec (answerMigrationReadRequest_spec h1.holds token false)
  | none =>
    simp only
    split
    · exact authorizeInputs_spec h1
    refine (ask_free .failedReadGivesWay).follows fun r w2 hi2 h2 _ => ?_
    have h2 := h1.still h2
    cases r with
    | error e => exact .throw
    | ok reason =>
      cases reason with
      | some reason => exact stop_spec (h2.discard hi2 _)
      | none => exact authorizeInputs_spec h2

theorem acquireLease_spec (h : Undispatched md w m op) :
    Follows md (migrationDispatch.acquireLease m) (Stays md m op) w := by
  simp only [migrationDispatch, withOperation_eq h.active]
  refine .bind (waitForMigrationApplyLock_spec h.holds h.active) fun r w1 _ hr => ?_
  obtain ⟨held, m1⟩ := r
  obtain ⟨hm1, hsp, hsame⟩ := hr
  refine .pure fun w' _ h' m' hm' => ?_
  cases held with
  | false => cases hm'
  | true =>
    have hm : m1 = m := hsame rfl
    subst hm
    refine ⟨(Option.some.inj hm').symm, hm1.still h', h.active, h.undispatched, h.unrecorded, ?_⟩
    rw [h'.2, hsp.reading, h.reading]

/-! ## The Job of the claim -/

/-- The Job a claim builds. -/
structure JobOf (op : Operation) (job : Job) : Prop where
  operationID : job.operationID = op.id
  owned : job.ownedExactly = true
  name : job.name = op.jobName

theorem podsStopped_spec (jobName jobUID : String) : Quietly md (podsStopped jobName jobUID) w := by
  exact (podsOwnedByJob_silent jobName jobUID).bind fun _ _ _ _ _ =>
    Silently.done

theorem buildJob_spec (h : Undispatched md w m op) :
    Follows md (buildJob m) (fun r w' => ∀ job, r = some job →
      JobOf op job ∧ Undispatched md w' m op) w := by
  rw [buildJob, withOperation_eq h.active]
  split
  · rename_i huid
    -- Only a read has a recorded Job here.
    have ht : op.type ≠ .apply := by
      intro ht
      have := h.undispatched ht
      simp [Operation.mayHaveDispatched, huid] at this
    refine (podsStopped_spec op.jobName op.jobUID).follows fun stopped w1 _ h1 _ => ?_
    split
    · exact stop_spec (retryMigrationOperation_spec (h.holds.still h1) h.active ht _ _ _)
    · exact none_spec
  · refine (migrationPlanForJob_spec op).attempt.follows fun r w1 hi1 h1 _ => ?_
    have h1 := h.still h1
    cases r with
    | error e => exact stop_spec (h1.discard hi1 _)
    | ok plan =>
      refine (build_spec op plan).follows fun r w2 hi2 h2 hr => ?_
      have h2 := h1.still h2
      cases r with
      | error e => exact stop_spec (h2.fail hi2 _)
      | ok job =>
        simp only
        split
        · exact .throw
        rename_i hname
        refine .pure fun w' _ h' job' hjob' => ?_
        cases hjob'
        obtain ⟨hid, howned⟩ := hr job rfl
        exact ⟨⟨hid, howned, by simpa using hname⟩, h2.still h'⟩

/-- The Job of a pass behind its step Snapshot. -/
structure Prepared (op : Operation) (job : Job) : Prop extends JobOf op job where
  snapshot : ∃ snapshot, op.admissionSnapshot = some snapshot ∧
    snapshot.templateDigest = job.templateDigest

theorem claim_eq (hop : m.status.activeOperation = some op) : migrationDispatch.claim m =
      { type := op.type
        mutating := op.type.mutating
        holdsLock := op.type.holdsLock
        dispatchStarted := op.dispatchStarted
        jobUID := op.jobUID
        snapshot := op.admissionSnapshot
        snapshotRefreshed := op.admissionSnapshotRefreshed } := by
  simp only [migrationDispatch, hop]

theorem patchSnapshot_spec (h : Undispatched md w m op) (snapshot : Option Snapshot)
    (refreshed : Bool) : Walks md (patchOperation m
      { op with admissionSnapshot := snapshot, admissionSnapshotRefreshed := refreshed }) w := by
  refine .forget (patchTend_spec h.holds ⟨rfl, rfl, rfl, .inl rfl⟩ h.active rfl rfl rfl rfl
    (fun _ w1 _ _ _ => ?_) fun _ h => h)
  exact .tend op.leaseEpoch op.leaseContinuityLost snapshot refreshed rfl (.inl rfl)

variable {job : Job}

theorem holdToSnapshot_spec {p : DispatchPass PtahMigration} (hp : p.state = m)
    (h : Undispatched md w m op) (hjob : JobOf op job) :
    Follows md (migrationDispatch.holdToSnapshot p job) (fun r w' => ∀ p', r = some p' →
      p' = p ∧ Prepared op job ∧ Undispatched md w' m op) w := by
  subst hp
  unfold Family.holdToSnapshot
  rw [claim_eq h.active]
  cases hsnap : op.admissionSnapshot with
  | none =>
    refine (ask_free (.resolveSnapshot job)).follows fun r w1 hi1 h1 _ => ?_
    have h1 := h.still h1
    cases r with
    | error e => exact stop_spec (.ends (h1.fail hi1 _))
    | ok snapshot =>
      refine stop_spec ?_
      simp only [migrationDispatch, withOperation_eq h.active]
      exact .ends (patchSnapshot_spec h1 (some snapshot) op.admissionSnapshotRefreshed)
  | some snapshot =>
    refine (ask_free (.digestTemplate job)).follows fun r w1 hi1 h1 _ => ?_
    have h1 := h.still h1
    cases r with
    | error e => exact stop_spec (.ends (h1.fail hi1 _))
    | ok _ =>
      simp only
      split
      · rename_i hdigest
        refine .pure fun w' _ h' p' hp' => ?_
        cases hp'
        exact ⟨rfl, ⟨hjob, snapshot, hsnap, hdigest.symm⟩, h1.still h'⟩
      · split
        · exact stop_spec (.ends (h1.fail hi1 _))
        refine stop_spec ?_
        simp only [migrationDispatch, withOperation_eq h.active]
        exact .ends (patchSnapshot_spec h1 none true)

theorem buildOnce_spec (h : Undispatched md w m op) :
    Follows md (migrationDispatch.buildOnce { state := m }) (fun r w' => ∀ job p,
      r = some (job, p) → p = { state := m, expected := some job } ∧ JobOf op job ∧
        Undispatched md w' m op) w := by
  refine .bind (buildJob_spec h) fun r w1 _ hr => ?_
  cases r with
  | none => exact .pure fun _ _ _ _ _ h => by cases h
  | some job =>
    obtain ⟨hjob, h1⟩ := hr job rfl
    refine .pure fun w' _ h' job' p' hp' => ?_
    cases hp'
    exact ⟨rfl, hjob, h1.still h'⟩

/-- Behind the step Snapshot. -/
def SnapshotPassed (md : Mode) (m : PtahMigration) (op : Operation)
    (r : Option (DispatchPass PtahMigration)) (w : World) : Prop :=
  ∀ p, r = some p → ∃ job, p = { state := m, expected := some job } ∧ Prepared op job ∧
    Undispatched md w m op

theorem holdBuilt_spec {p : DispatchPass PtahMigration}
    (hp : p = { state := m, expected := some job } ∧ JobOf op job ∧ Undispatched md w m op) :
    Follows md (migrationDispatch.holdToSnapshot p job) (SnapshotPassed md m op) w := by
  obtain ⟨rfl, hjob, h⟩ := hp
  refine .conseq (holdToSnapshot_spec rfl h hjob) fun r w' _ hr p' hp' => ?_
  obtain ⟨rfl, hprep, h'⟩ := hr p' hp'
  exact ⟨job, rfl, hprep, h'⟩

theorem snapshotStep_spec (h : Undispatched md w m op) :
    Follows md (migrationDispatch.snapshotStep { state := m }) (SnapshotPassed md m op) w := by
  unfold Family.snapshotStep
  rw [claim_eq h.active]
  cases hsnap : op.admissionSnapshot with
  | none =>
    refine .bind (Q := fun r w1 => r = .ok () ∧ Undispatched md w1 m op)
      (.pure fun w' _ h' => ⟨rfl, h.still h'⟩) fun r w1 _ ⟨hr, h1⟩ => ?_
    subst hr
    refine .bind (buildOnce_spec h1) fun r w2 _ hr => ?_
    rcases r with _ | ⟨job, p⟩
    · exact none_spec
    · exact holdBuilt_spec (hr job p rfl)
  | some snapshot =>
    refine (ask_free (.validateSnapshot snapshot)).follows fun r w1 hi1 h1 _ => ?_
    have h1 := h.still h1
    cases r with
    | error e => exact stop_spec (.ends (h1.fail hi1 _))
    | ok _ =>
      refine .bind (buildOnce_spec h1) fun r w2 _ hr => ?_
      rcases r with _ | ⟨job, p⟩
      · exact none_spec
      · exact holdBuilt_spec (hr job p rfl)

/-! ## Consume and mark -/

theorem World.Spent.later (h : w.Spent op) (hl : Later w w')
    (hr : ∀ spent other, Rival w'.log spent other → Rival w.log spent other) : w'.Spent op := by
  intro uid hu
  obtain ⟨hc, hd⟩ := h uid hu
  exact ⟨hl.consumed hc, fun other hrival => hl.dead (hd other (hr uid other hrival))⟩

/-- Behind the step Consume. -/
structure Consumes (md : Mode) (w : World) (m : PtahMigration) (op : Operation) : Prop
    extends Undispatched md w m op where
  spent : op.type = .apply → md.restores = false → w.Spent op

theorem Consumes.still (h : Consumes md w m op) (hs : Still md w w') : Consumes md w' m op := by
  refine ⟨h.toUndispatched.still hs, fun ht hmd => ?_⟩
  refine (h.spent ht hmd).later (hs.unlogged.later hmd) fun _ _ hr => ?_
  rwa [hs.unlogged.log] at hr

theorem consume_spec (h : Undispatched md w m op) :
    Follows md (migrationDispatch.consume m) (fun r w' => ∀ m', r = some m' →
      m' = m ∧ Consumes md w' m op) w := by
  simp only [migrationDispatch, withOperation_eq h.active]
  refine .bind (consumeMigrationApproval_spec h.holds) fun spent w1 hi1 ⟨hm1, hsp, hs⟩ => ?_
  have h1 : Undispatched md w1 m op :=
    ⟨hm1, h.active, h.undispatched, h.unrecorded, hsp.reading.trans h.reading⟩
  cases spent with
  | false => exact stop_spec (h1.discard hi1 _)
  | true =>
    refine .pure fun w' _ h' m' hm' => ⟨(Option.some.inj hm').symm, ?_⟩
    exact .still ⟨h1, fun _ hmd => hs rfl hmd⟩ h'

theorem contextErr_spec (h : Consumes md w m op) (ht : op.type = .apply) :
    Follows md contextErr (fun _ w' => Consumes md w' m op) w := by
  refine .sendOk _ fun w1 r w2 hi h1 hs => ?_
  have hc := h.still h1
  obtain rfl : w2 = _ := hs
  have hstep : md.restores = false → ∀ op', w1.migration.status.activeOperation = some op' →
      w1.Spent op' := by
    intro hmd op' hop'
    rw [(hc.holds.held hmd).1, h.active] at hop'
    cases hop'
    exact hc.spent ht hmd
  refine ⟨hi.step (.passed hstep), fun _ _ w3 _ h3 => .still ⟨⟨hc.holds.note (by simp),
    h.active, h.undispatched, h.unrecorded, hc.reading⟩, fun _ hmd => ?_⟩ h3⟩
  refine (hc.spent ht hmd).later (.same rfl rfl rfl) fun spent other hr => ?_
  obtain ⟨a, others, b, he, hrest⟩ := hr
  exact ⟨a, others, b, by simpa [World.note] using he, hrest⟩

/-- What the create of an Apply's Job rests on, in the pass that sends it. -/
structure MarkedApply (md : Mode) (w : World) (m : PtahMigration) (op : Operation) : Prop where
  unrecorded : m.status.unresolvedRun = none
  started : op.dispatchStarted = true
  jobUID : op.jobUID = ""
  first : md.restores = false → NoneCreated w.log op.id
  spent : md.restores = false → ∀ uid, op.under uid = true → w.Consumed uid

/-- A pass that is about to create `job`. -/
structure Sending (md : Mode) (w : World) (m : PtahMigration) (op : Operation) (job : Job) :
    Prop where
  holds : At md w m
  active : m.status.activeOperation = some op
  job : Prepared op job
  apply : op.type = .apply → MarkedApply md w m op

theorem Sending.still (h : Sending md w m op job) (hs : Still md w w') :
    Sending md w' m op job := by
  refine ⟨h.holds.still hs, h.active, h.job, fun ht => ?_⟩
  obtain ⟨h1, h2, h3, h4, h5⟩ := h.apply ht
  refine ⟨h1, h2, h3, fun hmd => ?_, fun hmd uid hu => (hs.unlogged.later hmd).consumed (h5 hmd uid hu)⟩
  rw [hs.unlogged.log]
  exact h4 hmd

theorem mark_spec (hi : Reach md w) (h : Consumes md w m op) (ht : op.type = .apply)
    (hjob : Prepared op job) :
    Follows md (migrationDispatch.mark m) (fun m' w' => ∃ op', op'.type = .apply ∧
      Sending md w' m' op' job) w := by
  have hnot := h.undispatched ht
  have hfirst hmd : NoneCreated w.log op.id :=
    noneCreated_iff.2 ((hi.create hmd).unmarked op ((h.holds.held hmd).1 ▸ h.active) ht hnot)
  simp only [migrationDispatch, withOperation_eq h.active]
  refine .conseq (patchTend_spec h.holds ⟨rfl, rfl, rfl, .inl rfl⟩ h.active rfl rfl rfl rfl
    (fun _ _ _ _ _ => .mark rfl hnot) fun _ h => h) fun m' w' _ hp => ?_
  refine ⟨{ op with dispatchStarted := true }, ht, hp.holds, by rw [hp.status],
    ⟨⟨hjob.operationID, hjob.owned, hjob.name⟩, hjob.snapshot⟩, fun _ => ⟨?_, rfl, ?_,
      fun hmd => hp.wrote.noneCreated (hfirst hmd), fun hmd uid hu => ?_⟩⟩
  · rw [hp.status]
    exact h.unrecorded ht
  · simpa [Operation.mayHaveDispatched] using (Bool.or_eq_false_iff.1 hnot).2
  · exact (hp.wrote.later hmd).consumed (h.spent ht hmd uid hu).1

/-! ## Create -/

theorem At.addJob (hm : At md w m) (job : Job) : At md (w.addJob job) m :=
  ⟨⟨hm.seen, hm.old, hm.same, hm.copy, hm.status, hm.held⟩, hm.gate⟩

theorem Sending.mayCreate (h : Sending md w m op job) (hmd : md.restores = false) :
    MayCreate w job := by
  refine ⟨op, (h.holds.held hmd).1 ▸ h.active, h.job.operationID, h.job.owned, h.job.name,
    fun ht => ?_⟩
  obtain ⟨-, hstarted, huid, hfirst, hspent⟩ := h.apply ht
  exact ⟨hstarted, huid, h.job.snapshot, hfirst hmd, hspent hmd⟩

theorem createJob_spec (h : Sending md w m op job) :
    Follows md (send (.createJob job)) (fun (a : Except CreateError Unit) w' => At md w' m ∧
      ∀ e, a = .error e → classifyCreate e = .refused → op.type = .apply → md.restores = false →
        NoneCreated w'.log op.id) w := by
  refine .send fun w1 a w2 hi h1 hs => ?_
  have hm1 := h.still h1
  rcases hs with ⟨rfl, -⟩ | ⟨hnot, hname, uid, huid, rfl⟩
  · refine ⟨hi.step (.create job (createRefused a) hm1.mayCreate), fun w3 _ h3 =>
      ⟨(hm1.holds.note (by simp)).still h3, ?_⟩⟩
    rintro e rfl href ht hmd
    rw [h3.unlogged.log]
    intro claim j refused he hid
    rcases List.mem_cons.1 he with he | he
    · cases he
      simp [createRefused, href]
    · exact (hm1.apply ht).first hmd claim j refused he hid
  · rw [hnot]
    refine ⟨hi.step (.stored job uid hm1.mayCreate hname huid), fun w3 _ h3 =>
      ⟨((hm1.holds.note (by simp)).addJob _).still h3, ?_⟩⟩
    rintro e rfl href
    simp [createRefused, href] at hnot

/-- A pass whose claim may have created its Job. -/
structure Created (md : Mode) (w : World) (m : PtahMigration) (op : Operation) : Prop where
  holds : At md w m
  active : m.status.activeOperation = some op
  apply : op.type = .apply → m.status.unresolvedRun = none ∧ op.dispatchStarted = true ∧
    op.jobUID = ""

theorem Created.still (h : Created md w m op) (hs : Still md w w') : Created md w' m op :=
  ⟨h.holds.still hs, h.active, h.apply⟩

theorem Created.unaccounted (h : Created md w m op) (hi : Reach md w) (ht : op.type = .apply)
    {job : Option Job} (hjob : ∀ j, job = some j → w.Found op.id op.jobName j) (failure : String) :
    Walks md (migrationDispatch.unaccounted m job failure) w := by
  simp only [migrationDispatch, withOperation_eq h.active]
  exact .ends (finishUncertainMigrationApply_spec hi
    ⟨h.holds, h.active, ht, (h.apply ht).1⟩ hjob failure "")

theorem Created.retry (h : Created md w m op) (ht : op.type ≠ .apply) (failure : String) :
    Walks md (migrationDispatch.retry m failure) w := by
  simp only [migrationDispatch, withOperation_eq h.active]
  exact .ends (retryMigrationOperation_spec h.holds h.active ht none failure _)

theorem createFailed_spec {p : DispatchPass PtahMigration} (hp : p.state = m) (hi : Reach md w)
    (h : Created md w m op) {e : CreateError}
    (hrefused : classifyCreate e = .refused → op.type = .apply → md.restores = false →
      NoneCreated w.log op.id) : Walks md (migrationDispatch.createFailed p e) w := by
  subst hp
  unfold Family.createFailed
  simp only [claim_eq h.active]
  by_cases ht : op.type = .apply
  · simp only [dispatchFailure, OperationType.mutating_iff.2 ht, if_true]
    by_cases href : classifyCreate e = .refused
    · simp only [href, if_true]
      refine .bind (Q := fun _ _ => True) ?_ fun _ _ _ _ => .throw
      simp only [migrationDispatch, withOperation_eq h.active]
      refine .ends (patchTend_spec h.holds ⟨rfl, rfl, rfl, .inl rfl⟩ h.active rfl rfl rfl rfl
        (fun _ w1 _ hul _ => .withdraw rfl (h.apply ht).2.2 fun hmd => ?_) fun _ h => h)
      rw [hul.log]
      exact hrefused href ht hmd
    · simp only [href, if_false]
      exact h.unaccounted hi ht (fun j hj => by cases hj) _
  · have hmut := Bool.eq_false_iff.2 fun h => ht (OperationType.mutating_iff.1 h)
    simp only [dispatchFailure, hmut, Bool.false_eq_true, if_false]
    by_cases htaken : classifyCreate e = .nameTaken
    · simp only [htaken, if_true]
      exact h.retry ht _
    · simp only [htaken, if_false]
      exact .throw

theorem Sending.created (h : Sending md w m op job) (hm : At md w' m) : Created md w' m op :=
  ⟨hm, h.active, fun ht => ⟨(h.apply ht).unrecorded, (h.apply ht).started, (h.apply ht).jobUID⟩⟩

theorem createStep_spec (h : Sending md w m op job) :
    Follows md (migrationDispatch.createStep { state := m, expected := some job })
      (fun r w' => ∀ p, r = some p → p = { state := m, expected := some job, created := some job } ∧
        Created md w' m op) w := by
  unfold Family.createStep
  refine .bind (Q := fun r w1 => r = some (job, { state := m, expected := some job }) ∧
    Sending md w1 m op job) (.pure fun w' _ h' => ⟨rfl, h.still h'⟩)
    fun r w1 _ ⟨hr, h1⟩ => ?_
  subst hr
  refine .bind (createJob_spec h1) fun a w2 hi2 ⟨hm2, hr⟩ => ?_
  have hc : Created md w2 m op := h1.created hm2
  cases a with
  | error e =>
    exact stop_spec (createFailed_spec rfl hi2 hc (hr e rfl))
  | ok _ =>
    refine .pure fun w' _ h' p hp => ?_
    cases hp
    exact ⟨rfl, hc.still h'⟩

/-! ## Confirm and record -/

/-- The Job `job` is one that was stored for the claim. -/
structure Owns (w : World) (op : Operation) (job : Job) : Prop where
  found : w.Found op.id op.jobName job
  operationID : job.operationID = op.id
  owned : job.ownedExactly = true

theorem Owns.mem (h : Owns w op job) : ∃ j ∈ w.jobsOf op.id, j.uid = job.uid := by
  obtain ⟨stored, hs, hw⟩ := h.found.stored
  have hid : stored.operationID = op.id := by
    rw [← h.operationID, hw]
  have howned : stored.ownedExactly = true := by
    rw [← h.owned, hw]
  exact ⟨stored, List.mem_filter.2 ⟨hs, by simp [hid, howned]⟩, by rw [hw]⟩

theorem matchJob_spec :
    Silently md (matchJob op job) (fun r _ => r = .ok () → job.operationID = op.id ∧
      job.ownedExactly = true ∧ (op.jobUID ≠ "" → job.uid = op.jobUID)) w := by
  have herr {e : String} {F : Prop} {w1 : World} :
      Silently md (pure (.error e) : Pass (Except String Unit)) (fun r _ => r = .ok () → F) w1 :=
    Silently.pure fun _ _ _ h => by cases h
  unfold matchJob
  split
  · exact herr
  split
  · exact herr
  split
  · exact herr
  rename_i huid
  split
  · exact herr
  rename_i howned
  split
  · exact herr
  rename_i hid
  by_cases hsnap : op.admissionSnapshot.all (·.templateDigest ≠ job.templateDigest) = true
  · rw [if_pos hsnap]
    exact herr
  rw [if_neg hsnap]
  refine (ask_free (.jobMatch job)).conseq fun _ _ _ _ _ _ => ?_
  refine ⟨by simpa using hid, by simpa using howned, fun hne => ?_⟩
  simpa [hne] using huid

theorem confirmStep_spec (h : Created md w m op) (hname : job.name = op.jobName) :
    Follows md (migrationDispatch.confirmStep
      { state := m, expected := some job, created := some job })
      (fun r w' => ∀ p, r = some p → ∃ read, p.state = m ∧ p.created = some read ∧
        Owns w' op read ∧ Created md w' m op) w := by
  unfold Family.confirmStep
  simp only [claim_eq h.active, hname]
  refine (getJob_spec op.id op.jobName).attempt.follows fun answer w1 hi1 h1 hr => ?_
  have hc1 := h.still h1
  cases hread : answer.toOption.join with
  | none =>
    have hnot : ¬ (dispatchFailure .confirm op.type.mutating .unknown = .unaccounted) := by
      cases op.type.mutating <;> simp [dispatchFailure]
    simp only [hnot, if_false]
    exact .throw
  | some read =>
    have hfound : w1.Found op.id op.jobName read := by
      cases answer with
      | error e => cases hread
      | ok found =>
        obtain rfl : found = some read := hread
        exact (hr (some read) rfl).1 read rfl
    have hintent : migrationDispatch.intent m read = matchJob op read :=
      withOperation_eq h.active fun op => matchJob op read
    simp only [hintent]
    refine matchJob_spec.follows fun r w2 hi2 h2 hmatch => ?_
    have hc2 := hc1.still h2
    have hfound2 := h2.1.kept.found hfound
    cases r with
    | ok _ =>
      obtain ⟨hid, howned, -⟩ := hmatch rfl
      refine .pure fun w' _ h' p hp => ?_
      cases hp
      exact ⟨read, rfl, rfl, ⟨h'.1.kept.found hfound2, hid, howned⟩, hc2.still h'⟩
    | error e =>
      by_cases ht : op.type = .apply
      · simp only [dispatchFailure, OperationType.mutating_iff.2 ht, if_true]
        refine stop_spec (hc2.unaccounted hi2 ht ?_ _)
        rintro j ⟨⟩
        exact hfound2
      · have hmut := Bool.eq_false_iff.2 fun h => ht (OperationType.mutating_iff.1 h)
        simp only [dispatchFailure, hmut, Bool.false_eq_true, if_false, reduceCtorEq]
        exact stop_spec (hc2.retry ht _)

theorem patchRecorded_spec (hm : At md w m) (hop : m.status.activeOperation = some op)
    (huid : op.jobUID = "") (hjob : Owns w op job) (started : Bool)
    (hstarted : op.type = .apply → started = true) :
    Follows md (patchOperation m { op with jobUID := job.uid, dispatchStarted := started })
      (Patched md w m { m.status with
        activeOperation := some { op with jobUID := job.uid, dispatchStarted := started } }) w := by
  refine patchTend_spec hm ⟨rfl, rfl, rfl, .inl rfl⟩ hop rfl rfl rfl rfl (fun ht w1 _ hul _ => ?_)
    fun _ h => h
  have hs := hstarted ht
  subst hs
  refine .record job rfl huid fun _ => ?_
  rw [hul.jobsOf]
  exact hjob.mem

theorem recordStep_spec {p : DispatchPass PtahMigration} (hp : p.state = m)
    (hcreated : p.created = some job) (h : Created md w m op) (hjob : Owns w op job) :
    Walks md (migrationDispatch.recordStep p) w := by
  subst hp
  unfold Family.recordStep
  simp only [hcreated]
  refine .bind (Q := fun _ _ => True) ?_ fun _ _ _ _ => .done
  simp only [migrationDispatch, withOperation_eq h.active]
  by_cases ht : op.type = .apply
  · obtain ⟨-, hstarted, huid⟩ := h.apply ht
    exact .ends (patchRecorded_spec h.holds h.active huid hjob op.dispatchStarted
      fun _ => hstarted)
  · exact .ends (patchTend_spec h.holds ⟨rfl, rfl, rfl, .inl rfl⟩ h.active rfl rfl rfl rfl
      (fun h => absurd h ht) fun _ h => h)

/-! ## The sequence -/

section Sequence

variable {step : DispatchStep} {rest : List DispatchStep} {p : DispatchPass PtahMigration}
  {Q : Option (DispatchPass PtahMigration) → World → Prop}

/-- A step whose result goes to the rest of the sequence. -/
theorem runSteps_spec (hnot : step ≠ .mark) (hstep : Follows md (migrationDispatch.run p step) Q w)
    (hrest : ∀ p' w', Reach md w' → Q (some p') w' →
      Walks md (migrationDispatch.runSteps rest p') w') :
    Walks md (migrationDispatch.runSteps (step :: rest) p) w := by
  simp only [Family.runSteps, hnot, decide_false, Bool.false_and, Bool.false_eq_true, if_false]
  refine .bind hstep fun r w' hi' hq => ?_
  cases r with
  | none => exact .done
  | some p' => exact hrest p' w' hi' hq

theorem runSteps_create_spec (h : Sending md w m op job) :
    Walks md (migrationDispatch.runSteps [.create, .confirm, .record]
      { state := m, expected := some job }) w := by
  refine runSteps_spec (by simp) (createStep_spec h) fun p' w1 _ hq => ?_
  obtain ⟨rfl, hc⟩ := hq p' rfl
  refine runSteps_spec (by simp) (confirmStep_spec hc h.job.name) fun p' w2 _ hq => ?_
  obtain ⟨read, hstate, hcreated, hown, hc⟩ := hq p' rfl
  refine runSteps_spec (by simp) (recordStep_spec hstate hcreated hc hown) fun p' w3 _ _ => ?_
  exact .done

theorem runSteps_mark_spec (h : Consumes md w m op) (hjob : Prepared op job) :
    Walks md (migrationDispatch.runSteps [.mark, .create, .confirm, .record]
      { state := m, expected := some job }) w := by
  simp only [Family.runSteps, claim_eq h.active, decide_true, Bool.true_and]
  by_cases ht : op.type = .apply
  · have hlock : op.type.holdsLock = true := OperationType.holdsLock_iff.2 ht
    simp only [hlock, if_true]
    refine .bind (contextErr_spec h ht) fun _ w1 hi1 h1 => ?_
    refine .bind (Q := fun r w' => ∃ m' op', r = some { state := m', expected := some job } ∧
      Sending md w' m' op' job) ?_ fun r w2 _ hr => ?_
    · simp only [Family.run, claim_eq h.active, hlock, if_true]
      refine .bind (mark_spec hi1 h1 ht hjob) fun m' w2 _ ⟨op', _, hs⟩ => ?_
      exact .pure fun w' _ h' => ⟨m', op', rfl, hs.still h'⟩
    · obtain ⟨m', op', rfl, hs⟩ := hr
      exact runSteps_create_spec hs
  · have hlock := Bool.eq_false_iff.2 fun h => ht (OperationType.holdsLock_iff.1 h)
    have hsend {w1 : World} h1 : Sending md w1 m op job :=
      ⟨h.holds.still h1, h.active, hjob, fun h => absurd h ht⟩
    simp only [hlock, Bool.false_eq_true, if_false]
    refine .bind (Q := fun r w' => r = some { state := m, expected := some job } ∧
      Still md w w') ?_ fun r w2 _ ⟨hr, h2⟩ => ?_
    · simp only [Family.run, claim_eq h.active, hlock, Bool.false_eq_true, if_false]
      exact .pure fun w' _ h' => ⟨rfl, h'⟩
    · subst hr
      exact runSteps_create_spec (hsend h2)

/-- A step of the family that leaves the claim as it is. -/
theorem onState_spec {step : PtahMigration → Pass (Option PtahMigration)} {expected : Option Job}
    {P : World → Prop} (hP : ∀ w w', Still md w w' → P w → P w')
    (h : Follows md (step m) (fun r w' => ∀ m', r = some m' → m' = m ∧ P w') w) :
    Follows md (Family.onState { state := m, expected } step) (fun r w' => ∀ p', r = some p' →
      p' = { state := m, expected } ∧ P w') w := by
  refine .bind h fun r w1 _ hr => .pure fun w' _ h' p' hp' => ?_
  cases r with
  | none => cases hp'
  | some m' =>
    obtain ⟨rfl, hw⟩ := hr m' rfl
    cases hp'
    exact ⟨rfl, hP _ _ h' hw⟩

theorem dispatch_spec (h : Undispatched md w m op) (hi : Reach md w) :
    Walks md (migrationDispatch.dispatch m) w := by
  have hstable : ∀ w w', Still md w w' → Undispatched md w m op → Undispatched md w' m op :=
    fun _ _ hs hu => hu.still hs
  unfold Family.dispatch
  simp only
  split
  · exact .throw
  refine runSteps_spec (by simp) (onState_spec hstable (authorize_spec hi h)) fun p' w1 _ hq => ?_
  obtain ⟨rfl, h1⟩ := hq p' rfl
  refine runSteps_spec (Q := fun r w' => ∀ p', r = some p' → p' = { state := m } ∧
    Undispatched md w' m op) (by simp) ?_ fun p' w2 _ hq => ?_
  · simp only [Family.run]
    split
    · exact onState_spec hstable (acquireLease_spec h1)
    · exact .pure fun w' _ h' p' hp' => ⟨(Option.some.inj hp').symm, h1.still h'⟩
  obtain ⟨rfl, h2⟩ := hq p' rfl
  refine runSteps_spec (by simp) (onState_spec hstable
    (.pure fun w' _ h' m' hm' => ⟨(Option.some.inj hm').symm, h2.still h'⟩))
    fun p' w3 _ hq => ?_
  obtain ⟨rfl, h3⟩ := hq p' rfl
  refine runSteps_spec (by simp) (snapshotStep_spec h3) fun p' w4 _ hq => ?_
  obtain ⟨job, rfl, hjob, h4⟩ := hq p' rfl
  refine runSteps_spec (Q := fun r w' => ∀ p', r = some p' →
    p' = { state := m, expected := some job } ∧ Consumes md w' m op) (by simp) ?_
    fun p' w5 _ hq => ?_
  · simp only [Family.run]
    split
    · exact onState_spec (fun _ _ hs hc => hc.still hs) (consume_spec h4)
    rename_i hmut
    refine .pure fun w' _ h' p' hp' => ⟨(Option.some.inj hp').symm, h4.still h', ?_⟩
    intro ht
    rw [claim_eq h.active] at hmut
    exact absurd (OperationType.mutating_iff.2 ht) hmut
  obtain ⟨rfl, h5⟩ := hq p' rfl
  exact runSteps_mark_spec h5 hjob

end Sequence

end Ptah.Migration
