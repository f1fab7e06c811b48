import PtahOperator.Migration.Walk.Dispatch

/-!
# A result follows the system

The rules for what a pass reads from a terminal Job and for the results of reads. A recorded
reading is the one step that lifts a record without a person (`retireReading_spec`).
-/

namespace Ptah.Migration

open Conc DataPlane Lifecycle

variable {md : Mode} {w w' : World} {m : PtahMigration} {op : Operation} {job : Job}

/-! ## Reading a result -/

theorem readResult_spec (pod : Option Pod) :
    Follows md (ask (.readResult job pod)) (fun (r : Reading) w' => Drift md w w' ∧
      ∀ report target, r = .read (.history report target) → w'.reading = some (report, target)) w := by
  refine .send fun w1 a w2 hi h1 hs => ?_
  obtain rfl : w2 = _ := hs
  refine ⟨hi.step (.silent (.read _)), fun w3 _ h3 => ⟨(h1.1.tail (.read _)).trans h3.1, ?_⟩⟩
  rintro report target rfl
  rw [h3.2]

theorem noFrame_spec : Silently md noFrame (fun r _ => r = .later ∨ ∃ e, r = .unread e none) w := by
  refine (ask_free .frameMayArrive).bind fun wait _ _ _ _ => ?_
  refine .pure fun _ _ _ => ?_
  split
  · exact .inl rfl
  · exact .inr ⟨_, rfl⟩

/-- What the reading of a terminal Job came to. -/
structure ReadOut (md : Mode) (w : World) (job : Job) (r : Reading) (w' : World) : Prop where
  drift : Drift md w w'
  /-- A result of an Apply was read, so its Pods have stopped. -/
  quiet : (∃ reported, r = .apply reported ∨ ∃ e, r = .unread e (some reported)) →
    w'.JobQuiet job.uid
  history : ∀ report target, r = .read (.history report target) → w'.reading = some (report, target)

theorem ReadOut.of_silent {r : Reading} (h : Still md w w') (hr : r = .later ∨
    (∃ e, r = .notItsClaim e) ∨ ∃ e, r = .unread e none) : ReadOut md w job r w' := by
  refine ⟨h.1, ?_, ?_⟩
  · rintro ⟨reported, rfl | ⟨e, rfl⟩⟩ <;> simp at hr
  · rintro report target rfl
    simp at hr

theorem readTerminalResult_spec {id name : String} (hi : Reach md w)
    (hfound : w.Found id name job) (hterm : job.terminal = true) :
    Follows md (readTerminalResult op job) (ReadOut md w job) w := by
  obtain ⟨stored, hs, hsu, hsn⟩ := hfound.known
  refine (podsOwnedByJob_spec (hsn ▸ (hi.store.name stored hs).1)
    (hsu ▸ hi.store.uid stored hs)).follows fun pods w1 _ h1 hread => ?_
  -- With every Pod stopped, the Job is quiet from the read on.
  have hquiet (hall : ∀ p ∈ pods, p.stopped = true) : w1.JobQuiet job.uid := by
    obtain ⟨w0, hi0, h0, hpods, h01⟩ := hread
    have hk := h0.1.kept.toStoreKept
    have hq : w0.JobQuiet job.uid := by
      rw [← hsu]
      refine JobQuiet.of_pods hi0 (hk.ever stored hs) ?_ fun p hp hn hu => hall p ?_
      · exact hk.finished _ ⟨stored, hs, rfl⟩ (hsu ▸ hfound.done hterm)
      · rw [hpods]
        exact List.mem_filter.2 ⟨hp, by simp [hn, hu, hsn, hsu]⟩
    exact h01.1.kept.quiet _ ⟨stored, hk.ever stored hs, hsu⟩ hq
  have hask {w2 : World} pod (h2 : Still md w1 w2) (hall : ∀ p ∈ pods, p.stopped = true) :
      Follows md (ask (.readResult job pod)) (ReadOut md w job) w2 := by
    refine .conseq (readResult_spec pod) fun r w' _ ⟨hd, hh⟩ => ?_
    refine ⟨(h1.1.trans h2.1).trans hd, fun _ => ?_, hh⟩
    have hk := (Drift.kept (h2.1.trans hd)).toStoreKept
    exact hk.quiet _ ⟨stored, h1.1.kept.ever stored hs, hsu⟩ (hquiet hall)
  have hpure {w2 : World} {r : Reading} h2 (hr : r = .later ∨
      (∃ e, r = .notItsClaim e) ∨ ∃ e, r = .unread e none) :
      Follows md (pure r) (ReadOut md w job) w2 :=
    SafeProc.pure fun w' _ h' => .of_silent ((h1.trans h2).trans h') hr
  have hnoFrame {w2 : World} (h2 : Still md w1 w2) : Follows md noFrame (ReadOut md w job) w2 := by
    refine Safe.conseq noFrame_spec fun r w' _ ⟨hst, hr⟩ a ha => ?_
    exact .of_silent ((h1.trans h2).trans hst) ((hr a ha).imp_right .inr)
  rcases pods with _ | ⟨pod, _ | ⟨_, _⟩⟩
  · simp only
    split
    · refine (ask_free (.durableBinding job)).follows fun r w2 _ h2 _ => ?_
      cases r with
      | error e => exact hpure h2 (.inr (.inr ⟨e, rfl⟩))
      | ok _ => exact hask none h2 (by simp)
    · refine (ask_free .podGraceOver).follows fun graceOver w2 _ h2 _ => ?_
      split
      · exact hnoFrame h2
      · exact hpure h2 (.inl rfl)
  · simp only
    split
    · exact hpure (.refl w1) (.inr (.inl ⟨_, rfl⟩))
    refine (ask_free (.podIntent pod)).follows fun r w2 _ h2 _ => ?_
    cases r with
    | error e => exact hpure h2 (.inr (.inl ⟨e, rfl⟩))
    | ok _ =>
      simp only
      split
      · refine (ask_free (.durableBinding job)).follows fun r w3 _ h3 _ => ?_
        cases r with
        | error e => exact hpure (h2.trans h3) (.inr (.inr ⟨e, rfl⟩))
        | ok _ =>
          simp only
          split
          · exact hpure (h2.trans h3) (.inl rfl)
          refine hask (some pod) (h2.trans h3) ?_
          simp only [List.mem_singleton, forall_eq, Pod.stopped, Pod.finished]
          cases hexec : pod.executorTerminated <;> simp_all
      · split
        · exact hnoFrame h2
        refine hask (some pod) h2 ?_
        simp only [List.mem_singleton, forall_eq, Pod.stopped]
        simp_all
  · exact hpure (.refl w1) (.inr (.inl ⟨_, rfl⟩))

/-! ## A History reading -/

theorem recordMigrationRunVerification_eq (s : Status) :
    ∃ lastRun, recordMigrationRunVerification s = { s with lastRun := lastRun } := by
  unfold recordMigrationRunVerification
  repeat' split
  all_goals exact ⟨_, rfl⟩

theorem endMigrationApprovalRequirement_eq (s : Status) :
    ∃ conditions, endMigrationApprovalRequirement s = { s with conditions := conditions } := by
  unfold endMigrationApprovalRequirement
  split
  · exact ⟨_, rfl⟩
  · exact ⟨_, rfl⟩

theorem readingStatus_eq (s : Status) : ∃ lastRun conditions plan,
    readingStatus s = { s with lastRun := lastRun, conditions := conditions, plan := plan } := by
  obtain ⟨lastRun, hl⟩ := recordMigrationRunVerification_eq s
  simp only [readingStatus, hl]
  split
  · exact ⟨lastRun, _, _, rfl⟩
  · rw [(endMigrationApprovalRequirement_eq _).choose_spec]
    exact ⟨lastRun, _, _, rfl⟩

variable {s s' : Status}

theorem Recorded.latch {report : MigrationStatusReport} {target : String}
    (h : Recorded report target w.migration.status s) (hu : s'.unresolvedRun = s.unresolvedRun)
    (hr : s'.resolvedRun = s.resolvedRun) (hread : w.reading = some (report, target)) :
    LatchStep w s' := by
  cases h with
  | refused _ hrun hresolved => exact .keep (hu.trans hrun) (hr.trans hresolved)
  | planned _ _ hrun hrun' hresolved => exact .keep (hu.trans (hrun'.trans hrun.symm)) (hr.trans hresolved)
  | matched _ _ hrun hsettles hresolved =>
    cases hold : w.migration.status.unresolvedRun with
    | none => exact .keep (hu.trans (hrun.trans hold.symm)) (hr.trans (hresolved hold))
    | some run =>
      obtain ⟨hs, resolved, hres, hid, hkind⟩ := hsettles run hold
      exact .settle run resolved report target hold (hu.trans hrun) (hr.trans hres) hid hkind hread hs

/-- While a record stands, a reading ends in the phase that refuses. -/
theorem Recorded.blocked {report : MigrationStatusReport} {target : String}
    (h : Recorded report target s s') (hu : s'.unresolvedRun.isSome = true) :
    s'.phase = .blocked ∧ s'.unresolvedRun = s.unresolvedRun := by
  cases h with
  | refused hphase hrun _ => exact ⟨hphase, hrun⟩
  | matched _ _ hrun => simp [hrun] at hu
  | planned _ _ _ hrun' => simp [hrun'] at hu

theorem Recorded.refuses {report : MigrationStatusReport} {target : String}
    {run : UnresolvedRun} (h : Recorded report target s s') (hrun : s.unresolvedRun = some run)
    (hnot : ¬ Settles report target run) : s'.unresolvedRun = some run ∧ s'.phase = .blocked := by
  cases h with
  | refused hphase hrun' _ => exact ⟨hrun'.trans hrun, hphase⟩
  | matched _ _ _ hsettles => exact absurd (hsettles run hrun).1 hnot
  | planned _ _ hnone => rw [hrun] at hnone; cases hnone

/-- What a pass knows of the History claim whose result it has read. -/
structure HistoryRead (md : Mode) (w : World) (m : PtahMigration) (op : Operation)
    (report : MigrationStatusReport) (target : String) : Prop where
  holds : At md w m
  active : m.status.activeOperation = some op
  type : op.type = .history
  reading : w.reading = some (report, target)
  owed : m.status.pendingLockRelease = none

section HistoryRead

variable {report : MigrationStatusReport} {target : String}

theorem HistoryRead.unlogged (h : HistoryRead md w m op report target) (hm : At md w' m)
    (hul : Unlogged md w w') : HistoryRead md w' m op report target :=
  ⟨hm, h.active, h.type, hul.reading.trans h.reading, h.owed⟩

theorem HistoryRead.still (h : HistoryRead md w m op report target) (hs : Still md w w') :
    HistoryRead md w' m op report target :=
  h.unlogged (h.holds.still hs) hs.unlogged

/-- The retirement of a History claim behind a recorded reading. -/
theorem retireReading_spec (h : HistoryRead md w m op report target)
    (hdigest : sha256Digest target = true) (hun : Unread target m.status s)
    (hrec : Recorded report target m.status s) (hu : s'.unresolvedRun = s.unresolvedRun)
    (hr : s'.resolvedRun = s.resolvedRun) (hh : s'.history = s.history) (hp : s'.phase = s.phase)
    (ho : s'.pendingLockRelease = s.pendingLockRelease) :
    Follows md (retireMigrationClaim m op s' .accounted false) (fun m' w' => At md w' m' ∧
      m'.status = retiredStatus op s' .accounted false) w := by
  have howed : (retiredStatus op s' .accounted false).pendingLockRelease = none := by
    rcases retiredStatus_owed op s' Ending.accounted with h' | ⟨_, htype, _⟩
    · rw [h', ho, hun.pendingLockRelease, h.owed]
    · rw [h.type] at htype
      cases htype
  refine .conseq (retireMigrationClaim_spec h.holds (fun run hrun => ?_)
    fun w1 hi1 hul hstatus _ hgate => ?_) fun m' w' _ hq => hq howed
  · rw [retiredStatus_unresolvedRun, hu] at hrun
    exact .inl ((hrec.blocked (by rw [hrun]; rfl)).2.symm.trans hrun)
  rw [← hstatus] at hrec hun
  obtain ⟨hclaim, hos⟩ := retired_steps md Ending.accounted
    (hstatus ▸ h.active) (ho.trans hun.pendingLockRelease)
    fun ht => by rw [h.type] at ht; cases ht
  have hreading := hul.reading.trans h.reading
  refine ⟨hrec.latch (by rw [retiredStatus_unresolvedRun, hu])
    (by rw [retiredStatus_resolvedRun, hr]) hreading, hclaim, hos, fun _ => ?_, fun hsome => ?_, ?_,
    hgate⟩
  · intro history hhist
    obtain ⟨h0, hs0, rfl⟩ := hun.history
    rw [retiredStatus_history, hh, hs0] at hhist
    cases hhist
    exact hdigest
  · rw [retiredStatus_unresolvedRun, hu] at hsome
    rw [retiredStatus_phase, hp, (hrec.blocked hsome).1]
    exact .inl (by decide)
  · intro op' report' target' run _ _ _ hread' hrun hnot
    rw [hreading] at hread'
    cases hread'
    rw [retiredStatus_unresolvedRun, retiredStatus_phase, hu, hp]
    obtain ⟨hkeep, hphase⟩ := hrec.refuses hrun hnot
    exact ⟨hkeep, .inl hphase⟩

/-! ### Publishing a plan -/

theorem publishMigrationPlan_spec (m : PtahMigration) (report : MigrationStatusReport) :
    Quietly md (publishMigrationPlan m report) w := by
  unfold publishMigrationPlan
  split
  · exact .throw
  refine (ask_free (.desiredPlan report)).bind fun r _ _ _ _ => ?_
  cases r with
  | error e => exact .throw
  | ok desired =>
    refine (createPlan_spec desired).bind fun r _ _ _ _ => ?_
    cases r with
    | some published => exact .done
    | none =>
      refine (getPlan_spec desired.name).bind fun r _ _ _ _ => ?_
      cases r with
      | none => exact .throw
      | some existing =>
        simp only
        split
        · exact .throw
        · exact .done

theorem applyMigrationPolicyPhase_plain (policy : ApplyPolicy) (s : Status) (plan : Option ObjectRef)
    (planned : Nat) :
    Plain s (applyMigrationPolicyPhase policy { s with plan := plan } planned) := by
  cases policy with
  | never => exact ⟨⟨rfl, rfl, rfl, .inl rfl⟩, rfl, rfl⟩
  | always => exact ⟨⟨rfl, rfl, rfl, .inl rfl⟩, rfl, rfl⟩
  | onApproval =>
    exact ⟨⟨rfl, rfl, rfl, .inr (show Phase.awaitingApproval.calm by decide)⟩, rfl, rfl⟩

theorem markMigrationApprovalsStale_spec (hm : At md w m) (keep : Option ObjectRef) :
    Follows md (markMigrationApprovalsStale m keep) (fun _ w' => At md w' m ∧ Unlogged md w w') w :=
  SafeProc.conseq (markMigrationApprovalsStaleWhere_spec hm _) fun _ _ _ h => ⟨h.1, h.2.1⟩

theorem publishReading_spec (hm : At md w m) (hactive : m.status.activeOperation = none)
    (report : MigrationStatusReport) : Walks md (publishReading m report) w := by
  refine (publishMigrationPlan_spec m report).attempt.follows fun r w1 _ h1 _ => ?_
  cases r with
  | error e =>
    refine .ends (migrationOperationFailure_spec (hm.still h1) e fun op hop => ?_)
    rw [hactive] at hop
    cases hop
  | ok plan =>
    refine .bind (markMigrationApprovalsStale_spec (hm.still h1) (some plan.ref))
      fun _ w2 _ h2 => ?_
    exact .ends (patchPlain_spec h2.1 (applyMigrationPolicyPhase_plain ..))

theorem consumeHistory_spec {digestHistory : MigrationStatusReport → String}
    (h : HistoryRead md w m op report target) (job : Job) :
    Walks md (consumeHistory digestHistory m op job report target) w := by
  have hread : op.type ≠ .apply := by rw [h.type]; decide
  have hretry {w1 : World} h1 (failure reason) :
      Walks md (do let _ ← retryMigrationOperation m op (some job) failure reason) w1 :=
    SafeProc.ends (retryMigrationOperation_spec (h.holds.still h1) h.active hread (some job)
      failure reason)
  unfold consumeHistory
  split
  · exact hretry (.refl w) _ _
  rename_i hdigest
  refine now_spec.follows fun observedAt w1 _ h1 _ => ?_
  cases hrec : recordMigrationHistory digestHistory m.status report target observedAt with
  | error e => exact hretry h1 _ _
  | ok s =>
    obtain ⟨hun, hcases⟩ := recordMigrationHistory_cases hrec
    obtain ⟨lastRun, conditions, plan, hs⟩ := readingStatus_eq s
    refine (ask_free .deadline).follows fun next w2 _ h2 _ => ?_
    refine (patchJob_spec job.name).follows fun _ w3 _ h3 _ => ?_
    have hw3 := h.still ((h1.trans h2).trans h3)
    have hretire {w4 : World} (h4 : HistoryRead md w4 m op report target) :
        Follows md (retireMigrationClaim m op
          { readingStatus s with nextReconciliationTime := some next } .accounted false)
          (fun m' w' => At md w' m' ∧ m'.status.activeOperation = none) w4 := by
      refine .conseq (retireReading_spec h4 (by simpa using hdigest) hun hcases
        (by rw [hs]) (by rw [hs]) (by rw [hs]) (by rw [hs]) (by rw [hs])) fun m' w' _ h' => ?_
      exact ⟨h'.1, by rw [h'.2, retiredStatus_activeOperation]; rfl⟩
    dsimp only
    split
    · refine .bind (markMigrationApprovalsStale_spec hw3.holds none) fun _ w4 _ h4 => ?_
      exact .ends (hretire (hw3.unlogged h4.1 h4.2))
    rename_i hplanning
    refine .bind (hretire hw3) fun m4 w4 _ h4 => ?_
    rw [if_pos (not_not.1 hplanning)]
    exact publishReading_spec h4.1 h4.2 report

end HistoryRead

/-! ## The other reads -/

theorem Plain.endRefusal {s0 : Status} (h : Plain s0 s) (reason message : String) :
    Plain s0 (endMigrationRefusal s reason message) := by
  obtain ⟨conditions, hc⟩ := liftMigrationRefusal_eq s ["PolicyRefused"] reason message
  rw [endMigrationRefusal, hc]
  exact ⟨⟨h.unresolvedRun, h.resolvedRun, h.history, h.phase⟩, h.activeOperation,
    h.pendingLockRelease⟩

theorem Plain.setCondition {s0 : Status} (h : Plain s0 s) (type : ConditionType)
    (status : ConditionStatus) (reason message : String) :
    Plain s0 (s.setCondition type status reason message) :=
  ⟨⟨h.unresolvedRun, h.resolvedRun, h.history, h.phase⟩, h.activeOperation, h.pendingLockRelease⟩

theorem resolvedStatus_plain (s : Status) (digest : String) (git : Bool) :
    Plain s (resolvedStatus s digest git) := by
  have hverifying : Plain s ({ s with artifact := some digest, phase := .verifying }) :=
    ⟨⟨rfl, rfl, rfl, .inr (show Phase.verifying.calm by decide)⟩, rfl, rfl⟩
  have hreading : Plain s
      ({ s with artifact := some digest, phase := .reading }.removeCondition .artifactVerified) :=
    ⟨⟨rfl, rfl, rfl, .inr (show Phase.reading.calm by decide)⟩, rfl, rfl⟩
  unfold resolvedStatus
  cases git with
  | true => exact (hreading.endRefusal _ _).setCondition _ _ _ _
  | false =>
    simp only [Bool.false_eq_true, if_false]
    split
    · exact (hverifying.setCondition _ _ _ _).endRefusal _ _
    · exact hverifying.setCondition _ _ _ _

theorem verifiedStatus_plain (s : Status) : Plain s (verifiedStatus s) := by
  have hreading : Plain s { s with phase := .reading } :=
    ⟨⟨rfl, rfl, rfl, .inr (show Phase.reading.calm by decide)⟩, rfl, rfl⟩
  exact (hreading.setCondition _ _ _ _).endRefusal _ _

theorem retireRead_spec (hm : At md w m) (hop : m.status.activeOperation = some op)
    (happly : op.type ≠ .apply) (hhistory : op.type ≠ .history)
    (hs : Steady m.status s) (howed : s.pendingLockRelease = m.status.pendingLockRelease) :
    Walks md (retireMigrationClaim m op s .accounted false) w :=
  SafeProc.forget (retireSteady_spec hm .accounted hop hs howed (fun h => absurd h happly)
    fun _ _ hstatus => .of_type (hstatus ▸ hop) hhistory)

theorem consumeHandoff_spec (hm : At md w m) (hop : m.status.activeOperation = some op)
    (happly : op.type ≠ .apply) (hhistory : op.type ≠ .history) (job : Job)
    (hs : Plain m.status s) : Walks md (consumeHandoff m op job s) w := by
  refine (ask_free .deadline).follows fun next w1 _ h1 _ => ?_
  refine (patchJob_spec job.name).follows fun _ w2 _ h2 _ => ?_
  refine .ends (retireRead_spec (hm.still (h1.trans h2)) hop happly hhistory ?_
    hs.pendingLockRelease)
  exact ⟨hs.unresolvedRun, hs.resolvedRun, hs.history, hs.phase⟩

theorem refuseMigrationArtifact_spec (hm : At md w m) (hop : m.status.activeOperation = some op)
    (happly : op.type ≠ .apply) (hhistory : op.type ≠ .history) (job : Job) (message : String) :
    Walks md (refuseMigrationArtifact m op job message) w := by
  refine (patchJob_spec job.name).follows fun _ w1 _ h1 _ => ?_
  refine .bind (markMigrationApprovalsStale_spec (hm.still h1) none) fun _ w2 _ h2 => ?_
  refine (ask_free .deadline).follows fun next w3 _ h3 _ => ?_
  exact .ends (retireRead_spec (h2.1.still h3) hop happly hhistory
    ⟨rfl, rfl, rfl, .inr (show Phase.blocked.calm by decide)⟩ rfl)

theorem consumeMigrationResult_spec {digestHistory : MigrationStatusReport → String}
    (hm : At md w m) (hop : m.status.activeOperation = some op) (happly : op.type ≠ .apply)
    (howed : m.status.pendingLockRelease = none) (job : Job) {result : ReadResult}
    (hreading : ∀ report target, result = .history report target →
      w.reading = some (report, target)) :
    Walks md (consumeMigrationResult digestHistory m op job result) w := by
  have hretry (failure reason) :
      Walks md (do let _ ← retryMigrationOperation m op (some job) failure reason) w :=
    SafeProc.ends (retryMigrationOperation_spec hm hop happly (some job) failure reason)
  unfold consumeMigrationResult
  cases ht : op.type with
  | apply => exact absurd ht happly
  | resolve =>
    have hhistory : op.type ≠ .history := by rw [ht]; decide
    cases result with
    | resolved digest git =>
      exact consumeHandoff_spec hm hop happly hhistory job (resolvedStatus_plain ..)
    | _ => exact hretry _ _
  | verify =>
    have hhistory : op.type ≠ .history := by rw [ht]; decide
    cases result with
    | policyRefused message => exact refuseMigrationArtifact_spec hm hop happly hhistory job message
    | verified => exact consumeHandoff_spec hm hop happly hhistory job (verifiedStatus_plain _)
    | _ => exact hretry _ _
  | history =>
    cases result with
    | history report target =>
      exact consumeHistory_spec ⟨hm, hop, ht, hreading report target rfl, howed⟩ job
    | _ => exact hretry _ _

end Ptah.Migration
