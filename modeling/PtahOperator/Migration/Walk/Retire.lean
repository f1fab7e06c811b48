import PtahOperator.Migration.Walk.StatusSteps

/-!
# The end of a claim follows the system

The rules for the lock and for retirements. `dispatchedApplyMayStillWrite_spec` is what a hand-over
of the database rests on: an answer `false` means that nothing of the claim's Jobs can run, or that
the claim recorded no Job and its Job is gone (`World.Retirable`).
-/

namespace Ptah.Migration

open Conc Lifecycle

variable {md : Mode} {w w' : World} {m : PtahMigration} {op : Operation}

/-! ## The Jobs of a claim -/

/-- What the claim of an Apply knows of its Jobs. -/
structure ClaimJobs (w : World) (op : Operation) : Prop where
  names : ∀ j ∈ w.jobsOf op.id, j.name = op.jobName
  recorded : op.jobUID ≠ "" → ∃ j ∈ w.jobsOf op.id, j.uid = op.jobUID
  single : ∀ j ∈ w.jobsOf op.id, ∀ k ∈ w.jobsOf op.id, j = k

theorem Reach.claimJobs (h : Reach md w) (hmd : md.restores = false)
    (hop : w.migration.status.activeOperation = some op) (ht : op.type = .apply) :
    ClaimJobs w op := by
  have hc := h.create hmd
  refine ⟨hc.names op hop ht, hc.recorded op hop ht, ?_⟩
  have hlen : (w.jobsOf op.id).length ≤ 1 :=
    Nat.le_trans (hc.jobs op.id) (hc.once op.id ((h.claim.type op hop).1 ht))
  intro j hj k hk
  cases hl : w.jobsOf op.id with
  | nil => simp [hl] at hj
  | cons a rest =>
    rw [hl, List.length_cons] at hlen
    have hrest : rest = [] := List.length_eq_zero_iff.1 (by omega)
    simp only [hl, hrest, List.mem_singleton] at hj hk
    rw [hj, hk]

theorem StoreKept.claimJobs (h : StoreKept w w') (hc : ClaimJobs w op) : ClaimJobs w' op := by
  obtain ⟨h1, h2, h3⟩ := hc
  refine ⟨?_, ?_, ?_⟩ <;> rw [h.jobsOf] <;> assumption

variable {job : Job} {recordedAt : Time}

namespace ClaimJobs

variable (hc : ClaimJobs w op)
include hc

theorem retirable_of_found (hf : w.Found op.id op.jobName job)
    (hu : op.jobUID = "" ∨ op.jobUID = job.uid) (hq : w.JobQuiet job.uid) : w.Retirable op := by
  by_cases hall : ∀ j ∈ w.jobsOf op.id, j.uid = job.uid
  · exact .inl fun j hj => hall j hj ▸ hq
  simp only [not_forall] at hall
  obtain ⟨j, hj, hne⟩ := hall
  by_cases hempty : op.jobUID = ""
  · exact .inr ⟨hempty, j, hj, hf.others j hj (hc.names j hj) hne⟩
  obtain ⟨k, hk, hku⟩ := hc.recorded hempty
  rcases hu with hu | hu
  · exact absurd hu hempty
  · exact absurd (by rw [hc.single j hj k hk, hku, hu]) hne

/-- No Job stands under the name of a claim that recorded none. -/
theorem retirable_of_unfound (hf : w.Unfound op.id op.jobName) (hu : op.jobUID = "") :
    w.Retirable op := by
  by_cases hempty : w.jobsOf op.id = []
  · exact .inl fun j hj => by simp [hempty] at hj
  · obtain ⟨j, hj⟩ := List.exists_mem_of_ne_nil _ hempty
    exact .inr ⟨hu, j, hj, hf j hj (hc.names j hj)⟩

theorem retirable_of_recorded (hu : op.jobUID ≠ "") (hq : w.JobQuiet op.jobUID) :
    w.Retirable op := by
  obtain ⟨k, hk, hku⟩ := hc.recorded hu
  refine .inl fun j hj => ?_
  rw [hc.single j hj k hk, hku]
  exact hq

end ClaimJobs

theorem Reach.retirable_of_undispatched (h : Reach md w) (hmd : md.restores = false)
    (hop : w.migration.status.activeOperation = some op) (ht : op.type = .apply)
    (hnot : op.mayHaveDispatched = false) : w.Retirable op := by
  have hc := h.create hmd
  have hlen := hc.jobs op.id
  rw [hc.unmarked op hop ht hnot] at hlen
  have hnil : w.jobsOf op.id = [] := List.length_eq_zero_iff.1 (by omega)
  exact .inl fun j hj => by simp [hnil] at hj

/-! ## Whether a dispatched Apply may still write -/

theorem podsOwnedByJob_spec {jobName jobUID : String} (hn : jobName ≠ "") (hu : jobUID ≠ "") :
    Silently md (podsOwnedByJob jobName jobUID) (fun pods w' => Read md w (fun w1 => pods =
      w1.pods.filter fun pod => pod.jobName = jobName && pod.jobUID = jobUID) w') w := by
  rw [podsOwnedByJob, if_neg (by simp [hn, hu])]
  refine listPods_spec.bind fun pods w' _ h' hread => .pure fun w'' _ h'' => ?_
  obtain ⟨w1, hi, h1, rfl, h2⟩ := hread
  exact ⟨w1, hi, h1, rfl, h2.trans h''⟩

theorem podsOwnedByJob_silent (jobName jobUID : String) :
    Quietly md (podsOwnedByJob jobName jobUID) w := by
  unfold podsOwnedByJob
  split
  · exact .done
  · exact listPods_spec.bind fun _ _ _ _ _ => .done

theorem JobQuiet.of_pods (hi : Reach md w) (hjob : job ∈ w.everJobs) (hf : w.Finished job.uid)
    (hpods : ∀ p ∈ w.pods, p.jobName = job.name → p.jobUID = job.uid → p.stopped = true) :
    w.JobQuiet job.uid :=
  ⟨hf, fun p hp hu => hpods p hp (hi.store.pods p hp job hjob hu) hu⟩

/-- `P` is what the read of a Job established. -/
theorem workloadMayStillWrite_spec {P : Prop} {jobName jobUID : String} {job : Option Job}
    (hi : Reach md w)
    (hstored : P → ∃ j ∈ w.everJobs, j.uid = jobUID ∧ j.name = jobName)
    (hdone : P → (∀ j, job = some j → j.uid = jobUID → j.terminal = true) → w.Finished jobUID) :
    Silently md (workloadMayStillWrite jobName jobUID job)
      (fun b w' => P → b = false → w'.JobQuiet jobUID) w := by
  unfold workloadMayStillWrite
  split
  · exact .pure fun _ _ _ _ h => by cases h
  rename_i hnot
  have hterm : ∀ j, job = some j → j.uid = jobUID → j.terminal = true := by
    rintro j rfl hu
    simpa [hu] using hnot
  by_cases hne : jobName ≠ "" ∧ jobUID ≠ ""
  · refine (podsOwnedByJob_spec hne.1 hne.2).attempt.bind fun r w' hi' h' hr => ?_
    cases r with
    | error e => exact .pure fun _ _ _ _ h => by cases h
    | ok pods =>
      refine .pure fun w'' _ h'' hP hall => ?_
      obtain ⟨w1, hi1, h1, hpods, h2⟩ := hr pods rfl
      obtain ⟨j, hj, rfl, rfl⟩ := hstored hP
      have hk := h1.1.kept.toStoreKept
      have hq : w1.JobQuiet j.uid := by
        refine JobQuiet.of_pods hi1 (hk.ever j hj)
          (hk.finished _ ⟨j, hj, rfl⟩ (hdone hP hterm)) fun p hp hn hu => ?_
        have hmem : p ∈ pods := by
          rw [hpods]
          exact List.mem_filter.2 ⟨hp, by simp [hn, hu]⟩
        have hfin : p.finished = true := by simpa using List.any_eq_false.1 hall p hmem
        simp [Pod.stopped, hfin]
      exact (h2.trans h'').1.kept.quiet _ (hk.stored ⟨j, hj, rfl⟩) hq
  · -- A stored Job has a name and a UID, so nothing was established here.
    refine (podsOwnedByJob_silent jobName jobUID).attempt.bind fun r w' _ _ _ => ?_
    have habsurd (hP : P) : False := by
      obtain ⟨j, hj, rfl, rfl⟩ := hstored hP
      exact hne ⟨(hi.store.name j hj).1, hi.store.uid j hj⟩
    cases r with
    | error e => exact .pure fun _ _ _ hP => (habsurd hP).elim
    | ok pods => exact .pure fun _ _ _ hP => (habsurd hP).elim

theorem World.Found.known {id name : String} (h : w.Found id name job) :
    ∃ j ∈ w.everJobs, j.uid = job.uid ∧ j.name = job.name := by
  obtain ⟨stored, hs, hw⟩ := h.stored
  exact ⟨stored, hs, by rw [hw], by rw [hw]⟩

theorem workload_found_spec (hi : Reach md w) (hf : w.Found op.id op.jobName job)
    (hc : md.restores = false → ClaimJobs w op) (hu : op.jobUID = "" ∨ op.jobUID = job.uid) :
    Silently md (workloadMayStillWrite job.name job.uid (some job))
      (fun b w' => md.restores = false → b = false → w'.Retirable op) w := by
  refine (workloadMayStillWrite_spec (P := md.restores = false) hi (fun _ => hf.known)
    fun _ ht => hf.done (ht job rfl rfl)).conseq fun b w' _ h' hb hmd hfalse => ?_
  have hk := h'.1.kept.toStoreKept
  exact (hk.claimJobs (hc hmd)).retirable_of_found (hk.found hf) hu (hb hmd hfalse)

theorem workload_recorded_spec (hi : Reach md w) (hc : md.restores = false → ClaimJobs w op)
    (hu : op.jobUID ≠ "")
    (hgone : md.restores = false → ∀ j ∈ w.jobsOf op.id, j.uid = op.jobUID → w.Gone j.uid) :
    Silently md (workloadMayStillWrite op.jobName op.jobUID none)
      (fun b w' => md.restores = false → b = false → w'.Retirable op) w := by
  refine (workloadMayStillWrite_spec (P := md.restores = false) hi (fun hmd => ?_)
    fun hmd _ k hk hku => ?_).conseq fun b w' _ h' hb hmd hfalse => ?_
  · obtain ⟨j, hj, hju⟩ := (hc hmd).recorded hu
    exact ⟨j, (List.mem_filter.1 hj).1, hju, (hc hmd).names j hj⟩
  · obtain ⟨j, hj, hju⟩ := (hc hmd).recorded hu
    exact absurd (hku.trans hju.symm) (hgone hmd j hj hju k hk)
  · have hk := h'.1.kept.toStoreKept
    exact (hk.claimJobs (hc hmd)).retirable_of_recorded hu (hb hmd hfalse)

theorem dispatchedApplyMayStillWrite_spec (hi : Reach md w) {job : Option Job}
    (hc : md.restores = false → ClaimJobs w op)
    (hjob : ∀ j, job = some j → w.Found op.id op.jobName j) :
    Silently md (dispatchedApplyMayStillWrite op job)
      (fun b w' => md.restores = false → b = false → w'.Retirable op) w := by
  -- A Job of the claim has a name.
  have hnamed (hmd : md.restores = false) (hn : op.jobName = "") : w.jobsOf op.id = [] := by
    refine List.eq_nil_iff_forall_not_mem.2 fun j hj => ?_
    exact (hi.store.name j (List.mem_filter.1 hj).1).1 (((hc hmd).names j hj).trans hn)
  unfold dispatchedApplyMayStillWrite
  by_cases hu : op.jobUID = ""
  · cases job with
    | some j =>
      have hf := hjob j rfl
      have hne : j.uid ≠ "" := by
        obtain ⟨stored, hs, hju, -⟩ := hf.known
        exact hju ▸ hi.store.uid stored hs
      simp only [hu, if_true, Option.map_some, Option.getD_some, hne, decide_false, Bool.false_and,
        Bool.false_eq_true, if_false, Option.any_some, decide_true]
      exact workload_found_spec hi hf hc (.inl hu)
    | none =>
      simp only [hu, if_true, Option.map_none, Option.getD_none, decide_true, Bool.true_and,
        decide_eq_true_eq, Option.any_none, Bool.false_eq_true, if_false]
      by_cases hn : op.jobName = ""
      · rw [if_pos hn]
        refine .pure fun w' _ h' hmd _ => h'.1.kept.retirable (.inl fun j hj => ?_)
        simp [hnamed hmd hn] at hj
      rw [if_neg hn, if_neg hn]
      refine (getJob_spec op.id op.jobName).attempt.bind fun r w' hi' h' hr => ?_
      have hk := h'.1.kept.toStoreKept
      have hc' := fun hmd => hk.claimJobs (hc hmd)
      cases r with
      | error e => exact .pure fun _ _ _ _ h => by cases h
      | ok found =>
        obtain ⟨hsome, hnone⟩ := hr found rfl
        cases found with
        | none =>
          refine .pure fun w'' _ h'' hmd _ => h''.1.kept.retirable ?_
          exact (hc' hmd).retirable_of_unfound (hnone rfl) hu
        | some d =>
          exact workload_found_spec hi' (hsome d rfl) hc' (.inl hu)
  · simp only [hu, if_false, Option.getD_none, decide_false, Bool.false_and, Bool.false_eq_true]
    by_cases hany : job.any (·.uid = op.jobUID) = true
    · rw [if_pos hany]
      obtain ⟨j, rfl, hju⟩ : ∃ j, job = some j ∧ j.uid = op.jobUID := by
        cases job with
        | none => simp at hany
        | some j => exact ⟨j, rfl, by simpa using hany⟩
      have hf := hjob j rfl
      rw [← hf.named, ← hju]
      exact workload_found_spec hi hf hc (.inr hju.symm)
    · rw [if_neg hany]
      by_cases hn : op.jobName = ""
      · rw [if_pos hn]
        refine workload_recorded_spec hi hc hu fun hmd j hj => ?_
        simp [hnamed hmd hn] at hj
      rw [if_neg hn]
      refine (getJob_spec op.id op.jobName).attempt.bind fun r w' hi' h' hr => ?_
      have hk := h'.1.kept.toStoreKept
      have hc' := fun hmd => hk.claimJobs (hc hmd)
      cases r with
      | error e => exact .pure fun _ _ _ _ h => by cases h
      | ok found =>
        obtain ⟨hsome, hnone⟩ := hr found rfl
        cases found with
        | none =>
          exact workload_recorded_spec hi' hc' hu
            fun hmd j hj _ => hnone rfl j hj ((hc' hmd).names j hj)
        | some d =>
          by_cases hd : d.uid = op.jobUID
          · simp only [hd, decide_true, Bool.or_true, if_true]
            rw [← hd]
            exact workload_found_spec hi' (hsome d rfl) hc' (.inr hd.symm)
          · simp only [hd, decide_false, Bool.or_self, Bool.false_eq_true, if_false]
            exact workload_recorded_spec hi' hc' hu fun hmd j hj hju =>
              (hsome d rfl).others j hj ((hc' hmd).names j hj) (hju ▸ fun h => hd h.symm)

/-! ## The lock -/

theorem acquire_spec (hm : At md w m) :
    Follows md (acquire m.uid op) (fun r w' => At md w' m ∧ Spared md w w' ∧
      (r.acquired = true → .acquired op.id r.epoch ∈ w'.log)) w := by
  refine .sendOk _ fun w1 a w2 hi h1 hs => ?_
  have hm1 := hm.still h1
  obtain rfl : w2 = _ := hs
  cases a with
  | error e => exact ⟨hi, fun x hx => by cases hx⟩
  | ok result =>
    by_cases hacq : result.acquired = true
    · simp only [hacq, if_true]
      refine ⟨hi.step (.acquired op.id result.epoch), fun x hx w3 _ h3 => ?_⟩
      cases hx
      refine ⟨(hm1.note (by simp)).still h3,
        (h1.unlogged.spared.trans (.note w1 _)).trans h3.unlogged.spared, fun _ => ?_⟩
      rw [h3.unlogged.log]
      exact .head _
    · simp only [hacq]
      refine ⟨hi, fun x hx w3 _ h3 => ?_⟩
      cases hx
      exact ⟨hm1.still h3, h1.unlogged.spared.trans h3.unlogged.spared, fun h => absurd h hacq⟩

theorem epochStatus_eq (s : Status) (op : Operation) (result : LockResult) :
    ∃ lost conditions, epochStatus s op result = { s with
      activeOperation := some { op with leaseEpoch := result.epoch, leaseContinuityLost := lost }
      conditions := conditions } := by
  simp only [epochStatus]
  split <;> split <;> exact ⟨_, _, rfl⟩

theorem tryMigrationApplyLock_spec (hm : At md w m) (hop : m.status.activeOperation = some op) :
    Follows md (tryMigrationApplyLock m op) (fun r w' => At md w' r.2 ∧ Spared md w w' ∧
      (r.1 ≠ .recorded → r.2 = m)) w := by
  unfold tryMigrationApplyLock
  split
  · exact .pure fun w' _ h' => ⟨hm.still h', h'.unlogged.spared, fun _ => rfl⟩
  rename_i hlock
  have ht : op.type = .apply := by simpa using hlock
  split
  · exact .throw
  refine .bind (acquire_spec hm) fun result w1 _ ⟨hm1, hsp, hlog⟩ => ?_
  split
  · exact .pure fun w' _ h' =>
      ⟨hm1.still h', hsp.trans h'.unlogged.spared, fun _ => rfl⟩
  rename_i hacq
  have hacq : result.acquired = true := by simpa using hacq
  split
  · exact .pure fun w' _ h' =>
      ⟨hm1.still h', hsp.trans h'.unlogged.spared, fun _ => rfl⟩
  obtain ⟨lost, conditions, heq⟩ := epochStatus_eq m.status op result
  rw [heq]
  refine .bind (patchTend_spec hm1 ⟨rfl, rfl, rfl, .inl rfl⟩ hop rfl rfl rfl rfl
    (fun _ w2 _ hul _ => ?_) (absurd ht)) fun m' w2 _ hp => ?_
  · refine .tend result.epoch lost op.admissionSnapshot op.admissionSnapshotRefreshed rfl (.inr ?_)
    rw [hul.log]
    exact hlog hacq
  · exact .pure fun w' _ h' => ⟨hp.holds.still h',
      (hsp.trans hp.wrote.toSpared).trans h'.unlogged.spared, (absurd rfl)⟩

theorem waitForMigrationApplyLock_spec (hm : At md w m) (hop : m.status.activeOperation = some op) :
    Follows md (waitForMigrationApplyLock m op) (fun r w' => At md w' r.2 ∧ Spared md w w' ∧
      (r.1 = true → r.2 = m)) w := by
  refine .bind (tryMigrationApplyLock_spec hm hop) fun r w1 _ hr => ?_
  obtain ⟨attempt, m1⟩ := r
  obtain ⟨hm1, hsp, hsame⟩ := hr
  cases attempt with
  | acquired =>
    exact .pure fun w' _ h' =>
      ⟨hm1.still h', hsp.trans h'.unlogged.spared, fun _ => hsame (by simp)⟩
  | recorded =>
    exact .pure fun w' _ h' =>
      ⟨hm1.still h', hsp.trans h'.unlogged.spared, fun h => by cases h⟩
  | contended =>
    refine .bind (patchPlain_spec hm1 ⟨⟨rfl, rfl, rfl, .inl rfl⟩, rfl, rfl⟩)
      fun m2 w2 _ hp => ?_
    exact .pure fun w' _ h' => ⟨hp.holds.still h',
      (hsp.trans hp.wrote.toSpared).trans h'.unlogged.spared, fun h => by cases h⟩

theorem releaseOwed_spec (hm : At md w m) (owed : LockRelease) :
    Follows md (releaseOwed m owed) (fun _ w' => At md w' m ∧ .released owed ∈ w'.log) w := by
  unfold releaseOwed
  split
  · exact .throw
  refine .sendOk _ fun w1 a w2 hi h1 hs => ?_
  obtain rfl : w2 = _ := hs
  cases a with
  | error e => exact ⟨hi, fun x hx => by cases hx⟩
  | ok _ =>
    refine ⟨hi.step (.released owed), fun x hx w3 _ h3 => ?_⟩
    refine ⟨((hm.still h1).note (by simp)).still h3, ?_⟩
    rw [h3.unlogged.log]
    exact .head _

theorem patchReleased_spec (hm : At md w m) {owed : LockRelease}
    (howed : m.status.pendingLockRelease = some owed) (hlog : .released owed ∈ w.log) :
    Follows md (patchMigrationStatus m (releasedStatus m.status))
      (Patched md w m (releasedStatus m.status)) w := by
  have hsteady : Steady m.status (releasedStatus m.status) := ⟨rfl, rfl, rfl, .inl rfl⟩
  refine patchMigrationStatus_spec hm hsteady.recordOK fun w1 _ hul hstatus _ hgate => ?_
  refine Steady.step (hstatus ▸ hsteady) hgate (.keep (hstatus ▸ rfl))
    (.clear owed (hstatus ▸ howed) rfl (by rw [hul.log]; exact hlog)) ?_
  intro op' _ _ _ hop' _ hnone
  rw [hstatus] at hop'
  rw [show (releasedStatus m.status).activeOperation = m.status.activeOperation from rfl, hop'] at hnone
  cases hnone

theorem completeMigrationPendingLockRelease_spec (hm : At md w m) {owed : LockRelease}
    (howed : m.status.pendingLockRelease = some owed) :
    Walks md (completeMigrationPendingLockRelease m owed) w := by
  refine .bind (releaseOwed_spec hm owed) fun _ w1 _ ⟨hm1, hlog⟩ => ?_
  exact .forget (patchReleased_spec hm1 howed hlog)

/-! ## Retirements -/

section Retire

variable {s : Status} {disposition : Disposition} {mayStillWrite : Bool}

theorem retireMigrationClaim_spec (hm : At md w m)
    (hrecord : RecordOK m (retiredStatus op s disposition mayStillWrite))
    (hstep : ∀ w1, Reach md w1 → Unlogged md w w1 → w1.migration.status = m.status →
      w1.migration.unresolvedRunCopy = copyBefore m (retiredStatus op s disposition mayStillWrite) →
      Gate md w1 → StatusStep md w1 (retiredStatus op s disposition mayStillWrite)) :
    Follows md (retireMigrationClaim m op s disposition mayStillWrite) (fun m' w' =>
      (retiredStatus op s disposition mayStillWrite).pendingLockRelease = none →
        At md w' m' ∧ m'.status = retiredStatus op s disposition mayStillWrite) w := by
  refine .bind (patchMigrationStatus_spec hm hrecord hstep) fun m1 w1 _ hp => ?_
  rw [← hp.status]
  have hm1 := hp.holds
  cases howed : m1.status.pendingLockRelease with
  | none => exact .pure fun w' _ h' _ => ⟨hm1.still h', rfl⟩
  | some owed =>
    refine .bind (.attempt (releaseOwed_spec hm1 owed)) fun r w2 _ hr => ?_
    cases r with
    | error e => exact .pure fun w' _ _ h => by cases h
    | ok _ =>
      obtain ⟨hm2, hlog⟩ := hr () rfl
      refine .bind (.attempt (patchReleased_spec hm2 howed hlog)) fun r w3 _ _ => ?_
      cases r with
      | error e => exact .pure fun w' _ _ h => by cases h
      | ok m3 => exact .pure fun w' _ _ h => by cases h

theorem retireSteady_spec (hm : At md w m) (he : Ending disposition mayStillWrite)
    (hop : m.status.activeOperation = some op) (hs : Steady m.status s)
    (howed : s.pendingLockRelease = m.status.pendingLockRelease)
    (hquiet : op.type = .apply → md.restores = false →
      ¬ (disposition = .unaccounted ∧ mayStillWrite = true) → w.Retirable op)
    (hreading : ∀ w1, w1.reading = w.reading → w1.migration.status = m.status →
      ReadingRefused w1 (retiredStatus op s disposition mayStillWrite)) :
    Follows md (retireMigrationClaim m op s disposition mayStillWrite) (fun m' w' =>
      op.type ≠ .apply → m.status.pendingLockRelease = none →
        At md w' m' ∧ m'.status = retiredStatus op s disposition mayStillWrite) w := by
  have hsteady := hs.retired op disposition mayStillWrite
  refine .conseq (retireMigrationClaim_spec hm hsteady.recordOK
    fun w1 hi1 hul hstatus _ hgate => ?_) fun m' w' _ hq ht hnone => hq ?_
  · obtain ⟨hclaim, how⟩ := retired_steps md he (hstatus ▸ hop) (hstatus ▸ howed)
      fun ht hmd hnot => hul.retirable (hquiet ht hmd hnot)
    exact Steady.step (hstatus ▸ hsteady) hgate hclaim how (hreading w1 hul.reading hstatus)
  · rcases retiredStatus_owed op s he with h | ⟨_, htype, _⟩
    · rw [h, howed, hnone]
    · exact absurd htype ht

/-- A retirement that records the run of the Apply `op`. -/
theorem retireRecord_spec (hm : At md w m) (he : Ending disposition mayStillWrite)
    (hop : m.status.activeOperation = some op) (ht : op.type = .apply)
    (hnone : m.status.unresolvedRun = none) {run : UnresolvedRun} (hok : run.Decodes)
    (hid : run.operationID = op.id) (hrun : s.unresolvedRun = some run)
    (hr : s.resolvedRun = m.status.resolvedRun) (hhist : s.history = m.status.history)
    (hphase : s.phase = .blocked)
    (howed : s.pendingLockRelease = m.status.pendingLockRelease)
    (hquiet : md.restores = false → ¬ (disposition = .unaccounted ∧ mayStillWrite = true) →
      w.Retirable op) : Walks md (retireMigrationClaim m op s disposition mayStillWrite) w := by
  have hrec : (retiredStatus op s disposition mayStillWrite).unresolvedRun = some run := by
    rw [retiredStatus_unresolvedRun, hrun]
  refine .forget (retireMigrationClaim_spec hm (fun run' hrun' => ?_)
    fun w1 hi1 hul hstatus hcopy hgate => ?_)
  · rw [hrec] at hrun'
    cases hrun'
    exact .inr ⟨hnone, hok, .inr ⟨op, hop, ht, hid⟩⟩
  obtain ⟨hclaim, how⟩ := retired_steps md he (hstatus ▸ hop) (hstatus ▸ howed)
    fun _ hmd hnot => hul.retirable (hquiet hmd hnot)
  refine ⟨?_, hclaim, how, ?_, ?_, ?_, hgate⟩
  · refine .record op run (hstatus ▸ hop) ht (hstatus ▸ hnone) hid ?_ hok hrec ?_ ?_ ?_
    · rw [hcopy, copyBefore, hrec]
    · rw [retiredStatus_resolvedRun, hr, hstatus]
    · rw [retiredStatus_activeOperation]
      split
      · exact .inr rfl
      · exact .inl rfl
    · rw [retiredStatus_phase, hphase]
  · rw [hstatus]
    unfold Status.Identified
    rw [retiredStatus_history, hhist]
    exact id
  · rw [retiredStatus_phase, hphase]
    exact fun _ => .inl (by simp)
  · exact .of_type (hstatus ▸ hop) (by simp [ht])

theorem discardMigrationOperation_spec (hm : At md w m) (hop : m.status.activeOperation = some op)
    (failure : String) (hquiet : op.type = .apply → md.restores = false → w.Retirable op)
    (hread : op.type = .history → w.reading = none) :
    Walks md (discardMigrationOperation m op failure) w := by
  refine .forget (retireSteady_spec hm .discard hop ⟨rfl, rfl, rfl,
    .inr (show Phase.pending.calm by decide)⟩ rfl (fun ht hmd _ => hquiet ht hmd) fun w1 hw1 hstatus => ?_)
  by_cases ht : op.type = .history
  · exact .of_unread (hw1.trans (hread ht))
  · exact .of_type (hstatus ▸ hop) ht

/-! ### Runs -/

theorem dispatcherRecord_valid {record : ManagerRecord}
    (h : dispatcherRecord job = some record) : validManagerRecord record = true := by
  unfold dispatcherRecord at h
  split at h
  · rename_i hv
    cases h
    simp only [Bool.and_eq_true] at hv
    exact hv.1
  · cases h

/-- A run a pass records: what it names is what a copy decodes to. -/
structure RunOK (run : RunStatus) : Prop where
  jobName : run.jobName.utf8ByteSize ≤ 253
  dispatchedBy : ∀ record, run.dispatchedBy = some record → validManagerRecord record = true

theorem migrationRunTarget_ok {s : Status} (hs : s.Identified) (reportedTarget : String) :
    migrationRunTarget s reportedTarget = "" ∨
      sha256Digest (migrationRunTarget s reportedTarget) = true := by
  unfold migrationRunTarget
  split
  · exact .inr ‹_›
  cases hh : s.history with
  | none => exact .inl rfl
  | some history => exact .inr (hs history hh)

theorem recordUnresolvedMigrationRun_spec (hop : ApplyOK op) {s : Status} (hs : s.Identified)
    {run : RunStatus} (hrun : RunOK run) (hout : run.outcome.unresolved = true)
    (reportedTarget : String) (hat : recordedAt ≠ (0 : Int)) :
    ∃ unresolved, recordUnresolvedMigrationRun s op run reportedTarget recordedAt =
        { s with unresolvedRun := some unresolved } ∧
      unresolved.Decodes ∧ unresolved.operationID = op.id := by
  obtain ⟨reference, href, hname, huid⟩ := hop.plan
  simp only [recordUnresolvedMigrationRun, href]
  refine ⟨_, rfl, ?_, rfl⟩
  have hby : run.dispatchedBy.any (!validManagerRecord ·) = false := by
    cases hd : run.dispatchedBy with
    | none => rfl
    | some record => simp [hrun.dispatchedBy record hd]
  have htarget := migrationRunTarget_ok hs reportedTarget
  simp only [UnresolvedRun.Decodes, checkUnresolvedRun, hout, hop.id, hname, huid, hby,
    Bool.not_true, Bool.false_eq_true, if_false, Bool.or_self, Bool.and_eq_true,
    decide_eq_true_eq, Bool.not_eq_true', ne_eq, hat]
  rw [if_neg (by rcases htarget with h | h <;> simp [h]), if_neg (by have := hrun.jobName; omega)]

theorem jobName_ok (hi : Reach md w) {id name : String} (h : w.Found id name job) :
    job.name.utf8ByteSize ≤ 253 := by
  obtain ⟨j, hj, -, hn⟩ := h.known
  exact hn ▸ (hi.store.name j hj).2

theorem uncertainRun_ok (hi : Reach md w) (hop : ApplyOK op) {job : Option Job}
    (hjob : ∀ j, job = some j → w.Found op.id op.jobName j) (failure reportedTarget : String)
    (finishedAt : Time) :
    RunOK (uncertainRun op job failure reportedTarget finishedAt) := by
  have hclaimed run (hrun : RunOK run) (hby : run.dispatchedBy = none) :
      RunOK (if op.jobUID ≠ "" then { run with jobName := op.jobName, jobUID := op.jobUID }
        else run) := by
    split
    · exact ⟨hop.jobName, by simp [hby]⟩
    · exact hrun
  obtain ⟨h1, h2⟩ := hclaimed
    { outcome := .unknown, startedAt := op.startedAt, finishedAt := some finishedAt
      message := bounded failure 1024 } ⟨show "".utf8ByteSize ≤ 253 by decide, by simp⟩ rfl
  unfold uncertainRun recordMigrationRunProvenance
  cases job with
  | none => exact ⟨h1, h2⟩
  | some j =>
    simp only
    split
    · exact ⟨jobName_ok hi (hjob j rfl), fun record h => dispatcherRecord_valid h⟩
    · exact ⟨h1, h2⟩

theorem uncertainRun_outcome (op : Operation) (job : Option Job) (failure reportedTarget : String)
    (finishedAt : Time) :
    (uncertainRun op job failure reportedTarget finishedAt).outcome = .unknown := by
  unfold uncertainRun recordMigrationRunProvenance
  cases job with
  | none => simp only; split <;> rfl
  | some j =>
    simp only
    repeat' split
    all_goals rfl

/-- What a pass knows of the Apply it is about to retire. -/
structure Dispatched (md : Mode) (w : World) (m : PtahMigration) (op : Operation) : Prop where
  holds : At md w m
  active : m.status.activeOperation = some op
  type : op.type = .apply
  unrecorded : m.status.unresolvedRun = none

namespace Dispatched

variable (h : Dispatched md w m op)
include h

theorem ok : ApplyOK op := by
  obtain ⟨w0, hi, rfl⟩ := h.holds.seen
  exact hi.claim.apply op h.active h.type

theorem identified : m.status.Identified := by
  obtain ⟨w0, hi, rfl⟩ := h.holds.seen
  exact hi.claim.identified

theorem still (hs : Still md w w') : Dispatched md w' m op :=
  ⟨h.holds.still hs, h.active, h.type, h.unrecorded⟩

theorem claimJobs (hi : Reach md w) (hmd : md.restores = false) : ClaimJobs w op :=
  hi.claimJobs hmd ((h.holds.held hmd).1 ▸ h.active) h.type

end Dispatched

theorem uncertainStatus_spec (hi : Reach md w) (h : Dispatched md w m op) {job : Option Job}
    (hjob : ∀ j, job = some j → w.Found op.id op.jobName j) (failure reportedTarget : String)
    (finishedAt : Time) (hat : recordedAt ≠ (0 : Int)) (next : Time) :
    ∃ run s, uncertainStatus m.status op job failure reportedTarget finishedAt recordedAt next = s ∧
      run.Decodes ∧ run.operationID = op.id ∧ s.unresolvedRun = some run ∧
      s.resolvedRun = m.status.resolvedRun ∧ s.history = m.status.history ∧ s.phase = .blocked ∧
      s.pendingLockRelease = m.status.pendingLockRelease := by
  obtain ⟨run, heq, hok, hid⟩ := recordUnresolvedMigrationRun_spec h.ok
    (s := { m.status with
      lastRun := some (uncertainRun op job failure reportedTarget finishedAt) })
    h.identified
    (uncertainRun_ok hi h.ok hjob failure reportedTarget finishedAt)
    (by rw [uncertainRun_outcome]; rfl) reportedTarget hat
  refine ⟨run, _, rfl, hok, hid, ?_⟩
  simp only [uncertainStatus, heq]
  exact ⟨rfl, rfl, rfl, rfl, rfl⟩

theorem retireUncertainMigrationApply_spec (hi : Reach md w) (h : Dispatched md w m op)
    {job : Option Job} (hjob : ∀ j, job = some j → w.Found op.id op.jobName j)
    (failure reportedTarget : String)
    (hquiet : md.restores = false → mayStillWrite = false → w.Retirable op) :
    Walks md (retireUncertainMigrationApply m op job failure reportedTarget mayStillWrite) w := by
  -- The cleanup, the clock and the next deadline are silent.
  have hrest {w1 : World} (hi1 : Reach md w1) (h1 : Still md w w1) : Walks md (do
      let finishedAt ← now
      let recordedAt ← now
      let next ← ask .deadline
      retireMigrationClaim m op
        (uncertainStatus m.status op job failure reportedTarget finishedAt recordedAt next)
        .unaccounted mayStillWrite) w1 := by
    refine now_spec.follows fun finishedAt w2 hi2 h2 _ => ?_
    refine now_spec.follows fun recordedAt w3 hi3 h3 hat => ?_
    refine (ask_free .deadline).follows fun next w4 hi4 h4 _ => ?_
    have hs := ((h1.trans h2).trans h3).trans h4
    have hk := hs.1.kept.toStoreKept
    obtain ⟨run, s, heq, hok, hid, hrun, hr, hhist, hphase, howed⟩ :=
      uncertainStatus_spec hi4 (h.still hs) (fun j hj => hk.found (hjob j hj)) failure
        reportedTarget finishedAt hat next
    rw [heq]
    refine retireRecord_spec (h.holds.still hs) (.unaccounted mayStillWrite) h.active h.type
      h.unrecorded hok hid hrun hr hhist hphase howed fun hmd hnot => hk.retirable (hquiet hmd ?_)
    simpa using hnot
  cases job with
  | none => exact hrest hi (.refl w)
  | some j =>
    refine (patchJob_spec j.name).attempt.follows fun _ w1 hi1 h1 _ => ?_
    exact hrest hi1 h1

theorem finishUncertainMigrationApply_spec (hi : Reach md w) (h : Dispatched md w m op)
    {job : Option Job} (hjob : ∀ j, job = some j → w.Found op.id op.jobName j)
    (failure reportedTarget : String) :
    Walks md (finishUncertainMigrationApply m op job failure reportedTarget) w := by
  refine (dispatchedApplyMayStillWrite_spec hi (h.claimJobs hi) hjob).follows
    fun mayStillWrite w1 hi1 h1 hb => ?_
  exact retireUncertainMigrationApply_spec hi1 (h.still h1)
    (fun j hj => h1.1.kept.found (hjob j hj)) failure reportedTarget hb

theorem runStatus_spec (hi : Reach md w) (h : Dispatched md w m op)
    (hjob : w.Found op.id op.jobName job) (run : RunAccount) (reportedTarget : String)
    (finishedAt : Time) (hat : recordedAt ≠ (0 : Int)) (next : Time) :
    let s := runStatus m.status op job run reportedTarget finishedAt recordedAt next
    s.pendingLockRelease = m.status.pendingLockRelease ∧ (Steady m.status s ∨
      ∃ unresolved : UnresolvedRun, unresolved.Decodes ∧ unresolved.operationID = op.id ∧
        s.unresolvedRun = some unresolved ∧ s.resolvedRun = m.status.resolvedRun ∧
        s.history = m.status.history ∧ s.phase = .blocked) := by
  simp only [runStatus]
  generalize hlast : recordMigrationRunProvenance _ op reportedTarget = last
  have hrun : RunOK last ∧ last.outcome = run.outcome := by
    rw [← hlast]
    exact ⟨⟨jobName_ok hi hjob, fun record hr => dispatcherRecord_valid hr⟩, rfl⟩
  -- The status in front of the record differs from the one that was read in nothing recorded.
  have hbase : ∃ conditions, (if run.openedTarget then
        { m.status with lastRun := some last, plan := none }.setCondition .databaseReachable .isTrue
          "Observed" "The Apply opened the database"
      else { m.status with lastRun := some last, plan := none }) =
        { m.status with lastRun := some last, plan := none, conditions := conditions } := by
    split <;> exact ⟨_, rfl⟩
  obtain ⟨conditions, hb⟩ := hbase
  rw [hb]
  cases hout : run.outcome.unresolved with
  | true =>
    obtain ⟨unresolved, heq, hok, hid⟩ := recordUnresolvedMigrationRun_spec h.ok
      (s := { m.status with lastRun := some last, plan := none, conditions := conditions })
      h.identified hrun.1 (hrun.2 ▸ hout) reportedTarget hat
    simp only [if_true, heq]
    exact ⟨rfl, .inr ⟨unresolved, hok, hid, rfl, rfl, rfl, rfl⟩⟩
  | false =>
    simp only [Bool.false_eq_true, if_false]
    split
    · exact ⟨rfl, .inl ⟨rfl, rfl, rfl, .inr (show Phase.failed.calm by decide)⟩⟩
    · exact ⟨rfl, .inl ⟨rfl, rfl, rfl, .inr (show Phase.verifyingHistory.calm by decide)⟩⟩

theorem recordMigrationRun_spec (h : Dispatched md w m op)
    (hjob : w.Found op.id op.jobName job) (run : RunAccount) (reportedTarget : String)
    (hquiet : md.restores = false → w.Retirable op) :
    Walks md (recordMigrationRun m op job run reportedTarget) w := by
  refine (patchJob_spec job.name).follows fun _ w1 hi1 h1 _ => ?_
  refine now_spec.follows fun finishedAt w2 hi2 h2 _ => ?_
  refine now_spec.follows fun recordedAt w3 hi3 h3 hat => ?_
  refine (ask_free .deadline).follows fun next w4 hi4 h4 _ => ?_
  have hs := ((h1.trans h2).trans h3).trans h4
  have hk := hs.1.kept.toStoreKept
  have hm := h.holds.still hs
  obtain ⟨howed, hsteady | ⟨unresolved, hok, hid, hrun, hr, hhist, hphase⟩⟩ :=
    runStatus_spec hi4 (h.still hs) (hk.found hjob) run reportedTarget finishedAt hat next
  · refine .forget (retireSteady_spec hm .accounted h.active hsteady howed
      (fun _ hmd _ => hk.retirable (hquiet hmd)) fun w5 _ hstatus => ?_)
    exact .of_type (hstatus ▸ h.active) (by simp [h.type])
  · exact retireRecord_spec hm .accounted h.active h.type h.unrecorded hok hid hrun hr hhist hphase
      howed fun hmd _ => hk.retirable (hquiet hmd)

theorem settleMigrationApply_spec (hi : Reach md w) (h : Dispatched md w m op)
    (hjob : w.Found op.id op.jobName job) (reported : ReportedApply)
    (hquiet : md.restores = false → w.Retirable op) :
    Walks md (settleMigrationApply m op job reported) w := by
  have hsome : ∀ j, some job = some j → w.Found op.id op.jobName j := by
    rintro j ⟨⟩
    exact hjob
  unfold settleMigrationApply
  split
  · exact finishUncertainMigrationApply_spec hi h hsome _ _
  simp only
  split
  · exact finishUncertainMigrationApply_spec hi h hsome _ _
  · exact recordMigrationRun_spec h hjob _ _ hquiet

end Retire

end Ptah.Migration
