import PtahOperator.Migration.Runs.Latch

/-!
# The database is not handed over under a live executor

- **`handover_after_executor`**: a write that ends the claim of an Apply is made when nothing of its
  Jobs can run, and nothing of them runs afterwards; the exception is a claim that recorded no Job
  and whose Job is gone. Every lock epoch that was stored on a claim is still the claim's, or was
  replaced on it, owed, released, or could not be recorded as owed.
- **`handover_exceptions`**: the exceptions are real.
-/

namespace Ptah.Migration

open Conc DataPlane Lifecycle

variable {digestHistory : MigrationStatusReport → String} {σ : RunState} {w w' : World}

/-! ## Jobs after the claim -/

/-- What a write that ended the claim `op`, with these Jobs in the store, left behind. -/
def HandedOver (w : World) (op : Operation) (jobs : List Job) : Prop :=
  w.Quiet op.id ∨ (op.jobUID = "" ∧ w.JobLost op.id jobs)

variable {op : Operation} {jobs : List Job} {e : StatusWrite} {id : String}

theorem StoreKept.handedOver (h : StoreKept w w')
    (hh : HandedOver w op jobs) : HandedOver w' op jobs := by
  rcases hh with hq | ⟨hu, j, hj, hlost⟩
  · refine .inl fun j hj => ?_
    rw [h.jobsOf] at hj
    exact h.quiet j.uid (World.stored_of_jobsOf hj) (hq j hj)
  · exact .inr ⟨hu, j, by rwa [h.jobsOf], hlost⟩

theorem HandedOver.addJob {job : Job}
    (hh : HandedOver w op jobs) (hother : job.operationID ≠ op.id) (huid : w.NewJobUID job.uid) :
    HandedOver (w.addJob job) op jobs := by
  have hjobsOf : (w.addJob job).jobsOf op.id = w.jobsOf op.id := by
    rw [World.jobsOf, World.addJob, List.filter_cons_of_neg (by simp [hother])]
    rfl
  rcases hh with hq | ⟨hu, j, hj, hlost⟩
  · refine .inl fun j hj => ?_
    rw [hjobsOf] at hj
    obtain ⟨hterm, hpods⟩ := hq j hj
    refine ⟨fun k hk hku => ?_, hpods⟩
    rcases hk with _ | ⟨_, hk⟩
    · obtain ⟨stored, hs, hsu⟩ := World.stored_of_jobsOf hj
      exact absurd (hsu.trans hku.symm) (huid.2.1 stored hs)
    · exact hterm k hk hku
  · exact .inr ⟨hu, j, by rwa [hjobsOf], hlost⟩

/-- A claim that has ended gets no further Job, and what was quiet stays quiet. -/
theorem Move.handedOver (h : Move kept w w')
    (he : Ended w op.id) (hh : HandedOver w op jobs) : HandedOver w' op jobs := by
  have hsame hjobs hever hpods : HandedOver w' op jobs :=
    (StoreKept.same hjobs hever hpods).handedOver hh
  cases h with
  | silent h => exact h.kept.handedOver hh
  | stored job uid hmay hname huid =>
    obtain ⟨active, hop, hid, -⟩ := hmay rfl
    refine HandedOver.addJob hh (fun heq => ?_) huid
    have hactive := Status.activeIs_iff.2 ⟨active, hop, hid.symm.trans heq⟩
    rw [he.inactive] at hactive
    cases hactive
  | _ => exact hsame rfl rfl rfl

/-- The write ends the claim `op` of an Apply. -/
structure StatusWrite.Ends (e : StatusWrite) (op : Operation) : Prop where
  before : e.before.activeOperation = some op
  type : op.type = .apply
  after : e.after.activeOperation = none

theorem StatusStep.retirable {s : Status} (h : StatusStep kept w s)
    (he : (w.statusWrite s).Ends op) : w.Retirable op := by
  have hop : w.migration.status.activeOperation = some op := he.before
  have hnone : s.activeOperation = none := he.after
  cases h.claim with
  | keep hsame => rw [hsame, hop] at hnone; cases hnone
  | take _ _ hsome => rw [hnone] at hsome; cases hsome
  | tend _ _ _ hsome => rw [hnone] at hsome; cases hsome
  | retire op' hop' _ happly =>
    cases hop'.symm.trans hop
    exact (happly he.type).1 rfl

/-- From the write that ends a claim on, nothing of its Jobs can run. -/
theorem Reach.handedOver (h : Reach kept w)
    (hmem : .status e ∈ w.log) (he : e.Ends op) : Ended w op.id ∧ HandedOver w op e.jobs := by
  induction h with
  | init hw => simp [hw.log] at hmem
  | @step w w' hr hs ih =>
    have hold (hmem : .status e ∈ w.log) : Ended w' op.id ∧ HandedOver w' op e.jobs := by
      obtain ⟨hended, hh⟩ := ih hmem
      exact ⟨hs.ended hended, hs.handedOver hended hh⟩
    cases hs with
    | status s hstep =>
      rcases List.mem_cons.1 hmem with heq | hmem
      · cases heq
        have hactive := Status.activeIs_iff.2 ⟨op, he.before, rfl⟩
        exact ⟨.of_retired hr hactive he.after, hstep.retirable he⟩
      · exact hold hmem
    | silent h => exact hold (h.kept.log ▸ hmem)
    | finalizer present => exact hold hmem
    | copy value h => exact hold hmem
    | stale uid => exact hold hmem
    | _ => exact hold (by simpa [World.note, World.addJob, World.markApproval] using hmem)

/-! ## Epochs -/

/-- The status holds the claim `id` of an Apply with this lock epoch. -/
def Status.HoldsEpoch (s : Status) (id epoch : String) : Prop :=
  ∃ op, s.activeOperation = some op ∧ op.type = .apply ∧ op.id = id ∧ op.leaseEpoch = epoch

def LockRelease.Names (owed : LockRelease) (id epoch : String) : Prop :=
  owed.operationID = id ∧ owed.leaseEpoch = epoch

/-- What became of a lock epoch that was stored on a claim. -/
inductive EpochFate (w : World) (id epoch : String) : Prop where
  | held (h : w.migration.status.HoldsEpoch id epoch)
  | owed (owed : LockRelease) (h : w.migration.status.pendingLockRelease = some owed)
      (hnames : owed.Names id epoch)
  | released (owed : LockRelease) (h : .released owed ∈ w.log) (hnames : owed.Names id epoch)
  /-- The claim went on with an epoch that was acquired anew. -/
  | replaced (e : StatusWrite) (newer : String) (he : .status e ∈ w.log)
      (hbefore : e.before.HoldsEpoch id epoch) (hafter : e.after.HoldsEpoch id newer)
      (hacquired : .acquired id newer ∈ w.log)
  /-- The release could not be recorded, and the Lease expires. -/
  | expires (e : StatusWrite) (op : Operation) (he : .status e ∈ w.log) (hends : e.Ends op)
      (hid : op.id = id) (hepoch : op.leaseEpoch = epoch)
      (hrefused : (∀ owed, owedRelease op ≠ .ok owed) ∨ e.before.pendingLockRelease ≠ none)

theorem owedRelease_names {owed : LockRelease} (h : owedRelease op = .ok owed) :
    owed.Names op.id op.leaseEpoch := by
  unfold owedRelease at h
  split at h
  · cases h
  · cases h
    exact ⟨rfl, rfl⟩

/-- What a write that keeps the claim of an Apply does to its epoch. -/
theorem ApplyTended.epoch {restores : Bool} {op' : Operation} (h : ApplyTended restores w op op') :
    op'.leaseEpoch = op.leaseEpoch ∨ .acquired op.id op'.leaseEpoch ∈ w.log := by
  cases h with
  | tend epoch lost snapshot refreshed h hepoch => subst h; exact hepoch
  | mark h => subst h; exact .inl rfl
  | withdraw h => subst h; exact .inl rfl
  | record job h => subst h; exact .inl rfl

theorem EpochFate.status {s : Status} {epoch : String} (h : EpochFate w id epoch)
    (hs : StatusStep kept w s) : EpochFate (w.writeStatus s) id epoch := by
  have hlog {e : Event} he : e ∈ (w.writeStatus s).log := .tail _ he
  have hnew : .status (w.statusWrite s) ∈ (w.writeStatus s).log := .head _
  cases h with
  | held h =>
    obtain ⟨op, hop, ht, rfl, rfl⟩ := h
    cases hs.claim with
    | keep hsame => exact .held ⟨op, hsame.trans hop, ht, rfl, rfl⟩
    | take _ hnone => rw [hnone] at hop; cases hop
    | tend o op' ho hop' hid htype happly =>
      cases ho.symm.trans hop
      by_cases hsame : op'.leaseEpoch = op.leaseEpoch
      · exact .held ⟨op', hop', htype.trans ht, hid, hsame⟩
      · exact .replaced _ op'.leaseEpoch hnew ⟨op, hop, ht, rfl, rfl⟩
          ⟨op', hop', htype.trans ht, hid, rfl⟩ (hlog ((happly ht).epoch.resolve_left hsame))
    | retire o ho hnone happly =>
      cases ho.symm.trans hop
      have hends : (w.statusWrite s).Ends op := ⟨hop, ht, hnone⟩
      by_cases hpending : w.migration.status.pendingLockRelease = none
      · cases howed : owedRelease op with
        | ok owed => exact .owed owed ((happly ht).2 owed howed hpending) (owedRelease_names howed)
        | error e => exact .expires _ op hnew hends rfl rfl (.inl fun owed h => by simp [howed] at h)
      · exact .expires _ op hnew hends rfl rfl (.inr hpending)
  | owed owed h hnames =>
    cases hs.owed with
    | keep hsame => exact .owed owed (hsame.trans h) hnames
    | stage _ _ _ _ _ hnone => rw [hnone] at h; cases h
    | clear owed' hsome _ hreleased =>
      cases hsome.symm.trans h
      exact .released owed (hlog hreleased) hnames
  | released owed h hnames => exact .released owed (hlog h) hnames
  | replaced e newer he hbefore hafter hacquired =>
    exact .replaced e newer (hlog he) hbefore hafter (hlog hacquired)
  | expires e op he hends hid hepoch hrefused =>
    exact .expires e op (hlog he) hends hid hepoch hrefused

theorem EpochFate.congr {epoch : String} (h : EpochFate w id epoch)
    (hstatus : w'.migration.status = w.migration.status) (hlog : ∀ e ∈ w.log, e ∈ w'.log) :
    EpochFate w' id epoch := by
  cases h with
  | held h => exact .held (hstatus ▸ h)
  | owed owed h hnames => exact .owed owed (hstatus ▸ h) hnames
  | released owed h hnames => exact .released owed (hlog _ h) hnames
  | replaced e newer he hbefore hafter hacquired =>
    exact .replaced e newer (hlog _ he) hbefore hafter (hlog _ hacquired)
  | expires e op he hends hid hepoch hrefused =>
    exact .expires e op (hlog _ he) hends hid hepoch hrefused

/-- Every epoch that a status write stored on the claim of an Apply is accounted for. -/
theorem Reach.epoch (h : Reach kept w) {epoch : String}
    (hmem : .status e ∈ w.log) (he : e.after.HoldsEpoch id epoch) : EpochFate w id epoch := by
  induction h with
  | init hw => simp [hw.log] at hmem
  | @step w w' hr hs ih =>
    cases hs with
    | status s hstep =>
      rcases List.mem_cons.1 hmem with heq | hmem
      · cases heq
        exact .held he
      · exact (ih hmem).status hstep
    | silent h =>
      refine (ih (h.kept.log ▸ hmem)).congr ?_ fun _ he => by rwa [h.kept.log]
      cases h with
      | env h =>
        cases h with
        | edit m huid hstatus hcopy => exact hstatus
        | restore m hmode => cases hmode
        | _ => rfl
      | _ => rfl
    | finalizer present => exact (ih hmem).congr rfl fun _ h => h
    | copy value h => exact (ih hmem).congr rfl fun _ h => h
    | stale uid => exact (ih hmem).congr rfl fun _ h => h
    | _ =>
      refine (ih (by simpa [World.note, World.addJob, World.markApproval] using hmem)).congr rfl ?_
      exact fun _ h => .tail _ h

/-! ## The hand-over -/

/-- The database is not handed over under a live executor.

In every run, of every write that ends the claim of an Apply: from that write on nothing of the
claim's Jobs can run, unless the claim had recorded no Job and a Job of it was already gone. A
release is staged only by such a write. A write that keeps the claim of an Apply keeps its epoch or
stores one that was acquired for the claim. And every epoch that was stored on a claim is held,
owed, released, replaced, or left to expire because its release could not be recorded. -/
theorem handover_after_executor (h : Runs kept digestHistory σ) :
    (∀ e op, .status e ∈ σ.world.log → e.Ends op → σ.world.Quiet op.id ∨
      (op.jobUID = "" ∧ ∃ j ∈ σ.world.jobsOf op.id, ∀ k ∈ e.jobs, k.uid ≠ j.uid)) ∧
    (∀ e owed, .status e ∈ σ.world.log → e.after.pendingLockRelease = some owed →
      e.before.pendingLockRelease ≠ some owed → ∃ op, e.Ends op ∧ owedRelease op = .ok owed) ∧
    (∀ older e op, .status e :: older <:+ σ.world.log → e.before.activeOperation = some op →
      op.type = .apply → ¬ e.Ends op → ∃ op', e.after.activeOperation = some op' ∧
        op'.id = op.id ∧ (op'.leaseEpoch = op.leaseEpoch ∨ .acquired op.id op'.leaseEpoch ∈ older)) ∧
    (∀ e id epoch, .status e ∈ σ.world.log → e.after.HoldsEpoch id epoch →
      EpochFate σ.world id epoch) := by
  refine ⟨fun e op he hends => (h.reach.handedOver he hends).2, ?_, ?_,
    fun e id epoch he hepoch => h.reach.epoch he hepoch⟩
  · intro e owed he
    refine h.reach.each_written (fun e => e.after.pendingLockRelease = some owed →
      e.before.pendingLockRelease ≠ some owed → ∃ op, e.Ends op ∧ owedRelease op = .ok owed)
      (fun w s _ hs hafter hbefore => ?_) he
    cases hs.owed with
    | keep hsame => exact absurd (hsame.symm.trans hafter) hbefore
    | stage op owed' hop ht howed _ hsome hnone =>
      cases hsome.symm.trans hafter
      exact ⟨op, ⟨hop, ht, hnone⟩, howed⟩
    | clear _ _ hnone => cases hnone.symm.trans hafter
  · intro older e op he
    refine h.reach.written (fun older e => ∀ op, e.before.activeOperation = some op →
      op.type = .apply → ¬ e.Ends op → ∃ op', e.after.activeOperation = some op' ∧
        op'.id = op.id ∧ (op'.leaseEpoch = op.leaseEpoch ∨ .acquired op.id op'.leaseEpoch ∈ older))
      (fun w s _ hs op hop ht hnot => ?_) he op
    have hop : w.migration.status.activeOperation = some op := hop
    cases hs.claim with
    | keep hsame => exact ⟨op, hsame.trans hop, rfl, .inl rfl⟩
    | take _ hnone => rw [hnone] at hop; cases hop
    | tend o op' ho hop' hid _ happly =>
      cases ho.symm.trans hop
      exact ⟨op', hop', hid, (happly ht).epoch⟩
    | retire _ _ hnone => exact absurd ⟨hop, ht, hnone⟩ hnot

/-! ### Runs -/

/-- The write ends the claim `id` of an Apply and stages its release. -/
def StatusWrite.handsOver (e : StatusWrite) (id : String) : Bool :=
  e.before.activeOperation.any (fun op => op.type = .apply && op.id = id) &&
    e.after.activeOperation.isNone && e.before.pendingLockRelease.isNone &&
    e.after.pendingLockRelease.any (·.operationID = id)

theorem StatusWrite.handsOver_ends (h : e.handsOver id = true) : ∃ op, e.Ends op ∧ op.id = id := by
  simp only [handsOver, Bool.and_eq_true, Option.any_eq_true, decide_eq_true_eq,
    Option.isNone_iff_eq_none] at h
  obtain ⟨⟨⟨⟨op, hop, ht, hid⟩, hnone⟩, -⟩, -⟩ := h
  exact ⟨op, ⟨hop, ht, hnone⟩, hid⟩

instance (w : World) (id : String) : Decidable (w.Quiet id) := by
  unfold World.Quiet World.JobQuiet
  infer_instance

/-- An Apply that runs and is read as applied. -/
def completedRun : World :=
  Script.pass (fun _ => "") (List.replicate 12 .go ++ [appliedResult] ++ List.replicate 12 .go)
    (Script.jobDone "u" (Script.podStarted (Script.pod true)
      (Script.passes (fun _ => "") (List.replicate 4 (List.replicate 20 .go))
        (Script.start .always []))))

theorem completedRun_runs : ∃ running, Runs kept (fun _ => "") ⟨completedRun, running⟩ := by
  have hstart : Runs kept (fun _ => "") ⟨Script.start .always [], none⟩ :=
    Script.start_runs .always (by simp)
  obtain ⟨_, hsent⟩ := Script.passes_runs rfl hstart (List.replicate 4 (List.replicate 20 .go))
  have hdone := Script.jobDone_runs
    (Script.podStarted_runs (p := Script.pod true) hsent (by decide +kernel)) "u"
  exact Script.pass_runs hdone (fun hc => by cases hc) _

/-- The claim of the run ended with its release staged, and nothing of its Job can run. -/
theorem completedRun_handed_over :
    ∃ e op, .status e ∈ completedRun.log ∧ e.Ends op ∧ op.id = Script.operationID 0 ∧
      (completedRun.Quiet op.id ∨ (op.jobUID = "" ∧
        ∃ j ∈ completedRun.jobsOf op.id, ∀ k ∈ e.jobs, k.uid ≠ j.uid)) := by
  obtain ⟨running, hrun⟩ := completedRun_runs
  have hover : (statuses completedRun.log).any (·.handsOver (Script.operationID 0)) = true := by
    decide +kernel
  obtain ⟨e, he, hands⟩ := List.any_eq_true.1 hover
  obtain ⟨op, hends, hid⟩ := StatusWrite.handsOver_ends hands
  have hmem : .status e ∈ completedRun.log := mem_statuses.1 he
  exact ⟨e, op, hmem, hends, hid, (handover_after_executor hrun).1 e op hmem hends⟩

/-- No operation ID is claimed twice, and no Job is asked for under that of an Apply claim that has
ended. -/
theorem ended_for_good (h : Runs kept digestHistory σ) (older : List Event) :
    (∀ e op, .status e :: older <:+ σ.world.log → e.claimed = some op → op.id ∉ claimedIDs older) ∧
    ∀ claim job refused e op, .create claim job refused :: older <:+ σ.world.log →
      .status e ∈ older → e.Ends op → job.operationID ≠ op.id := by
  refine ⟨fun e op he => h.reach.written (fun older e => e.claimed = some op → op.id ∉ claimedIDs older)
    (fun _ _ _ hs hop => (hs.taken hop).new) he, fun claim job refused e op he hold hends => ?_⟩
  have hlog : Logged (fun older event => ∀ claim job refused, event = .create claim job refused →
      .status e ∈ older → job.operationID ≠ op.id) σ.world.log := by
    refine h.reach.logged fun w event hr hem claim job refused heq hold hid => ?_
    cases hem with
    | create job refused hmay =>
      -- The Job is the active claim's, which the ended one is not.
      cases heq
      obtain ⟨active, hactive, hjob, -⟩ := hmay rfl
      have his := Status.activeIs_iff.2 ⟨active, hactive, hjob.symm.trans hid⟩
      rw [(hr.handedOver hold hends).1.inactive] at his
      cases his
    | _ => cases heq
  exact hlog older _ he claim job refused rfl hold

theorem completedRun_ended_for_good : ∃ running, Runs kept (fun _ => "") ⟨completedRun, running⟩ ∧
    ∀ older e op, .status e :: older <:+ completedRun.log → e.claimed = some op →
      op.id ∉ claimedIDs older :=
  let ⟨running, h⟩ := completedRun_runs
  ⟨running, h, fun older => (ended_for_good h older).1⟩

/-- The create of an Apply is answered by an error, its Job is deleted while its Pod runs, and the
next pass finds no Job under the name. -/
def orphanRun : World :=
  Script.pass (fun _ => "") (List.replicate 20 .go)
    (Script.jobGone "u" (Script.podStarted (Script.pod false)
      (Script.passes (fun _ => "") (List.replicate 3 (List.replicate 20 .go) ++
        [List.replicate 15 .go ++ [.lost]]) (Script.start .always []))))

/-- The result of an Apply is read while its Pod runs on behind its executor container. -/
def lingeringRun : World :=
  Script.pass (fun _ => "") (List.replicate 12 .go ++ [appliedResult] ++ List.replicate 12 .go)
    (Script.jobDone "u" (Script.podStarted { Script.pod true with phase := .running }
      (Script.passes (fun _ => "") (List.replicate 4 (List.replicate 20 .go))
        (Script.start .always []))))

/-- The write that would record the acquired epoch fails, and the next pass is suspended. -/
def unrecordedRun : World :=
  Script.pass (fun _ => "") (List.replicate 20 .go)
    (Script.edited { apply := .always, suspend := true }
      (Script.passes (fun _ => "") [List.replicate 20 .go, List.replicate 9 .go ++ [.fail]]
        (Script.start .always [])))

/-- The Lease is lost, and taken again for the same claim. -/
def replacedRun : World :=
  Script.passes (fun _ => "") [List.replicate 20 .go, List.replicate 20 .go,
    List.replicate 8 .go ++ [.anew] ++ List.replicate 2 .go] (Script.start .always [])

/-- The epoch is the claim's, or owed, or was released. -/
def World.accountsFor (w : World) (id epoch : String) : Bool :=
  w.migration.status.activeOperation.any (fun op => op.id = id && op.leaseEpoch = epoch) ||
    w.migration.status.pendingLockRelease.any
      (fun owed => owed.operationID = id && owed.leaseEpoch = epoch) ||
    w.log.any fun
      | .released owed => owed.operationID = id && owed.leaseEpoch = epoch
      | _ => false

/-- A release is staged while a Pod of the claim's Job runs, with a Job that the claim did not record, or
behind its executor container. An acquired epoch that was not recorded goes with the claim, whose release
is staged under the epoch it was written with; and one that was replaced is not released. -/
theorem handover_exceptions :
    (∃ running, Runs kept (fun _ => "") ⟨orphanRun, running⟩ ∧
      (statuses orphanRun.log).any (·.handsOver (Script.operationID 0)) = true ∧
      ¬ orphanRun.Quiet (Script.operationID 0)) ∧
    (∃ running, Runs kept (fun _ => "") ⟨lingeringRun, running⟩ ∧
      (statuses lingeringRun.log).any (·.handsOver (Script.operationID 0)) = true ∧
      lingeringRun.pods.any (fun pod => pod.jobUID = "u" && !pod.finished) = true) ∧
    (∃ running, Runs kept (fun _ => "") ⟨unrecordedRun, running⟩ ∧
      .acquired (Script.operationID 0) "epoch" ∈ unrecordedRun.log ∧
      (statuses unrecordedRun.log).any (·.handsOver (Script.operationID 0)) = true ∧
      unrecordedRun.accountsFor (Script.operationID 0) "epoch" = false) ∧
    ∃ running, Runs kept (fun _ => "") ⟨replacedRun, running⟩ ∧
      .acquired (Script.operationID 0) "epoch" ∈ replacedRun.log ∧
      replacedRun.migration.status.activeOperation.any (·.id = Script.operationID 0) = true ∧
      replacedRun.accountsFor (Script.operationID 0) "epoch" = false := by
  have hstart : Runs kept (fun _ => "") ⟨Script.start .always [], none⟩ :=
    Script.start_runs .always (by simp)
  refine ⟨?_, ?_, ?_, ?_⟩
  · obtain ⟨_, hlost⟩ := Script.passes_runs rfl hstart
      (List.replicate 3 (List.replicate 20 .go) ++ [List.replicate 15 .go ++ [.lost]])
    have hgone := Script.jobGone_runs
      (Script.podStarted_runs (p := Script.pod false) hlost (by decide +kernel)) "u"
    obtain ⟨running, hrun⟩ := Script.pass_runs hgone (fun hc => by cases hc) (List.replicate 20 .go)
    exact ⟨running, hrun, by decide +kernel, by decide +kernel⟩
  · obtain ⟨_, hsent⟩ := Script.passes_runs rfl hstart (List.replicate 4 (List.replicate 20 .go))
    have hdone := Script.jobDone_runs (Script.podStarted_runs
      (p := { Script.pod true with phase := .running }) hsent (by decide +kernel)) "u"
    obtain ⟨running, hrun⟩ := Script.pass_runs hdone (fun hc => by cases hc)
      (List.replicate 12 .go ++ [appliedResult] ++ List.replicate 12 .go)
    exact ⟨running, hrun, by decide +kernel, by decide +kernel⟩
  · obtain ⟨_, hfailed⟩ := Script.passes_runs rfl hstart
      [List.replicate 20 .go, List.replicate 9 .go ++ [.fail]]
    have hsuspended := Script.edited_runs hfailed { apply := .always, suspend := true }
    obtain ⟨running, hrun⟩ := Script.pass_runs hsuspended (fun hc => by cases hc)
      (List.replicate 20 .go)
    exact ⟨running, hrun, by decide +kernel, by decide +kernel, by decide +kernel⟩
  · obtain ⟨running, hrun⟩ := Script.passes_runs rfl hstart [List.replicate 20 .go,
      List.replicate 20 .go, List.replicate 8 .go ++ [.anew] ++ List.replicate 2 .go]
    exact ⟨running, hrun, by decide +kernel, by decide +kernel, by decide +kernel⟩

end Ptah.Migration
