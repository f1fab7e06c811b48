import PtahOperator.Migration.Runs.Script

/-!
# Dispatches in every run

- **`one_executor_per_apply`**: an Apply claim has at most one create request that was not refused
  and at most one Job, and every create of it was sent by a marked claim that had kept the snapshot
  of the Job.
- **`one_run_per_approval`**: the creates under one approval are creates of one claim, and no claim
  is written under another approval of a plan whose approval was spent.

The second part of each is a fact about the log: what a write rests on at the moment it is made
(`Reach.logged`).
-/

namespace Ptah.Migration

open Conc DataPlane

variable {digestHistory : MigrationStatusReport → String} {σ : RunState}

/-! ## Creates -/

/-- What a create request was sent by. -/
structure SentBy (log : List Event) (op : Operation) (job : Job) : Prop where
  operationID : job.operationID = op.id
  claimed : op.id ∈ claimedIDs log
  type : op.type = .apply ↔ TakenApply log op.id
  started : op.type = .apply → op.dispatchStarted = true
  snapshot : op.type = .apply → ∃ snapshot, op.admissionSnapshot = some snapshot ∧
    snapshot.templateDigest = job.templateDigest

theorem SentBy.status {md : Mode} {w : World} {s : Status} {op : Operation} {job : Job}
    (h : SentBy w.log op job) (hs : StatusStep md w s) :
    SentBy (.status (w.statusWrite s) :: w.log) op job := by
  refine ⟨h.operationID, ?_, ?_, h.started, h.snapshot⟩
  · obtain ⟨e, he, hid⟩ := List.mem_filterMap.1 h.claimed
    exact List.mem_filterMap.2 ⟨e, .tail _ he, hid⟩
  rw [takenApply_cons w.log rfl, h.type]
  refine ⟨.inr, fun hor => hor.resolve_left ?_⟩
  rintro ⟨o, ho, hid, -⟩
  exact (hs.taken ho).new (hid ▸ h.claimed)

theorem Reach.sentBy {w : World} (h : Reach kept w) {claim : Option Operation} {job : Job}
    {refused : Bool} (he : .create claim job refused ∈ w.log) :
    ∃ op, claim = some op ∧ SentBy w.log op job := by
  induction h with
  | init hw => simp [hw.log] at he
  | @step w w' hr hs ih =>
    rcases hs.log with hl | ⟨e, hl, hem⟩
    · rw [hl] at he ⊢
      exact ih he
    rw [hl] at he ⊢
    cases hem with
    | status s hstep =>
      obtain ⟨op, rfl, hop⟩ := ih (by simpa using he)
      exact ⟨op, rfl, hop.status hstep⟩
    | create job' refused' hmay =>
      rcases List.mem_cons.1 he with heq | he
      · cases heq
        obtain ⟨op, hop, hid, -, -, happly⟩ := hmay rfl
        refine ⟨op, hop, hid, ?_, hr.claim.type op hop, fun ht => (happly ht).marked,
          fun ht => (happly ht).snapshot⟩
        exact hr.latch.activeClaimed op.id (by simp [Status.activeIs, hop])
      · obtain ⟨op, rfl, hop⟩ := ih he
        exact ⟨op, rfl, hop.operationID, hop.claimed, hop.type, hop.started, hop.snapshot⟩
    | _ =>
      obtain ⟨op, rfl, hop⟩ := ih (by simpa using he)
      exact ⟨op, rfl, hop.operationID, hop.claimed, hop.type, hop.started, hop.snapshot⟩

/-- At most one executor for each claim of an Apply.

In every run, for every Apply claim that was written: at most one of its create requests was
answered otherwise than refused, at most one Job was ever stored for it, and each of its create
requests was sent while the stored claim was marked as dispatched and named the digest of the Pod
template that was sent. -/
theorem one_executor_per_apply (h : Runs kept digestHistory σ) (id : String)
    (hid : TakenApply σ.world.log id) :
    unrefused σ.world.log id ≤ 1 ∧ (σ.world.jobsOf id).length ≤ 1 ∧
      ∀ claim job refused, .create claim job refused ∈ σ.world.log → job.operationID = id →
        ∃ op snapshot, claim = some op ∧ op.id = id ∧ op.type = .apply ∧
          op.dispatchStarted = true ∧ op.admissionSnapshot = some snapshot ∧
          snapshot.templateDigest = job.templateDigest := by
  have hc := h.reach.create rfl
  have honce := hc.once id hid
  refine ⟨honce, Nat.le_trans (hc.jobs id) honce, fun claim job refused he hjob => ?_⟩
  obtain ⟨op, rfl, hsent⟩ := h.reach.sentBy he
  have hop : op.id = id := hsent.operationID.symm.trans hjob
  have htype : op.type = .apply := hsent.type.2 (hop ▸ hid)
  obtain ⟨snapshot, hsnap, hdigest⟩ := hsent.snapshot htype
  exact ⟨op, snapshot, rfl, hop, htype, hsent.started htype, hsnap, hdigest⟩

/-- Four passes of an Apply that needs no approval: the claim, the lock, the snapshot, and the
dispatch. -/
def dispatchedRun : World :=
  Script.passes (fun _ => "") (List.replicate 4 (List.replicate 20 .go)) (Script.start .always [])

theorem dispatchedRun_runs : ∃ running, Runs kept (fun _ => "") ⟨dispatchedRun, running⟩ :=
  Script.passes_runs rfl (Script.start_runs .always (by simp)) _

theorem dispatchedRun_one_executor : unrefused dispatchedRun.log (Script.operationID 0) = 1 ∧
      (dispatchedRun.jobsOf (Script.operationID 0)).length ≤ 1 := by
  obtain ⟨running, hrun⟩ := dispatchedRun_runs
  have htaken : TakenApply dispatchedRun.log (Script.operationID 0) := by decide +kernel
  exact ⟨by decide +kernel, (one_executor_per_apply hrun _ htaken).2.1⟩

/-! ## Approvals -/

/-- One decision, one run.

In every run: two claims that a create request was sent for under one approval are the same claim;
and a claim written after a claim under the approval `spent` went on behind Consume is under no
other approval of that plan that existed when `spent` was consumed. -/
theorem one_run_per_approval (h : Runs kept digestHistory σ) :
    (∀ c₁ j₁ r₁ c₂ j₂ r₂ uid, .create (some c₁) j₁ r₁ ∈ σ.world.log →
      .create (some c₂) j₂ r₂ ∈ σ.world.log → c₁.under uid = true → c₂.under uid = true →
      c₁.id = c₂.id) ∧
    ∀ older e op claim spent approval others other, .status e :: older <:+ σ.world.log →
      e.claimed = some op → .passedConsume (some claim) ∈ older → claim.under spent = true →
      .consumed approval others ∈ older → approval.uid = spent → other ∈ others →
      other.planUID = approval.planUID → other.uid ≠ spent → op.under other.uid = false := by
  refine ⟨(h.reach.approval rfl).one, ?_⟩
  intro older e op claim spent approval others other he hop hpassed hspent hconsumed huid hmem hplan
    hne
  have hunspent := h.reach.written (fun older e => ∀ op, e.claimed = some op →
    op.approvalRef = none ∨ Unspent older op) (fun w s _ hs op hop => ?_) he op hop
  · cases hunder : op.under other.uid with
    | false => rfl
    | true =>
      rcases hunspent with hnone | hunspent
      · simp [Operation.under, hnone] at hunder
      · exact absurd ⟨approval, others, other, hconsumed, huid, hmem, hplan, rfl, hne⟩
          ((hunspent other.uid hunder).2 claim spent hpassed hspent)
  · have htaken := hs.taken hop
    by_cases ht : op.type = .apply
    · exact .inr ((htaken.apply ht).2 rfl)
    · exact .inl (htaken.read ht).1

def twoApprovals : List Approval :=
  ["first", "second"].map fun uid =>
    { name := uid, uid, migrationUID := "migration-uid", planUID := Script.plan.uid
      planFingerprint := Script.plan.fingerprint, approver := "approver"
      mutationRequestUID := "request" }

/-- Four passes of an Apply under the first of two approvals. -/
def approvedRun : World :=
  Script.passes (fun _ => "") (List.replicate 4 (List.replicate 30 .go))
    (Script.start .onApproval twoApprovals)

theorem approvedRun_runs : ∃ running, Runs kept (fun _ => "") ⟨approvedRun, running⟩ :=
  Script.passes_runs rfl (Script.start_runs .onApproval (by decide)) _

/-- The event is a create that the claim `id` sent under the approval `uid`. -/
def Event.createdUnder (uid id : String) : Event → Bool
  | .create (some claim) _ _ => claim.under uid && claim.id = id
  | _ => false

/-- The dispatch sent its create under the first approval, and every create under it is one of the
same claim. -/
theorem approvedRun_one_run :
    approvedRun.log.any (·.createdUnder "first" (Script.operationID 0)) = true ∧
      ∀ claim job refused, .create (some claim) job refused ∈ approvedRun.log →
        claim.under "first" = true → claim.id = Script.operationID 0 := by
  have hsent : approvedRun.log.any (·.createdUnder "first" (Script.operationID 0)) = true := by
    decide +kernel
  refine ⟨hsent, fun claim job refused he hunder => ?_⟩
  obtain ⟨running, hrun⟩ := approvedRun_runs
  obtain ⟨e, hmem, hcreated⟩ := List.any_eq_true.1 hsent
  unfold Event.createdUnder at hcreated
  split at hcreated
  · rename_i c j r
    simp only [Bool.and_eq_true, decide_eq_true_eq] at hcreated
    rw [← hcreated.2]
    exact (one_run_per_approval hrun).1 claim job refused c j r "first" he hmem hunder hcreated.1
  · cases hcreated

/-- An approval is spent before a Job is asked for under it, and stays spent. Once a dispatch under it has
gone on, none of its rivals stands again. -/
theorem spent_before_create (h : Runs kept digestHistory σ) :
    (∀ claim job refused uid, .create (some claim) job refused ∈ σ.world.log →
      claim.under uid = true → σ.world.Consumed uid) ∧
    ∀ claim uid other, .passedConsume (some claim) ∈ σ.world.log → claim.under uid = true →
      Rival σ.world.log uid other → σ.world.Dead other := by
  have hi := h.reach.approval rfl
  exact ⟨hi.created, fun claim uid other hpassed hu => (hi.passed claim uid hpassed hu).2 other⟩

theorem approvedRun_spent_before_create : ∃ running, Runs kept (fun _ => "") ⟨approvedRun, running⟩ ∧
    ∀ claim job refused uid, .create (some claim) job refused ∈ approvedRun.log →
      claim.under uid = true → approvedRun.Consumed uid :=
  let ⟨running, h⟩ := approvedRun_runs
  ⟨running, h, (spent_before_create h).1⟩

/-! ## Withdrawn approvals -/

section Withdrawn

variable {α : Type} {w w' : World} {m : PtahMigration} {op : Operation} {reference : ObjectRef}

theorem yields_sendOk {c : Call} {h : c.Ans = Except String α} {x : α} :
    Proc.Yields server () (sendOk c h) w x w' ↔ serve w c (cast h.symm (.ok x)) w' := by
  unfold sendOk
  rw [Proc.yields_bind]
  constructor
  · rintro ⟨a, w1, hsend, hok⟩
    obtain ⟨heq, rfl⟩ := Proc.yields_ofExcept.1 hok
    rw [← heq, cast_cast, cast_eq]
    exact Proc.yields_req.1 hsend
  · intro hs
    exact ⟨cast h.symm (.ok x), w', Proc.yields_req.2 hs,
      Proc.yields_ofExcept.2 ⟨by rw [cast_cast, cast_eq], rfl⟩⟩

theorem markApprovalsStale_yields (l : List Approval) :
    ∃ w', Proc.Yields server () (markApprovalsStale l) w () w' := by
  induction l generalizing w with
  | nil => exact ⟨w, Proc.yields_pure.2 ⟨rfl, rfl⟩⟩
  | cons a rest ih =>
    have hpatch : ∃ r w1, Proc.Yields server () (patchApproval a .stale) w r w1 := by
      by_cases hb : ∃ b ∈ w.approvals, b.uid = a.uid
      · exact ⟨true, _, yields_sendOk.2 (.inr ⟨hb, by rintro r ⟨⟩; rfl, rfl⟩)⟩
      · exact ⟨false, w, yields_sendOk.2
          (.inl ⟨rfl, by rintro r ⟨⟩; exact ⟨rfl, fun b hm hu => hb ⟨b, hm, hu⟩⟩⟩)⟩
    obtain ⟨r, w1, hr⟩ := hpatch
    obtain ⟨w', hrest⟩ := @ih w1
    exact ⟨w', Proc.yields_bind.2 ⟨r, w1, hr, hrest⟩⟩

theorem markMigrationApprovalsStaleWhere_yields (m : PtahMigration) (withdraw : Approval → Bool) :
    ∃ w', Proc.Yields server () (markMigrationApprovalsStaleWhere m withdraw) w () w' := by
  obtain ⟨w', h⟩ := markApprovalsStale_yields (w.approvals.filter fun a =>
    a.migrationUID = m.uid && withdraw a && a.standing)
  exact ⟨w', Proc.yields_bind.2 ⟨w.approvals, w, yields_sendOk.2 ⟨rfl, by rintro r ⟨⟩; rfl⟩, h⟩⟩

theorem stop_not_yields {β : Type} {p : Pass α} {b : β} :
    ¬ Proc.Yields server () (stop p) w (some b) w' := by
  intro h
  obtain ⟨_, _, -, h⟩ := Proc.yields_bind.1 h
  simp at h

/-- An approval is spent exactly when one with its name and UID is there. -/
theorem consumeMigrationApproval_yields :
    (∃ w', Proc.Yields server () (consumeMigrationApproval m (some reference)) w true w') ↔
      ∃ a, w.approvals.find? (·.name = reference.name) = some a ∧ a.uid = reference.uid := by
  constructor
  · rintro ⟨w', h⟩
    obtain ⟨r, w1, hget, h⟩ := Proc.yields_bind.1 h
    obtain ⟨rfl, hr⟩ := yields_sendOk.1 hget
    cases hr r rfl
    cases hfind : w1.approvals.find? (·.name = reference.name) with
    | none => simp [hfind] at h
    | some a =>
      simp only [hfind] at h
      by_cases huid : a.uid = reference.uid
      · exact ⟨a, rfl, huid⟩
      · simp [huid] at h
  · rintro ⟨a, hfind, huid⟩
    have hget : Proc.Yields server () (getApproval reference.name) w (some a) w :=
      yields_sendOk.2 ⟨rfl, by rintro r ⟨⟩; exact hfind.symm⟩
    have hmem : ∃ b ∈ w.approvals, b.uid = a.uid := ⟨a, List.mem_of_find?_eq_some hfind, rfl⟩
    have hrest : ∀ w1, ∃ w2, Proc.Yields server () (do
        markMigrationApprovalsStaleWhere m fun other =>
          other.planUID = a.planUID && other.uid ≠ a.uid
        pure true) w1 true w2 := by
      intro w1
      obtain ⟨w2, hstale⟩ := markMigrationApprovalsStaleWhere_yields (w := w1) m
        fun other => other.planUID = a.planUID && other.uid ≠ a.uid
      exact ⟨w2, Proc.yields_bind.2 ⟨(), w2, hstale, Proc.yields_pure.2 ⟨rfl, rfl⟩⟩⟩
    by_cases hconsumed : a.consumed = true
    · obtain ⟨w2, hw2⟩ := hrest w
      refine ⟨w2, Proc.yields_bind.2 ⟨some a, w, hget, ?_⟩⟩
      simp only [ne_eq, huid, not_true_eq_false, if_false, hconsumed, if_true] at hw2 ⊢
      exact Proc.yields_bind.2 ⟨true, w, Proc.yields_pure.2 ⟨rfl, rfl⟩, hw2⟩
    · have hspent := yields_sendOk (h := rfl) (x := true) |>.2
        (show serve w (.patchApproval a .consumed) (.ok true) _ from
          .inr ⟨hmem, by rintro r ⟨⟩; rfl, rfl⟩)
      obtain ⟨w2, hw2⟩ := hrest _
      refine ⟨w2, Proc.yields_bind.2 ⟨some a, w, hget, ?_⟩⟩
      simp only [ne_eq, huid, not_true_eq_false, if_false, hconsumed] at hw2 ⊢
      exact Proc.yields_bind.2 ⟨true, _, hspent, hw2⟩

/-- Consume can let the dispatch of `m` go on to Mark. -/
def GoesOn (w : World) (m : PtahMigration) : Prop :=
  ∃ m' w', Proc.Yields server () (migrationDispatch.consume m) w (some m') w'

/-- Consume goes on exactly when the approval under the claim's name has the UID the claim
recorded. -/
theorem goesOn_iff (hop : m.status.activeOperation = some op)
    (href : op.approvalRef = some reference) :
    GoesOn w m ↔
      ∃ a, w.approvals.find? (·.name = reference.name) = some a ∧ a.uid = reference.uid := by
  rw [← consumeMigrationApproval_yields]
  unfold GoesOn
  simp only [migrationDispatch, withOperation_eq hop, href]
  constructor
  · rintro ⟨m', w', h⟩
    obtain ⟨spent, w1, hspent, h⟩ := Proc.yields_bind.1 h
    cases spent with
    | true => exact ⟨w1, hspent⟩
    | false => exact absurd h stop_not_yields
  · rintro ⟨w1, hspent⟩
    exact ⟨m, w1, Proc.yields_bind.2 ⟨true, w1, hspent, Proc.yields_pure.2 ⟨rfl, rfl⟩⟩⟩

/-- Which withdrawn decisions Consume refuses.

For every approved claim and every state of the approvals: Consume goes on only under an approval
with the UID that the claim names, that is not being deleted, and that is stale only if this claim
consumed it (`mine`), exactly when the approval that stands under the claim's name and UID is not
withdrawn. Consume itself looks at the UID alone. -/
theorem consume_refuses_withdrawn_iff (hop : m.status.activeOperation = some op)
    (href : op.approvalRef = some reference) (mine : Approval → Prop) :
    (GoesOn w m → ∃ a, w.approvals.find? (·.name = reference.name) = some a ∧
      a.uid = reference.uid ∧ a.deleting = false ∧ (a.stale = true → mine a)) ↔
    ∀ a, w.approvals.find? (·.name = reference.name) = some a → a.uid = reference.uid →
      a.deleting = false ∧ (a.stale = true → mine a) := by
  rw [goesOn_iff hop href]
  constructor
  · intro h a hfind huid
    obtain ⟨b, hb, -, hstands⟩ := h ⟨a, hfind, huid⟩
    cases hfind.symm.trans hb
    exact hstands
  · rintro h ⟨a, hfind, huid⟩
    exact ⟨a, hfind, huid, h a hfind huid⟩

/-- The claim of the approved run stands, and somebody asked for the deletion of its approval; a
finalizer keeps the object. -/
def withdrawnRun : World :=
  Script.withdrawing "first" (Script.passes (fun _ => "")
    (List.replicate 3 (List.replicate 30 .go)) (Script.start .onApproval twoApprovals))

/-- The next pass of that run. -/
def withdrawnDispatch : World := Script.pass (fun _ => "") (List.replicate 30 .go) withdrawnRun

/-- The run is one of the program's. Its claim is under an approval that is being deleted when the
dispatch begins, and the dispatch sends the create. -/
theorem withdrawn_approval_dispatched :
    (∃ running, Runs kept (fun _ => "") ⟨withdrawnRun, running⟩) ∧
      (∃ running, Runs kept (fun _ => "") ⟨withdrawnDispatch, running⟩) ∧
      withdrawnRun.migration.status.activeOperation.any (·.under "first") = true ∧
      withdrawnRun.approvals.any (fun a => a.uid = "first" && a.deleting) = true ∧
      withdrawnRun.log.any (·.createdUnder "first" (Script.operationID 0)) = false ∧
      withdrawnDispatch.log.any (·.createdUnder "first" (Script.operationID 0)) = true := by
  have hruns : ∃ running, Runs kept (fun _ => "") ⟨withdrawnRun, running⟩ := by
    have hstart : Runs kept (fun _ => "") ⟨Script.start .onApproval twoApprovals, none⟩ :=
      Script.start_runs .onApproval (by decide)
    obtain ⟨running, hrun⟩ := Script.passes_runs rfl hstart _
    exact ⟨running, Script.withdrawing_runs hrun "first"⟩
  refine ⟨hruns, ?_, by decide +kernel, by decide +kernel, by decide +kernel, by decide +kernel⟩
  obtain ⟨running, hrun⟩ := hruns
  exact Script.pass_runs hrun (fun hc => by cases hc) _

/-- The claim of that run. -/
theorem consume_refuses_withdrawn_first :
    ∃ op, withdrawnRun.migration.status.activeOperation = some op ∧
      ∃ reference, op.approvalRef = some reference ∧
        ((GoesOn withdrawnRun withdrawnRun.migration → ∃ a,
          withdrawnRun.approvals.find? (·.name = reference.name) = some a ∧
            a.uid = reference.uid ∧ a.deleting = false ∧ (a.stale = true → False)) ↔
          ∀ a, withdrawnRun.approvals.find? (·.name = reference.name) = some a →
            a.uid = reference.uid → a.deleting = false ∧ (a.stale = true → False)) := by
  have hop : (withdrawnRun.migration.status.activeOperation.bind (·.approvalRef)).isSome = true := by
    decide +kernel
  obtain ⟨reference, hbind⟩ := Option.isSome_iff_exists.1 hop
  obtain ⟨op, hop, href⟩ := Option.bind_eq_some_iff.1 hbind
  exact ⟨op, hop, reference, href, consume_refuses_withdrawn_iff hop href fun _ => False⟩

end Withdrawn

end Ptah.Migration
