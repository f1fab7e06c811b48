import PtahOperator.Migration.Runs.Script

/-!
# The record of an unresolved run, in every run

- **`latch_survives`**: a stored record is settled, stored, or in the copy, at every later moment of
  every run, restores included; and no claim is written before it is back.
- **`no_blind_replay`**: what a record holds up, and what lifts it.
- **`no_spurious_latch`**: in a run in which no pass starts before the copy of a retired claim is
  removed, the record of a run that was accounted for does not come back. Without that condition it
  does (`spurious_latch`).
-/

namespace Ptah.Migration

open Conc DataPlane

variable {digestHistory : MigrationStatusReport → String} {σ : RunState}

instance (log : List Event) (id : String) : Decidable (Latched log id) := by
  unfold Latched
  infer_instance

instance (log : List Event) (id : String) : Decidable (Settled log id) := by
  unfold Settled
  infer_instance

/-! ## The latch -/

/-- The passes of an Apply up to its dispatch. -/
def untilDispatch : List (List Script.Choice) := List.replicate 3 (List.replicate 20 .go)

/-- A dispatch whose create stored the Job and was answered by an error. -/
def unknownAnswer : List Script.Choice := List.replicate 15 .go ++ [.lost]

/-- A run that is recorded as unresolved. -/
def latchedRun : World :=
  Script.passes (fun _ => "") (untilDispatch ++ [unknownAnswer ++ List.replicate 10 .go])
    (Script.start .always [])

theorem latchedRun_runs {md : Mode} (hmd : md.careful = false) :
    ∃ running, Runs md (fun _ => "") ⟨latchedRun, running⟩ :=
  Script.passes_runs hmd (Script.start_runs .always (by simp)) _

/-- A record never stands without its copy, also where the status is lost, and a copy always reads back:
as a run that was claimed, and under the claim of an Apply as that one's. -/
theorem record_has_copy {md : Mode} (h : Runs md digestHistory σ) :
    (∀ run, σ.world.migration.status.unresolvedRun = some run →
      σ.world.migration.unresolvedRunCopy = some (.record run)) ∧
    ∀ value, σ.world.migration.unresolvedRunCopy = some value →
      ∃ run, decodeUnresolvedRunCopy value = .ok run ∧ run.operationID ∈ claimedIDs σ.world.log ∧
        ∀ op, σ.world.migration.status.activeOperation = some op → op.type = .apply →
          run.operationID = op.id := by
  have hi := h.reach.latch
  refine ⟨hi.copied, fun value hvalue => ?_⟩
  obtain ⟨run, rfl, hok⟩ := hi.decodes value hvalue
  exact ⟨run, hok, hi.copyClaimed run hvalue, fun op hop ht => hi.own op run hop ht hvalue⟩

theorem latchedRun_has_copy : ∃ running, Runs restored (fun _ => "") ⟨latchedRun, running⟩ ∧
    ∀ run, latchedRun.migration.status.unresolvedRun = some run →
      latchedRun.migration.unresolvedRunCopy = some (.record run) :=
  let ⟨running, h⟩ := latchedRun_runs rfl
  ⟨running, h, (record_has_copy h).1⟩

/-! ## What lifts a record -/

/-- While a record stands the phase is none that goes on without it. -/
theorem Reach.calm {md : Mode} {w : World} (h : Reach md w)
    (hu : w.migration.status.unresolvedRun.isSome = true) :
    w.migration.status.phase ≠ .planning ∧ w.migration.status.phase ≠ .inSync := by
  induction h with
  | init hw => simp [hw.unresolved] at hu
  | step _ hs ih =>
    cases hs.effect with
    | quiet hstatus =>
      rw [hstatus] at hu ⊢
      exact ih hu
    | restore _ hstatus => simp [hstatus] at hu
    | copy _ _ hstatus =>
      rw [hstatus] at hu ⊢
      exact ih hu
    | status s hstep hstatus =>
      rw [hstatus] at hu ⊢
      rcases hstep.calm hu with hcalm | ⟨hold, hphase⟩
      · exact hcalm
      · rw [hphase]
        exact ih hold

/-- What can lift a record. -/
inductive Lifted (e : StatusWrite) (run : UnresolvedRun) (resolved : ResolvedRun) : Prop where
  | acknowledged (h : resolved.resolution = .acknowledged)
  | read (report : MigrationStatusReport) (target : String)
      (h : resolved.resolution = .historyRead) (hreading : e.reading = some (report, target))
      (hsettles : Settles report target run)

/-- A write that lifts a record rests on an acknowledgment or on a reading that settles it. -/
theorem LatchStep.lifted {w : World} {s : Status} {run : UnresolvedRun} (h : LatchStep w s)
    (hrun : w.migration.status.unresolvedRun = some run) (hne : s.unresolvedRun ≠ some run) :
    s.unresolvedRun = none ∧ ∃ resolved, s.resolvedRun = some resolved ∧
      resolved.operationID = run.operationID ∧ Lifted (w.statusWrite s) run resolved := by
  cases h with
  | keep hu => exact absurd (hu.trans hrun) hne
  | record _ _ _ _ hnone => rw [hnone] at hrun; cases hrun
  | restore _ hnone => rw [hnone] at hrun; cases hrun
  | acknowledge run' resolved hrun' hu hr hid hack =>
    cases hrun'.symm.trans hrun
    exact ⟨hu, resolved, hr, hid, .acknowledged hack⟩
  | settle run' resolved report target hrun' hu hr hid hread hreading hsettles =>
    cases hrun'.symm.trans hrun
    exact ⟨hu, resolved, hr, hid, .read report target hread hreading hsettles⟩

/-- No blind replay.

A reading that is recorded over a record it does not settle ends in the phase Blocked and keeps the
record. In every run: the claim of an Apply is written only where no record stands; a record is
lifted only by an acknowledgment or by a reading of its own database with nothing to refuse and
nothing pending; any other reading that ends its claim keeps it, and ends in the phase Blocked or
was not recorded; and while a record stands the phase is neither Planning nor InSync. -/
theorem no_blind_replay {md : Mode} (h : Runs md digestHistory σ) :
    (∀ s s' report target now run, recordMigrationHistory digestHistory s report target now = .ok s' →
      s.unresolvedRun = some run → ¬ Settles report target run →
      s'.phase = .blocked ∧ s'.unresolvedRun = some run) ∧
    (∀ e op, .status e ∈ σ.world.log → e.claimed = some op → op.type = .apply →
      e.before.unresolvedRun = none ∧ e.after.unresolvedRun = none) ∧
    (∀ e run, .status e ∈ σ.world.log → e.before.unresolvedRun = some run →
      e.after.unresolvedRun ≠ some run → e.after.unresolvedRun = none ∧ ∃ resolved,
        e.after.resolvedRun = some resolved ∧ resolved.operationID = run.operationID ∧
        Lifted e run resolved) ∧
    (∀ e op report target run, .status e ∈ σ.world.log → e.before.activeOperation = some op →
      op.type = .history → e.after.activeOperation = none → e.reading = some (report, target) →
      e.before.unresolvedRun = some run → ¬ Settles report target run →
      e.after.unresolvedRun = some run ∧ (e.after.phase = .blocked ∨
        (e.after.phase = .failed ∧ e.after.history = e.before.history))) ∧
    (σ.world.migration.status.unresolvedRun.isSome = true →
      σ.world.migration.status.phase ≠ .planning ∧ σ.world.migration.status.phase ≠ .inSync) := by
  refine ⟨?_, ?_, ?_, ?_, h.reach.calm⟩
  · intro s s' report target now run hrec hrun hnot
    obtain ⟨hkeep, hphase⟩ := (recordMigrationHistory_cases hrec).2.refuses hrun hnot
    exact ⟨hphase, hkeep⟩
  · intro e op he
    refine h.reach.each_written (fun e => ∀ op, e.claimed = some op → op.type = .apply →
      e.before.unresolvedRun = none ∧ e.after.unresolvedRun = none)
      (fun w s _ hs op hop ht => ?_) he op
    have htaken := hs.taken hop
    have hnone := (htaken.apply ht).1
    exact ⟨hnone, htaken.unresolvedRun.trans hnone⟩
  · intro e run he
    exact h.reach.each_written (fun e => ∀ run, e.before.unresolvedRun = some run →
      e.after.unresolvedRun ≠ some run → e.after.unresolvedRun = none ∧ ∃ resolved,
        e.after.resolvedRun = some resolved ∧ resolved.operationID = run.operationID ∧
        Lifted e run resolved) (fun w s _ hs run => hs.latch.lifted) he run
  · intro e op report target run he
    exact h.reach.each_written (fun e => ∀ op report target run,
      e.before.activeOperation = some op → op.type = .history → e.after.activeOperation = none →
      e.reading = some (report, target) → e.before.unresolvedRun = some run →
      ¬ Settles report target run → e.after.unresolvedRun = some run ∧ (e.after.phase = .blocked ∨
        (e.after.phase = .failed ∧ e.after.history = e.before.history)))
      (fun w s _ hs => hs.reading) he op report target run

theorem latchedRun_blocks_replay : latchedRun.migration.status.unresolvedRun.isSome = true ∧
      latchedRun.migration.status.phase ≠ .planning ∧
      latchedRun.migration.status.phase ≠ .inSync := by
  obtain ⟨running, hrun⟩ := latchedRun_runs (show kept.careful = false from rfl)
  have hsome : latchedRun.migration.status.unresolvedRun.isSome = true := by decide +kernel
  exact ⟨hsome, (no_blind_replay hrun).2.2.2.2 hsome⟩

/-! ## Copies that are left over -/

/-- The claim `id` stays through a write, or the write retires it. -/
theorem ClaimStep.activeIs {restores : Bool} {w : World} {s : Status} {id : String}
    (h : ClaimStep restores w s) (hid : w.migration.status.activeIs id = true) :
    s.activeIs id = true ∨ s.activeOperation = none := by
  obtain ⟨op, hop, rfl⟩ := Status.activeIs_iff.1 hid
  cases h with
  | keep hsame => exact .inl (Status.activeIs_iff.2 ⟨op, hsame.trans hop, rfl⟩)
  | take _ hnone => rw [hnone] at hop; cases hop
  | tend o o' ho ho' hid' =>
    cases ho.symm.trans hop
    exact .inl (Status.activeIs_iff.2 ⟨o', ho', hid'⟩)
  | retire _ _ hnone => exact .inr hnone

theorem LatchStep.resolvedIs {w : World} {s : Status} {id : String} (h : LatchStep w s)
    (hnone : w.migration.status.unresolvedRun = none)
    (hid : w.migration.status.resolvedIs id = true) : s.resolvedIs id = true := by
  have hkeep (hr : s.resolvedRun = w.migration.status.resolvedRun) : s.resolvedIs id = true := by
    rw [Status.resolvedIs, hr]
    exact hid
  cases h with
  | keep _ hr => exact hkeep hr
  | record _ _ _ _ _ _ _ _ _ hr => exact hkeep hr
  | restore _ _ _ _ _ _ _ hr => exact hkeep hr
  | acknowledge _ _ hrun => rw [hnone] at hrun; cases hrun
  | settle _ _ _ _ hrun => rw [hnone] at hrun; cases hrun

/-- A copy without a record is of the active claim, of a resolved run, or of the claim the last
write retired. -/
theorem Reach.leftOver {w : World} (h : Reach careful w) {run : UnresolvedRun}
    (hcopy : w.migration.unresolvedRunCopy = some (.record run))
    (hnone : w.migration.status.unresolvedRun = none) :
    w.migration.status.activeIs run.operationID = true ∨
      w.migration.status.resolvedIs run.operationID = true ∨ justRetired w = true := by
  induction h with
  | init hw => rw [hw.copy] at hcopy; cases hcopy
  | @step w w' hr hs ih =>
    cases hs.effect with
    | quiet hstatus hc hlog =>
      rw [hc] at hcopy
      rw [hstatus] at hnone ⊢
      rw [justRetired, lastStatus, hc, hlog]
      exact ih hcopy hnone
    | restore hmode => cases hmode
    | copy value hstep hstatus hc =>
      rw [hc] at hcopy
      rw [hstatus] at hnone ⊢
      subst hcopy
      cases hstep with
      | repair _ hrun => rw [hrun] at hnone; cases hnone
      | ahead op _ hop _ _ hid => exact .inl (Status.activeIs_iff.2 ⟨op, hop, hid.symm⟩)
    | status s hstep hstatus hc hlog =>
      rw [hc] at hcopy
      rw [hstatus] at hnone ⊢
      cases hold : w.migration.status.unresolvedRun with
      | some run' =>
        -- The record the write lifts is the one of the copy.
        have hrun' := hr.latch.copied run' hold
        cases hrun'.symm.trans hcopy
        obtain ⟨-, resolved, hres, hid, -⟩ := hstep.latch.lifted hold (by rw [hnone]; simp)
        exact .inr (.inl (Status.resolvedIs_iff.2 ⟨resolved, hres, hid⟩))
      | none =>
        rcases ih hcopy hold with hactive | hresolved | hjust
        · rcases hstep.claim.activeIs hactive with hstays | hgone
          · exact .inl hstays
          refine .inr (.inr ?_)
          simp only [justRetired, hc, hcopy, lastStatus, hlog, List.head?_cons]
          exact StatusWrite.retires_iff.2 ⟨hactive, hgone, by
            simp [World.statusWrite, Status.unresolvedIs, hnone]⟩
        · exact .inr (.inl (hstep.latch.resolvedIs hold hresolved))
        · rw [hstep.gate rfl] at hjust
          cases hjust

/-- A status write retired the claim `id` and stored no record of its run. -/
def Retired (log : List Event) (id : String) : Prop :=
  ∃ e ∈ statuses log, e.retires id = true

/-- The claim `id` has ended, and no record of its run stands. -/
structure Accounted (w : World) (id : String) : Prop extends Ended w id where
  unrecorded : w.migration.status.unresolvedIs id = false

section Accounted

variable {w : World} {s : Status} {id : String}

/-- In a careful run no write stores a record of a run that was accounted for. -/
theorem StatusStep.unrecorded (hr : Reach careful w) (h : StatusStep careful w s)
    (ha : Accounted w id) : s.unresolvedIs id = false := by
  cases h.latch with
  | keep hu =>
    rw [Status.unresolvedIs, hu]
    exact ha.unrecorded
  | record op run hop _ _ hid _ _ hu =>
    have hne : run.operationID ≠ id := by
      rintro rfl
      have hactive := Status.activeIs_iff.2 ⟨op, hop, hid.symm⟩
      rw [ha.inactive] at hactive
      cases hactive
    simp [Status.unresolvedIs, hu, hne]
  | restore run hnone hcopy _ hresolved hactive =>
    -- The copy that is put back would be of the claim the last write retired.
    rcases hr.leftOver hcopy hnone with ha' | hr' | hj
    · rw [hactive] at ha'
      cases ha'
    · rw [hresolved] at hr'
      cases hr'
    · rw [h.gate rfl] at hj
      cases hj
  | acknowledge _ _ _ hu => simp [Status.unresolvedIs, hu]
  | settle _ _ _ _ _ hu => simp [Status.unresolvedIs, hu]

theorem Reach.accounted (h : Reach careful w) (hid : Retired w.log id) : Accounted w id := by
  induction h with
  | init hw =>
    obtain ⟨e, he, -⟩ := hid
    simp [statuses, hw.log] at he
  | @step w w' hr hs ih =>
    have hquiet (hstatus : w'.migration.status = w.migration.status)
        (hlog : statuses w'.log = statuses w.log) : Accounted w' id := by
      rw [Retired, hlog] at hid
      have ha := ih hid
      exact ⟨hs.ended ha.toEnded, by rw [hstatus]; exact ha.unrecorded⟩
    cases hs.effect with
    | quiet hstatus _ hlog => exact hquiet hstatus hlog
    | restore hmode => cases hmode
    | copy _ _ hstatus _ hlog => exact hquiet hstatus hlog
    | status s hstep hstatus _ hlog =>
      rw [Retired, hlog, List.exists_mem_cons_iff] at hid
      rcases hid with hnow | hthen
      · obtain ⟨hactive, hnone, hu⟩ := StatusWrite.retires_iff.1 hnow
        have hended : Ended (w.writeStatus s) id := .of_retired hr hactive hnone
        refine ⟨⟨?_, ?_⟩, ?_⟩
        · rw [claimedIDs, hlog]
          exact hended.claimed
        · rw [hstatus]
          exact hended.inactive
        · rw [hstatus]
          exact hu
      · have ha := ih hthen
        exact ⟨hs.ended ha.toEnded, hstatus ▸ hstep.unrecorded hr ha⟩

end Accounted

/-- No spurious latch, where no pass starts before the copy of a retired claim is removed.

In every such run, a status write that comes after the write that retired a claim and stored no
record of its run stores no record of it either. -/
theorem no_spurious_latch (h : Runs careful digestHistory σ) (older : List Event) (e : StatusWrite)
    (he : .status e :: older <:+ σ.world.log) (id : String) (hid : Retired older id) :
    e.after.unresolvedIs id = false :=
  h.reach.written (fun older e => ∀ id, Retired older id → e.after.unresolvedIs id = false)
    (fun _ _ hr hs _ hid => hs.unrecorded hr (hr.accounted hid)) he id hid

instance (log : List Event) (id : String) : Decidable (Retired log id) := by
  unfold Retired
  infer_instance

/-- The Apply was reported as applied, to the database it was planned for. -/
def appliedResult : Script.Choice :=
  .result (.apply
    { run := some { outcome := .applied }
      coordinationDigest := Script.plan.coordinationDigest
      targetIdentityDigest := Script.history.targetIdentityDigest })

/-- A copy is written ahead of a record, and the write of the record fails. -/
def copiedRun : World :=
  Script.passes (fun _ => "") (untilDispatch ++ [unknownAnswer ++ List.replicate 5 .go ++ [.fail]])
    (Script.start .always [])

/-- The Job ends, its result is read as applied, and the pass that retires the claim removes the copy. The next
one goes on with a History. -/
def accountedRun : World :=
  Script.passes (fun _ => "")
    [List.replicate 13 .go ++ [appliedResult] ++ List.replicate 20 .go, List.replicate 20 .go]
    (Script.jobDone "u" (Script.podStarted (Script.pod true) copiedRun))

theorem accountedRun_stays_accounted : copiedRun.migration.unresolvedRunCopy.isSome = true ∧
      Retired accountedRun.log.tail (Script.operationID 0) ∧
      ∃ e, accountedRun.log.head? = some (.status e) ∧
        e.after.unresolvedIs (Script.operationID 0) = false := by
  have hstart : Runs careful (fun _ => "") ⟨Script.start .always [], none⟩ :=
    Script.start_runs .always (by simp)
  obtain ⟨_, hcopied⟩ := Script.passes_runs_gated hstart
    (untilDispatch ++ [unknownAnswer ++ List.replicate 5 .go ++ [.fail]])
    (by unfold Gate; decide +kernel)
  have hdone := Script.jobDone_runs
    (Script.podStarted_runs (p := Script.pod true) hcopied (by decide +kernel)) "u"
  obtain ⟨_, hrun⟩ := Script.passes_runs_gated hdone
    [List.replicate 13 .go ++ [appliedResult] ++ List.replicate 20 .go, List.replicate 20 .go]
    (by unfold Gate; decide +kernel)
  have hretired : Retired accountedRun.log.tail (Script.operationID 0) := by decide +kernel
  obtain ⟨e, he⟩ := List.exists_mem_of_ne_nil _
    (show statuses accountedRun.log.head?.toList ≠ [] by decide +kernel)
  have hhead : accountedRun.log.head? = some (.status e) := by simpa using mem_statuses.1 he
  exact ⟨by decide +kernel, hretired, e, hhead,
    no_spurious_latch hrun accountedRun.log.tail e ⟨[], List.cons_head?_tail hhead⟩ _ hretired⟩

/-- The Job ends, its result is read as applied, the claim is retired, and the pass stops before it
removes the copy. Two passes later the copy is put back as a record. -/
def spuriousRun : World :=
  Script.passes (fun _ => "")
    [List.replicate 13 .go ++ [appliedResult] ++ List.replicate 5 .go, List.replicate 9 .go,
      List.replicate 9 .go]
    (Script.jobDone "u" (Script.podStarted (Script.pod true) copiedRun))

/-- A run that was accounted for comes back as unresolved. -/
theorem spurious_latch : ∃ running, Runs kept (fun _ => "") ⟨spuriousRun, running⟩ ∧
      Retired spuriousRun.log.tail (Script.operationID 0) ∧
      spuriousRun.migration.status.unresolvedIs (Script.operationID 0) = true := by
  have hstart : Runs kept (fun _ => "") ⟨Script.start .always [], none⟩ :=
    Script.start_runs .always (by simp)
  obtain ⟨_, hcopied⟩ := Script.passes_runs rfl hstart
    (untilDispatch ++ [unknownAnswer ++ List.replicate 5 .go ++ [.fail]])
  have hdone := Script.jobDone_runs
    (Script.podStarted_runs (p := Script.pod true) hcopied (by decide +kernel)) "u"
  obtain ⟨running, hrun⟩ := Script.passes_runs (show kept.careful = false from rfl) hdone
    [List.replicate 13 .go ++ [appliedResult] ++ List.replicate 5 .go, List.replicate 9 .go,
      List.replicate 9 .go]
  exact ⟨running, hrun, by decide +kernel, by decide +kernel⟩

end Ptah.Migration
