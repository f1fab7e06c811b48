import PtahOperator.Migration.Walk.Calls

/-!
# The writes of the resource

What a pass knows of the resource it read (`Holds`): it is the stored one as long as no other
version was written, and without restores its status and copy are the stored ones in any case. `At`
is the same before a write: the copy of a claim that was retired is gone.

`patchMigrationStatus_spec` is the one rule for status writes. The caller shows that the write is a
step of the system in every world that differs from its own by what happens without a log.
-/

namespace Ptah.Migration

open Conc Lifecycle

variable {md : Mode} {w w' w'' : World} {m : PtahMigration}

/-! ## Steps a log does not show, and status writes -/

theorem Later.trans (h1 : Later w w') (h2 : Later w' w'') : Later w w'' := by
  refine ⟨h2.uid.trans h1.uid, fun uid h => h2.uids uid (h1.uids uid h), fun a ha hu => ?_⟩
  obtain ⟨b, hb, hage⟩ := h2.approvals a ha (h1.uids _ hu)
  obtain ⟨c, hc, hage'⟩ := h1.approvals b hb (hage.uid ▸ hu)
  exact ⟨c, hc, hage.uid.trans hage'.uid, hage.migrationUID.trans hage'.migrationUID,
    hage.planUID.trans hage'.planUID,
    fun h => hage.consumed (hage'.consumed h), fun h => hage.standing (hage'.standing h)⟩

theorem Drift.later (hmd : md.restores = false) (h : Drift md w w') : Later w w' := by
  induction h with
  | refl => exact .same rfl rfl rfl
  | tail _ hs ih => exact ih.trans (hs.later hmd)

/-- What is left when the log stays as it is. -/
structure Unlogged (md : Mode) (w w' : World) : Prop extends Kept w w' where
  reading : w'.reading = w.reading
  later : md.restores = false → Later w w'

/-- What every step but a create and the reading of a result leaves. -/
structure Spared (md : Mode) (w w' : World) : Prop extends StoreKept w w' where
  reading : w'.reading = w.reading
  later : md.restores = false → Later w w'

/-- What is left when the log grows by status writes. -/
structure Wrote (md : Mode) (w w' : World) : Prop extends Spared md w w' where
  log : ∃ writes : List StatusWrite, w'.log = writes.map .status ++ w.log

theorem Still.unlogged (h : Still md w w') : Unlogged md w w' :=
  ⟨h.1.kept, h.2, fun hmd => h.1.later hmd⟩

namespace Unlogged

theorem trans (h1 : Unlogged md w w') (h2 : Unlogged md w' w'') : Unlogged md w w'' :=
  ⟨h1.toKept.trans h2.toKept, h2.reading.trans h1.reading,
    fun hmd => (h1.later hmd).trans (h2.later hmd)⟩

theorem spared (h : Unlogged md w w') : Spared md w w' := ⟨h.toStoreKept, h.reading, h.later⟩

theorem wrote (h : Unlogged md w w') : Wrote md w w' := ⟨h.spared, ⟨[], h.log⟩⟩

theorem finalizer (w : World) (present : Bool) : Unlogged md w (w.writeFinalizer present) :=
  ⟨⟨.same rfl rfl rfl, rfl, fun _ h => h⟩, rfl, fun _ => .same rfl rfl rfl⟩

theorem copy (w : World) (value : Option CopyValue) : Unlogged md w (w.writeCopy value) :=
  ⟨⟨.same rfl rfl rfl, rfl, fun _ h => h⟩, rfl, fun _ => .same rfl rfl rfl⟩

end Unlogged

namespace Spared

theorem trans (h1 : Spared md w w') (h2 : Spared md w' w'') : Spared md w w'' :=
  ⟨h1.toStoreKept.trans h2.toStoreKept, h2.reading.trans h1.reading,
    fun hmd => (h1.later hmd).trans (h2.later hmd)⟩

theorem note (w : World) (e : Event) : Spared md w (w.note e) :=
  ⟨.same rfl rfl rfl, rfl, fun _ => .same rfl rfl rfl⟩

end Spared

namespace Wrote

theorem trans (h1 : Wrote md w w') (h2 : Wrote md w' w'') : Wrote md w w'' := by
  obtain ⟨es, hes⟩ := h1.log
  obtain ⟨fs, hfs⟩ := h2.log
  refine ⟨h1.toSpared.trans h2.toSpared, ⟨fs ++ es, ?_⟩⟩
  rw [hfs, hes, List.map_append, List.append_assoc]

theorem status (w : World) (s : Status) : Wrote md w (w.writeStatus s) :=
  ⟨⟨.same rfl rfl rfl, rfl, fun _ => .same rfl rfl rfl⟩, ⟨[w.statusWrite s], rfl⟩⟩

theorem mem_old (h : Wrote md w w') {e : Event} (he : e ∈ w'.log)
    (hnot : ∀ write, e ≠ .status write) : e ∈ w.log := by
  obtain ⟨es, hes⟩ := h.log
  rw [hes] at he
  rcases List.mem_append.1 he with he | he
  · obtain ⟨write, -, rfl⟩ := List.mem_map.1 he
    exact absurd rfl (hnot write)
  · exact he

theorem noneCreated (h : Wrote md w w') {id : String} (hn : NoneCreated w.log id) :
    NoneCreated w'.log id :=
  fun claim job refused he => hn claim job refused (h.mem_old he (by simp))

end Wrote

/-! ## What a pass knows of the resource -/

/-- What the pass read last is `m`. -/
structure Holds (md : Mode) (w : World) (m : PtahMigration) : Prop where
  seen : ∃ w₀, Reach md w₀ ∧ w₀.migration = m
  old : m.resourceVersion ≤ w.migration.resourceVersion
  same : m.resourceVersion = w.migration.resourceVersion → w.migration = m
  /-- Only a pass writes the copy. -/
  copy : w.migration.unresolvedRunCopy = m.unresolvedRunCopy
  /-- Only a restore drops what a pass wrote. -/
  status : w.migration.status = m.status ∨ w.migration.status = {}
  held : md.restores = false → w.migration.status = m.status ∧ w.migration.uid = m.uid

/-- The copy of a claim that was retired is gone, in a careful run. -/
def Gate (md : Mode) (w : World) : Prop := md.careful = true → justRetired w = false

structure At (md : Mode) (w : World) (m : PtahMigration) : Prop extends Holds md w m where
  gate : Gate md w

theorem Holds.landed (h : Reach md w) : Holds md w w.migration :=
  ⟨⟨w, h, rfl⟩, Nat.le_refl _, fun _ => rfl, rfl, .inl rfl, fun _ => ⟨rfl, rfl⟩⟩

theorem Silent.holds (h : Silent md w w') (hm : Holds md w m) : Holds md w' m := by
  have hstore m' : m.resourceVersion < (w.store m').migration.resourceVersion :=
    Nat.lt_succ_of_le hm.old
  cases h with
  | env h =>
    cases h with
    | edit m' huid hstatus hcopy =>
      refine ⟨hm.seen, Nat.le_of_lt (hstore m'), fun he => absurd he (Nat.ne_of_lt (hstore m')),
        hcopy.trans hm.copy, ?_, fun hmd => ?_⟩
      · exact hm.status.imp hstatus.trans hstatus.trans
      obtain ⟨h1, h2⟩ := hm.held hmd
      exact ⟨hstatus.trans h1, huid.trans h2⟩
    | restore m' hmode hstatus hcopy =>
      refine ⟨hm.seen, Nat.le_of_lt (hstore m'), fun he => absurd he (Nat.ne_of_lt (hstore m')),
        hcopy.trans hm.copy, .inr hstatus, fun hmd => ?_⟩
      rw [hmd] at hmode
      cases hmode
    | _ => exact ⟨hm.seen, hm.old, hm.same, hm.copy, hm.status, hm.held⟩
  | _ => exact ⟨hm.seen, hm.old, hm.same, hm.copy, hm.status, hm.held⟩

theorem Silent.gate (h : Silent md w w') (hg : Gate md w) : Gate md w' := by
  intro hc
  rw [← hg hc]
  cases h with
  | env h =>
    cases h with
    | edit m' huid hstatus hcopy => simp only [justRetired, World.store, hcopy]
    | restore m' hmode hstatus hcopy => simp only [justRetired, World.store, hcopy]
    | _ => rfl
  | _ => rfl

theorem Holds.drift (hm : Holds md w m) (h : Drift md w w') : Holds md w' m :=
  h.keep (fun _ _ hs hm => hs.holds hm) hm

theorem At.drift (hm : At md w m) (h : Drift md w w') : At md w' m :=
  ⟨hm.toHolds.drift h, h.keep (fun _ _ hs hg => hs.gate hg) hm.gate⟩

theorem At.note (hm : At md w m) {e : Event} (he : ∀ write, e ≠ .status write) :
    At md (w.note e) m := by
  refine ⟨⟨hm.seen, hm.old, hm.same, hm.copy, hm.status, hm.held⟩, fun hc => ?_⟩
  rw [← hm.gate hc]
  have hlast : lastStatus (e :: w.log) = lastStatus w.log := by
    cases e <;> first | rfl | exact absurd rfl (he _)
  simp only [justRetired, World.note, hlast]

theorem At.still (hm : At md w m) (h : Still md w w') : At md w' m := hm.drift h.1

theorem Read.holds (h : Read md w (fun w1 => w1.migration = m) w') : Holds md w' m := by
  obtain ⟨w1, hi, -, rfl, h2⟩ := h
  exact (Holds.landed hi).drift h2.1

/-! ## Metadata -/

theorem patchFinalizer_spec (hm : At md w m) (present : Bool) :
    Follows md (patchFinalizer m.resourceVersion present) (fun m' w' => At md w' m' ∧
      Unlogged md w w' ∧ m'.status = m.status ∧ m'.unresolvedRunCopy = m.unresolvedRunCopy) w := by
  refine .sendOk _ fun w1 a w2 hi h1 hs => ?_
  have hm1 := hm.still h1
  rcases hs with ⟨rfl, e, rfl⟩ | ⟨hv, rfl, hok⟩
  · exact ⟨hi, fun x hx => by cases hx⟩
  have hreach : Reach md (w1.writeFinalizer present) := hi.step (.finalizer present)
  refine ⟨hreach, fun x hx w3 hi3 h3 => ?_⟩
  obtain rfl := hok x hx
  have hmig := hm1.same hv
  have hgate : Gate md (w1.writeFinalizer present) := hm1.gate
  refine ⟨At.still ⟨.landed hreach, hgate⟩ h3,
    (h1.unlogged.trans (.finalizer w1 present)).trans h3.unlogged, ?_, ?_⟩
  · exact congrArg (·.status) hmig
  · exact congrArg (·.unresolvedRunCopy) hmig

/-- A copy is written where the system writes one. -/
theorem setUnresolvedRunCopy_spec (hm : Holds md w m) (value : Option CopyValue)
    (hstep : m.unresolvedRunCopy ≠ value → ∀ w1, Reach md w1 → Unlogged md w w1 →
      w1.migration = m → CopyStep w1 value) :
    Follows md (setUnresolvedRunCopy m value) (fun m' w' => Holds md w' m' ∧ Unlogged md w w' ∧
      m'.status = m.status ∧ m'.unresolvedRunCopy = value ∧ (m.unresolvedRunCopy ≠ value →
        ∃ w1, Reach md w1 ∧ Unlogged md w w1 ∧ w1.migration = m)) w := by
  unfold setUnresolvedRunCopy
  by_cases hsame : m.unresolvedRunCopy = value
  · rw [if_pos hsame]
    refine .pure fun w' _ h' => ?_
    exact ⟨hm.drift h'.1, h'.unlogged, rfl, hsame, (absurd hsame)⟩
  rw [if_neg hsame]
  refine .bind (Q := fun m' w' => Holds md w' m' ∧ Unlogged md w w' ∧
    m' = { m with resourceVersion := m'.resourceVersion, unresolvedRunCopy := value } ∧
    ∃ w1, Reach md w1 ∧ Unlogged md w w1 ∧ w1.migration = m)
    (Follows.sendOk _ fun w1 a w2 hi h1 hs => ?_) fun patched w3 _ hq => ?_
  · have hm1 := hm.drift h1.1
    rcases hs with ⟨rfl, e, rfl⟩ | ⟨hv, rfl, hok⟩
    · exact ⟨hi, fun x hx => by cases hx⟩
    have hmig := hm1.same hv
    have hreach : Reach md (w1.writeCopy value) :=
      hi.step (.copy value (hstep hsame w1 hi h1.unlogged hmig))
    refine ⟨hreach, fun x hx w3 hi3 h3 => ?_⟩
    obtain rfl := hok x hx
    refine ⟨(Holds.landed hreach).drift h3.1,
      (h1.unlogged.trans (.copy w1 value)).trans h3.unlogged, ?_, w1, hi, h1.unlogged, hmig⟩
    simp only [World.writeCopy, World.store, hmig]
  · obtain ⟨hh, hu, he, hw1⟩ := hq
    refine .pure fun w' _ h' => ?_
    have hres : { m with
        resourceVersion := patched.resourceVersion
        unresolvedRunCopy := patched.unresolvedRunCopy } = patched := by
      rw [he]
    rw [hres]
    refine ⟨hh.drift h'.1, hu.trans h'.unlogged, ?_, ?_, fun _ => hw1⟩ <;> rw [he]

/-! ## Status -/

/-- The last write says what the status is, unless a restore dropped it. -/
theorem Reach.last (h : Reach md w) {e : StatusWrite} (he : lastStatus w.log = some e) :
    w.migration.status = e.after ∨ w.migration.status = {} := by
  have hall : ∀ e, lastStatus w.log = some e →
      w.migration.status = e.after ∨ w.migration.status = {} := by
    refine h.induct (I := fun w => ∀ e, lastStatus w.log = some e →
      w.migration.status = e.after ∨ w.migration.status = {}) (fun w hw e he => ?_)
      fun w w' _ hi hmove e he => ?_
    · rw [lastStatus, hw.log] at he
      cases he
    cases hmove.effect with
    | quiet hstatus _ hlog =>
      rw [hstatus]
      exact hi e (by rwa [lastStatus, hlog] at he)
    | restore _ hstatus => exact .inr hstatus
    | copy _ _ hstatus _ hlog =>
      rw [hstatus]
      exact hi e (by rwa [lastStatus, hlog] at he)
    | status s _ hstatus _ hlog =>
      rw [lastStatus, hlog, List.head?_cons, Option.some.injEq] at he
      exact .inl (by rw [hstatus, ← he]; rfl)
  exact hall e he

/-- A record that a write takes out of the status is settled by it. -/
def Settling (before after : Status) : Prop :=
  ∀ run, before.unresolvedRun = some run → after.unresolvedRun = none →
    after.resolvedIs run.operationID = true

theorem LatchStep.settling {s : Status} (h : LatchStep w s) : Settling w.migration.status s := by
  intro run hrun hnone
  rcases h.carry (Status.unresolvedIs_iff.2 ⟨run, hrun, rfl⟩) with hr | hu
  · exact hr
  obtain ⟨run', hrun', -⟩ := Status.unresolvedIs_iff.1 hu
  rw [hnone] at hrun'
  cases hrun'

theorem justRetired_eq_false (h : ∀ run e, w.migration.unresolvedRunCopy = some (.record run) →
    lastStatus w.log = some e → e.retires run.operationID = false) : justRetired w = false := by
  unfold justRetired
  split
  · exact h _ _ ‹_› ‹_›
  · rfl

/-- The copy in front of a write of `s`. -/
def copyBefore (m : PtahMigration) (s : Status) : Option CopyValue :=
  match s.unresolvedRun with
  | none => m.unresolvedRunCopy
  | some run => some (.record run)

/-- A record that a write stores stood before, or is the one of a copy, or of the active Apply. -/
def RecordOK (m : PtahMigration) (s : Status) : Prop :=
  ∀ run, s.unresolvedRun = some run → m.status.unresolvedRun = some run ∨
    (m.status.unresolvedRun = none ∧ run.Decodes ∧ (m.unresolvedRunCopy = some (.record run) ∨
        ∃ op, m.status.activeOperation = some op ∧ op.type = .apply ∧ run.operationID = op.id))

theorem copyUnresolvedRunBeforeStatus_spec (hm : At md w m) {s : Status} (hrecord : RecordOK m s) :
    Follows md (copyUnresolvedRunBeforeStatus m s) (fun m' w' => At md w' m' ∧ Unlogged md w w' ∧
      m'.status = m.status ∧ m'.unresolvedRunCopy = copyBefore m s) w := by
  have hpure hcopy : Follows md (pure m) (fun m' w' => At md w' m' ∧ Unlogged md w w' ∧
        m'.status = m.status ∧ m'.unresolvedRunCopy = copyBefore m s) w :=
    SafeProc.pure fun w' _ h' => ⟨hm.still h', h'.unlogged, rfl, hcopy⟩
  unfold copyUnresolvedRunBeforeStatus
  cases hu : s.unresolvedRun with
  | none => exact hpure (by rw [copyBefore, hu])
  | some run =>
    simp only
    have hbefore : copyBefore m s = some (.record run) := by rw [copyBefore, hu]
    by_cases hmatch : unresolvedRunCopyMatches m run = true
    · rw [if_pos hmatch]
      exact hpure (by rw [hbefore]; exact (unresolvedRunCopyMatches_iff.1 hmatch).1)
    rw [if_neg hmatch, hbefore]
    obtain ⟨w0, hi0, hw0⟩ := hm.seen
    -- Only a record that is new has no copy that matches it.
    have hnew : m.status.unresolvedRun = none ∧ run.Decodes ∧
        ∃ op, m.status.activeOperation = some op ∧ op.type = .apply ∧ run.operationID = op.id := by
      rcases hrecord run hu with hrun | ⟨hnone, hok, hcopy | hop⟩
      · have hcopy := hi0.latch.copied run (by rw [hw0]; exact hrun)
        obtain ⟨run', he, hok⟩ := hi0.latch.decodes _ hcopy
        cases he
        exact absurd (unresolvedRunCopyMatches_iff.2 ⟨hw0 ▸ hcopy, hok⟩) hmatch
      · exact absurd (unresolvedRunCopyMatches_iff.2 ⟨hcopy, hok⟩) hmatch
      · exact ⟨hnone, hok, hop⟩
    obtain ⟨hnone, hok, op, hop, htype, hid⟩ := hnew
    have hcopy : m.unresolvedRunCopy ≠ some (.record run) :=
      fun h => hmatch (unresolvedRunCopyMatches_iff.2 ⟨h, hok⟩)
    refine .conseq (setUnresolvedRunCopy_spec hm.toHolds (some (.record run))
      fun _ w1 _ _ hw1 => ?_) fun m' w' _ ⟨hh, hul, hst, hcp, hcas⟩ => ?_
    · rw [← hw1] at hop hnone
      exact .ahead op run hop htype hnone hid hok
    refine ⟨⟨hh, fun _ => ?_⟩, hul, hst, hcp⟩
    obtain ⟨w1, hi1, hul1, hw1⟩ := hcas hcopy
    refine justRetired_eq_false fun run e hrun he => ?_
    -- The claim is active, so the last write did not retire it.
    rw [hul.log, ← hul1.log] at he
    rw [← hw1] at hop
    rcases hi1.last he with h | h
    · simp [StatusWrite.retires, ← h, hop]
    · simp [h] at hop

/-- Behind a status write that left `m`: its copy is still there or was removed. -/
structure Dropped (md : Mode) (w : World) (m m' : PtahMigration) (w' : World) : Prop where
  holds : At md w' m'
  unlogged : Unlogged md w w'
  status : m'.status = m.status
  copy : m'.unresolvedRunCopy = m.unresolvedRunCopy ∨
    (m'.unresolvedRunCopy = none ∧ m.status.unresolvedRun = none)
  settled : ∀ run, m.unresolvedRunCopy = some (.record run) → m.status.unresolvedRun = none →
    m.status.resolvedIs run.operationID = true → m'.unresolvedRunCopy = none

theorem dropSettledUnresolvedRunCopy_spec (hm : Holds md w m) {e : StatusWrite}
    (he : lastStatus w.log = some e) (hafter : e.after = m.status) :
    Follows md (dropSettledUnresolvedRunCopy e.before m) (Dropped md w m) w := by
  -- The copy may stay when it is not the one of a claim this write retired.
  have hstay (hnot : ∀ run, m.unresolvedRunCopy = some (.record run) →
        e.retires run.operationID = false)
      (hdone : ∀ run, m.unresolvedRunCopy = some (.record run) → m.status.unresolvedRun = none →
        m.status.resolvedIs run.operationID = true → m.unresolvedRunCopy = none) :
      Follows md (pure m) (Dropped md w m) w := by
    refine .pure fun w' _ h' => ?_
    have hm' := hm.drift h'.1
    refine ⟨⟨hm', fun _ => justRetired_eq_false fun run e' hrun he' => ?_⟩, h'.unlogged, rfl, .inl rfl,
      hdone⟩
    rw [h'.unlogged.log, he] at he'
    cases he'
    exact hnot run (hm'.copy ▸ hrun)
  unfold dropSettledUnresolvedRunCopy
  cases hcopy : m.unresolvedRunCopy with
  | none => exact hstay (by simp [hcopy]) (by simp [hcopy])
  | some value =>
    obtain ⟨w0, hi0, hw0⟩ := hm.seen
    obtain ⟨stored, rfl, hok⟩ := hi0.latch.decodes value (by rw [hw0]; exact hcopy)
    have hdecode : decodeUnresolvedRunCopy (.record stored) = .ok stored := hok
    simp only [hdecode]
    cases hu : m.status.unresolvedRun with
    | some run =>
      refine hstay (fun run' hrun' => ?_) (by simp [hu])
      have hown : m.unresolvedRunCopy = some (.record run) := by
        rw [← hw0]
        exact hi0.latch.copied run (by rw [hw0]; exact hu)
      rw [hown] at hrun'
      cases hrun'
      simp [StatusWrite.retires, hafter, Status.unresolvedIs, hu]
    | none =>
      by_cases hacc : accountsFor e.before m.status stored = true
      · rw [if_pos hacc]
        refine .conseq (setUnresolvedRunCopy_spec hm none fun _ w1 hi1 hul hw1 => ?_)
          fun m' w' _ hset => ?_
        · refine .drop stored (by rw [hw1]; exact hcopy) (by rw [hw1]; exact hu) ?_
          rw [accountsFor, Bool.or_eq_true] at hacc
          rcases hacc with hr | hr
          · exact .inl (by rw [hw1]; exact hr)
          · refine .inr ⟨e, by rw [hul.log]; exact he, ?_⟩
            simp [StatusWrite.retires, hafter, Status.activeIs, Status.unresolvedIs, hu, hr]
        · obtain ⟨hh, hul, hst, hcp, -⟩ := hset
          refine ⟨⟨hh, fun _ => justRetired_eq_false fun run e' hrun _ => ?_⟩, hul, hst,
            .inr ⟨hcp, hu⟩, fun _ _ _ _ => hcp⟩
          rw [hh.copy, hcp] at hrun
          cases hrun
      · rw [if_neg hacc]
        simp only [accountsFor, Bool.or_eq_true, not_or, Bool.and_eq_true, not_and] at hacc
        refine hstay (fun run hrun => ?_) fun run hrun _ hr => ?_
        · rw [hcopy] at hrun
          cases hrun
          rw [Bool.eq_false_iff, ne_eq, StatusWrite.retires_iff]
          rintro ⟨hb, ha, -⟩
          exact hacc.2 hb (by rw [← hafter, ha]; rfl)
        · rw [hcopy] at hrun
          cases hrun
          exact absurd hr hacc.1

/-- Behind `patchMigrationStatus m s`, where the pass held `m` in the world `w`. -/
structure Patched (md : Mode) (w : World) (m : PtahMigration) (s : Status) (m' : PtahMigration)
    (w' : World) : Prop where
  holds : At md w' m'
  wrote : Wrote md w w'
  status : m'.status = s
  settled : CopySettled m → CopySettled m'

theorem patchMigrationStatus_spec (hm : At md w m) {s : Status} (hrecord : RecordOK m s)
    (hstep : ∀ w1, Reach md w1 → Unlogged md w w1 → w1.migration.status = m.status →
      w1.migration.unresolvedRunCopy = copyBefore m s → Gate md w1 → StatusStep md w1 s) :
    Follows md (patchMigrationStatus m s) (Patched md w m s) w := by
  unfold patchMigrationStatus
  by_cases hsame : m.status = s
  · rw [if_pos hsame]
    exact .pure fun w' _ h' => ⟨hm.still h', h'.unlogged.wrote, hsame, id⟩
  rw [if_neg hsame]
  refine .bind (copyUnresolvedRunBeforeStatus_spec hm hrecord)
    fun base w1 hi1 ⟨hbase, hul, hst, hcp⟩ => ?_
  -- The status write lands on the version of the base, or not at all.
  refine .bind (Q := fun after w2 => Holds md w2 after ∧ Wrote md w w2 ∧
    after.status = s ∧ after.unresolvedRunCopy = copyBefore m s ∧ Settling m.status s ∧
    ∃ e, lastStatus w2.log = some e ∧ e.before = m.status ∧ e.after = s)
    (Follows.sendOk _ fun w2 a w3 hi2 h2 hs => ?_) fun after w2 hi2 hq => ?_
  · have hb2 := hbase.still h2
    rcases hs with ⟨rfl, e, rfl⟩ | ⟨hv, rfl, hok⟩
    · exact ⟨hi2, fun x hx => by cases hx⟩
    have hmig := hb2.same hv
    have hul2 := hul.trans h2.unlogged
    have hstatus : w2.migration.status = m.status := by rw [hmig, hst]
    have hstep2 := hstep w2 hi2 hul2 hstatus (by rw [hmig, hcp]) hb2.gate
    have hreach : Reach md (w2.writeStatus s) := hi2.step (.status s hstep2)
    refine ⟨hreach, fun x hx w4 _ h4 => ?_⟩
    obtain rfl := hok x hx
    refine ⟨(Holds.landed hreach).drift h4.1,
      (hul2.wrote.trans (.status w2 s)).trans h4.unlogged.wrote, rfl, ?_, ?_,
      w2.statusWrite s, ?_, hstatus, rfl⟩
    · exact (congrArg (·.unresolvedRunCopy) hmig).trans hcp
    · exact hstatus ▸ hstep2.latch.settling
    · rw [h4.unlogged.log]
      rfl
  · obtain ⟨hh, hwrote, hs, hcopy, hsettling, e, he, hbefore, hafter⟩ := hq
    rw [← hbefore]
    refine .conseq (dropSettledUnresolvedRunCopy_spec hh he (hafter.trans hs.symm))
      fun m' w' _ hd => ?_
    have hst' : m'.status = s := hd.status.trans hs
    refine ⟨hd.holds, hwrote.trans hd.unlogged.wrote, hst', fun hset => ?_⟩
    rw [CopySettled] at hset ⊢
    rw [hst']
    cases hu : s.unresolvedRun with
    | some run =>
      rcases hd.copy with hc | ⟨-, hnone⟩
      · rw [hc, hcopy, copyBefore, hu]
        rfl
      · rw [hs, hu] at hnone
        cases hnone
    | none =>
      have hcopy : after.unresolvedRunCopy = m.status.unresolvedRun.map .record := by
        rw [hcopy, copyBefore, hu, hset]
      cases hmu : m.status.unresolvedRun with
      | none =>
        rcases hd.copy with hc | ⟨hc, -⟩
        · rw [hc, hcopy, hmu]
        · exact hc
      | some run =>
        refine hd.settled run (by rw [hcopy, hmu]; rfl) (by rw [hs, hu]) ?_
        rw [hs]
        exact hsettling run hmu hu

end Ptah.Migration
