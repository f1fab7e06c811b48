import PtahOperator.Conc.History
import PtahOperator.Migration.Walk.Controller

/-!
# The runs of the controller

`Runs md digestHistory` are the states that the controller reaches with the world it runs in: one
pass after another, each stopped between any two of its calls, with the environment's steps between
them. Every reached world is one the abstract system reaches (`Runs.reach`), so its invariants are
invariants of the code.

`Reach.logged` turns what a step may do into a fact about every entry of the log: over what it was
written, and in which world.
-/

namespace Ptah.Migration

open Conc DataPlane

variable {md : Mode} {w w' : World} {digestHistory : MigrationStatusReport → String}

/-- A state of the controller: the world, and what is left of the pass that runs. -/
abbrev RunState := Solo api World (Except String Unit)

/-- All runs of a resource that keeps its status. -/
def kept : Mode := ⟨false, false⟩

/-- All runs, with restores that drop the status. -/
def restored : Mode := ⟨true, false⟩

/-- The runs of a resource that keeps its status in which no pass starts before the copy of a
retired claim is removed. -/
def careful : Mode := ⟨false, true⟩

/-- The states of the runs. A pass of a careful run does not start while the copy of a claim that
the last write retired still stands. -/
def Runs (md : Mode) (digestHistory : MigrationStatusReport → String) : RunState → Prop :=
  Solo.Reach server enter (Gate md) (reconcile digestHistory).run (Env md.restores) Fresh

/-- The refinement: the passes take only steps of the system. -/
theorem Runs.reach {σ : RunState} (h : Runs md digestHistory σ) : Reach md σ.world := by
  refine (Solo.Reach.ok (D := D md) (fun w hw => .init hw) (fun w hw _ => ?_) (fun w hw hg => ?_)
    (fun w w' hw he => ?_) h).1
  · exact hw.step (.silent (.read none))
  · exact .conseq (reconcile_spec hg rfl) fun _ _ _ _ => trivial
  have hs : Silent md w w' := .env he
  refine ⟨hw.step (.silent hs), .single hs, ?_⟩
  cases he <;> rfl

/-! ## What a log says -/

/-- The events of the system, with what each rests on. -/
inductive Emits (md : Mode) (w : World) : Event → Prop where
  | status (s : Status) (h : StatusStep md w s) : Emits md w (.status (w.statusWrite s))
  | create (job : Job) (refused : Bool) (h : md.restores = false → MayCreate w job) :
      Emits md w (.create w.migration.status.activeOperation job refused)
  | consumed (approval : Approval) : Emits md w (.consumed approval w.approvals)
  | passed : Emits md w (.passedConsume w.migration.status.activeOperation)
  | acquired (operationID epoch : String) : Emits md w (.acquired operationID epoch)
  | released (owed : LockRelease) : Emits md w (.released owed)

theorem Move.log (h : Move md w w') : w'.log = w.log ∨ ∃ e, w'.log = e :: w.log ∧ Emits md w e := by
  cases h with
  | silent h => exact .inl h.kept.log
  | finalizer present => exact .inl rfl
  | copy value h => exact .inl rfl
  | status s h => exact .inr ⟨_, rfl, .status s h⟩
  | create job refused h => exact .inr ⟨_, rfl, .create job refused h⟩
  | stored job uid h hname huid => exact .inr ⟨_, rfl, .create job false h⟩
  | consume approval h => exact .inr ⟨_, rfl, .consumed approval⟩
  | stale uid => exact .inl rfl
  | passed h => exact .inr ⟨_, rfl, .passed⟩
  | acquired operationID epoch => exact .inr ⟨_, rfl, .acquired operationID epoch⟩
  | released owed => exact .inr ⟨_, rfl, .released owed⟩

theorem Reach.logged {legal : List Event → Event → Prop}
    (hlegal : ∀ w e, Reach md w → Emits md w e → legal w.log e) (h : Reach md w) :
    Logged legal w.log := by
  induction h with
  | init hw =>
    rw [hw.log]
    exact .nil
  | step hr hs ih =>
    rcases hs.log with hl | ⟨e, hl, he⟩
    · rwa [hl]
    · rw [hl]
      exact ih.cons (hlegal _ e hr he)

/-- What a write that takes the claim `op` rests on. -/
structure Taken (restores : Bool) (w : World) (s : Status) (op : Operation) : Prop where
  new : op.id ∉ claimedIDs w.log
  copy : CopySettled w.migration
  unresolvedRun : s.unresolvedRun = w.migration.status.unresolvedRun
  apply : op.type = .apply → w.migration.status.unresolvedRun = none ∧
    (restores = false → Unspent w.log op)
  read : op.type ≠ .apply → op.Reads

theorem StatusStep.taken {s : Status} {op : Operation} (h : StatusStep md w s)
    (hop : (w.statusWrite s).claimed = some op) : Taken md.restores w s op := by
  rw [StatusWrite.claimed] at hop
  split at hop
  · rename_i hnone
    have hnone : w.migration.status.activeOperation = none := by
      simpa [World.statusWrite] using hnone
    have hop : s.activeOperation = some op := hop
    cases h.claim with
    | keep hsame => rw [hsame, hnone] at hop; cases hop
    | take op' _ hop' _ hnew _ hcopy hu _ happly hread =>
      cases hop'.symm.trans hop
      exact ⟨hnew, hcopy, hu, fun ht => ⟨(happly ht).1, (happly ht).2.2⟩, hread⟩
    | tend o _ ho => rw [hnone] at ho; cases ho
    | retire o ho => rw [hnone] at ho; cases ho
  · cases hop

theorem Reach.written (legal : List Event → StatusWrite → Prop)
    (hlegal : ∀ w s, Reach md w → StatusStep md w s → legal w.log (w.statusWrite s))
    (h : Reach md w) {older : List Event} {e : StatusWrite} (he : .status e :: older <:+ w.log) :
    legal older e := by
  have hlog : Logged (fun older e => ∀ write, e = .status write → legal older write) w.log := by
    refine h.logged fun w e hr hem write he => ?_
    cases hem with
    | status s hs =>
      cases he
      exact hlegal w s hr hs
    | _ => cases he
  exact hlog older _ he e rfl

theorem Reach.each_written (legal : StatusWrite → Prop)
    (hlegal : ∀ w s, Reach md w → StatusStep md w s → legal (w.statusWrite s))
    (h : Reach md w) {e : StatusWrite} (he : .status e ∈ w.log) : legal e := by
  obtain ⟨newer, older, hlog⟩ := List.append_of_mem he
  exact h.written (fun _ e => legal e) hlegal ⟨newer, hlog.symm⟩

/-! ## Claims that have ended -/

/-- The claim `id` was written and is no longer active. -/
structure Ended (w : World) (id : String) : Prop where
  claimed : id ∈ claimedIDs w.log
  inactive : w.migration.status.activeIs id = false

theorem Ended.of_retired {s : Status} {id : String} (h : Reach md w)
    (hactive : w.migration.status.activeIs id = true) (hnone : s.activeOperation = none) :
    Ended (w.writeStatus s) id := by
  obtain ⟨e, he, hid⟩ := List.mem_filterMap.1 (h.latch.activeClaimed id hactive)
  refine ⟨List.mem_filterMap.2 ⟨e, .tail _ he, hid⟩, ?_⟩
  simp [World.writeStatus, World.note, World.store, Status.activeIs, hnone]

theorem Move.ended {id : String} (h : Move md w w') (he : Ended w id) : Ended w' id := by
  have hquiet (hstatus : w'.migration.status = w.migration.status)
      (hlog : statuses w'.log = statuses w.log) : Ended w' id :=
    ⟨by rw [claimedIDs, hlog]; exact he.claimed, by rw [hstatus]; exact he.inactive⟩
  cases h.effect with
  | quiet hstatus _ hlog => exact hquiet hstatus hlog
  | restore _ hstatus _ hlog =>
    exact ⟨by rw [claimedIDs, hlog]; exact he.claimed, by rw [hstatus]; rfl⟩
  | copy _ _ hstatus _ hlog => exact hquiet hstatus hlog
  | status s hstep hstatus _ hlog =>
    refine ⟨?_, ?_⟩
    · obtain ⟨e, hmem, hid⟩ := List.mem_filterMap.1 he.claimed
      exact List.mem_filterMap.2 ⟨e, hlog ▸ List.mem_cons_of_mem _ hmem, hid⟩
    rw [hstatus]
    cases hstep.claim with
    | keep hsame =>
      rw [Status.activeIs, hsame]
      exact he.inactive
    | take op _ hop _ hnew =>
      have hid : op.id ≠ id := fun heq => hnew (heq ▸ he.claimed)
      simp [Status.activeIs, hop, hid]
    | tend op op' hop hop' hid =>
      have hne : op.id ≠ id := by
        rintro rfl
        have hactive := Status.activeIs_iff.2 ⟨op, hop, rfl⟩
        rw [he.inactive] at hactive
        cases hactive
      simp [Status.activeIs, hop', hid, hne]
    | retire _ _ hnone => simp [Status.activeIs, hnone]

end Ptah.Migration
