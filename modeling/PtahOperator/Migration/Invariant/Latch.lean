import PtahOperator.Migration.Protocol

/-!
# The latch and its copy

The invariants that tie `status.unresolvedRun`, its copy and the log together, in every run with or
without restores (`LatchInv`). They look at the status, the copy and the status writes only, so
each move of the system is one of four effects on these (`Effect`).
-/

namespace Ptah.Migration

open Conc Lifecycle

section Vocabulary

variable {s : Status} {id : String}

theorem Status.activeIs_iff :
    s.activeIs id = true ↔ ∃ op, s.activeOperation = some op ∧ op.id = id := by
  cases h : s.activeOperation <;> simp [activeIs, h]

theorem Status.unresolvedIs_iff :
    s.unresolvedIs id = true ↔ ∃ run, s.unresolvedRun = some run ∧ run.operationID = id := by
  cases h : s.unresolvedRun <;> simp [unresolvedIs, h]

theorem Status.resolvedIs_iff :
    s.resolvedIs id = true ↔ ∃ run, s.resolvedRun = some run ∧ run.operationID = id := by
  cases h : s.resolvedRun <;> simp [resolvedIs, h]

theorem StatusWrite.retires_iff {e : StatusWrite} :
    e.retires id = true ↔ e.before.activeIs id = true ∧ e.after.activeOperation = none ∧
      e.after.unresolvedIs id = false := by
  simp [retires, and_assoc]

end Vocabulary

/-! ## Effects on status and copy -/

section Effects

variable {md : Mode} {w w' : World}

/-- What a move does to the status, the copy and the status writes. -/
inductive Effect (md : Mode) (w w' : World) : Prop where
  | quiet (hstatus : w'.migration.status = w.migration.status)
      (hcopy : w'.migration.unresolvedRunCopy = w.migration.unresolvedRunCopy)
      (hlog : statuses w'.log = statuses w.log)
  | restore (hmode : md.restores = true) (hstatus : w'.migration.status = {})
      (hcopy : w'.migration.unresolvedRunCopy = w.migration.unresolvedRunCopy)
      (hlog : statuses w'.log = statuses w.log)
  | copy (value : Option CopyValue) (h : CopyStep w value)
      (hstatus : w'.migration.status = w.migration.status)
      (hcopy : w'.migration.unresolvedRunCopy = value) (hlog : statuses w'.log = statuses w.log)
  | status (s : Status) (h : StatusStep md w s) (hstatus : w'.migration.status = s)
      (hcopy : w'.migration.unresolvedRunCopy = w.migration.unresolvedRunCopy)
      (hlog : statuses w'.log = w.statusWrite s :: statuses w.log)

theorem Silent.effect (h : Silent md w w') : Effect md w w' := by
  cases h with
  | draw id hnew => exact .quiet rfl rfl rfl
  | read reading => exact .quiet rfl rfl rfl
  | env h =>
    cases h with
    | edit m huid hstatus hcopy => exact .quiet hstatus hcopy rfl
    | restore m hmode hstatus hcopy => exact .restore hmode hstatus hcopy rfl
    | _ => exact .quiet rfl rfl rfl

theorem Move.effect (h : Move md w w') : Effect md w w' := by
  cases h with
  | silent h => exact h.effect
  | copy value h => exact .copy value h rfl rfl rfl
  | status s h => exact .status s h rfl rfl rfl
  | _ => exact .quiet rfl rfl rfl

end Effects

/-! ## The invariant -/

/-- The record, its copy, the active claim and the log. -/
structure LatchInv (w : World) : Prop where
  /-- A record has its copy. -/
  copied : ∀ run, w.migration.status.unresolvedRun = some run →
    w.migration.unresolvedRunCopy = some (.record run)
  decodes : ∀ value, w.migration.unresolvedRunCopy = some value →
    ∃ run, value = .record run ∧ run.Decodes
  /-- Under the claim of an Apply, the record and the copy are its own. -/
  own : ∀ op run, w.migration.status.activeOperation = some op → op.type = .apply →
    w.migration.unresolvedRunCopy = some (.record run) → run.operationID = op.id
  activeClaimed : ∀ id, w.migration.status.activeIs id = true → id ∈ claimedIDs w.log
  copyClaimed : ∀ run, w.migration.unresolvedRunCopy = some (.record run) →
    run.operationID ∈ claimedIDs w.log
  latchedClaimed : ∀ id, Latched w.log id → id ∈ claimedIDs w.log
  settledClaimed : ∀ id, Settled w.log id → id ∈ claimedIDs w.log
  resolved : ∀ id, w.migration.status.resolvedIs id = true → Settled w.log id
  /-- A latched run is settled, recorded, or in the copy. -/
  latched : ∀ id, Latched w.log id → Settled w.log id ∨ w.migration.status.unresolvedIs id = true ∨
    ∃ run, w.migration.unresolvedRunCopy = some (.record run) ∧ run.operationID = id
  activeLatched : ∀ id, w.migration.status.activeIs id = true → Latched w.log id →
    Settled w.log id ∨ w.migration.status.unresolvedIs id = true
  /-- The run of a claim the last write retired without a record is settled, if it was latched. -/
  retired : ∀ e id, lastStatus w.log = some e → e.retires id = true → Latched w.log id →
    Settled w.log id

theorem LatchInv.init {w : World} (h : Fresh w) : LatchInv w := by
  have hlog : statuses w.log = [] := by rw [h.log]; rfl
  constructor <;>
    simp [h.unresolved, h.active, h.copy, h.resolved, hlog, Status.activeIs, Status.resolvedIs,
      Latched, Settled, lastStatus]

section Preserved

variable {md : Mode} {w w' : World}

theorem LatchInv.quiet (hi : LatchInv w) (hstatus : w'.migration.status = w.migration.status)
    (hcopy : w'.migration.unresolvedRunCopy = w.migration.unresolvedRunCopy)
    (hlog : statuses w'.log = statuses w.log) : LatchInv w' := by
  obtain ⟨h1, h2, h3, h4, h5, h6, h7, h8, h9, h10, h11⟩ := hi
  constructor <;>
    simp only [hstatus, hcopy, Latched, Settled, claimedIDs, lastStatus, hlog] at * <;> assumption

theorem LatchInv.restore (hi : LatchInv w) (hstatus : w'.migration.status = {})
    (hcopy : w'.migration.unresolvedRunCopy = w.migration.unresolvedRunCopy)
    (hlog : statuses w'.log = statuses w.log) : LatchInv w' := by
  obtain ⟨h1, h2, h3, h4, h5, h6, h7, h8, h9, h10, h11⟩ := hi
  constructor <;> simp only [hstatus, hcopy, Latched, Settled, claimedIDs, lastStatus, hlog] at *
  case latched =>
    intro id hl
    rcases h9 id hl with hs | hu | hc
    · exact .inl hs
    · obtain ⟨run, hrun, rfl⟩ := Status.unresolvedIs_iff.1 hu
      exact .inr (.inr ⟨run, h1 run hrun, rfl⟩)
    · exact .inr (.inr hc)
  all_goals first | assumption | simp [Status.activeIs, Status.resolvedIs]

theorem LatchInv.copy (hi : LatchInv w) {value : Option CopyValue} (h : CopyStep w value)
    (hstatus : w'.migration.status = w.migration.status)
    (hcopy : w'.migration.unresolvedRunCopy = value) (hlog : statuses w'.log = statuses w.log) :
    LatchInv w' := by
  cases h with
  | repair run hrun => exact hi.quiet hstatus (hcopy.trans (hi.copied run hrun).symm) hlog
  | ahead op run hactive htype hnone hid hok =>
    obtain ⟨h1, h2, h3, h4, h5, h6, h7, h8, h9, h10, h11⟩ := hi
    have hclaimed : run.operationID ∈ claimedIDs w.log :=
      h4 _ (Status.activeIs_iff.2 ⟨op, hactive, hid.symm⟩)
    constructor <;> simp only [hstatus, hcopy, Latched, Settled, claimedIDs, lastStatus, hlog] at *
    case copied => simp [hnone]
    case decodes => exact fun value hv => ⟨run, (Option.some.inj hv).symm, hok⟩
    case own =>
      intro op' run' hop' _ hrun'
      cases hrun'
      rw [hactive] at hop'
      cases hop'
      exact hid
    case copyClaimed =>
      intro run' hrun'
      cases hrun'
      exact hclaimed
    case latched =>
      intro id hl
      rcases h9 id hl with hs | hu | ⟨run', hrun', rfl⟩
      · exact .inl hs
      · exact .inr (.inl hu)
      · exact .inr (.inr ⟨run, rfl, by rw [hid, h3 op run' hactive htype hrun']⟩)
    all_goals assumption
  | drop run hrun hnone hdone =>
    -- What is dropped is the copy of a run that is settled, if it was ever latched.
    have hgone : Latched w.log run.operationID → Settled w.log run.operationID := by
      intro hl
      rcases hdone with hr | ⟨e, he, hret⟩
      · exact hi.resolved _ hr
      · exact hi.retired e _ he hret hl
    obtain ⟨h1, h2, h3, h4, h5, h6, h7, h8, h9, h10, h11⟩ := hi
    constructor <;> simp only [hstatus, hcopy, Latched, Settled, claimedIDs, lastStatus, hlog] at *
    case copied => simp [hnone]
    case latched =>
      intro id hl
      rcases h9 id hl with hs | hu | ⟨run', hrun', rfl⟩
      · exact .inl hs
      · exact .inr (.inl hu)
      rw [hrun] at hrun'
      cases hrun'
      exact .inl (hgone hl)
    all_goals first | assumption | simp

/-! ### Status writes -/

section Cons

variable {log log' : List Event} {e : StatusWrite} {id : String}

theorem latched_cons (h : statuses log' = e :: statuses log) :
    Latched log' id ↔ e.after.unresolvedIs id = true ∨ Latched log id := by
  simp only [Latched, h, List.exists_mem_cons_iff]

theorem settled_cons (h : statuses log' = e :: statuses log) :
    Settled log' id ↔ e.after.resolvedIs id = true ∨ Settled log id := by
  simp only [Settled, h, List.exists_mem_cons_iff]

theorem claimedIDs_mono (h : statuses log' = e :: statuses log) (hid : id ∈ claimedIDs log) :
    id ∈ claimedIDs log' := by
  simp only [claimedIDs, h, List.filterMap_cons]
  split
  · exact hid
  · exact .tail _ hid

theorem claimedIDs_take {op : Operation} (h : statuses log' = e :: statuses log)
    (hbefore : e.before.activeOperation = none) (hafter : e.after.activeOperation = some op) :
    op.id ∈ claimedIDs log' := by
  simp [claimedIDs, h, StatusWrite.claimed, hbefore, hafter]

end Cons

/-- A record that stood before a write is settled by it, or stands after it. -/
theorem LatchStep.carry {s : Status} (h : LatchStep w s) {id : String}
    (hid : w.migration.status.unresolvedIs id = true) :
    s.resolvedIs id = true ∨ s.unresolvedIs id = true := by
  obtain ⟨run, hrun, rfl⟩ := Status.unresolvedIs_iff.1 hid
  cases h with
  | keep hu hr => exact .inr (Status.unresolvedIs_iff.2 ⟨run, hu.trans hrun, rfl⟩)
  | record op run' _ _ hnone => rw [hrun] at hnone; cases hnone
  | restore run' hnone => rw [hrun] at hnone; cases hnone
  | acknowledge run' resolved hrun' hu hr hid' =>
    rw [hrun] at hrun'
    cases hrun'
    exact .inl (Status.resolvedIs_iff.2 ⟨resolved, hr, hid'⟩)
  | settle run' resolved report target hrun' hu hr hid' =>
    rw [hrun] at hrun'
    cases hrun'
    exact .inl (Status.resolvedIs_iff.2 ⟨resolved, hr, hid'⟩)

theorem LatchStep.copied {s : Status} (h : LatchStep w s) (hi : LatchInv w) {run : UnresolvedRun}
    (hrun : s.unresolvedRun = some run) : w.migration.unresolvedRunCopy = some (.record run) := by
  cases h with
  | keep hu hr => exact hi.copied run (hu ▸ hrun)
  | record op run' _ _ _ _ hcopy _ hu =>
    rw [hu] at hrun
    cases hrun
    exact hcopy
  | restore run' _ hcopy _ _ _ hu =>
    rw [hu] at hrun
    cases hrun
    exact hcopy
  | acknowledge run' resolved _ hu => rw [hu] at hrun; cases hrun
  | settle run' resolved report target _ hu => rw [hu] at hrun; cases hrun

theorem LatchStep.resolvedClaimed {s : Status} (h : LatchStep w s) (hi : LatchInv w) {id : String}
    (hid : s.resolvedIs id = true) : id ∈ claimedIDs w.log := by
  obtain ⟨resolved, hresolved, rfl⟩ := Status.resolvedIs_iff.1 hid
  have hsame (hr : s.resolvedRun = w.migration.status.resolvedRun) :
      resolved.operationID ∈ claimedIDs w.log :=
    hi.settledClaimed _ (hi.resolved _ (Status.resolvedIs_iff.2 ⟨resolved, hr ▸ hresolved, rfl⟩))
  have hrecord {run : UnresolvedRun} {r : ResolvedRun}
      (hrun : w.migration.status.unresolvedRun = some run) (hr : s.resolvedRun = some r)
      (hid : r.operationID = run.operationID) : resolved.operationID ∈ claimedIDs w.log := by
    rw [hr] at hresolved
    cases hresolved
    rw [hid]
    exact hi.copyClaimed run (hi.copied run hrun)
  cases h with
  | keep hu hr => exact hsame hr
  | record op run _ _ _ _ _ _ _ hr => exact hsame hr
  | restore run _ _ _ _ _ _ hr => exact hsame hr
  | acknowledge run r hrun hu hr hid => exact hrecord hrun hr hid
  | settle run r report target hrun hu hr hid => exact hrecord hrun hr hid

/-- A claim that stands after a write stood before it, or is taken by it with an id of its own. -/
theorem ClaimStep.active {restores : Bool} {s : Status} {op : Operation} (h : ClaimStep restores w s)
    (hop : s.activeOperation = some op) :
    (∃ op0, w.migration.status.activeOperation = some op0 ∧ op0.id = op.id ∧ op0.type = op.type) ∨
      w.migration.status.activeOperation = none ∧ op.id ∉ claimedIDs w.log ∧
        (op.type = .apply → w.migration.unresolvedRunCopy = none) := by
  cases h with
  | keep hsame => exact .inl ⟨op, hsame ▸ hop, rfl, rfl⟩
  | take op' hnone hop' _ hnew _ hsettled _ _ happly =>
    cases hop'.symm.trans hop
    refine .inr ⟨hnone, hnew, fun htype => ?_⟩
    rwa [CopySettled, (happly htype).1] at hsettled
  | tend op0 op' hop0 hop' hid htype =>
    cases hop'.symm.trans hop
    exact .inl ⟨op0, hop0, hid.symm, htype.symm⟩
  | retire op0 hop0 hnone => cases hnone.symm.trans hop

section Status

variable {s : Status} {id : String}

theorem StatusStep.carry (h : StatusStep md w s)
    (hlog : statuses w'.log = w.statusWrite s :: statuses w.log)
    (hid : w.migration.status.unresolvedIs id = true) : Settled w'.log id ∨ s.unresolvedIs id = true := by
  rcases h.latch.carry hid with hr | hu
  · exact .inl ((settled_cons hlog).2 (.inl hr))
  · exact .inr hu

variable (hi : LatchInv w) (h : StatusStep md w s)
  (hlog : statuses w'.log = w.statusWrite s :: statuses w.log)

include hi h

theorem LatchInv.own_status {op : Operation} {run : UnresolvedRun}
    (hop : s.activeOperation = some op) (htype : op.type = .apply)
    (hrun : w.migration.unresolvedRunCopy = some (.record run)) : run.operationID = op.id := by
  rcases h.claim.active hop with ⟨op0, hop0, hid, htype0⟩ | ⟨_, _, hnone⟩
  · rw [← hid]
    exact hi.own op0 run hop0 (htype0.trans htype) hrun
  · cases (hnone htype).symm.trans hrun

include hlog

theorem LatchInv.carryActive (hid : w.migration.status.activeIs id = true) (hl : Latched w.log id) :
    Settled w'.log id ∨ s.unresolvedIs id = true := by
  rcases hi.activeLatched id hid hl with hs | hu
  · exact .inl ((settled_cons hlog).2 (.inr hs))
  · exact h.carry hlog hu

theorem LatchInv.activeClaimed_status (hid : s.activeIs id = true) : id ∈ claimedIDs w'.log := by
  obtain ⟨op, hop, rfl⟩ := Status.activeIs_iff.1 hid
  rcases h.claim.active hop with ⟨op0, hop0, hid, _⟩ | ⟨hnone, _, _⟩
  · exact claimedIDs_mono hlog (hi.activeClaimed _ (Status.activeIs_iff.2 ⟨op0, hop0, hid⟩))
  · exact claimedIDs_take hlog hnone hop

theorem LatchInv.latchedClaimed_status (hl : Latched w'.log id) : id ∈ claimedIDs w'.log := by
  rcases (latched_cons hlog).1 hl with hu | hl
  · obtain ⟨run, hrun, rfl⟩ := Status.unresolvedIs_iff.1 hu
    exact claimedIDs_mono hlog (hi.copyClaimed run (h.latch.copied hi hrun))
  · exact claimedIDs_mono hlog (hi.latchedClaimed id hl)

theorem LatchInv.settledClaimed_status (hs : Settled w'.log id) : id ∈ claimedIDs w'.log := by
  rcases (settled_cons hlog).1 hs with hr | hs
  · exact claimedIDs_mono hlog (h.latch.resolvedClaimed hi hr)
  · exact claimedIDs_mono hlog (hi.settledClaimed id hs)

theorem LatchInv.latched_status (hl : Latched w'.log id) : Settled w'.log id ∨ s.unresolvedIs id = true ∨
    ∃ run, w.migration.unresolvedRunCopy = some (.record run) ∧ run.operationID = id := by
  rcases (latched_cons hlog).1 hl with hu | hl
  · exact .inr (.inl hu)
  rcases hi.latched id hl with hs | hu | hc
  · exact .inl ((settled_cons hlog).2 (.inr hs))
  · exact (h.carry hlog hu).imp_right .inl
  · exact .inr (.inr hc)

theorem LatchInv.activeLatched_status (hid : s.activeIs id = true) (hl : Latched w'.log id) :
    Settled w'.log id ∨ s.unresolvedIs id = true := by
  rcases (latched_cons hlog).1 hl with hu | hl
  · exact .inr hu
  obtain ⟨op, hop, rfl⟩ := Status.activeIs_iff.1 hid
  rcases h.claim.active hop with ⟨op0, hop0, hid, _⟩ | ⟨_, hnew, _⟩
  · exact hi.carryActive h hlog (Status.activeIs_iff.2 ⟨op0, hop0, hid⟩) hl
  · exact absurd (hi.latchedClaimed _ hl) hnew

theorem LatchInv.retired_status (hret : (w.statusWrite s).retires id = true) (hl : Latched w'.log id) :
    Settled w'.log id := by
  obtain ⟨hbefore, -, hnot⟩ := StatusWrite.retires_iff.1 hret
  have hnot : s.unresolvedIs id ≠ true := ne_true_of_eq_false hnot
  have hl : Latched w.log id := ((latched_cons hlog).1 hl).resolve_left hnot
  exact (hi.carryActive h hlog hbefore hl).resolve_right hnot

theorem LatchInv.status (hstatus : w'.migration.status = s)
    (hcopy : w'.migration.unresolvedRunCopy = w.migration.unresolvedRunCopy) : LatchInv w' where
  copied run hrun := hcopy ▸ h.latch.copied hi (hstatus ▸ hrun)
  decodes := hcopy ▸ hi.decodes
  own op run hop htype hrun := hi.own_status h (hstatus ▸ hop) htype (hcopy ▸ hrun)
  activeClaimed id hid := hi.activeClaimed_status h hlog (hstatus ▸ hid)
  copyClaimed run hrun := claimedIDs_mono hlog (hi.copyClaimed run (hcopy ▸ hrun))
  latchedClaimed id hl := hi.latchedClaimed_status h hlog hl
  settledClaimed id hs := hi.settledClaimed_status h hlog hs
  resolved id hr := (settled_cons hlog).2 (.inl (hstatus ▸ hr))
  latched id hl := hstatus ▸ hcopy ▸ hi.latched_status h hlog hl
  activeLatched id hid hl := hstatus ▸ hi.activeLatched_status h hlog (hstatus ▸ hid) hl
  retired e id he hret hl := by
    rw [lastStatus, hlog, List.head?_cons, Option.some.injEq] at he
    subst he
    exact hi.retired_status h hlog hret hl

end Status

end Preserved

theorem Reach.latch {md : Mode} {w : World} (h : Reach md w) : LatchInv w := by
  refine h.induct (fun _ => LatchInv.init) fun w w' _ hi hmove => ?_
  cases hmove.effect with
  | quiet hstatus hcopy hlog => exact hi.quiet hstatus hcopy hlog
  | restore _ hstatus hcopy hlog => exact hi.restore hstatus hcopy hlog
  | copy value hstep hstatus hcopy hlog => exact hi.copy hstep hstatus hcopy hlog
  | status s hstep hstatus hcopy hlog => exact hi.status hstep hlog hstatus hcopy

end Ptah.Migration
