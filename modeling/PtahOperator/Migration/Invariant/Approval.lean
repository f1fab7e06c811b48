import PtahOperator.Migration.Invariant.Create

/-!
# Approvals and the runs they were spent on

An approval that a create was sent under is consumed, and once a dispatch is behind its step
Consume the other approvals of the plan are dead (`ApprovalInv`). Nothing brings one back
(`Later`). Runs without restores.
-/

namespace Ptah.Migration

open Conc Lifecycle

variable {md : Mode} {w w' : World} {uid : String}

/-! ## Approvals only lose authority -/

/-- The approval `a'` is `a` at a later time. -/
structure Approval.Aged (a a' : Approval) : Prop where
  uid : a'.uid = a.uid
  migrationUID : a'.migrationUID = a.migrationUID
  planUID : a'.planUID = a.planUID
  consumed : a.consumed = true → a'.consumed = true
  standing : a.standing = false → a'.standing = false

theorem Approval.Aged.refl (a : Approval) : a.Aged a := ⟨rfl, rfl, rfl, id, id⟩

/-- The approval with the UID of `b` names the plan that `b` names. -/
def World.Recalls (w : World) (b : Approval) : Prop :=
  b.uid ∈ w.approvalUIDs ∧ ∀ a ∈ w.approvals, a.uid = b.uid → a.planUID = b.planUID

/-- The approvals of `w'` are those of `w` at a later time, and new ones. -/
structure Later (w w' : World) : Prop where
  uid : w'.migration.uid = w.migration.uid
  uids : ∀ uid ∈ w.approvalUIDs, uid ∈ w'.approvalUIDs
  approvals : ∀ a' ∈ w'.approvals, a'.uid ∈ w.approvalUIDs → ∃ a ∈ w.approvals, a.Aged a'

namespace Later

theorem same (huid : w'.migration.uid = w.migration.uid) (happ : w'.approvals = w.approvals)
    (huids : w'.approvalUIDs = w.approvalUIDs) : Later w w' :=
  ⟨huid, fun _ h => huids ▸ h, fun a' ha' _ => ⟨a', happ ▸ ha', .refl a'⟩⟩

theorem aged (f : Approval → Approval) (hf : ∀ a : Approval, a.Aged (f a))
    (huid : w'.migration.uid = w.migration.uid) (happ : w'.approvals = w.approvals.map f)
    (huids : w'.approvalUIDs = w.approvalUIDs) : Later w w' := by
  refine ⟨huid, fun _ h => huids ▸ h, fun a' ha' _ => ?_⟩
  rw [happ] at ha'
  obtain ⟨a, ha, rfl⟩ := List.mem_map.1 ha'
  exact ⟨a, ha, hf a⟩

theorem consumed (h : Later w w') (hc : w.Consumed uid) : w'.Consumed uid := by
  refine ⟨h.uids uid hc.1, fun a' ha' hid => ?_⟩
  obtain ⟨a, ha, hage⟩ := h.approvals a' ha' (hid ▸ hc.1)
  exact hage.consumed (hc.2 a ha (hage.uid ▸ hid))

theorem dead (h : Later w w') (hd : w.Dead uid) : w'.Dead uid := by
  refine ⟨h.uids uid hd.1, fun a' ha' hid hm => ?_⟩
  obtain ⟨a, ha, hage⟩ := h.approvals a' ha' (hid ▸ hd.1)
  refine hage.standing (hd.2 a ha (hage.uid ▸ hid) ?_)
  rw [← hage.migrationUID, hm, h.uid]

theorem recalls (h : Later w w') {b : Approval} (hb : w.Recalls b) : w'.Recalls b := by
  refine ⟨h.uids b.uid hb.1, fun a' ha' hid => ?_⟩
  obtain ⟨a, ha, hage⟩ := h.approvals a' ha' (hid ▸ hb.1)
  exact hage.planUID.trans (hb.2 a ha (hage.uid ▸ hid))

theorem markApproval (w : World) (uid : String) (mark : ApprovalMark) :
    Later w (w.markApproval uid mark) := by
  refine aged _ (fun a => ?_) rfl rfl rfl
  split
  · cases mark
    · exact ⟨rfl, rfl, rfl, fun _ => rfl, fun _ => by simp [Approval.standing]⟩
    · exact ⟨rfl, rfl, rfl, id, fun _ => by simp [Approval.standing]⟩
  · exact .refl a

end Later

theorem Silent.later (hmd : md.restores = false) (h : Silent md w w') : Later w w' := by
  cases h with
  | env h =>
    cases h with
    | edit m huid => exact .same huid rfl rfl
    | restore m hmode => rw [hmd] at hmode; cases hmode
    | approve a hnew =>
      refine ⟨rfl, fun _ => List.mem_cons_of_mem _, fun a' ha' hold => ?_⟩
      rcases List.mem_cons.1 ha' with rfl | ha'
      · exact absurd hold hnew
      · exact ⟨a', ha', .refl a'⟩
    | withdrawing uid =>
      refine .aged _ (fun a => ?_) rfl rfl rfl
      split
      · exact ⟨rfl, rfl, rfl, id, fun _ => by simp [Approval.standing]⟩
      · exact .refl a
    | withdrawn uid =>
      exact ⟨rfl, fun _ h => h, fun a' ha' _ => ⟨a', (List.mem_filter.1 ha').1, .refl a'⟩⟩
    | _ => exact .same rfl rfl rfl
  | _ => exact .same rfl rfl rfl

theorem Move.later (hmd : md.restores = false) (h : Move md w w') : Later w w' := by
  cases h with
  | silent h => exact h.later hmd
  | consume approval _ =>
    obtain ⟨h1, h2, h3⟩ := Later.markApproval (w.note (.consumed approval w.approvals))
      approval.uid .consumed
    exact ⟨h1, h2, h3⟩
  | stale uid => exact .markApproval w uid .stale
  | _ => exact .same rfl rfl rfl

/-- Each approval in the store has a UID of its own. -/
structure Distinct (w : World) : Prop where
  known : ∀ a ∈ w.approvals, a.uid ∈ w.approvalUIDs
  nodup : (w.approvals.map (·.uid)).Nodup

namespace Distinct

theorem congr (h : Distinct w) (happ : w'.approvals = w.approvals)
    (huids : w'.approvalUIDs = w.approvalUIDs) : Distinct w' :=
  ⟨by rw [happ, huids]; exact h.known, by rw [happ]; exact h.nodup⟩

theorem map (h : Distinct w) (f : Approval → Approval) (hf : ∀ a, (f a).uid = a.uid)
    (happ : w'.approvals = w.approvals.map f) (huids : w'.approvalUIDs = w.approvalUIDs) :
    Distinct w' := by
  refine ⟨fun a ha => ?_, ?_⟩
  · rw [happ] at ha
    obtain ⟨b, hb, rfl⟩ := List.mem_map.1 ha
    rw [huids, hf]
    exact h.known b hb
  · have hsame : (w.approvals.map f).map (·.uid) = w.approvals.map (·.uid) := by
      rw [List.map_map]
      exact List.map_congr_left fun a _ => hf a
    rw [happ, hsame]
    exact h.nodup

theorem markApproval (h : Distinct w) (uid : String) (mark : ApprovalMark) :
    Distinct (w.markApproval uid mark) := by
  refine h.map _ (fun a => ?_) rfl rfl
  split
  · cases mark <;> rfl
  · rfl

theorem eq (h : Distinct w) {a b : Approval} (ha : a ∈ w.approvals) (hb : b ∈ w.approvals)
    (hid : a.uid = b.uid) : a = b :=
  List.inj_on_of_nodup_map h.nodup ha hb hid

theorem recalls (h : Distinct w) {b : Approval} (hb : b ∈ w.approvals) : w.Recalls b :=
  ⟨h.known b hb, fun _ ha hid => by rw [h.eq ha hb hid]⟩

end Distinct

theorem Move.distinct (hi : Distinct w) (h : Move md w w') : Distinct w' := by
  cases h with
  | silent h =>
    cases h with
    | env h =>
      cases h with
      | approve a hnew =>
        refine ⟨fun b hb => ?_, List.nodup_cons.2 ⟨fun hmem => ?_, hi.nodup⟩⟩
        · rcases hb with _ | ⟨_, hb⟩
          · exact .head _
          · exact .tail _ (hi.known b hb)
        · obtain ⟨b, hb, hid⟩ := List.mem_map.1 hmem
          have hid : b.uid = a.uid := hid
          exact hnew (hid ▸ hi.known b hb)
      | withdrawing uid => exact hi.map _ (fun a => by split <;> rfl) rfl rfl
      | withdrawn uid =>
        exact ⟨fun a ha => hi.known a (List.mem_filter.1 ha).1,
          hi.nodup.sublist (List.filter_sublist.map _)⟩
      | _ => exact hi.congr rfl rfl
    | _ => exact hi.congr rfl rfl
  | consume approval _ =>
    have hnoted : Distinct (w.note (.consumed approval w.approvals)) := hi.congr rfl rfl
    exact hnoted.markApproval _ _
  | stale uid => exact hi.markApproval uid .stale
  | _ => exact hi.congr rfl rfl

/-! ## The invariant -/

structure ApprovalInv (w : World) : Prop where
  distinct : Distinct w
  /-- What the log says of approvals still holds of them. -/
  recalled : ∀ a others, .consumed a others ∈ w.log → w.Recalls a ∧ ∀ b ∈ others, w.Recalls b
  /-- An approval that a create was sent under is consumed. -/
  created : ∀ claim job refused uid, .create (some claim) job refused ∈ w.log →
    claim.under uid = true → w.Consumed uid
  passed : ∀ claim uid, .passedConsume (some claim) ∈ w.log → claim.under uid = true →
    w.Consumed uid ∧ ∀ other, Rival w.log uid other → w.Dead other
  /-- Creates under one approval are creates of one claim. -/
  one : ∀ c₁ j₁ r₁ c₂ j₂ r₂ uid, .create (some c₁) j₁ r₁ ∈ w.log →
    .create (some c₂) j₂ r₂ ∈ w.log → c₁.under uid = true → c₂.under uid = true → c₁.id = c₂.id
  active : ∀ op claim job refused uid, w.migration.status.activeOperation = some op →
    .create (some claim) job refused ∈ w.log → claim.under uid = true → op.under uid = true →
    claim.id = op.id

theorem ApprovalInv.init (h : Fresh w) : ApprovalInv w := by
  refine ⟨⟨h.approvals, h.approvalUIDs⟩, ?_, ?_, ?_, ?_, ?_⟩ <;> simp [h.log]

/-- A log that says as much of creates, dispatches and consumed approvals. -/
theorem ApprovalInv.congr (hi : ApprovalInv w) (hdistinct : Distinct w') (hlater : Later w w')
    (hactive : ∀ op uid, w'.migration.status.activeOperation = some op → op.under uid = true →
      (∃ op0, w.migration.status.activeOperation = some op0 ∧ op0.id = op.id ∧
        op0.under uid = true) ∨
      ∀ claim job refused, .create (some claim) job refused ∈ w.log → claim.under uid = false)
    (hcreates : ∀ claim job refused, .create claim job refused ∈ w'.log →
      .create claim job refused ∈ w.log)
    (hpassed : ∀ claim, .passedConsume claim ∈ w'.log → .passedConsume claim ∈ w.log)
    (hconsumed : ∀ a others, .consumed a others ∈ w'.log → .consumed a others ∈ w.log) :
    ApprovalInv w' := by
  refine ⟨hdistinct, ?_, ?_, ?_, ?_, ?_⟩
  · intro a others he
    obtain ⟨ha, hb⟩ := hi.recalled a others (hconsumed a others he)
    exact ⟨hlater.recalls ha, fun b hm => hlater.recalls (hb b hm)⟩
  · intro claim job refused uid he hu
    exact hlater.consumed (hi.created claim job refused uid (hcreates _ _ _ he) hu)
  · intro claim uid he hu
    obtain ⟨hc, hd⟩ := hi.passed claim uid (hpassed _ he) hu
    refine ⟨hlater.consumed hc, fun other hr => hlater.dead (hd other ?_)⟩
    obtain ⟨a, others, b, hl, hrest⟩ := hr
    exact ⟨a, others, b, hconsumed a others hl, hrest⟩
  · intro c1 j1 r1 c2 j2 r2 uid h1 h2
    exact hi.one c1 j1 r1 c2 j2 r2 uid (hcreates _ _ _ h1) (hcreates _ _ _ h2)
  · intro op claim job refused uid hop he hu hu'
    rcases hactive op uid hop hu' with ⟨op0, hop0, hid, hu0⟩ | hnone
    · rw [← hid]
      exact hi.active op0 claim job refused uid hop0 (hcreates _ _ _ he) hu hu0
    · rw [hnone claim job refused (hcreates _ _ _ he)] at hu
      cases hu

/-- Which approval the claim after a write is under. -/
theorem StatusStep.under {s : Status} (h : StatusStep md w s) (hc : ClaimInv w)
    (hmd : md.restores = false) {op : Operation} (hop : s.activeOperation = some op) (hu : op.under uid = true) :
    (∃ op0, w.migration.status.activeOperation = some op0 ∧ op0.id = op.id ∧ op0.under uid = true) ∨
    ∀ claim job refused, .create (some claim) job refused ∈ w.log → claim.under uid = false := by
  cases h.claim with
  | keep hsame => exact .inl ⟨op, hsame ▸ hop, rfl, hu⟩
  | take op' hnone hop' _ _ _ _ _ _ happly hread =>
    cases hop'.symm.trans hop
    by_cases ht : op.type = .apply
    · exact .inr (((happly ht).2.2 hmd) uid hu).1
    · simp [Operation.under, (hread ht).1] at hu
  | tend op0 op' hop0 hop' hid htype happly hread =>
    cases hop'.symm.trans hop
    have href : op.approvalRef = op0.approvalRef := by
      by_cases ht : op0.type = .apply
      · cases happly ht with
        | tend _ _ _ _ h => rw [h]
        | mark h => rw [h]
        | withdraw h => rw [h]
        | record _ h => rw [h]
      · have hreads := hc.reads op0 hop0 ht
        rw [hreads.1, (hread ht hreads).1]
    exact .inl ⟨op0, hop0, hid.symm, by rwa [Operation.under, ← href]⟩
  | retire op0 hop0 hnone =>
    rw [hnone] at hop
    cases hop

theorem ApprovalInv.create (hi : ApprovalInv w) (hc : ClaimInv w) {job : Job} {refused : Bool}
    (h : MayCreate w job) (hdistinct : Distinct w')
    (hlater : Later w w')
    (hactive : w'.migration.status.activeOperation = w.migration.status.activeOperation)
    (hlog : w'.log = .create w.migration.status.activeOperation job refused :: w.log) :
    ApprovalInv w' := by
  obtain ⟨op, hop, hid, -, -, happly⟩ := h
  have hspent {uid : String} (hu : op.under uid = true) : w.Consumed uid := by
    by_cases ht : op.type = .apply
    · exact (happly ht).spent uid hu
    · simp [Operation.under, (hc.reads op hop ht).1] at hu
  have hcases {claim : Operation} {j : Job} {r : Bool}
      (he : Event.create (some claim) j r ∈ w'.log) :
      claim = op ∨ Event.create (some claim) j r ∈ w.log := by
    rw [hlog, hop] at he
    rcases List.mem_cons.1 he with he | he
    · cases he
      exact .inl rfl
    · exact .inr he
  refine ⟨hdistinct, ?_, ?_, ?_, ?_, ?_⟩
  · intro a others he
    obtain ⟨ha, hb⟩ := hi.recalled a others (by simpa [hlog] using he)
    exact ⟨hlater.recalls ha, fun b hm => hlater.recalls (hb b hm)⟩
  · intro claim j r uid he hu
    rcases hcases he with rfl | he
    · exact hlater.consumed (hspent hu)
    · exact hlater.consumed (hi.created claim j r uid he hu)
  · intro claim uid he hu
    rw [hlog] at he
    obtain ⟨hcons, hd⟩ := hi.passed claim uid (by simpa using he) hu
    refine ⟨hlater.consumed hcons, fun other hr => hlater.dead (hd other ?_)⟩
    obtain ⟨a, others, b, hl, hrest⟩ := hr
    exact ⟨a, others, b, by simpa [hlog] using hl, hrest⟩
  · intro c1 j1 r1 c2 j2 r2 uid h1 h2 hu1 hu2
    rcases hcases h1 with rfl | h1 <;> rcases hcases h2 with rfl | h2
    · rfl
    · exact (hi.active c1 c2 j2 r2 uid hop h2 hu2 hu1).symm
    · exact hi.active c2 c1 j1 r1 uid hop h1 hu1 hu2
    · exact hi.one c1 j1 r1 c2 j2 r2 uid h1 h2 hu1 hu2
  · intro o claim j r uid ho he hu hu'
    cases (hactive ▸ ho).symm.trans hop
    rcases hcases he with rfl | he
    · rfl
    · exact hi.active op claim j r uid hop he hu hu'

theorem ApprovalInv.consume (hi : ApprovalInv w) {approval : Approval}
    (h : ∃ a ∈ w.approvals, a.uid = approval.uid ∧ a.consumed = false ∧
      a.planUID = approval.planUID)
    (hdistinct : Distinct w') (hlater : Later w w')
    (hactive : w'.migration.status.activeOperation = w.migration.status.activeOperation)
    (hlog : w'.log = .consumed approval w.approvals :: w.log) : ApprovalInv w' := by
  obtain ⟨a, ha, hid, hnot, hplan⟩ := h
  refine ⟨hdistinct, ?_, ?_, ?_, ?_, ?_⟩
  · intro b others he
    rw [hlog] at he
    rcases List.mem_cons.1 he with he | he
    · cases he
      refine ⟨hlater.recalls ⟨hid ▸ hi.distinct.known a ha, fun c hc hcid => ?_⟩,
        fun b hb => hlater.recalls (hi.distinct.recalls hb)⟩
      rw [hi.distinct.eq hc ha (hcid.trans hid.symm), hplan]
    · obtain ⟨hb, hothers⟩ := hi.recalled b others he
      exact ⟨hlater.recalls hb, fun c hc => hlater.recalls (hothers c hc)⟩
  · intro claim j r uid he hu
    exact hlater.consumed (hi.created claim j r uid (by simpa [hlog] using he) hu)
  · intro claim uid he hu
    obtain ⟨hc, hd⟩ := hi.passed claim uid (by simpa [hlog] using he) hu
    refine ⟨hlater.consumed hc, fun other hr => hlater.dead (hd other ?_)⟩
    obtain ⟨b, others, c, hl, hspent, hrest⟩ := hr
    rw [hlog] at hl
    rcases List.mem_cons.1 hl with hl | hl
    · -- An approval a dispatch went on under is not consumed again.
      cases hl
      rw [hc.2 a ha (hid.trans hspent)] at hnot
      cases hnot
    · exact ⟨b, others, c, hl, hspent, hrest⟩
  · intro c1 j1 r1 c2 j2 r2 uid h1 h2
    exact hi.one c1 j1 r1 c2 j2 r2 uid (by simpa [hlog] using h1) (by simpa [hlog] using h2)
  · intro op claim j r uid hop he
    exact hi.active op claim j r uid (hactive ▸ hop) (by simpa [hlog] using he)

theorem ApprovalInv.dispatch (hi : ApprovalInv w)
    (h : ∀ op, w.migration.status.activeOperation = some op → w.Spent op) :
    ApprovalInv (w.note (.passedConsume w.migration.status.activeOperation)) := by
  have hrival {spent other : String}
      (hr : Rival (w.note (.passedConsume w.migration.status.activeOperation)).log spent other) :
      Rival w.log spent other := by
    obtain ⟨a, others, b, hl, hrest⟩ := hr
    exact ⟨a, others, b, by simpa [World.note] using hl, hrest⟩
  refine ⟨hi.distinct.congr rfl rfl, ?_, ?_, ?_, ?_, ?_⟩
  · intro a others he
    exact hi.recalled a others (by simpa [World.note] using he)
  · intro claim j r uid he hu
    exact hi.created claim j r uid (by simpa [World.note] using he) hu
  · intro claim uid he hu
    rcases List.mem_cons.1 he with he | he
    · obtain ⟨hc, hd⟩ := h claim (Event.passedConsume.inj he).symm uid hu
      exact ⟨hc, fun other hr => hd other (hrival hr)⟩
    · obtain ⟨hc, hd⟩ := hi.passed claim uid he hu
      exact ⟨hc, fun other hr => hd other (hrival hr)⟩
  · intro c1 j1 r1 c2 j2 r2 uid h1 h2
    exact hi.one c1 j1 r1 c2 j2 r2 uid (by simpa [World.note] using h1)
      (by simpa [World.note] using h2)
  · intro op claim j r uid hop he
    exact hi.active op claim j r uid hop (by simpa [World.note] using he)

theorem Reach.approval (hmd : md.restores = false) (h : Reach md w) : ApprovalInv w := by
  refine h.induct (fun _ => ApprovalInv.init) fun w w' hr hi hmove => ?_
  have hlater := hmove.later hmd
  have hdistinct := hmove.distinct hi.distinct
  have hkeep {op : Operation} {uid : String} hop hu :
      (∃ op0, w.migration.status.activeOperation = some op0 ∧ op0.id = op.id ∧
        op0.under uid = true) ∨
      ∀ claim job refused, .create (some claim) job refused ∈ w.log → claim.under uid = false :=
    .inl ⟨op, hop, rfl, hu⟩
  cases hmove with
  | silent h =>
    cases h with
    | env h =>
      cases h with
      | edit m huid hstatus =>
        exact hi.congr hdistinct hlater (fun op uid hop => hkeep (by rwa [← hstatus]))
          (fun _ _ _ h => h) (fun _ h => h) fun _ _ h => h
      | restore m hmode => rw [hmd] at hmode; cases hmode
      | _ =>
        exact hi.congr hdistinct hlater (fun _ _ => hkeep) (fun _ _ _ h => h) (fun _ h => h)
          fun _ _ h => h
    | _ =>
      exact hi.congr hdistinct hlater (fun _ _ => hkeep) (fun _ _ _ h => h) (fun _ h => h)
        fun _ _ h => h
  | status s h =>
    refine hi.congr hdistinct hlater (fun op uid hop hu => h.under hr.claim hmd hop hu) ?_ ?_ ?_ <;>
      simp [World.writeStatus, World.note, World.store]
  | create job refused h => exact hi.create hr.claim (h hmd) hdistinct hlater rfl rfl
  | stored job uid h => exact hi.create hr.claim (h hmd) hdistinct hlater rfl rfl
  | consume approval h => exact hi.consume (h hmd) hdistinct hlater rfl rfl
  | passed h => exact hi.dispatch (h hmd)
  | finalizer | copy | stale =>
    exact hi.congr hdistinct hlater (fun _ _ => hkeep) (fun _ _ _ h => h) (fun _ h => h) fun _ _ h => h
  | acquired | released =>
    refine hi.congr hdistinct hlater (fun _ _ => hkeep) ?_ ?_ ?_ <;> simp [World.note]

end Ptah.Migration
