import PtahOperator.Migration.Walk.Writes

/-!
# Approvals follow the system

The rules for marks on approvals. `consumeMigrationApproval_spec` is what a dispatch rests on: the
approval of the claim is consumed, and the other approvals of its plan that were there when it was
consumed are dead (`World.Spent`), whether this pass consumed it or finds it consumed.
-/

namespace Ptah.Migration

open Conc Lifecycle

variable {md : Mode} {w w' : World} {m : PtahMigration} {op : Operation} {uid : String}

/-! ## Marks -/

/-- No approval with this UID stands. -/
def World.Standless (w : World) (uid : String) : Prop :=
  uid ∈ w.approvalUIDs ∧ ∀ a ∈ w.approvals, a.uid = uid → a.standing = false

theorem Later.standless (h : Later w w') (hs : w.Standless uid) : w'.Standless uid := by
  refine ⟨h.uids uid hs.1, fun a' ha' hid => ?_⟩
  obtain ⟨a, ha, hage⟩ := h.approvals a' ha' (hid ▸ hs.1)
  exact hage.standing (hs.2 a ha (hage.uid ▸ hid))

theorem At.markApproval (hm : At md w m) (uid : String) (mark : ApprovalMark) :
    At md (w.markApproval uid mark) m :=
  ⟨⟨hm.seen, hm.old, hm.same, hm.copy, hm.status, hm.held⟩, hm.gate⟩

theorem Unlogged.markApproval (w : World) (uid : String) (mark : ApprovalMark) :
    Unlogged md w (w.markApproval uid mark) :=
  ⟨⟨.same rfl rfl rfl, rfl, fun _ h => h⟩, rfl, fun _ => .markApproval w uid mark⟩

theorem patchStale_spec (hm : At md w m) (a : Approval) :
    Follows md (patchApproval a .stale) (fun _ w' => At md w' m ∧ Unlogged md w w' ∧
      (md.restores = false → a.uid ∈ w.approvalUIDs → w'.Standless a.uid)) w := by
  refine .sendOk _ fun w1 r w2 hi h1 hs => ?_
  have hm1 := hm.still h1
  rcases hs with ⟨rfl, hgone⟩ | ⟨-, -, rfl⟩
  · refine ⟨hi, fun x hx w3 _ h3 => ⟨hm1.still h3, (h1.trans h3).unlogged, fun hmd hu => ?_⟩⟩
    refine (h3.unlogged.later hmd).standless ⟨(h1.unlogged.later hmd).uids _ hu, fun b hb hid => ?_⟩
    exact absurd hid ((hgone x hx).2 b hb)
  refine ⟨hi.step (.stale a.uid), fun x hx w3 _ h3 => ⟨(hm1.markApproval a.uid .stale).still h3,
    (h1.unlogged.trans (.markApproval w1 a.uid .stale)).trans h3.unlogged, fun hmd hu => ?_⟩⟩
  refine (h3.unlogged.later hmd).standless ⟨(h1.unlogged.later hmd).uids _ hu, fun b hb hid => ?_⟩
  obtain ⟨c, hc, rfl⟩ := List.mem_map.1 hb
  split at hid
  · rw [if_pos ‹_›]
    simp [Approval.standing]
  · exact absurd hid ‹_›

theorem markApprovalsStale_spec (hm : At md w m) (l : List Approval) :
    Follows md (markApprovalsStale l) (fun _ w' => At md w' m ∧ Unlogged md w w' ∧
      (md.restores = false → ∀ a ∈ l, a.uid ∈ w.approvalUIDs → w'.Standless a.uid)) w := by
  induction l generalizing w with
  | nil => exact .pure fun w' _ h' => ⟨hm.still h', h'.unlogged, fun _ a ha => by cases ha⟩
  | cons a rest ih =>
    refine .bind (patchStale_spec hm a) fun _ w1 _ ⟨hm1, hul1, ha⟩ => ?_
    refine .conseq (ih hm1) fun _ w2 _ ⟨hm2, hul2, hrest⟩ => ?_
    refine ⟨hm2, hul1.trans hul2, fun hmd b hb hu => ?_⟩
    rcases hb with _ | ⟨_, hb⟩
    · exact (hul2.later hmd).standless (ha hmd hu)
    · exact hrest hmd b hb ((hul1.later hmd).uids _ hu)

/-- The approvals that `withdraw` selects are dead afterwards. -/
theorem markMigrationApprovalsStaleWhere_spec (hm : At md w m) (withdraw : Approval → Bool) :
    Follows md (markMigrationApprovalsStaleWhere m withdraw) (fun _ w' => At md w' m ∧
      Unlogged md w w' ∧ (md.restores = false → ∀ uid ∈ w.approvalUIDs,
        (∀ v, Later w v → ∀ a ∈ v.approvals, a.uid = uid → withdraw a = true) → w'.Dead uid)) w := by
  refine listApprovals_spec.follows fun approvals w1 _ h1 hread => ?_
  obtain ⟨w0, hi0, h0, rfl, h01⟩ := hread
  refine .conseq (markApprovalsStale_spec (hm.still h1) _) fun _ w' _ ⟨hm', hul, hall⟩ => ?_
  refine ⟨hm', h1.unlogged.trans hul, fun hmd uid hu hsel => ?_⟩
  have hlater0 := h0.unlogged.later hmd
  have hlater : Later w0 w' := (h01.unlogged.later hmd).trans (hul.later hmd)
  refine ⟨((h1.unlogged.later hmd).trans (hul.later hmd)).uids uid hu, fun a' ha' hid hmu => ?_⟩
  obtain ⟨a, ha, hage⟩ := hlater.approvals a' ha' (hid ▸ hlater0.uids uid hu)
  have hau : a.uid = uid := hage.uid ▸ hid
  cases hst : a.standing with
  | false => exact hage.standing hst
  | true =>
    -- It was among those that were marked.
    have hmem : a ∈ w0.approvals.filter fun a => a.migrationUID = m.uid && withdraw a && a.standing := by
      refine List.mem_filter.2 ⟨ha, ?_⟩
      have hmig : a.migrationUID = m.uid := by
        rw [← hage.migrationUID, hmu, (hm'.held hmd).2]
      simp [hmig, hsel w0 hlater0 a ha hau, hst]
    exact (hall hmd a hmem ((h01.unlogged.later hmd).uids _
      (hau ▸ hlater0.uids uid hu))).2 a' ha' (hid.trans hau.symm)

/-! ## Consuming -/

/-- No approval with this UID is consumed. -/
def World.Unconsumed (w : World) (uid : String) : Prop :=
  uid ∈ w.approvalUIDs ∧ ∀ a ∈ w.approvals, a.uid = uid → a.consumed = false

theorem Silent.unconsumed (h : Silent md w w') (hu : w.Unconsumed uid) : w'.Unconsumed uid := by
  obtain ⟨hknown, hall⟩ := hu
  cases h with
  | env h =>
    cases h with
    | approve a hnew =>
      refine ⟨.tail _ hknown, fun b hb hid => ?_⟩
      rcases hb with _ | ⟨_, hb⟩
      · exact absurd (hid ▸ hknown) hnew
      · exact hall b hb hid
    | withdrawing u =>
      refine ⟨hknown, fun b hb hid => ?_⟩
      obtain ⟨a, ha, rfl⟩ := List.mem_map.1 hb
      split at hid
      · rw [if_pos ‹_›]
        exact hall a ha hid
      · rw [if_neg ‹_›]
        exact hall a ha hid
    | withdrawn u => exact ⟨hknown, fun b hb => hall b (List.mem_filter.1 hb).1⟩
    | _ => exact ⟨hknown, hall⟩
  | _ => exact ⟨hknown, hall⟩

/-- The mark of the approval `a`, which was read in `w₀`. -/
theorem patchConsumed_spec {w0 : World} (hi0 : Reach md w0) (h0 : Still md w0 w) (hm : At md w m)
    {a : Approval} (ha : a ∈ w0.approvals) (hnot : a.consumed = false) :
    Follows md (patchApproval a .consumed) (fun r w' => At md w' m ∧ Spared md w w' ∧
      (r = true → md.restores = false → w'.Consumed a.uid ∧
        ∃ others, w'.log = .consumed a others :: w.log)) w := by
  refine .sendOk _ fun w1 r w2 hi h1 hs => ?_
  have hm1 := hm.still h1
  rcases hs with ⟨rfl, hgone⟩ | ⟨⟨b, hb, hbu⟩, -, rfl⟩
  · refine ⟨hi, fun x hx w3 _ h3 => ⟨hm1.still h3, (h1.trans h3).unlogged.spared, fun hr => ?_⟩⟩
    rw [(hgone x hx).1] at hr
    cases hr
  have hstep : md.restores = false → ∃ b ∈ w1.approvals, b.uid = a.uid ∧ b.consumed = false ∧
      b.planUID = a.planUID := by
    intro hmd
    have hdis := (hi0.approval hmd).distinct
    have hrec := ((h0.trans h1).unlogged.later hmd).recalls (hdis.recalls ha)
    have hunc : w1.Unconsumed a.uid := by
      refine (h0.trans h1).1.keep (fun _ _ hs hu => hs.unconsumed hu) ⟨hdis.known a ha, ?_⟩
      intro c hc hid
      rw [hdis.eq hc ha hid, hnot]
    exact ⟨b, hb, hbu, hunc.2 b hb hbu, hrec.2 b hb hbu⟩
  refine ⟨hi.step (.consume a hstep), fun x hx w3 _ h3 => ?_⟩
  refine ⟨((hm1.note (by simp)).markApproval a.uid .consumed).still h3,
    ((h1.unlogged.spared.trans (.note w1 _)).trans
      (Unlogged.markApproval _ a.uid .consumed).spared).trans h3.unlogged.spared,
    fun _ hmd => ⟨(h3.unlogged.later hmd).consumed ?_, w1.approvals, ?_⟩⟩
  · have hlater := (h0.trans h1).unlogged.later hmd
    refine ⟨hlater.uids _ ((hi0.approval hmd).distinct.known a ha), fun c hc hid => ?_⟩
    obtain ⟨d, hd, rfl⟩ := List.mem_map.1 hc
    split at hid
    · rw [if_pos ‹_›]
    · exact absurd hid ‹_›
  · rw [h3.unlogged.log, ← h1.unlogged.log]
    rfl

/-- The approval of the claim is consumed, and the log speaks of no other with its UID. -/
structure SpentApproval (w : World) (approval : Approval) : Prop where
  consumed : w.Consumed approval.uid
  plan : ∀ a others, .consumed a others ∈ w.log → a.uid = approval.uid →
    a.planUID = approval.planUID

/-- The other approvals of the plan go stale behind the mark. -/
theorem markOthersStale_spec {approval : Approval} {reference : ObjectRef} (hi : Reach md w)
    (hm : At md w m) (hspent : md.restores = false → SpentApproval w approval)
    (href : op.approvalRef = some reference) (huid : approval.uid = reference.uid) :
    Follows md (markMigrationApprovalsStaleWhere m fun other =>
      other.planUID = approval.planUID && other.uid ≠ approval.uid)
      (fun _ w' => At md w' m ∧ Spared md w w' ∧ (md.restores = false → w'.Spent op)) w := by
  refine .conseq (markMigrationApprovalsStaleWhere_spec hm _)
    fun _ w' _ ⟨hm', hul, hdead⟩ => ⟨hm', hul.spared, fun hmd uid hu => ?_⟩
  have hu : uid = approval.uid := by
    simp only [Operation.under, href, Option.any_some, decide_eq_true_eq] at hu
    rw [huid, hu]
  subst hu
  refine ⟨(hul.later hmd).consumed (hspent hmd).consumed, fun other hrival => ?_⟩
  obtain ⟨a, others, b, he, hid, hb, hbplan, rfl, hne⟩ := hrival
  rw [hul.log] at he
  have hrec := ((hi.approval hmd).recalled a others he).2 b hb
  refine hdead hmd b.uid hrec.1 fun v hv x hx hxid => ?_
  have hx := (hv.recalls hrec).2 x hx hxid
  simp [hx, hbplan, (hspent hmd).plan a others he hid, hxid, hne]

theorem consumeMigrationApproval_spec (hm : At md w m) :
    Follows md (consumeMigrationApproval m op.approvalRef) (fun r w' => At md w' m ∧
      Spared md w w' ∧ (r = true → md.restores = false → w'.Spent op)) w := by
  cases href : op.approvalRef with
  | none =>
    refine .pure fun w' _ h' => ⟨hm.still h', h'.unlogged.spared, fun _ _ uid hu => ?_⟩
    simp [Operation.under, href] at hu
  | some reference =>
    refine (getApproval_spec reference.name).follows fun r w1 _ h1 hread => ?_
    obtain ⟨w0, hi0, h0, hr, h01⟩ := hread
    have hm1 := hm.still h1
    have hgiveUp : Follows md (pure false) (fun r w' => At md w' m ∧ Spared md w w' ∧
        (r = true → md.restores = false → w'.Spent op)) w1 :=
      SafeProc.pure fun w' _ h' =>
        ⟨hm1.still h', (h1.trans h').unlogged.spared, fun h => by cases h⟩
    cases r with
    | none => exact hgiveUp
    | some approval =>
      simp only
      split
      · exact hgiveUp
      rename_i huid
      have huid : approval.uid = reference.uid := by simpa using huid
      have hmem : approval ∈ w0.approvals := List.mem_of_find?_eq_some hr.symm
      have hrest {w2 : World} (hi2 : Reach md w2) (hm2 : At md w2 m) (hsp : Spared md w w2)
          (hspent : md.restores = false → SpentApproval w2 approval) :
          Follows md (do
            markMigrationApprovalsStaleWhere m fun other =>
              other.planUID = approval.planUID && other.uid ≠ approval.uid
            pure true)
            (fun r w' => At md w' m ∧ Spared md w w' ∧
              (r = true → md.restores = false → w'.Spent op)) w2 := by
        refine .bind (markOthersStale_spec hi2 hm2 hspent href huid)
          fun _ w3 _ hmarked => ?_
        obtain ⟨hm3, hsp3, hs⟩ := hmarked
        refine .pure fun w' _ h' => ⟨hm3.still h',
          (hsp.trans hsp3).trans h'.unlogged.spared, fun _ hmd uid hu => ?_⟩
        obtain ⟨hc, hd⟩ := hs hmd uid hu
        have hlater := h'.unlogged.later hmd
        exact ⟨hlater.consumed hc, fun other hr =>
          hlater.dead (hd other (by rwa [← h'.unlogged.log]))⟩
      -- Every mark of an approval with this UID in the log was one of its plan.
      have hold (hmd : md.restores = false) {a : Approval} {others : List Approval}
          (he : .consumed a others ∈ w1.log) (hid : a.uid = approval.uid) :
          a.planUID = approval.planUID := by
        rw [h01.unlogged.log] at he
        exact (((hi0.approval hmd).recalled a others he).1.2 approval hmem hid.symm).symm
      split
      · rename_i hcons
        refine .bind (Q := fun spent w2 => spent = true ∧ Still md w1 w2)
          (.pure fun w' _ h' => ⟨rfl, h'⟩) fun spent w2 hi2 hpure => ?_
        obtain ⟨rfl, h2⟩ := hpure
        refine hrest hi2 (hm1.still h2) (h1.trans h2).unlogged.spared fun hmd => ⟨?_, ?_⟩
        · have hdis := (hi0.approval hmd).distinct
          refine ((h01.trans h2).unlogged.later hmd).consumed
            ⟨hdis.known approval hmem, fun c hc hid => ?_⟩
          rw [hdis.eq hc hmem hid, hcons]
        · intro a others he
          rw [h2.unlogged.log] at he
          exact hold hmd he
      · rename_i hcons
        refine .bind (patchConsumed_spec hi0 h01 hm1 hmem (by simpa using hcons))
          fun spent w2 hi2 hpatched => ?_
        obtain ⟨hm2, hsp, hspent⟩ := hpatched
        split
        · exact .throw
        rename_i hs
        have hs : spent = true := by simpa using hs
        refine hrest hi2 hm2 (h1.unlogged.spared.trans hsp) fun hmd => ?_
        obtain ⟨hc, others', hlog⟩ := hspent hs hmd
        refine ⟨hc, fun a others he hid => ?_⟩
        rw [hlog] at he
        rcases List.mem_cons.1 he with he | he
        · cases he
          rfl
        · exact hold hmd he hid

end Ptah.Migration
