import PtahOperator.Migration.Api

/-!
# Approvals

Which approval authorizes a plan (`findMigrationApproval`), how a dispatch spends it
(`consumeMigrationApproval`), and how the others go stale (`markMigrationApprovalsStaleWhere`).
-/

namespace Ptah.Migration

open Conc

/-- The approval can still authorize a run. -/
def Approval.standing (a : Approval) : Bool := !a.deleting && !a.stale && !a.consumed

/-- The checks of `findMigrationApproval` on one approval. -/
def Approval.authorizes (a : Approval) (migrationUID : String) (plan : Plan) : Bool :=
  a.standing && a.migrationUID = migrationUID && a.planUID = plan.uid &&
    !blank a.planFingerprint && a.planFingerprint = plan.fingerprint && !blank a.approver &&
    !blank a.mutationRequestUID

/-- The oldest approval, and the first of those that are as old. -/
def oldestApproval : List Approval → Option Approval
  | [] => none
  | a :: rest => some (rest.foldl (fun found b =>
      if b.creationTimestamp < found.creationTimestamp then b else found) a)

def findMigrationApproval (m : PtahMigration) (plan : Plan) : Pass (Option Approval) := do
  let approvals ← listApprovals
  pure (oldestApproval (approvals.filter (·.authorizes m.uid plan)))

theorem oldestApproval_mem {approvals : List Approval} {a : Approval}
    (h : oldestApproval approvals = some a) : a ∈ approvals := by
  cases approvals with
  | nil => cases h
  | cons b rest =>
    simp only [oldestApproval, Option.some.injEq] at h
    have hfold : ∀ (l : List Approval) found,
        l.foldl (fun found b => if b.creationTimestamp < found.creationTimestamp then b else found)
          found ∈ found :: l := by
      intro l
      induction l with
      | nil => intro found; simp
      | cons c l ih =>
        intro found
        simp only [List.foldl_cons]
        split
        · exact .tail _ (ih c)
        rcases List.mem_cons.1 (ih found) with hl | hl
        · rw [hl]
          exact .head _
        · exact .tail _ (.tail _ hl)
    exact h ▸ hfold rest b

/-- Marks the approvals of a list, one after another. An approval that is gone is skipped. -/
def markApprovalsStale : List Approval → Pass Unit
  | [] => pure ()
  | a :: rest => do
    let _ ← patchApproval a .stale
    markApprovalsStale rest

/-- `markMigrationApprovalsStaleWhere`: the standing approvals of this migration that `withdraw`
selects go stale. -/
def markMigrationApprovalsStaleWhere (m : PtahMigration) (withdraw : Approval → Bool) :
    Pass Unit := do
  let approvals ← listApprovals
  markApprovalsStale (approvals.filter fun a => a.migrationUID = m.uid && withdraw a && a.standing)

/-- `markMigrationApprovalsStale`: the decisions of this migration on any plan but `keep`. -/
def markMigrationApprovalsStale (m : PtahMigration) (keep : Option ObjectRef) : Pass Unit :=
  markMigrationApprovalsStaleWhere m fun a => !keep.any (·.uid = a.planUID)

/-- `consumeMigrationApproval`. `false` is `errMigrationApprovalWithdrawn`: the approval is gone or
was replaced. -/
def consumeMigrationApproval (m : PtahMigration) : Option ObjectRef → Pass Bool
  | none => pure true
  | some reference => do
    match ← getApproval reference.name with
    | none => pure false
    | some approval =>
      if approval.uid ≠ reference.uid then pure false
      else do
        let spent ← if approval.consumed then pure true else patchApproval approval .consumed
        -- A patch that finds no approval is an error here, as any other failed patch is.
        if !spent then throw "the approval is gone"
        else do
          markMigrationApprovalsStaleWhere m fun other =>
            other.planUID = approval.planUID && other.uid ≠ approval.uid
          pure true

end Ptah.Migration
