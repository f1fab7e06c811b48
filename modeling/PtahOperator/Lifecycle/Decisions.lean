import Mathlib.Logic.Basic

/-!
# The decisions of `internal/mutationlifecycle`

The pure functions both controllers decide a claim by: what the Job under a claim's name means
(`verdictFor`), what a failed create means (`classifyCreate`, `dispatchFailure`), and what the
retirement of a claim hands back (`Retirement.releases`).
-/

namespace Ptah.Lifecycle

/-! ## Creates -/

inductive CreateError where
  /-- `apierrors.IsAlreadyExists` -/
  | alreadyExists
  /-- An `APIStatus`: its code, whether its reason is `InternalError`, and the messages of its
  causes. -/
  | status (code : Nat) (internalError : Bool) (causes : List String)
  /-- Any other error: a timeout, a broken connection. -/
  | other
  deriving DecidableEq

inductive CreateAnswer where
  | unknown
  | nameTaken
  | refused
  deriving DecidableEq

/-- The codes that say the API server stored nothing: 400, 401, 403, 404, 405, 406, 413, 415, 422
and 429. -/
def refusalCodes : List Nat := [400, 401, 403, 404, 405, 406, 413, 415, 422, 429]

def webhookCallFailed (causes : List String) : Bool :=
  match causes with
  | [message] => "failed calling webhook \"".toList.isPrefixOf message.toList
  | _ => false

def classifyCreate : CreateError → CreateAnswer
  | .alreadyExists => .nameTaken
  | .other => .unknown
  | .status code internalError causes =>
    if code ∈ refusalCodes then .refused
    else if code = 500 ∧ internalError ∧ webhookCallFailed causes then .refused
    else .unknown

inductive DispatchStage where
  | create
  | confirm
  | intent
  deriving DecidableEq

inductive Disposition where
  | accounted
  | unaccounted
  | retry
  | requeue
  | discard
  | withdraw
  deriving DecidableEq

def dispatchFailure (stage : DispatchStage) (mutating : Bool) (answer : CreateAnswer) :
    Disposition :=
  if mutating then
    match stage with
    | .create => if answer = .refused then .withdraw else .unaccounted
    | .intent => .unaccounted
    | .confirm => .requeue
  else
    match stage with
    | .create => if answer = .nameTaken then .retry else .requeue
    | .intent => .retry
    | .confirm => .requeue

/-! ## The Job under a claim's name -/

structure JobClaim where
  mutating : Bool
  dispatchStarted : Bool
  recordedJobUID : String
  found : Bool
  foundJobUID : String
  ownedExactly : Bool
  deriving DecidableEq

inductive JobCause where
  | none
  | missing
  | replaced
  | disowned
  deriving DecidableEq

inductive JobVerdict where
  | dispatch
  | unaccounted
  | retry
  | adopt
  | supervise
  deriving DecidableEq

def mayHaveDispatched (dispatchStarted : Bool) (jobUID : String) : Bool :=
  dispatchStarted || jobUID ≠ ""

def lostJob (claim : JobClaim) : JobVerdict := if claim.mutating then .unaccounted else .retry

def verdictFor (claim : JobClaim) : JobVerdict × JobCause :=
  if !claim.found then
    if claim.mutating ∧ mayHaveDispatched claim.dispatchStarted claim.recordedJobUID then
      (.unaccounted, .missing)
    else (.dispatch, .missing)
  else if claim.recordedJobUID ≠ "" ∧ claim.recordedJobUID ≠ claim.foundJobUID then
    (lostJob claim, .replaced)
  else if !claim.ownedExactly then (lostJob claim, .disowned)
  else if claim.recordedJobUID = "" then (.adopt, .none)
  else (.supervise, .none)

/-- What each verdict says of the claim. -/
inductive Judged (claim : JobClaim) : JobVerdict → Prop where
  /-- No Job stands under the name and, if the claim is mutating, none may have been created. -/
  | dispatch (hfound : claim.found = false) (hnot : claim.mutating = true →
      mayHaveDispatched claim.dispatchStarted claim.recordedJobUID = false) : Judged claim .dispatch
  | unaccounted (h : claim.mutating = true) : Judged claim .unaccounted
  | retry (h : claim.mutating = false) : Judged claim .retry
  | adopt (hfound : claim.found = true) (h : claim.recordedJobUID = "") : Judged claim .adopt
  | supervise (hfound : claim.found = true) (hsome : claim.recordedJobUID ≠ "")
      (h : claim.recordedJobUID = claim.foundJobUID) : Judged claim .supervise

theorem lostJob_judged (claim : JobClaim) : Judged claim (lostJob claim) := by
  unfold lostJob
  cases h : claim.mutating with
  | true => exact .unaccounted h
  | false => exact .retry h

theorem verdictFor_judged (claim : JobClaim) : Judged claim (verdictFor claim).1 := by
  unfold verdictFor
  split
  · rename_i hfound
    split
    · rename_i h
      exact .unaccounted h.1
    · rename_i hnot
      exact .dispatch (by simpa using hfound) fun hm => by simpa [hm] using hnot
  · rename_i hfound
    have hfound : claim.found = true := by simpa using hfound
    split
    · exact lostJob_judged claim
    rename_i hsame
    split
    · exact lostJob_judged claim
    by_cases hnone : claim.recordedJobUID = ""
    · rw [if_pos hnone]
      exact .adopt hfound hnone
    · rw [if_neg hnone]
      exact .supervise hfound hnone (Decidable.byContradiction fun hne => hsame ⟨hnone, hne⟩)

/-! ## Retirement -/

structure RealmClaim where
  mutating : Bool
  servesProof : Bool
  locked : Bool
  proofOutstanding : Bool
  deriving DecidableEq

inductive RealmOwner where
  | none
  | claim
  | proof
  deriving DecidableEq

def realmHeldBy (claim : RealmClaim) : RealmOwner :=
  if claim.proofOutstanding && claim.servesProof then .proof
  else if claim.locked && (claim.mutating || claim.servesProof) then .claim
  else .none

structure Retirement where
  claim : RealmClaim
  disposition : Disposition
  recordHoldsRealm : Bool := false
  mayStillWrite : Bool
  endsProof : Bool := false
  deriving DecidableEq

def Retirement.releases (r : Retirement) : RealmOwner :=
  match realmHeldBy r.claim with
  | .proof => if r.endsProof then .proof else .none
  | .claim =>
    let ran := r.claim.mutating && r.disposition ≠ .discard
    if ran && (r.recordHoldsRealm || r.mayStillWrite) then .none else .claim
  | .none => .none

end Ptah.Lifecycle
