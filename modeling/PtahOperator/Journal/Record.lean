import PtahOperator.Migration.Types

/-!
# The lifecycle journal of a resource

The journal that a status write adds its events to (`internal/lifecyclejournal`). `record` appends the
events of one write and applies the bounds: at most `maxEntries` entries, none more than `maxAge` older
than the newest. The entry that published the plan nothing has carried out yet, and the newest approval
of it, do not answer to the bounds.

* `outstanding`: where those two entries are.
* `outstandingPlan`: the plan that waits to be carried out, which `schemaEntries` and `migrationEntries`
  decide from.
* `applyBounds`: what the bounds drop, and the instant from which the journal is complete.
-/

namespace Ptah.Journal

open Migration (Time)

/-! ## Entries -/

/-- `JournalEntryType` -/
inductive EntryType where
  | planPublished
  | approvalAccepted
  | applyFinished
  | verified
  | runFinished
  | runAcknowledged
  | operationFailed
  deriving DecidableEq

/-- `JournalOutcome` -/
inductive Outcome where
  | succeeded
  | failed
  | partially
  | unknown
  | upToDate
  | inSync
  | driftRemains
  | superseded
  | pending
  | blocked
  deriving DecidableEq

/-- `MigrationRunFailureStatus` -/
structure RunFailure where
  version : Int
  statement : Int
  statements : Int
  sqlState : String := ""
  errorNumber : Int := 0
  deriving DecidableEq

/-- `MigrationRunAuthorizationKind` -/
inductive AuthorizationKind where
  | approval
  | policy
  deriving DecidableEq

/-- `JournalEntry` -/
structure Entry where
  type : EntryType
  atTime : Time
  startedAt : Option Time := none
  lastAt : Option Time := none
  count : Int32 := 0
  operationID : String := ""
  plan : String := ""
  planUID : String := ""
  planFingerprint : String := ""
  statements : Int := 0
  destructive : Bool := false
  approvalRequired : Bool := false
  replaced : String := ""
  authorization : Option AuthorizationKind := none
  approval : String := ""
  approvalUID : String := ""
  approver : String := ""
  outcome : Option Outcome := none
  operation : String := ""
  reason : String := ""
  jobName : String := ""
  jobUID : String := ""
  appliedVersions : Nat := 0
  failure : Option RunFailure := none
  acknowledgment : String := ""
  acknowledgedBy : String := ""
  deriving DecidableEq

structure LifecycleJournal where
  coveredSince : Time
  entries : List Entry := []
  deriving DecidableEq

def maxEntries : Nat := 64

def maxAge : Int := 30 * 24 * 60 * 60 * 1000000000

def latest (entry : Entry) : Time := entry.lastAt.getD entry.atTime

/-! ## The plan nothing has carried out yet -/

/-- The loop of `outstanding`, with `left` entries still to look at and the approvals seen so far. -/
def outstandingFrom (entries : List Entry) :
    (left : Nat) → (approvals : List Nat) → Option Nat × Option Nat
  | 0, _ => (none, none)
  | index + 1, approvals =>
    match entries[index]? with
    | none => (none, none)
    | some entry =>
      match entry.type with
      | .planPublished =>
        (some index, approvals.find? fun candidate =>
          (entries[candidate]?).any (·.plan = entry.plan))
      | .approvalAccepted => outstandingFrom entries index (approvals ++ [index])
      | .applyFinished | .runFinished => (none, none)
      | .verified | .runAcknowledged | .operationFailed => outstandingFrom entries index approvals

/-- `outstanding`: the index of the entry that published the plan, and of the newest approval of it. -/
def outstanding (entries : List Entry) : Option Nat × Option Nat :=
  outstandingFrom entries entries.length []

def outstandingPlan (journal : Option LifecycleJournal) : String × Bool :=
  match journal with
  | none => ("", false)
  | some journal =>
    match outstanding journal.entries with
    | (none, _) => ("", false)
    | (some published, approval) =>
      (((journal.entries[published]?).map (·.plan)).getD "", approval.isSome)

def planRecorded (journal : Option LifecycleJournal) (plan : String) : Bool := (outstandingPlan journal).1 = plan

/-! ## Bounds -/

/-- What the loop of `applyBounds` reads: how many entries there are, the oldest instant that stays, and
the entries that stay anyway. -/
structure Bounds where
  count : Nat
  cutoff : Time
  published : Option Nat
  approval : Option Nat

/-- The entry at `index` does not answer to the bounds. -/
def Bounds.Keeps (bounds : Bounds) (index : Nat) : Prop :=
  bounds.published = some index ∨ bounds.approval = some index

instance Bounds.Keeps.decidable (bounds : Bounds) (index : Nat) : Decidable (bounds.Keeps index) :=
  inferInstanceAs (Decidable (_ ∨ _))

/-- The loop of `applyBounds` at `index`, over the entries from there on. -/
def boundFrom (bounds : Bounds) :
    (index : Nat) → (kept : List Entry) → (coveredSince : Time) → List Entry → LifecycleJournal
  | _, kept, coveredSince, [] => ⟨coveredSince, kept⟩
  | index, kept, coveredSince, entry :: rest =>
    if bounds.Keeps index then
      boundFrom bounds (index + 1) (kept ++ [entry]) coveredSince rest
    else
      let dropped := index - kept.length
      if bounds.count - dropped ≤ maxEntries ∧ ¬ latest entry < bounds.cutoff then
        ⟨coveredSince, kept ++ entry :: rest⟩
      else
        boundFrom bounds (index + 1) kept
          (if coveredSince < latest entry then latest entry else coveredSince) rest

def applyBounds (journal : LifecycleJournal) : LifecycleJournal :=
  match journal.entries.getLast? with
  | none => journal
  | some newest =>
    let (published, approval) := outstanding journal.entries
    boundFrom ⟨journal.entries.length, latest newest - maxAge, published, approval⟩ 0 []
      journal.coveredSince journal.entries

/-! ## Recording -/

def folds (newest entry : Entry) : Bool :=
  newest.type = .operationFailed && entry.type = .operationFailed &&
    newest.operation = entry.operation && newest.reason = entry.reason

/-- The newest entry with another attempt folded into it. -/
def folded (newest entry : Entry) : Entry :=
  { newest with
    lastAt := some entry.atTime
    count := (if newest.count < 1 then 1 else newest.count) + 1 }

/-- One turn of the loop of `Record`. -/
def add (entries : List Entry) (entry : Entry) : List Entry :=
  match entries.getLast? with
  | some newest =>
    if folds newest entry then entries.dropLast ++ [folded newest entry] else entries ++ [entry]
  | none => entries ++ [entry]

/-- The journal that `Record` starts from. -/
def started (journal : Option LifecycleJournal) (now : Time) : LifecycleJournal := journal.getD ⟨now, []⟩

/-- `Record` without `applyBounds`. -/
def recordAll (journal : Option LifecycleJournal) (entries : List Entry) (now : Time) : LifecycleJournal :=
  { started journal now with entries := entries.foldl add (started journal now).entries }

def record (journal : Option LifecycleJournal) (entries : List Entry) (now : Time) : LifecycleJournal :=
  applyBounds (recordAll journal entries now)

end Ptah.Journal
