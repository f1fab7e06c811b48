import PtahOperator.Runner.Frame
import PtahOperator.Go.Json

/-!
# Termination summaries

The small copy of a result that a runner leaves in the termination message of its container
(`internal/runner/summary.go`), for a log that lost the frame.

* `encodeResult`: a frame and the summary bound to it.
* `parseSummaryFor`: the summary in a termination message. How `encoding/json` reads a document is a
  parameter.
* `standsInFor`: when a summary may stand in for the frame of a log.
-/

namespace Ptah.Runner

open Go (Bytes bytes newline)

/-! ## The document -/

structure MigrationSummary where
  outcome : Bytes
  appliedCount : Int
  firstApplied : Int := 0
  lastApplied : Int := 0
  deriving DecidableEq

structure Summary where
  protocolVersion : Int
  operation : Operation
  operationID : Bytes
  frameDigest : Bytes
  mutationStarted : Bool := false
  uncertain : Bool := false
  errorCode : Bytes := []
  coordinationDigest : Bytes := []
  targetIdentityDigest : Bytes := []
  migration : Option MigrationSummary := none
  deriving DecidableEq

def Operation.name : Operation → Bytes
  | resolve => bytes "resolve"
  | verify => bytes "verify"
  | observe => bytes "observe"
  | plan => bytes "plan"
  | apply => bytes "apply"
  | migrationHistory => bytes "migration-history"
  | migrationApply => bytes "migration-apply"
  | unsupported name => name

def Operation.ofName (name : Bytes) : Operation :=
  match [resolve, verify, observe, plan, apply, migrationHistory, migrationApply].find?
      (·.name = name) with
  | some operation => operation
  | none => unsupported name

def outcomeUpToDate : Bytes := bytes "up-to-date"

def outcomeDryRun : Bytes := bytes "dry-run"

def outcomePartial : Bytes := bytes "partial"

def outcomeUnknown : Bytes := bytes "unknown"

def migrationOutcomes : List Bytes :=
  [outcomeUpToDate, bytes "applied", outcomeDryRun, bytes "failed", outcomePartial, outcomeUnknown]

def isKnownMigrationOutcome (outcome : Bytes) : Bool := migrationOutcomes.contains outcome

def summaryOf (result : Result) (frameDigest : Bytes) : Summary where
  protocolVersion := result.protocolVersion
  operation := result.operation
  operationID := result.operationID
  frameDigest := frameDigest
  mutationStarted := result.mutationStarted
  uncertain := result.uncertain
  errorCode := (result.error.map (·.code)).getD []
  coordinationDigest := result.coordinationDigest
  targetIdentityDigest := result.targetIdentityDigest
  migration := result.migrationRun.map fun report =>
    { outcome := report.outcome
      appliedCount := report.applied.length
      firstApplied := report.applied.head?.getD 0
      lastApplied := report.applied.getLast?.getD 0 }

/-! ## Validation -/

/-- A run that changed something, by its outcome. -/
def outcomeMutates (outcome : Bytes) : Bool := outcome ≠ outcomeUpToDate && outcome ≠ outcomeDryRun

/-- A run of which nobody knows how far it got, by its outcome. -/
def outcomeUncertain (outcome : Bytes) : Bool := outcome = outcomePartial || outcome = outcomeUnknown

/-- `MigrationSummary.validate` -/
def MigrationSummary.validate (m : MigrationSummary) (mutationStarted uncertain : Bool) :
    Except String Unit := do
  refuse (!isKnownMigrationOutcome m.outcome)
    "the runner summary reports a migration outcome this build does not know"
  refuse (m.appliedCount < 0) "the runner summary counts a negative number of applied migrations"
  refuse (m.appliedCount = 0 && (m.firstApplied ≠ 0 || m.lastApplied ≠ 0))
    "the runner summary names applied versions it does not count"
  refuse (m.appliedCount = 1 && m.firstApplied ≠ m.lastApplied)
    "the runner summary names two versions for one applied migration"
  refuse (mutationStarted ≠ outcomeMutates m.outcome || uncertain ≠ outcomeUncertain m.outcome)
    "the runner summary's mutation flags disagree with its migration outcome"

/-- What `Summary.validate` asks of who the summary answers. -/
def Summary.validateBinding (s : Summary) (options : ParseOptions) : Except String Unit := do
  refuse (s.protocolVersion ≠ Runner.protocolVersion)
    s!"the runner summary speaks protocol {s.protocolVersion}, not {Runner.protocolVersion}"
  refuse (!s.operation.valid) "the runner summary names an unsupported operation"
  refuse (s.operationID = [] || 256 < s.operationID.length || hasControlCharacter s.operationID)
    "the runner summary carries an invalid operation ID"
  refuse (options.expectedOperation.any (s.operation ≠ ·))
    "the runner summary answers another operation"
  refuse (options.expectedOperationID.any (s.operationID ≠ ·))
    "the runner summary answers another operation attempt"

/-- What `Summary.validate` asks of what the summary says. -/
def Summary.validateAccount (s : Summary) : Except String Unit := do
  refuse (!validProtocolDigest s.frameDigest) "the runner summary is not bound to a frame digest"
  refuse (s.errorCode ≠ [] && !runnerRequirement s.errorCode)
    "the runner summary carries an invalid error code"
  refuse (s.uncertain && !s.mutationStarted)
    "the runner summary is uncertain about a mutation it does not claim"
  refuse (!s.operation.mutating && (s.mutationStarted || s.uncertain))
    "the runner summary claims a mutation for a read-only operation"
  refuse ([s.coordinationDigest, s.targetIdentityDigest].any fun digest =>
    digest ≠ [] && !validProtocolDigest digest) "the runner summary carries an invalid digest"
  refuse (s.errorCode = [] && operationNeedsDatabase s.operation && s.coordinationDigest = [])
    "the runner summary of a successful database operation names no realm"
  refuse (s.errorCode = [] && s.operation = .apply && (!s.mutationStarted || s.uncertain))
    "the runner summary of a successful apply lacks a completed mutation"
  match s.migration with
  | none =>
    refuse (s.errorCode = [] && s.operation = .migrationApply)
      "the runner summary of a successful migration run lacks its outcome"
  | some migration => do
    refuse (s.operation ≠ .migrationApply)
      "the runner summary carries a migration outcome for another operation"
    migration.validate s.mutationStarted s.uncertain

/-- `Summary.validate` -/
def Summary.validate (s : Summary) (options : ParseOptions) : Except String Unit := do
  s.validateBinding options
  s.validateAccount

/-! ## Writing -/

def summaryMarker : Bytes := bytes "PTAH_RUNNER_SUMMARY_V1 "

def maxSummaryBytes : Nat := 2 * 2 ^ 10

/-- A member of a JSON object. The keys of a document need no escape. -/
def member (key : String) (value : Bytes) : Bytes :=
  0x22 :: bytes key ++ 0x22 :: 0x3a :: value

/-- A member that is left out if its value is empty. -/
def memberUnless (empty : Bool) (key : String) (value : Bytes) : List Bytes :=
  if empty then [] else [member key value]

def object (members : List Bytes) : Bytes := 0x7b :: [0x2c].intercalate members ++ [0x7d]

/-- A migration summary as `json.Encoder` writes it. -/
def MigrationSummary.encode (m : MigrationSummary) : Bytes :=
  object ([member "outcome" (Go.quote false m.outcome), member "appliedCount" (Go.signed m.appliedCount)] ++
    memberUnless (m.firstApplied = 0) "firstApplied" (Go.signed m.firstApplied) ++
    memberUnless (m.lastApplied = 0) "lastApplied" (Go.signed m.lastApplied))

/-- The members behind the operation ID. -/
def Summary.members (s : Summary) : List Bytes :=
  member "frameDigest" (Go.quote false s.frameDigest) ::
    (memberUnless (!s.mutationStarted) "mutationStarted" (bytes "true") ++
      memberUnless (!s.uncertain) "uncertain" (bytes "true") ++
      memberUnless (s.errorCode = []) "errorCode" (Go.quote false s.errorCode) ++
      memberUnless (s.coordinationDigest = []) "coordinationDigest"
        (Go.quote false s.coordinationDigest) ++
      memberUnless (s.targetIdentityDigest = []) "targetIdentityDigest"
        (Go.quote false s.targetIdentityDigest) ++
      (s.migration.map fun m => member "migration" m.encode).toList)

/-- A summary as `json.Encoder` writes it, without the newline. -/
def Summary.encode (s : Summary) : Bytes :=
  object (member "protocolVersion" (Go.signed s.protocolVersion) ::
    member "operation" (Go.quote false s.operation.name) ::
    member "operationId" (Go.quote false s.operationID) :: s.members)

def marshalSummary (s : Summary) : Except String Bytes := do
  s.validate {}
  let encoded := summaryMarker ++ s.encode ++ [newline]
  refuse (maxSummaryBytes < encoded.length)
    s!"the summary is {encoded.length} bytes; the maximum is {maxSummaryBytes}"
  pure encoded

/-- `EncodedResult`, with the summary or why there is none. -/
structure EncodedResult where
  frame : Bytes
  summary : Except String Bytes

def encodeResult (wire : Wire) (result : Result) : Except FrameError EncodedResult :=
  let result :=
    if result.protocolVersion = 0 then { result with protocolVersion := protocolVersion } else result
  match marshalFrame wire result with
  | .error failure => .error failure
  | .ok (frame, digest) => .ok ⟨frame, marshalSummary (summaryOf result digest)⟩

/-! ## Reading -/

/-- The errors of `ParseSummaryFor`. -/
inductive SummaryError where
  /-- `ErrSummaryNotFound` -/
  | notFound
  | refused (reason : String)
  deriving DecidableEq

/-- A summary as `encoding/json` reads it with unknown fields refused, and whether nothing follows
it. -/
abbrev SummaryDecoder := Bytes → Option (Summary × Bool)

def parseSummaryFor (decode : SummaryDecoder) (message : Bytes) (operation : Operation)
    (operationID : Bytes) : Except SummaryError Summary :=
  match Scan.cut summaryMarker message with
  | none => .error .notFound
  | some (_, behind) =>
    if (Scan.cut summaryMarker behind).isSome then
      .error (.refused "the termination message carries more than one runner summary")
    else if maxSummaryBytes < summaryMarker.length + behind.length then
      .error (.refused "the runner summary exceeds its bound")
    else
      let document := if behind.getLast? = some newline then behind.dropLast else behind
      if document.any fun c => c = 0x0d || c = newline then
        .error (.refused "the runner summary is not one line")
      else match decode document with
      | none => .error (.refused "the runner summary is not a document this build can decode")
      | some (_, false) => .error (.refused "the runner summary carries data after its document")
      | some (summary, true) =>
        match summary.validate (optionsFor operation operationID) with
        | .error reason => .error (.refused reason)
        | .ok () => .ok summary

/-! ## Standing in for a frame -/

/-- The digest that the header line behind a marker declares. -/
def declaredDigest (behind : Bytes) : Option Bytes :=
  match Scan.cut [newline] behind with
  | none => none
  | some (line, _) =>
    if 96 < line.length then none
    else match Go.fields line with
    | [_, digest] => ((Go.hexDecode digest).filter (·.length = 32)).map fun data =>
        bytes "sha256:" ++ Go.hexEncode data
    | _ => none

/-- The loop of `frameHeaderDigests`. `fuel` bounds its turns. -/
def headerDigestsFrom : (fuel : Nat) → (logs : Bytes) → List Bytes
  | 0, _ => []
  | fuel + 1, logs =>
    match Scan.cut frameHeader logs with
    | none => []
    | some (_, behind) => (declaredDigest behind).toList ++ headerDigestsFrom fuel behind

def frameHeaderDigests (logs : Bytes) : List Bytes := headerDigestsFrom (logs.length + 1) logs

/-- `Summary.StandsInFor`, with what the parser returned for the log. -/
def Summary.standsInFor (s : Summary) (logs : Bytes) (outcome : Except FrameError Result) :
    Except String Unit :=
  match outcome with
  | .ok _ => .error "the log holds a readable frame, and the frame is the account"
  | .error failure => do
    refuse (!mayStillArrive failure)
      "the log holds a frame that was refused, and a summary cannot say more than it"
    refuse ((frameHeaderDigests logs).any (· ≠ s.frameDigest))
      "the log names a frame other than the one the summary is bound to"

end Ptah.Runner
