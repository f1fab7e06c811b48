import PtahOperator.PlanStore.Store
import PtahOperator.ResultStore.Record

/-!
# Retention of result records

A retirement marker starts the retention of an attempt, and the resource that ran it can pin it
(`internal/resultretention`). The roots of an attempt, its intent, its credential and its marker, each
say which binding they are for.

* `Retirement`, `decode`: the marker of an attempt.
* `rootBinding`: the binding of a root.
* `checkUnpinned`, `eligible`: the checks of retention, over the reads they make.
-/

namespace Ptah.ResultCleanup

open Conc
open Go (Bytes bytes)
open PlanStore (OwnerReference Found sha256Pattern)
open ResultStore

/-! ## Documents -/

structure Source where
  name : Bytes
  uid : Bytes
  type : RecordType
  deriving DecidableEq

structure Retirement where
  version : Int
  binding : Binding
  source : Source
  retentionSeconds : Int
  deriving DecidableEq

/-- `resultdelivery.Identity` -/
structure Identity where
  binding : Binding
  engine : Bytes
  deriving DecidableEq

/-- `UnresolvedMigrationRunStatus`, with the fields that no check reads in one. -/
structure UnresolvedRun where
  outcome : Bytes
  operationID : Bytes
  jobName : Bytes
  planName : Bytes
  planUID : Bytes
  targetIdentityDigest : Bytes
  recordedAt : Option Int
  others : Bytes
  deriving DecidableEq

/-- `encoding/json` on the documents of retention, and the identity in a client certificate. -/
structure Documents extends Codec where
  encodeRetirement : Retirement → Bytes
  decodeRetirement : Bytes → Option Retirement
  encodeIdentity : Identity → Bytes
  decodeIdentity : Bytes → Option Identity
  encodeRun : UnresolvedRun → Bytes
  decodeRun : Bytes → Option UnresolvedRun
  /-- The data of a Secret. -/
  encodeData : List (Bytes × Bytes) → Bytes
  decodeData : Bytes → Option (List (Bytes × Bytes))
  /-- `tls.X509KeyPair` and `StoredClientIdentity`. -/
  storedClientIdentity : (certificate key : Bytes) → Option Identity

/-- What refuses a deletion. -/
inductive Refusal where
  /-- `ErrRetained` -/
  | retained
  /-- `ErrPinned` -/
  | pinned
  /-- `ErrWindow`, with the end of a window that has one. -/
  | window (ends : Option Int)
  /-- `ErrRecord` -/
  | record
  /-- `ErrCredential` -/
  | credential
  | store (e : StoreError)
  /-- An error of the API. -/
  | other
  deriving DecidableEq

def second : Int := 1000000000

def minimumWindow : Int := 3600 * second

def maxSeconds : Int := (2 ^ 63 - 1) / second

def foregroundDeleting (r : Record) : Bool := r.deleting && r.finalizers = [finalizerDeleteDependents]

/-! ## Retirement markers -/

section Roots

variable (docs : Documents)

def credentialName (ownerUID operationID jobName : Bytes) : Bytes :=
  bytes "ptah-result-key-" ++
    Go.hexEncode ((docs.sha256 (ownerUID ++ 0 :: operationID ++ 0 :: jobName)).take 16)

def credentialKey (b : Binding) : Key := (b.ns, credentialName docs b.uid b.operationID b.jobName)

/-- The name of the intent of an attempt, and nothing for an invalid binding. -/
def intentName (b : Binding) : Bytes := ((resultName docs.toCodec b).toOption).getD []

def retiredName (name : Bytes) : Bytes := name ++ bytes "-retired"

def validSource (r : Retirement) : Bool :=
  if r.source.uid = [] then false
  else
    match r.source.type with
    | .credential => r.source.name = credentialName docs r.binding.uid r.binding.operationID r.binding.jobName
    | .intent => resultName docs.toCodec r.binding = .ok r.source.name
    | _ => false

/-- `Record` -/
def retirementRecord (b : Binding) (source : Source) (window : Int) : Except Refusal Record :=
  match resultName docs.toCodec b with
  | .error _ => .error .record
  | .ok name =>
    let r : Retirement := { version := 1, binding := b, source, retentionSeconds := window / second }
    if window < minimumWindow || window % second ≠ 0 || !validSource docs r then .error .record
    else .ok {
      ns := b.ns
      name := retiredName name
      labels := { role := some .retired, attempt := none }
      ownerReferences := [{
        apiVersion
        kind := b.kind
        name := b.name
        uid := b.uid
        controller := some true
        blockOwnerDeletion := some false }]
      type := .retired
      data := docs.encodeRetirement r }

def decode (record : Record) : Except Refusal Retirement :=
  if record.type ≠ .retired || record.data = [] || chunkBytes < record.data.length then .error .record
  else
    match docs.decodeRetirement record.data with
    | none => .error .record
    | some r =>
      if r.version ≠ 1 || r.retentionSeconds < minimumWindow / second || maxSeconds < r.retentionSeconds then
        .error .record
      else
        match retirementRecord docs r.binding r.source (r.retentionSeconds * second) with
        | .error _ => .error .record
        | .ok want =>
          if want.data ≠ record.data || record.name ≠ want.name || record.ns ≠ want.ns ||
              record.generateName ≠ [] || record.annotations ≠ [] || record.labels ≠ want.labels ||
              record.ownerReferences ≠ want.ownerReferences then .error .record
          else if record.finalizers ≠ [] && !foregroundDeleting record then .error .record
          else .ok r

/-! ## The binding of a root -/

def cleanupView (record : Record) : Record :=
  { record with
    finalizers := if foregroundDeleting record then [] else record.finalizers
    deletionTimestamp := none }

def storedBinding (intent : Record) : Except StoreError Binding :=
  if intent.uid = [] then .error .invalid
  else
    match admissionManifest docs.toCodec (cleanupView intent) with
    | .error e => .error e
    | .ok (m, _) => .ok m.binding

def memberOf (recorded : Record) (b : Binding) : Bool :=
  let got := cleanupView recorded
  match resultName docs.toCodec b, got.ownerReferences with
  | .ok name, [ref] =>
    let validName :=
      match got.type with
      | .complete => decide (got.name = completionName name)
      | .chunk => (List.range maxChunks).any fun n => got.name = chunkName name n
      | _ => false
    got.uid ≠ [] && ref.uid ≠ [] && validName &&
      recordShape got (ResultStore.record docs.toCodec b.ns got.name got.type (childOwner name ref.uid) [])
  | _, _ => false

/-- `Identity.valid` -/
def Identity.valid (identity : Identity) : Bool :=
  (resultName docs.toCodec identity.binding).isOk &&
    (identity.engine = bytes "postgresql" || identity.engine = bytes "mysql" ||
      identity.engine = [] &&
        (identity.binding.operation = bytes "resolve" || identity.binding.operation = bytes "verify"))

def annotations (identity : Identity) : List (Bytes × Bytes) :=
  [(bytes "operator.ptah.run/result-pod-uid", identity.binding.podUID),
    (bytes "operator.ptah.run/result-pod-name", identity.binding.podName),
    (bytes "operator.ptah.run/result-job-uid", identity.binding.jobUID),
    (bytes "operator.ptah.run/result-operation-id", identity.binding.operationID)]

/-- The owner of a credential. -/
def credentialOwner (b : Binding) : OwnerReference where
  apiVersion := apiVersion
  kind := b.kind
  name := b.name
  uid := b.uid
  controller := some true
  blockOwnerDeletion := some true

def podBindingRecord (identity : Identity) : Except Refusal Record :=
  if !identity.valid docs then .error .credential
  else if 4 * 2 ^ 10 < (docs.encodeIdentity identity).length then .error .credential
  else .ok {
    ns := identity.binding.ns
    name := credentialName docs identity.binding.uid identity.binding.operationID identity.binding.jobName
    annotations := annotations identity
    labels := {
      role := none
      attempt := none
      others := [(bytes "app.kubernetes.io/managed-by", bytes "ptah-operator"),
        (bytes "app.kubernetes.io/component", bytes "result-credential")] }
    ownerReferences := [credentialOwner identity.binding]
    type := .credential
    data := docs.encodeIdentity identity }

/-- `decodePodBinding`, of a stored record or of one that is submitted. -/
def decodePodBinding (record : Record) (stored : Bool) : Except Refusal Identity :=
  if record.type ≠ .credential || record.data = [] || 4 * 2 ^ 10 < record.data.length ||
      record.generateName ≠ [] || stored && record.uid = [] ||
      record.finalizers ≠ [] && !foregroundDeleting record then .error .credential
  else
    match docs.decodeIdentity record.data with
    | none => .error .credential
    | some identity =>
      match podBindingRecord docs identity with
      | .error _ => .error .credential
      | .ok expected =>
        if record.data ≠ expected.data || record.ns ≠ expected.ns || record.name ≠ expected.name ||
            record.labels ≠ expected.labels || record.annotations ≠ expected.annotations ||
            record.ownerReferences ≠ expected.ownerReferences then .error .credential
        else .ok identity

/-- `recordSecret`: the data of the Secret that a credential holds. -/
def recordSecret (record : Record) : Except Refusal (List (Bytes × Bytes)) :=
  if record.type ≠ .credential || record.data = [] || 512 * 2 ^ 10 < record.data.length ||
      record.generateName ≠ [] then .error .credential
  else if record.finalizers ≠ [] && !foregroundDeleting record then .error .credential
  else
    match (docs.decodeData record.data).filter fun data => docs.encodeData data = record.data with
    | none => .error .credential
    | some data => .ok data

def storedIdentity (record : Record) (data : List (Bytes × Bytes)) : Except Refusal Identity :=
  let entry (key : Bytes) : Bytes := (data.lookup key).getD []
  match docs.storedClientIdentity (entry (bytes "tls.crt")) (entry (bytes "tls.key")) with
  | none => .error .credential
  | some identity =>
    if record.key ≠ credentialKey docs identity.binding || record.annotations ≠ annotations identity then
      .error .credential
    else .ok identity

def storedRecordIdentity (record : Record) : Except Refusal Identity :=
  match decodePodBinding docs record true with
  | .ok identity => .ok identity
  | .error _ =>
    match recordSecret docs record with
    | .error _ => .error .credential
    | .ok data =>
      if record.uid = [] then .error .credential
      else
        match storedIdentity docs record data with
        | .error e => .error e
        | .ok identity =>
          if record.ownerReferences ≠ [credentialOwner identity.binding] then .error .credential
          else .ok identity

def rootBinding (record : Record) : Except Refusal Binding :=
  match record.type with
  | .credential => (storedRecordIdentity docs record).map Identity.binding
  | .intent =>
    match storedBinding docs record with
    | .error e => .error (.store e)
    | .ok b => .ok b
  | .retired => (decode docs record).map Retirement.binding
  | _ => .error .record

end Roots

/-! ## The API -/

/-- What pins an attempt of a `PtahSchema`. -/
structure Schema where
  uid : Bytes
  /-- `ActiveOperation.ID` -/
  activeOperation : Option Bytes
  /-- `PendingObservation.ApplyOperationID` -/
  pendingObservation : Option Bytes
  /-- `PendingLockRelease.OperationID` -/
  pendingLockRelease : Option Bytes
  deriving DecidableEq

structure LastRun where
  jobName : Bytes
  jobUID : Bytes
  deriving DecidableEq

/-- What pins an attempt of a `PtahMigration`. -/
structure Migration where
  uid : Bytes
  /-- `ActiveOperation.ID` -/
  activeOperation : Option Bytes
  /-- `UnresolvedRun.OperationID` -/
  unresolvedRun : Option Bytes
  /-- `ResolvedRun.OperationID` -/
  resolvedRun : Option Bytes
  /-- `PendingLockRelease.OperationID` -/
  pendingLockRelease : Option Bytes
  lastRun : Option LastRun
  unresolvedRunCopy : Option Bytes
  deriving DecidableEq

/-- The label selector of the members of an attempt. -/
inductive Index where
  | attempt (label : Bytes)
  /-- Without that label. -/
  | legacy
  deriving DecidableEq

/-- Chunks and completions under an index. -/
def Index.selects (index : Index) (r : Record) : Bool :=
  (r.labels.role = some .chunk || r.labels.role = some .complete) &&
    match index with
    | .attempt label => r.labels.attempt = some label
    | .legacy => r.labels.attempt = none

inductive Call where
  | getRecord (key : Key)
  | getJob (key : Key)
  | getSchema (key : Key)
  | getMigration (key : Key)
  /-- A page of a listing, from a position on. -/
  | list (ns : Bytes) (index : Index) (start : Nat)

/-- A page, and where the next one starts. -/
structure Page where
  items : List Record
  continuation : Option Nat

@[reducible] def Call.Ans : Call → Type
  | .getRecord .. => Found Record
  | .getJob .. => Found Bytes
  | .getSchema .. => Found Schema
  | .getMigration .. => Found Migration
  | .list .. => Option Page

abbrev api : Iface := ⟨Call, Call.Ans⟩

abbrev Action (α : Type) := Proc api Refusal α

abbrev send (c : Call) : Action c.Ans := @Proc.req api Refusal c

/-- The state of the API store. -/
structure World where
  records : List Record
  jobs : Key → Option Bytes
  schemas : Key → Option Schema
  migrations : Key → Option Migration

def World.get (w : World) (key : Key) : Option Record := w.records.find? fun r => r.key = key

theorem World.key_of_get {w : World} {key : Key} {r : Record} (h : w.get key = some r) : r.key = key := by
  simpa using List.find?_some h

/-- The records that a listing shows, in the order of the store. -/
def World.listed (w : World) (ns : Bytes) (index : Index) : List Record :=
  w.records.filter fun r => r.ns = ns && index.selects r

/-- Each read shows the store, or fails. A page has at most 128 items. -/
def serve (_ : Unit) (w : World) : (c : Call) → c.Ans → World → Prop
  | .getRecord key, a, w' => w' = w ∧ (a = .failed ∨ a = .of (w.get key))
  | .getJob key, a, w' => w' = w ∧ (a = .failed ∨ a = .of (w.jobs key))
  | .getSchema key, a, w' => w' = w ∧ (a = .failed ∨ a = .of (w.schemas key))
  | .getMigration key, a, w' => w' = w ∧ (a = .failed ∨ a = .of (w.migrations key))
  | .list ns index start, a, w' => w' = w ∧ (a = none ∨ ∃ size, size ≤ 128 ∧
      a = some {
        items := ((w.listed ns index).drop start).take size
        continuation := if (w.listed ns index).length ≤ start + size then none else some (start + size) })

abbrev server : Server api Unit World := ⟨serve⟩

/-- At this state of the store, the action can end with a result. -/
def Answers {α : Type} (w : World) (action : Action α) (a : α) : Prop := Proc.Yields server () action w a w

section Answers

variable {α β : Type} {w : World} {a : α} {b : β}

theorem serve_same {w' : World} {c : Call} {x : c.Ans} (h : serve () w c x w') : w' = w := by
  cases c <;> exact h.1

@[simp] theorem answers_pure {x : α} : Answers w (pure x : Action α) a ↔ x = a := by simp [Answers]

@[simp] theorem answers_throw {e : Refusal} : ¬ Answers w (throw e : Action α) a := Proc.yields_throw

theorem answers_bind {p : Action α} {f : α → Action β} :
    Answers w (p >>= f) b ↔ ∃ a, Answers w p a ∧ Answers w (f a) b := by
  refine Proc.yields_bind.trans ⟨?_, ?_⟩
  · rintro ⟨a, w1, h1, h2⟩
    obtain rfl : w1 = w := Prog.Ends.stays (fun _ _ _ _ h => serve_same h) h1
    exact ⟨a, h1, h2⟩
  · rintro ⟨a, h1, h2⟩
    exact ⟨a, w, h1, h2⟩

theorem answers_send {c : Call} {x : c.Ans} : Answers w (send c) x ↔ serve () w c x w := Proc.yields_req

theorem answers_ofExcept {r : Except Refusal α} :
    Answers w (Proc.ofExcept r : Action α) a ↔ r = .ok a := by
  simp [Answers, Proc.yields_ofExcept]

end Answers

/-! ## Pins -/

section Retention

variable (docs : Documents)

/-- A `PtahSchema` pins an operation. -/
def Schema.pins (schema : Schema) (b : Binding) : Bool :=
  schema.activeOperation = some b.operationID || schema.pendingObservation = some b.operationID ||
    schema.pendingLockRelease = some b.operationID

/-- A copy of an unresolved run that no later format and no other operation wrote. -/
def validCopy (value : Bytes) (run : UnresolvedRun) : Bool :=
  sha256Pattern run.operationID && run.planName ≠ [] && run.planUID ≠ [] && run.recordedAt.isSome &&
    run.jobName.length ≤ 253 && (run.targetIdentityDigest = [] || sha256Pattern run.targetIdentityDigest) &&
    (run.outcome = bytes "Partial" || run.outcome = bytes "Unknown") && docs.encodeRun run = value

/-- A copy of an unresolved run pins an operation, unless it is for another one. -/
def copyPins (b : Binding) (value : Bytes) : Bool :=
  match docs.decodeRun value with
  | none => true
  | some run => !validCopy docs value run || run.operationID = b.operationID

/-- The last run pins its Job, or every apply while it has none. -/
def LastRun.pins (run : LastRun) (b : Binding) : Bool :=
  run.jobName = [] && b.operation = bytes "migration-apply" ||
    run.jobName = b.jobName && (run.jobUID = [] || run.jobUID = b.jobUID)

/-- A `PtahMigration` pins an operation. -/
def Migration.pins (migration : Migration) (b : Binding) : Bool :=
  migration.activeOperation = some b.operationID || migration.unresolvedRun = some b.operationID ||
    migration.resolvedRun = some b.operationID || migration.pendingLockRelease = some b.operationID ||
    migration.lastRun.any (LastRun.pins · b) || migration.unresolvedRunCopy.any (copyPins docs b)

def checkUnpinned (b : Binding) : Action Unit :=
  match resultName docs.toCodec b with
  | .error e => throw (.store e)
  | .ok _ =>
    if b.kind = bytes "PtahSchema" then do
      match ← send (.getSchema (b.ns, b.name)) with
      | .notFound => pure ()
      | .failed => throw .other
      | .found schema =>
        if schema.uid ≠ b.uid then pure ()
        else if schema.pins b then throw .pinned
        else pure ()
    else if b.kind = bytes "PtahMigration" then do
      match ← send (.getMigration (b.ns, b.name)) with
      | .notFound => pure ()
      | .failed => throw .other
      | .found migration =>
        if migration.uid ≠ b.uid then pure ()
        else if migration.pins docs b then throw .pinned
        else pure ()
    else throw .pinned

/-- The window of a marker: the current one, or the one it records if that is longer. -/
def Retirement.window (r : Retirement) (window : Int) : Int := max window (r.retentionSeconds * second)

def eligible (marker : Record) (now window : Int) : Action Unit := do
  let r ← Proc.ofExcept (decode docs marker)
  match marker.creationTimestamp with
  | none => throw .record
  | some created =>
    if marker.uid = [] || window < minimumWindow then throw .record
    else do
      checkUnpinned docs r.binding
      if now < created + r.window window then throw (.window (some (created + r.window window)))
      else pure ()

end Retention

end Ptah.ResultCleanup
