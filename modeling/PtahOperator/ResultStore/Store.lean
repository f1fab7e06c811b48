import PtahOperator.PlanStore.Store
import PtahOperator.ResultStore.Record

/-!
# The result store and the API server it shares

`Publish`, `Load` and `LoadAttempt` of `internal/resultstore` as programs over the calls they make, and
the world that any number of them run in.

* A create first passes `validateRecordCreate`, whose reads are calls of their own, and then lands only
  where no record is. An answer can be lost after it landed.
* Records are updated as `validateRecordUpdate` allows, and deleted, at any time (`Env`).
* `Event` records what was submitted and what was deleted.
-/

namespace Ptah.ResultStore

open Conc
open Go (Bytes bytes)
open PlanStore (OwnerReference Created Found split sha256Pattern)

/-! ## The calls -/

inductive Call where
  /-- A publication is called. It is recorded, and asks nothing of the API. -/
  | submit (binding : Binding) (payload : Bytes)
  | get (key : Key)
  /-- The write of a create that admission let through. -/
  | create (record : Record)
  /-- The authority check of `PublishAuthorized`. -/
  | check

@[reducible] def Call.Ans : Call → Type
  | .submit .. => Unit
  | .get .. => Found Record
  | .create .. => Created Record
  | .check => Bool

abbrev api : Iface := ⟨Call, Call.Ans⟩

abbrev Action (α : Type) := Proc api StoreError α

abbrev send (c : Call) : Action c.Ans := @Proc.req api StoreError c

section Programs

variable (codec : Codec)

/-! ## Reads -/

def read (want : Record) : Action Record := do
  match ← send (.get want.key) with
  | .notFound => throw .incomplete
  | .failed => throw .other
  | .found got =>
    if got.uid = [] || got.deleting || !recordShape got want || got.data = [] ||
        chunkBytes < got.data.length then throw .conflict
    else pure got

/-! ## Admission -/

/-- The intent that `ValidateRecordCreate` holds a candidate to. -/
def admissionIntent (candidate : Record) : Action Record :=
  if candidate.type = .intent then pure candidate
  else if candidate.type ≠ .chunk ∧ candidate.type ≠ .complete then throw .invalid
  else
    match candidate.ownerReferences with
    | [ref] =>
      if ref.apiVersion ≠ apiVersion ∨ ref.kind ≠ bytes "PtahResultRecord" ∨ ref.name = [] ∨ ref.uid = [] then
        throw .invalid
      else do
        match ← send (.get (candidate.ns, ref.name)) with
        | .found intent => if intent.uid ≠ ref.uid ∨ intent.deleting then throw .conflict else pure intent
        | _ => throw .other
    | _ => throw .invalid

/-- The chunks that a completion commits, as admission reads them. -/
def admissionChunks (ns name : Bytes) (ref : OwnerReference) : (index : Nat) → (payload : Bytes) →
    List (ChunkReference × Bytes) → Action Bytes
  | _, payload, [] => pure payload
  | index, payload, (chunk, uid) :: rest => do
    let want := record codec ns (chunkName name index) .chunk ref []
    let part ← read want
    if !recordShape part want || uid = [] || part.uid ≠ uid || part.data.length ≠ chunk.size ||
        codec.digest part.data ≠ chunk.digest then throw .conflict
    else admissionChunks ns name ref (index + 1) (payload ++ part.data) rest

/-- The bytes of a completion name these chunks of this intent. -/
def completes (intent : Record) (m : Manifest) (data : Bytes) : Option Completion :=
  (codec.canonicalCompletion data).filter fun c =>
    c.manifestUID = intent.uid && c.manifestDigest = codec.digest intent.data &&
      c.chunkUIDs.length = m.references.length

/-- The switch of `ValidateRecordCreate` on the type of the candidate. -/
def admissionPayload (candidate intent : Record) (m : Manifest) (name : Bytes) : Action Bytes :=
  let ref := childOwner name intent.uid
  match candidate.type with
  | .intent => pure (m.inlined.getD [])
  | .chunk =>
    match (List.range m.references.length).find? fun n => candidate.name = chunkName name n with
    | none => throw .invalid
    | some index =>
      if !recordShape candidate (record codec m.binding.ns (chunkName name index) .chunk ref []) then
        throw .invalid
      else
        match m.references[index]? with
        | none => throw .invalid
        | some chunk =>
          if candidate.data.length ≠ chunk.size || codec.digest candidate.data ≠ chunk.digest then
            throw .conflict
          else pure []
  | .complete =>
    if !recordShape candidate (record codec m.binding.ns (completionName name) .complete ref []) then
      throw .invalid
    else
      match completes codec intent m candidate.data with
      | none => throw .conflict
      | some c => do
        let payload ← admissionChunks codec m.binding.ns name ref 0 [] (m.references.zip c.chunkUIDs)
        if payload.length ≠ m.size || codec.digest payload ≠ m.digest then throw .conflict
        else pure payload
  | _ => throw .invalid

/-- A record that is already stored has to be the candidate. -/
def checkExisting (candidate existing : Record) : Action Unit :=
  if existing.uid = [] || existing.deleting || !recordShape existing candidate ||
      existing.data ≠ candidate.data then throw .conflict
  else pure ()

/-- The end of `ValidateRecordCreate`: an identical retry passes, and a member that is missing from a
completed publication is not created again. -/
def admissionRetry (candidate : Record) (ns name : Bytes) : Action Unit := do
  match ← send (.get candidate.key) with
  | .found existing => checkExisting candidate existing
  | .failed => throw .other
  | .notFound =>
    if candidate.type = .complete then pure ()
    else do
      match ← send (.get (ns, completionName name)) with
      | .notFound => pure ()
      | .failed => throw .other
      | .found _ =>
        -- Another publisher may have created the member and the completion since the first read.
        match ← send (.get candidate.key) with
        | .found existing => checkExisting candidate existing
        | .notFound => throw .conflict
        | .failed => throw .other

def validateRecordCreate (candidate : Record) : Action (Binding × Bytes) :=
  if candidate.deleting || candidate.data = [] || chunkBytes < candidate.data.length then throw .invalid
  else do
    let intent ← admissionIntent candidate
    match admissionManifest codec intent with
    | .error e => throw e
    | .ok (m, name) =>
      if m.inlined ≠ none ∧ candidate.type ≠ .intent then throw .invalid
      else if candidate.labels.attempt.getD [] ≠ codec.attemptLabel name then throw .invalid
      else do
        let payload ← admissionPayload codec candidate intent m name
        admissionRetry candidate m.binding.ns name
        pure (m.binding, payload)

/-- `Create`, as the API server answers it. -/
def createRecord (candidate : Record) : Action (Created Record) := do
  match ← (validateRecordCreate codec candidate).attempt with
  | .error _ => pure .failed
  | .ok _ => send (.create candidate)

/-! ## `Load` -/

structure Receipt where
  name : Bytes
  uid : Bytes
  digest : Bytes
  size : Int
  deriving DecidableEq

/-- The loop of `loadIntent` over the chunks, each with the UID that was committed. -/
def loadChunks (ns name : Bytes) (ref : OwnerReference) (size : Int) : (index : Nat) → (payload : Bytes) →
    List (ChunkReference × Bytes) → Action Bytes
  | _, payload, [] => pure payload
  | index, payload, (chunk, uid) :: rest =>
    if chunk.size ≠ chunkSize size index || !sha256Pattern chunk.digest || uid = [] then throw .conflict
    else do
      let part ← read (record codec ns (chunkName name index) .chunk ref [])
      if part.uid ≠ uid || part.data.length ≠ chunk.size || codec.digest part.data ≠ chunk.digest then
        throw .conflict
      else loadChunks ns name ref size (index + 1) (payload ++ part.data) rest

/-- The part of `loadIntent` that reads the records of a chunked result. -/
def loadCompletion (intent : Record) (b : Binding) (m : Manifest) (name : Bytes) :
    Action (Bytes × Receipt) := do
  let ref := childOwner intent.name intent.uid
  let ready ← read (record codec b.ns (completionName name) .complete ref [])
  match completes codec intent m ready.data with
  | none => throw .conflict
  | some c =>
    let payload ← loadChunks codec b.ns name ref m.size 0 [] (m.references.zip c.chunkUIDs)
    if payload.length ≠ m.size || codec.digest payload ≠ m.digest then throw .conflict
    else pure (payload, { name := ready.name, uid := ready.uid, digest := m.digest, size := m.size })

def loadIntent (intent : Record) (b : Binding) : Action (Bytes × Receipt) :=
  if intent.uid = [] then throw .conflict
  else
    match admissionManifest codec intent with
    | .error _ => throw .conflict
    | .ok (m, name) =>
      if m.binding ≠ b then throw .conflict
      else
        match m.inlined with
        | some payload =>
          pure (payload, { name := intent.name, uid := intent.uid, digest := m.digest, size := m.size })
        | none => loadCompletion codec intent b m name

def load (b : Binding) : Action (Bytes × Receipt) := do
  let name ← Proc.ofExcept (resultName codec b)
  let intent ← read (intentRecord codec b name [])
  loadIntent codec intent b

def loadAttempt (ns uid operationID jobName : Bytes) : Action (Binding × Bytes × Receipt) :=
  match attemptName codec ns uid operationID jobName with
  | .error _ => throw .invalid
  | .ok name => do
    match ← send (.get (ns, name)) with
    | .notFound => throw .incomplete
    | .failed => throw .other
    | .found intent =>
      match admissionManifest codec intent with
      | .error _ => throw .conflict
      | .ok (m, found) =>
        if found ≠ name || m.binding.ns ≠ ns || m.binding.uid ≠ uid || m.binding.operationID ≠ operationID ||
            m.binding.jobName ≠ jobName then throw .conflict
        else do
          let (payload, receipt) ← loadIntent codec intent m.binding
          pure (m.binding, payload, receipt)

/-! ## `Publish` -/

def ensure (want : Record) : Action Record := do
  match ← createRecord codec want with
  | .failed =>
    -- The error of the write is kept, unless a direct read shows other bytes.
    match ← (read want).attempt with
    | .error .conflict => throw .conflict
    | .error _ => throw .other
    | .ok got => if got.data ≠ want.data then throw .conflict else throw .other
  | _ =>
    let got ← read want
    if got.data ≠ want.data then throw .conflict else pure got

/-- The check of `PublishAuthorized`; `Publish` makes none. -/
def authorize (authorized : Bool) : Action Unit :=
  if authorized then do
    if ← send .check then pure () else throw .other
  else pure ()

def chunkedManifest (b : Binding) (payload expectedDigest : Bytes) : Manifest where
  version := 1
  binding := b
  digest := expectedDigest
  size := payload.length
  chunks := some ((split payload chunkBytes).map fun part =>
    { digest := codec.digest part, size := part.length })
  inlined := none

def inlineManifest (b : Binding) (payload expectedDigest : Bytes) : Manifest where
  version := 1
  binding := b
  digest := expectedDigest
  size := payload.length
  chunks := none
  inlined := some payload

/-- The loop of `publishChunks`: the UIDs of the stored chunks. -/
def storeChunks (ns name : Bytes) (ref : OwnerReference) : (index : Nat) → List Bytes → Action (List Bytes)
  | _, [] => pure []
  | index, part :: parts => do
    let stored ← ensure codec (record codec ns (chunkName name index) .chunk ref part)
    let uids ← storeChunks ns name ref (index + 1) parts
    pure (stored.uid :: uids)

def publishChunks (authorized : Bool) (b : Binding) (name payload expectedDigest : Bytes) : Action Receipt := do
  let encoded := codec.encodeManifest (chunkedManifest codec b payload expectedDigest)
  authorize authorized
  let intent ← ensure codec (intentRecord codec b name encoded)
  let ref := childOwner intent.name intent.uid
  match ← send (.get (b.ns, completionName name)) with
  | .failed => throw .other
  | .found _ =>
    authorize authorized
    let (_, receipt) ← load codec b
    pure receipt
  | .notFound =>
    let chunkUIDs ← storeChunks codec b.ns name ref 0 (split payload chunkBytes)
    let c : Completion := {
      manifestUID := intent.uid
      manifestDigest := codec.digest encoded
      chunkUIDs }
    authorize authorized
    let _ ← ensure codec
      (record codec b.ns (completionName name) .complete ref (codec.encodeCompletion c))
    let (_, receipt) ← load codec b
    pure receipt

/-- A stored intent lays the same result out in chunks. -/
def partlyChunked (b : Binding) (payload expectedDigest : Bytes) (previous : Record) : Bool :=
  match admissionManifest codec previous with
  | .error _ => false
  | .ok (stored, _) =>
    stored.inlined = none && stored.binding = b && stored.digest = expectedDigest &&
      stored.size = payload.length

def publishInline (authorized : Bool) (b : Binding) (name payload expectedDigest : Bytes) : Action Receipt := do
  let want := intentRecord codec b name (codec.encodeManifest (inlineManifest b payload expectedDigest))
  authorize authorized
  match ← (ensure codec want).attempt with
  | .ok intent =>
    let (_, receipt) ← loadIntent codec intent b
    pure receipt
  | .error .conflict =>
    let previous ← read want
    if partlyChunked codec b payload expectedDigest previous then
      publishChunks codec authorized b name payload expectedDigest
    else throw .conflict
  | .error e => throw e

/-- `publish`. An older build lays every result out in chunks. -/
def publish (authorized older : Bool) (b : Binding) (payload expectedDigest : Bytes) : Action Receipt := do
  let name ← Proc.ofExcept (resultName codec b)
  if payload = [] || maxPayloadBytes < payload.length || !sha256Pattern expectedDigest ||
      codec.digest payload ≠ expectedDigest then throw .invalid
  else if payload.length ≤ inlinePayloadBytes && !older then
    publishInline codec authorized b name payload expectedDigest
  else publishChunks codec authorized b name payload expectedDigest

/-! ## Tasks -/

inductive Task where
  | publish (authorized older : Bool) (binding : Binding) (payload expectedDigest : Bytes)
  | load (binding : Binding)
  | loadAttempt (ns uid operationID jobName : Bytes)
  deriving DecidableEq

inductive TaskResult where
  | published (result : Except StoreError Receipt)
  | loaded (result : Except StoreError (Bytes × Receipt))
  | attempt (result : Except StoreError (Binding × Bytes × Receipt))
  deriving DecidableEq

/-- A call of the publication, which is recorded first. -/
def publishTask (authorized older : Bool) (b : Binding) (payload expectedDigest : Bytes) : Action Receipt := do
  send (.submit b payload)
  publish codec authorized older b payload expectedDigest

def Task.code : Task → Prog api TaskResult
  | .publish authorized older b payload expectedDigest =>
    (publishTask codec authorized older b payload expectedDigest).run >>= fun r => .ret (.published r)
  | .load b => (ResultStore.load codec b).run >>= fun r => .ret (.loaded r)
  | .loadAttempt ns uid operationID jobName =>
    (ResultStore.loadAttempt codec ns uid operationID jobName).run >>= fun r => .ret (.attempt r)

end Programs

/-! ## The world -/

inductive Event where
  | submitted (binding : Binding) (payload : Bytes)
  | deleted (key : Key)
  deriving DecidableEq

structure World where
  records : Key → Option Record
  /-- The newest event first. -/
  log : List Event

def World.store (w : World) (r : Record) : World :=
  { w with records := Function.update w.records r.key (some r) }

def World.delete (w : World) (key : Key) : World where
  records := Function.update w.records key none
  log := .deleted key :: w.log

def World.submit (w : World) (b : Binding) (payload : Bytes) : World :=
  { w with log := .submitted b payload :: w.log }

@[simp] theorem World.store_self (w : World) (r : Record) : (w.store r).records r.key = some r :=
  Function.update_self ..

theorem World.store_of_ne {w : World} {r : Record} {key : Key} (h : key ≠ r.key) :
    (w.store r).records key = w.records key := Function.update_of_ne h ..

theorem World.delete_of_ne {w : World} {key deleted : Key} (h : key ≠ deleted) :
    (w.delete deleted).records key = w.records key := Function.update_of_ne h ..

@[simp] theorem World.delete_self (w : World) (key : Key) : (w.delete key).records key = none :=
  Function.update_self ..

/-- The effect of each call. -/
def serve (_ : Nat) (w : World) : (c : Call) → c.Ans → World → Prop
  | .submit b payload, _, w' => w' = w.submit b payload
  | .get key, a, w' => w' = w ∧ (a = .failed ∨ a = .of (w.records key))
  | .create r, a, w' =>
    (w' = w ∧ ∀ stored, a ≠ .ok stored) ∨
    ∃ stored uid created, uid ≠ [] ∧ stored = { r with uid, creationTimestamp := some created } ∧
      w.records r.key = none ∧ w' = w.store stored ∧ (a = .ok stored ∨ a = .failed)
  | .check, _, w' => w' = w

abbrev server : Server api Nat World := ⟨serve⟩

/-- A record is deleted, or updated as admission allows. -/
inductive Env : World → World → Prop where
  | delete {w : World} (key : Key) : Env w (w.delete key)
  | update {w : World} {old next : Record} (h : w.records old.key = some old)
    (hupdate : validateRecordUpdate old next = .ok ()) : Env w (w.store next)

/-- Before the first call. -/
structure Init (w : World) : Prop where
  records : ∀ key, w.records key = none
  log : w.log = []

end Ptah.ResultStore
