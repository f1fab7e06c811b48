import PtahOperator.Conc.Run
import PtahOperator.Conc.History
import PtahOperator.PlanStore.Contract

/-!
# The plan store and the API server it shares

`Publish`, `Load` and `Project` of `internal/planstore` as programs over the calls they make, and the
world that any number of them run in.

* A create lands only where no object is; an answer can be lost after it landed.
* A status update lands only on the version that was read.
* Chunks can be deleted or replaced at any time (`Env`).
* `Event` records which chunks a thread was shown, and what it committed.
-/

namespace Ptah.PlanStore

open Conc
open Go (Bytes bytes)

/-! ## The calls -/

/-- The answer to a create. After `failed` the object may have been stored or not. -/
inductive Created (α : Type) where
  | ok (object : α)
  | alreadyExists
  | failed

inductive Found (α : Type) where
  | found (object : α)
  | notFound
  | failed

/-- The calls of the store, in one namespace. -/
inductive Call where
  | createPlan (plan : Plan)
  | getPlan (name : Bytes)
  | createChunk (chunk : Chunk)
  | getChunk (name : Bytes)
  /-- `Status().Update` -/
  | updateStatus (plan : Plan)
  | createConfigMap (configMap : ConfigMap)
  | getConfigMap (name : Bytes)

@[reducible] def Call.Ans : Call → Type
  | .createPlan .. => Created Plan
  | .getPlan .. => Found Plan
  | .createChunk .. => Created Chunk
  | .getChunk .. => Found Chunk
  | .updateStatus .. => Option Plan
  | .createConfigMap .. => Created ConfigMap
  | .getConfigMap .. => Found ConfigMap

abbrev api : Iface := ⟨Call, Call.Ans⟩

abbrev Action (α : Type) := Proc api String α

abbrev send (c : Call) : Action c.Ans := @Proc.req api String c

/-- A check that ends a program. -/
abbrev require (check : Except String Unit) : Action Unit := Proc.ofExcept check

section Programs

variable (sha256 : Bytes → Bytes)

/-! ## `Publish` -/

/-- The manifest as it is stored, by this call or by an earlier one. -/
def publishManifest (desired : Plan) : Action Plan := do
  match ← send (.createPlan desired) with
  | .ok plan => pure plan
  | .failed => throw "create plan manifest"
  | .alreadyExists =>
    match ← send (.getPlan desired.name) with
    | .found plan =>
      require (sameManifest desired plan)
      pure plan
    | _ => throw "read existing plan manifest"

/-- A chunk as it is stored, by this call or by an earlier one. -/
def storeChunk (desired : Chunk) (index : Nat) : Action Chunk := do
  match ← send (.createChunk desired) with
  | .ok chunk => pure chunk
  | .failed => throw ("create plan chunk " ++ toString index)
  | .alreadyExists =>
    match ← send (.getChunk desired.metadata.name) with
    | .found chunk => pure chunk
    | _ => throw ("read plan chunk " ++ toString index)

/-- The loop of `Publish` over the chunks, each with its reference. -/
def publishChunks (plan : Plan) : (index : Nat) → List (ChunkReference × Bytes) →
    Action (List PublishedChunk)
  | _, [] => pure []
  | index, (ref, content) :: rest =>
    if ref.size ≠ content.length ∨ ref.digest ≠ digestBytes sha256 content then
      throw ("chunk " ++ toString index ++ " does not match its manifest")
    else do
      let chunk ← storeChunk (desiredChunk plan ref content) index
      require (verifyChunk sha256 plan ref content chunk)
      let published ← publishChunks plan (index + 1) rest
      pure ({ name := chunk.metadata.name, uid := chunk.uid, index := int32 index } :: published)

/-- The commit of `Publish`. -/
def commitStorage (plan : Plan) (published : List PublishedChunk) : Action Plan := do
  match ← send (.getPlan plan.name) with
  | .found latest =>
    match ← send (.updateStatus { latest with
      status := {
        observedGeneration := latest.generation
        publishedChunks := published
        ready := true } }) with
    | some committed => pure committed
    | none => throw "commit plan storage status"
  | _ => throw "read plan before committing storage"

def publish (desired : Plan) (chunks : List Bytes) : Action Plan :=
  if chunks.length ≠ desired.spec.chunks.length then throw "plan manifest and chunks do not match"
  else do
    require (validatePlanContract desired.spec)
    let plan ← publishManifest desired
    let published ← publishChunks sha256 plan 0 (plan.spec.chunks.zip chunks)
    commitStorage plan published

/-! ## `Load` -/

def loadChunk (plan : Plan) (index : Nat) (ref : ChunkReference) (committed : PublishedChunk) :
    Action Bytes :=
  if ref.index ≠ int32 index ∨ committed.index ≠ int32 index ∨ committed.name ≠ ref.name ∨
      committed.uid = [] then
    throw ("plan chunk " ++ toString index ++ " has an invalid ordering or commit binding")
  else do
    match ← send (.getChunk ref.name) with
    | .found chunk =>
      if chunk.uid ≠ committed.uid then throw ("plan chunk " ++ toString index ++ " was replaced")
      else do
        require (verifyChunk sha256 plan ref chunk.data chunk)
        pure chunk.data
    | _ => throw ("read committed plan chunk " ++ toString index)

/-- The loop of `Load` over the chunks, each with what was committed of it. -/
def loadChunks (plan : Plan) : (index : Nat) → (content : Bytes) →
    List (ChunkReference × PublishedChunk) → Action Bytes
  | _, content, [] => pure content
  | index, content, (ref, committed) :: rest => do
    let data ← loadChunk sha256 plan index ref committed
    if maxPlanBytes < content.length + data.length then
      throw ("reconstructed plan exceeds " ++ toString maxPlanBytes ++ " bytes")
    else loadChunks plan (index + 1) (content ++ data) rest

def load (plan : Plan) : Action Bytes :=
  if plan.uid = [] then throw "persisted plan is required"
  else do
    require (validatePlanContract plan.spec)
    if plan.status.observedGeneration ≠ plan.generation ∨ plan.status.ready = false then
      throw "plan storage is not committed"
    else if plan.spec.chunks = [] ∨ plan.spec.chunks.length ≠ plan.status.publishedChunks.length then
      throw "plan chunk manifest and committed status do not match"
    else do
      let published := plan.status.publishedChunks.insertionSort fun a b => a.index ≤ b.index
      let content ← loadChunks sha256 plan 0 [] (plan.spec.chunks.zip published)
      if content.length ≠ plan.spec.size ∨ digestBytes sha256 content ≠ plan.spec.contentDigest then
        throw "reconstructed plan does not match its content binding"
      else pure content

/-! ## `Project` -/

/-- A projection as it is stored, by this call or by an earlier one. -/
def storeProjection (desired : ConfigMap) (index : Nat) : Action ConfigMap := do
  match ← send (.createConfigMap desired) with
  | .ok configMap => pure configMap
  | .failed => throw ("create plan projection " ++ toString index)
  | .alreadyExists =>
    match ← send (.getConfigMap desired.metadata.name) with
    | .found configMap => pure configMap
    | _ => throw ("read plan projection " ++ toString index)

/-- The loop of `Project`. -/
def projectChunks (plan : Plan) : (index : Nat) → List (ChunkReference × Bytes) → Action Unit
  | _, [] => pure ()
  | index, (ref, data) :: rest =>
    if ref.index ≠ int32 index ∨ ref.size ≠ data.length ∨ ref.digest ≠ digestBytes sha256 data then
      throw ("plan chunk " ++ toString index ++ " does not match its manifest")
    else do
      let configMap ← storeProjection (desiredProjection plan ref data) index
      require (verifyProjection sha256 plan ref configMap)
      projectChunks plan (index + 1) rest

def project (plan : Plan) (content : Bytes) : Action Unit :=
  if plan.uid = [] then throw "persisted plan is required"
  else do
    require (validatePlanContract plan.spec)
    if content.length ≠ plan.spec.size ∨ digestBytes sha256 content ≠ plan.spec.contentDigest then
      throw "plan content does not match its content binding"
    else if (split content chunkBytes).length ≠ plan.spec.chunks.length then
      throw ("plan content does not split into its " ++ toString plan.spec.chunks.length ++ " chunks")
    else projectChunks sha256 plan 0 (plan.spec.chunks.zip (split content chunkBytes))

/-! ## Tasks -/

/-- The record of its publisher, which a plan keeps and its name leaves out. -/
structure PublisherRecord where
  controllerImage : Bytes
  controllerRevision : Bytes
  runnerImage : Bytes
  deriving DecidableEq

structure Publication where
  schema : Schema
  binding : PlanSpec
  content : Bytes

def Publication.name (p : Publication) : Bytes := planName p.binding.fingerprint

def Publication.spec (p : Publication) (record : PublisherRecord) : PlanSpec :=
  { p.binding with
    controllerImage := record.controllerImage
    controllerRevision := record.controllerRevision
    runnerImage := record.runnerImage }

/-- A manager publishes the plan, loads it, or loads and projects it for an Apply. -/
inductive Task where
  | publish (record : PublisherRecord)
  | load
  | apply
  deriving DecidableEq

/-- `Prepare` and `Publish`. -/
def publishTask (p : Publication) (record : PublisherRecord) : Action Plan := do
  let (desired, chunks) ← Proc.ofExcept (prepare sha256 p.schema (p.spec record) p.content)
  publish sha256 desired chunks

/-- The read of a plan, and `Load`. -/
def loadTask (p : Publication) : Action (Plan × Bytes) := do
  match ← send (.getPlan p.name) with
  | .found plan =>
    let content ← load sha256 plan
    pure (plan, content)
  | _ => throw "read plan"

/-- The read of a plan, `Load` and `Project`. -/
def applyTask (p : Publication) : Action (Plan × Bytes) := do
  let (plan, content) ← loadTask sha256 p
  project sha256 plan content
  pure (plan, content)

inductive TaskResult where
  | published (result : Except String Plan)
  | loaded (result : Except String (Plan × Bytes))
  | applied (result : Except String (Plan × Bytes))

def Task.code (p : Publication) : Task → Prog api TaskResult
  | .publish record => (publishTask sha256 p record).run >>= fun r => .ret (.published r)
  | .load => (loadTask sha256 p).run >>= fun r => .ret (.loaded r)
  | .apply => (applyTask sha256 p).run >>= fun r => .ret (.applied r)

end Programs

/-! ## The world -/

/-- What a thread was shown of a chunk, and what it committed. -/
inductive Event where
  | chunk (thread : Nat) (chunk : Chunk)
  | commit (thread : Nat) (name : Bytes) (published : List PublishedChunk)
  deriving DecidableEq

structure World where
  plans : Bytes → Option Plan
  chunks : Bytes → Option Chunk
  configMaps : Bytes → Option ConfigMap
  /-- The newest event first. -/
  log : List Event

/-- The answer to a read that does not fail. -/
def Found.of {α : Type} : Option α → Found α
  | some object => .found object
  | none => .notFound

theorem found_of {α : Type} {object : Option α} {x : α} (h : Found.found x = .of object) : object = some x := by
  cases object with
  | none => cases h
  | some y => cases h; rfl

def seen (t : Nat) : Found Chunk → List Event
  | .found chunk => [.chunk t chunk]
  | _ => []

def World.storePlan (w : World) (plan : Plan) : World :=
  { w with plans := Function.update w.plans plan.name (some plan) }

def World.storeChunk (w : World) (chunk : Chunk) : World :=
  { w with chunks := Function.update w.chunks chunk.metadata.name (some chunk) }

def World.storeConfigMap (w : World) (configMap : ConfigMap) : World :=
  { w with configMaps := Function.update w.configMaps configMap.metadata.name (some configMap) }

def World.record (w : World) (events : List Event) : World := { w with log := events ++ w.log }

@[simp] theorem World.storePlan_self (w : World) (plan : Plan) :
    (w.storePlan plan).plans plan.name = some plan := Function.update_self ..

theorem World.storePlan_of_ne {w : World} {plan : Plan} {name : Bytes} (h : name ≠ plan.name) :
    (w.storePlan plan).plans name = w.plans name := Function.update_of_ne h ..

@[simp] theorem World.storeConfigMap_self (w : World) (configMap : ConfigMap) :
    (w.storeConfigMap configMap).configMaps configMap.metadata.name = some configMap :=
  Function.update_self ..

theorem World.storeConfigMap_of_ne {w : World} {configMap : ConfigMap} {name : Bytes}
    (h : name ≠ configMap.metadata.name) :
    (w.storeConfigMap configMap).configMaps name = w.configMaps name := Function.update_of_ne h ..

@[simp] theorem World.record_plans (w : World) (events : List Event) : (w.record events).plans = w.plans := rfl

/-- The effect of each call. -/
def serve (t : Nat) (w : World) : (c : Call) → c.Ans → World → Prop
  | .createPlan plan, a, w' =>
    (w' = w ∧ ∀ stored, a ≠ .ok stored) ∨
    ∃ stored uid version, stored = { plan with uid, resourceVersion := version, generation := 1 } ∧
      w.plans plan.name = none ∧ w' = w.storePlan stored ∧ (a = .ok stored ∨ a = .failed)
  | .getPlan name, a, w' => w' = w ∧ (a = .failed ∨ a = .of (w.plans name))
  | .createChunk chunk, a, w' =>
    (w' = w ∧ ∀ stored, a ≠ .ok stored) ∨
    ∃ stored uid, stored = { chunk with uid } ∧ w.chunks chunk.metadata.name = none ∧
      ((a = .ok stored ∧ w' = (w.storeChunk stored).record [.chunk t stored]) ∨
        (a = .failed ∧ w' = w.storeChunk stored))
  | .getChunk name, a, w' => (a = .failed ∨ a = .of (w.chunks name)) ∧ w' = w.record (seen t a)
  | .updateStatus plan, a, w' =>
    (w' = w ∧ a = none) ∨
    ∃ current stored version, w.plans plan.name = some current ∧ current.uid = plan.uid ∧
      current.resourceVersion = plan.resourceVersion ∧
      stored = { current with status := plan.status, resourceVersion := version } ∧
      w' = (w.storePlan stored).record [.commit t plan.name plan.status.publishedChunks] ∧
      (a = some stored ∨ a = none)
  | .createConfigMap configMap, a, w' =>
    (w' = w ∧ ∀ stored, a ≠ .ok stored) ∨
    w.configMaps configMap.metadata.name = none ∧ w' = w.storeConfigMap configMap ∧
      (a = .ok configMap ∨ a = .failed)
  | .getConfigMap name, a, w' => w' = w ∧ (a = .failed ∨ a = .of (w.configMaps name))

abbrev server : Server api Nat World := ⟨serve⟩

/-- Chunks are deleted or replaced. -/
inductive Env : World → World → Prop where
  | chunks {w : World} (chunks : Bytes → Option Chunk) : Env w { w with chunks }

/-- Before the first call: any objects, each under its own name. -/
structure Init (w : World) : Prop where
  named : ∀ name plan, w.plans name = some plan → plan.name = name
  log : w.log = []

/-- A thread has committed the storage of a plan. -/
def World.Committed (w : World) (name : Bytes) : Prop := ∃ t published, Event.commit t name published ∈ w.log

end Ptah.PlanStore
