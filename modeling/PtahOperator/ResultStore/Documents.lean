import PtahOperator.Go.Base64
import PtahOperator.Go.Document
import PtahOperator.ResultStore.Record

/-!
# The documents of a result

Bindings, manifests and completions in JSON, with the members that `internal/resultstore` gives them, and a
codec over them. It reads what it writes, so it is faithful (`jsonCodec_faithful`).
-/

namespace Ptah.ResultStore

open Go (Bytes bytes toValid Json)

/-! ## Bindings -/

def bindingKeys : List Bytes :=
  ["namespace", "kind", "name", "uid", "generation", "executionBindingID", "inputFingerprint", "operation",
    "operationID", "jobName", "jobUID", "podName", "podUID"].map bytes

def Binding.values (b : Binding) : List Json :=
  [.string b.ns, .string b.kind, .string b.name, .string b.uid, .int b.generation, .string b.executionBindingID,
    .string b.inputFingerprint, .string b.operation, .string b.operationID, .string b.jobName, .string b.jobUID,
    .string b.podName, .string b.podUID]

def Binding.document (b : Binding) : Json := .record bindingKeys b.values

def readBinding (value : Json) : Option Binding :=
  match value.fields? bindingKeys with
  | some [.string ns, .string kind, .string name, .string uid, generation, .string executionBindingID,
      .string inputFingerprint, .string operation, .string operationID, .string jobName, .string jobUID,
      .string podName, .string podUID] => generation.int?.map fun generation =>
    ⟨ns, kind, name, uid, generation, executionBindingID, inputFingerprint, operation, operationID, jobName,
      jobUID, podName, podUID⟩
  | _ => none

@[simp] theorem readBinding_document (b : Binding) : readBinding b.document.readBack = some b.readBack := by
  rw [Binding.document, readBinding, Json.fields?_record (by decide +kernel) rfl]
  simp [Binding.values, Json.readBack, Binding.readBack]

/-! ## Manifests -/

def manifestKeys : List Bytes := ["version", "binding", "digest", "size", "chunks"].map bytes

def inlineKeys : List Bytes := manifestKeys ++ [bytes "inline"]

def chunkKeys : List Bytes := ["digest", "size"].map bytes

def ChunkReference.document (chunk : ChunkReference) : Json :=
  .record chunkKeys [.string chunk.digest, .int chunk.size]

def readChunk (value : Json) : Option ChunkReference :=
  match value.fields? chunkKeys with
  | some [.string digest, size] => size.int?.map (⟨digest, ·⟩)
  | _ => none

/-- A missing list is `null`. -/
def chunksDocument : Option (List ChunkReference) → Json
  | none => .null
  | some chunks => .array (chunks.map ChunkReference.document)

def readChunks : Json → Option (Option (List ChunkReference))
  | .null => some none
  | .array items => (items.mapM readChunk).map some
  | _ => none

def Manifest.values (m : Manifest) : List Json :=
  [.int m.version, m.binding.document, .string m.digest, .int m.size, chunksDocument m.chunks]

/-- A payload is a string in base64, and a missing or empty one is left out. -/
def Manifest.document (m : Manifest) : Json :=
  match m.inlined with
  | none | some [] => .record manifestKeys m.values
  | some payload => .record inlineKeys (m.values ++ [.string (Go.encodeBase64 false payload)])

def readValues (inlined : Option Bytes) : List Json → Option Manifest
  | [version, binding, .string digest, size, chunks] => do
    pure {
      version := ← version.int?
      binding := ← readBinding binding
      digest
      size := ← size.int?
      chunks := ← readChunks chunks
      inlined }
  | _ => none

def readManifest (value : Json) : Option Manifest :=
  match value.fields? manifestKeys, value.fields? inlineKeys with
  | some values, _ => readValues none values
  | none, some [version, binding, digest, size, chunks, .string payload] => do
    readValues (some (← Go.decodeBase64 false payload)) [version, binding, digest, size, chunks]
  | _, _ => none

@[simp] theorem readChunk_document (chunk : ChunkReference) :
    readChunk chunk.document.readBack = some { chunk with digest := toValid chunk.digest } := by
  rw [ChunkReference.document, readChunk, Json.fields?_record (by decide +kernel) rfl]
  simp [Json.readBack]

theorem readChunks_document (chunks : Option (List ChunkReference)) :
    readChunks (chunksDocument chunks).readBack =
      some (chunks.map fun chunks => chunks.map fun chunk => { chunk with digest := toValid chunk.digest }) := by
  cases chunks with
  | none => rfl
  | some chunks =>
    rw [chunksDocument, Json.readBack, readChunks, Json.mapM_readBack readChunk_document]
    rfl

theorem readValues_values (m : Manifest) (inlined : Option Bytes) :
    readValues inlined (m.values.map Json.readBack) = some { m.readBack with inlined } := by
  simp [Manifest.values, readValues, Json.readBack, readChunks_document, Manifest.readBack]

theorem readManifest_document {m : Manifest} (h : m.inlined ≠ some []) :
    readManifest m.document.readBack = some m.readBack := by
  have hkeys : manifestKeys ≠ inlineKeys ∧ inlineKeys ≠ manifestKeys := by decide
  unfold Manifest.document
  split
  · rename_i hnone
    rw [readManifest, Json.fields?_record (by decide +kernel) rfl, if_pos rfl]
    exact (readValues_values m none).trans (by rw [← hnone]; rfl)
  · rename_i hempty
    exact absurd hempty h
  · rename_i payload _ hpayload
    have hvalues := readValues_values m (some payload)
    have hdigits : toValid (Go.encodeBase64 false payload) = Go.encodeBase64 false payload :=
      (Go.toValid_eq_iff _).2 (Go.validText_ascii fun _ => Go.lt_of_mem_encodeBase64)
    rw [readManifest, Json.fields?_record (by decide +kernel) rfl, Json.fields?_record (by decide +kernel) rfl,
      if_neg hkeys.2, if_pos rfl]
    simpa [Manifest.values, Json.readBack, hdigits, Go.decodeBase64_encodeBase64, Manifest.readBack, hpayload]
      using hvalues

/-! ## The codec -/

def completionKeys : List Bytes := ["manifestUID", "manifestDigest", "chunkUIDs"].map bytes

def Completion.document (c : Completion) : Json :=
  .record completionKeys [.string c.manifestUID, .string c.manifestDigest, .array (c.chunkUIDs.map .string)]

def readCompletion (value : Json) : Option Completion :=
  match value.fields? completionKeys with
  | some [.string manifestUID, .string manifestDigest, .array uids] =>
    (uids.mapM Json.text?).map (⟨manifestUID, manifestDigest, ·⟩)
  | _ => none

/-- `encoding/json` on the documents of results. -/
def jsonCodec (sha256 : Bytes → Bytes) : Codec where
  encodeManifest m := m.document.write
  decodeManifest data := (Json.parse data).bind readManifest
  encodeCompletion c := c.document.write
  decodeCompletion data := (Json.parse data).bind readCompletion
  sha256
  attemptLabel name := bytes "r" ++ Go.encodeBase64 true (sha256 name) ++ bytes "r"

theorem jsonCodec_faithful (sha256 : Bytes → Bytes) : (jsonCodec sha256).Faithful := by
  intro m m' hm h
  simp only [jsonCodec, Json.parse_write, Option.bind_some, readManifest_document hm] at h
  exact (Option.some.inj h).symm

/-- A binding of a plan, for examples. -/
def sampleBinding : Binding where
  ns := bytes "shop"
  kind := bytes "PtahSchema"
  name := bytes "orders"
  uid := bytes "schema"
  generation := 1
  executionBindingID := bytes "v1-" ++ List.replicate 32 0x30
  inputFingerprint := bytes "sha256:" ++ List.replicate 64 0x61
  operation := bytes "plan"
  operationID := bytes "op"
  jobName := bytes "orders-plan"
  jobUID := bytes "job"
  podName := bytes "orders-plan-1"
  podUID := bytes "pod"

end Ptah.ResultStore
