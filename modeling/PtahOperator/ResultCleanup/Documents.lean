import PtahOperator.ResultCleanup.Retention
import PtahOperator.ResultStore.Documents

/-!
# The documents of retention

Identities, retirement markers, copies of unresolved runs and the data of Secrets in JSON, with the members
that the source gives them. A copy is written with the members that a check reads, and its time in nanoseconds.
-/

namespace Ptah.ResultCleanup

open Go (Bytes bytes toValid Json)
open ResultStore

def identityKeys : List Bytes := ["binding", "engine"].map bytes

def Identity.document (i : Identity) : Json := .record identityKeys [i.binding.document, .string i.engine]

def readIdentity (value : Json) : Option Identity :=
  match value.fields? identityKeys with
  | some [binding, .string engine] => (readBinding binding).map (⟨·, engine⟩)
  | _ => none

theorem readIdentity_document (i : Identity) :
    readIdentity i.document.readBack = some ⟨i.binding.readBack, toValid i.engine⟩ := by
  rw [Identity.document, readIdentity, Json.fields?_record (by decide +kernel) rfl]
  simp [Json.readBack]

def typeName : RecordType → Bytes
  | .credential => bytes "credential"
  | .intent => bytes "intent"
  | .chunk => bytes "chunk"
  | .complete => bytes "complete"
  | .retired => bytes "retired"

def sourceKeys : List Bytes := ["name", "uid", "type"].map bytes

def retirementKeys : List Bytes := ["version", "binding", "source", "retentionSeconds"].map bytes

def Retirement.document (r : Retirement) : Json :=
  .record retirementKeys [.int r.version, r.binding.document,
    .record sourceKeys [.string r.source.name, .string r.source.uid, .string (typeName r.source.type)],
    .int r.retentionSeconds]

def readSourceDocument (value : Json) : Option Source := do
  match value.fields? sourceKeys with
  | some [.string name, .string uid, .string type] =>
    ([.credential, .intent, .chunk, .complete, .retired].find? (typeName · = type)).map (⟨name, uid, ·⟩)
  | _ => none

def readRetirement (value : Json) : Option Retirement :=
  match value.fields? retirementKeys with
  | some [version, binding, source, seconds] => do
    pure ⟨← version.int?, ← readBinding binding, ← readSourceDocument source, ← seconds.int?⟩
  | _ => none

def runKeys : List Bytes :=
  ["outcome", "operationID", "jobName", "planRef", "targetIdentityDigest", "recordedAt"].map bytes

def planKeys : List Bytes := ["name", "uid"].map bytes

def UnresolvedRun.document (run : UnresolvedRun) : Json :=
  .record runKeys [.string run.outcome, .string run.operationID, .string run.jobName,
    .record planKeys [.string run.planName, .string run.planUID], .string run.targetIdentityDigest,
    (run.recordedAt.map Json.int).getD .null]

def readRun (value : Json) : Option UnresolvedRun :=
  match value.fields? runKeys with
  | some [.string outcome, .string operationID, .string jobName, plan, .string targetIdentityDigest, recordedAt] =>
    match plan.fields? planKeys with
    | some [.string planName, .string planUID] =>
      some ⟨outcome, operationID, jobName, planName, planUID, targetIdentityDigest, recordedAt.int?, []⟩
    | _ => none
  | _ => none

/-- `map[string][]byte` -/
def dataDocument (data : List (Bytes × Bytes)) : Json :=
  .object (data.map fun entry => (entry.1, .string (Go.encodeBase64 false entry.2)))

/-- A value that is read into `[]byte`: a string in base64, or an array of numbers. -/
def readOctets (items : List Json) : Option Bytes :=
  items.mapM fun item => (item.int?.filter fun n => 0 ≤ n && n < 256).map fun n => n.toNat.toUInt8

def readBytes : Json → Option Bytes
  | .null => some []
  | .string text => Go.decodeBase64 false text
  | .array items => readOctets items
  | _ => none

def readData : Json → Option (List (Bytes × Bytes))
  | .null => some []
  | .object members => members.mapM fun (key, value) => (readBytes value).map (key, ·)
  | _ => none

/-- `encoding/json` on the documents of retention. A certificate is the document of its identity. -/
def jsonDocuments (sha256 : Bytes → Bytes) : Documents :=
  { jsonCodec sha256 with
    encodeRetirement := fun r => r.document.write
    decodeRetirement := fun data => (Json.parse data).bind readRetirement
    encodeIdentity := fun i => i.document.write
    decodeIdentity := fun data => (Json.parse data).bind readIdentity
    encodeRun := fun run => run.document.write
    decodeRun := fun value => (Json.parse value).bind readRun
    encodeData := fun data => (dataDocument data).write
    decodeData := fun data => (Json.parse data).bind readData
    storedClientIdentity := fun certificate _ => (Json.parse certificate).bind readIdentity }

def sampleIdentity : Identity := { binding := sampleBinding, engine := bytes "postgresql" }

end Ptah.ResultCleanup
