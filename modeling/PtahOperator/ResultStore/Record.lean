import PtahOperator.Go.Strings
import PtahOperator.PlanStore.Contract

/-!
# Records of a runner result

A result is stored in records of one kind: an intent, which holds the manifest of the publication and a
small payload, chunks, and the completion that commits them (`internal/resultstore`).

* `Binding`, `attemptName`: the authority of a result, and the name that its attempt reserves.
* `Manifest`, `Codec`: the documents of an intent and of a completion.
* `admissionManifest`, `recordShape`: what a stored record is held to.
* `validateRecordUpdate`: an update keeps the bytes of a record.
-/

namespace Ptah.ResultStore

open Go (Bytes bytes toValid validText toValid_eq_iff)
open PlanStore (OwnerReference digestBytes sha256Pattern executionBindingIDPattern pad3)

/-! ## Bindings -/

/-- `validation.IsDNS1123Label` -/
def isDNS1123Label (text : Bytes) : Bool := Go.label UInt8.toNat [0x2d] text && text.length ≤ 63

/-- `validation.IsDNS1123Subdomain` -/
def isDNS1123Subdomain (text : Bytes) : Bool :=
  (text.splitOn 0x2e).all (Go.label UInt8.toNat [0x2d]) && text.length ≤ 253

structure Binding where
  ns : Bytes
  kind : Bytes
  name : Bytes
  uid : Bytes
  generation : Int
  executionBindingID : Bytes
  inputFingerprint : Bytes
  operation : Bytes
  operationID : Bytes
  jobName : Bytes
  jobUID : Bytes
  podName : Bytes
  podUID : Bytes
  deriving DecidableEq

inductive StoreError where
  /-- `ErrIncomplete` -/
  | incomplete
  /-- `ErrConflict` -/
  | conflict
  /-- `ErrInvalid` -/
  | invalid
  /-- An error of the API or of an authority check. -/
  | other
  deriving DecidableEq

/-- An identifier that a binding may hold. -/
def identifier (value : Bytes) : Bool :=
  value ≠ [] && value.length ≤ 256 && !value.any fun c => [0x20, 0x09, 0x0d, 0x0a, 0x00].contains c

def operations (kind : Bytes) : List Bytes :=
  if kind = bytes "PtahSchema" then
    [bytes "resolve", bytes "verify", bytes "observe", bytes "plan", bytes "apply"]
  else if kind = bytes "PtahMigration" then
    [bytes "resolve", bytes "verify", bytes "migration-history", bytes "migration-apply"]
  else []

/-- `Binding.validate` -/
def Binding.validate (b : Binding) : Except StoreError Unit :=
  if !isDNS1123Label b.ns || !isDNS1123Subdomain b.name || !isDNS1123Subdomain b.jobName ||
      !isDNS1123Subdomain b.podName || b.generation < 1 ||
      !executionBindingIDPattern b.executionBindingID || !sha256Pattern b.inputFingerprint then
    .error .invalid
  else if !([b.uid, b.jobUID, b.podUID, b.operationID].all identifier) then .error .invalid
  else if !(operations b.kind).contains b.operation then .error .invalid
  else .ok ()

/-! ## Records -/

/-- The types of `PtahResultRecordSpec`. -/
inductive RecordType where
  | credential
  | intent
  | chunk
  | complete
  | retired
  deriving DecidableEq

/-- The labels of a record: its role and its attempt. -/
structure Labels where
  role : Option RecordType
  attempt : Option Bytes
  others : List (Bytes × Bytes) := []
  deriving DecidableEq

/-- `PtahResultRecord`. Times are in nanoseconds, and a zero time is none. -/
structure Record where
  ns : Bytes
  name : Bytes
  uid : Bytes := []
  generateName : Bytes := []
  annotations : List (Bytes × Bytes) := []
  finalizers : List Bytes := []
  creationTimestamp : Option Int := none
  deletionTimestamp : Option Int := none
  labels : Labels
  ownerReferences : List OwnerReference
  type : RecordType
  data : Bytes
  deriving DecidableEq

abbrev Key := Bytes × Bytes

def Record.key (r : Record) : Key := (r.ns, r.name)

def Record.deleting (r : Record) : Bool := r.deletionTimestamp.isSome

def apiVersion : Bytes := bytes "operator.ptah.run/v1alpha1"

def owner (version kind name uid : Bytes) : OwnerReference where
  apiVersion := version
  kind
  name
  uid
  controller := some true
  blockOwnerDeletion := none

def chunkBytes : Nat := PlanStore.chunkBytes

def maxPayloadBytes : Nat := PlanStore.maxPlanBytes * 6 + 64 * 2 ^ 10

def inlinePayloadBytes : Nat := chunkBytes / 2

def maxChunks : Nat := (maxPayloadBytes + chunkBytes - 1) / chunkBytes

/-! ## Documents -/

structure ChunkReference where
  digest : Bytes
  size : Int
  deriving DecidableEq

/-- `manifest`. A missing list is `none`. -/
structure Manifest where
  version : Int
  binding : Binding
  digest : Bytes
  size : Int
  chunks : Option (List ChunkReference)
  inlined : Option Bytes
  deriving DecidableEq

structure Completion where
  manifestUID : Bytes
  manifestDigest : Bytes
  chunkUIDs : List Bytes
  deriving DecidableEq

/-- `encoding/json` on the documents, SHA-256, and the label of an attempt. -/
structure Codec where
  encodeManifest : Manifest → Bytes
  decodeManifest : Bytes → Option Manifest
  encodeCompletion : Completion → Bytes
  decodeCompletion : Bytes → Option Completion
  sha256 : Bytes → Bytes
  /-- `AttemptLabel` -/
  attemptLabel : Bytes → Bytes

def Binding.texts (b : Binding) : List Bytes :=
  [b.ns, b.kind, b.name, b.uid, b.executionBindingID, b.inputFingerprint, b.operation, b.operationID, b.jobName,
    b.jobUID, b.podName, b.podUID]

/-- What `encoding/json` reads from a binding that it wrote: each byte outside a character is written as the
replacement character. -/
def Binding.readBack (b : Binding) : Binding where
  ns := toValid b.ns
  kind := toValid b.kind
  name := toValid b.name
  uid := toValid b.uid
  generation := b.generation
  executionBindingID := toValid b.executionBindingID
  inputFingerprint := toValid b.inputFingerprint
  operation := toValid b.operation
  operationID := toValid b.operationID
  jobName := toValid b.jobName
  jobUID := toValid b.jobUID
  podName := toValid b.podName
  podUID := toValid b.podUID

theorem Binding.readBack_of_valid {b : Binding} (h : ∀ text ∈ b.texts, validText text = true) :
    b.readBack = b := by
  simp only [texts, List.forall_mem_cons, ← toValid_eq_iff] at h
  simp [readBack, h]

def Manifest.readBack (m : Manifest) : Manifest :=
  { m with
    binding := m.binding.readBack
    digest := toValid m.digest
    chunks := m.chunks.map fun chunks => chunks.map fun chunk => { chunk with digest := toValid chunk.digest } }

/-- The manifest that is read from a text is what is read back from the one that the text was written from. An
empty payload is left out, like none. -/
def Codec.Faithful (codec : Codec) : Prop :=
  ∀ m m', m.inlined ≠ some [] → codec.decodeManifest (codec.encodeManifest m) = some m' → m' = m.readBack

section Checks

variable (codec : Codec)

def Codec.digest (data : Bytes) : Bytes := digestBytes codec.sha256 data

def encodeTexts (texts : List Bytes) : Bytes :=
  0x5b :: ([0x2c].intercalate (texts.map (Go.quote true)) ++ [0x5d])

def attemptName (ns uid operationID jobName : Bytes) : Except StoreError Bytes :=
  if !isDNS1123Label ns || !isDNS1123Subdomain jobName then .error .invalid
  else if !([uid, operationID].all identifier) then .error .invalid
  else .ok (bytes "ptah-result-" ++ (codec.digest (encodeTexts [ns, uid, operationID, jobName])).drop 7)

/-- `Name` -/
def resultName (b : Binding) : Except StoreError Bytes :=
  match b.validate with
  | .error e => .error e
  | .ok () => attemptName codec b.ns b.uid b.operationID b.jobName

def record (ns name : Bytes) (role : RecordType) (ref : OwnerReference) (data : Bytes) : Record where
  ns
  name
  labels := {
    role := some role
    attempt := some (codec.attemptLabel (if ref.kind = bytes "PtahResultRecord" then ref.name else name)) }
  ownerReferences := [ref]
  type := role
  data

def intentRecord (b : Binding) (name data : Bytes) : Record :=
  record codec b.ns name .intent (owner apiVersion b.kind b.name b.uid) data

def childOwner (name uid : Bytes) : OwnerReference := owner apiVersion (bytes "PtahResultRecord") name uid

def chunkName (name : Bytes) (index : Nat) : Bytes := name ++ 0x2d :: pad3 index

def completionName (name : Bytes) : Bytes := name ++ bytes "-complete"

def recordShape (got want : Record) : Bool :=
  let labels :=
    if got.uid ≠ [] && got.labels.attempt.getD [] = [] then { want.labels with attempt := none }
    else want.labels
  got.ns = want.ns && got.name = want.name && got.generateName = [] && got.annotations = [] &&
    got.finalizers = [] && got.labels = labels && got.ownerReferences = want.ownerReferences &&
    got.type = want.type

/-- `canonicalRecord` of a manifest. -/
def Codec.canonicalManifest (data : Bytes) : Option Manifest :=
  (codec.decodeManifest data).filter fun m => codec.encodeManifest m = data

/-- `canonicalRecord` of a completion. -/
def Codec.canonicalCompletion (data : Bytes) : Option Completion :=
  (codec.decodeCompletion data).filter fun c => codec.encodeCompletion c = data

def chunkSize (size : Int) (index : Nat) : Int := min (size - index * chunkBytes) chunkBytes

/-- The chunks of a manifest, from an index on, have their sizes. -/
def chunkReferencesValid (size : Int) : (index : Nat) → List ChunkReference → Bool
  | _, [] => true
  | index, ref :: refs =>
    ref.size = chunkSize size index && sha256Pattern ref.digest && chunkReferencesValid size (index + 1) refs

def Manifest.references (m : Manifest) : List ChunkReference := m.chunks.getD []

def admissionManifest (intent : Record) : Except StoreError (Manifest × Bytes) :=
  if intent.data = [] || chunkBytes < intent.data.length || intent.deleting then .error .invalid
  else
    match codec.canonicalManifest intent.data with
    | none => .error .invalid
    | some m =>
      if m.version ≠ 1 || m.size ≤ 0 || maxPayloadBytes < m.size || !sha256Pattern m.digest then
        .error .invalid
      else
        match resultName codec m.binding with
        | .error _ => .error .invalid
        | .ok name =>
          if !recordShape intent (intentRecord codec m.binding name []) then .error .invalid
          else
            match m.inlined with
            | some payload =>
              if m.chunks ≠ none || payload = [] || inlinePayloadBytes < payload.length ||
                  (payload.length : Int) ≠ m.size || codec.digest payload ≠ m.digest then
                .error .invalid
              else .ok (m, name)
            | none =>
              if (m.references.length : Int) ≠ (m.size + chunkBytes - 1) / chunkBytes ||
                  maxChunks < m.references.length || !chunkReferencesValid m.size 0 m.references then
                .error .invalid
              else .ok (m, name)

/-- The finalizer of a foreground deletion. -/
def finalizerDeleteDependents : Bytes := bytes "foregroundDeletion"

/-- The finalizers an update has to keep: the end of a foreground deletion may drop its own. -/
def keptFinalizers (old next : Record) : List Bytes :=
  if old.deleting && next.deleting && old.finalizers = [finalizerDeleteDependents] && next.finalizers = [] then
    next.finalizers
  else old.finalizers

def validateRecordUpdate (old next : Record) : Except StoreError Unit :=
  if old.uid = [] ∨ old.uid ≠ next.uid then .error .invalid
  else if { old with finalizers := keptFinalizers old next, deletionTimestamp := none } ≠
      { next with deletionTimestamp := none } then .error .conflict
  else .ok ()

theorem validateRecordUpdate_ok {old next : Record} (h : validateRecordUpdate old next = .ok ()) :
    next.key = old.key ∧ next.type = old.type ∧ next.data = old.data := by
  unfold validateRecordUpdate at h
  split at h
  · cases h
  split at h
  · cases h
  rename_i hsame
  rw [not_not] at hsame
  injection hsame with hns hname huid hgenerate hannotations hfinalizers hcreated hdeleted hlabels howners
    htype hdata
  exact ⟨by rw [Record.key, Record.key, hns, hname], htype.symm, hdata.symm⟩

theorem recordShape_iff {got want : Record} (h : recordShape got want = true) :
    got.key = want.key ∧ got.type = want.type := by
  simp only [recordShape, Bool.and_eq_true, decide_eq_true_eq] at h
  obtain ⟨⟨⟨⟨⟨⟨⟨hns, hname⟩, -⟩, -⟩, -⟩, -⟩, -⟩, htype⟩ := h
  exact ⟨by rw [Record.key, Record.key, hns, hname], htype⟩

variable {codec}

theorem canonicalManifest_eq {data : Bytes} {m : Manifest} (h : codec.canonicalManifest data = some m) :
    codec.decodeManifest data = some m ∧ codec.encodeManifest m = data := by
  obtain ⟨hdecode, hencode⟩ := Option.filter_eq_some_iff.1 h
  exact ⟨hdecode, by simpa using hencode⟩

theorem canonicalManifest_encode (hcodec : codec.Faithful) {m m' : Manifest} (hm : m.inlined ≠ some [])
    (h : codec.canonicalManifest (codec.encodeManifest m) = some m') : m' = m.readBack :=
  hcodec m m' hm (canonicalManifest_eq h).1

theorem toValid_digest (data : Bytes) : toValid (codec.digest data) = codec.digest data := by
  refine (toValid_eq_iff _).2 (Go.validText_ascii fun c hc => ?_)
  rcases List.mem_append.1 hc with hc | hc
  · have hall : ∀ c ∈ bytes "sha256:", c < 0x80 := by decide
    exact hall c hc
  · have hvisible := Go.visible_of_mem_hexEncode hc
    simp only [Go.visible, Bool.and_eq_true, decide_eq_true_eq] at hvisible
    exact hvisible.2

/-- What an accepted intent says. -/
structure Admitted (codec : Codec) (intent : Record) (m : Manifest) (name : Bytes) : Prop where
  present : intent.deleting = false
  canonical : codec.canonicalManifest intent.data = some m
  named : resultName codec m.binding = .ok name
  shape : recordShape intent (intentRecord codec m.binding name []) = true
  inlined : ∀ payload, m.inlined = some payload → (payload.length : Int) = m.size ∧
    codec.digest payload = m.digest ∧ m.references = []
  chunked : m.inlined = none → m.references.length ≤ maxChunks

theorem Admitted.type {intent : Record} {m : Manifest} {name : Bytes} (h : Admitted codec intent m name) :
    intent.type = .intent := (recordShape_iff h.shape).2

theorem admissionManifest_ok {intent : Record} {m : Manifest} {name : Bytes}
    (h : admissionManifest codec intent = .ok (m, name)) : Admitted codec intent m name := by
  unfold admissionManifest at h
  split at h
  · cases h
  rename_i hdata
  have hpresent : intent.deleting = false := by
    simp only [Bool.or_eq_true, not_or] at hdata
    simpa using hdata.2
  split at h
  · cases h
  rename_i m' hm
  split at h
  · cases h
  split at h
  · cases h
  rename_i name' hname
  split at h
  · cases h
  rename_i hshape
  have hshape : recordShape intent (intentRecord codec m'.binding name' []) = true := by simpa using hshape
  split at h
  · rename_i payload hinline
    split at h
    · cases h
    rename_i hvalid
    cases h
    simp only [Bool.or_eq_true, not_or, decide_eq_true_eq, not_not] at hvalid
    refine ⟨hpresent, hm, hname, hshape, fun payload' hpayload => ?_, fun hnone => ?_⟩
    · cases hinline.symm.trans hpayload
      exact ⟨hvalid.1.2, hvalid.2, by rw [Manifest.references, hvalid.1.1.1.1]; rfl⟩
    · rw [hinline] at hnone
      cases hnone
  · rename_i hinline
    split at h
    · cases h
    rename_i hvalid
    cases h
    simp only [Bool.or_eq_true, not_or, decide_eq_true_eq] at hvalid
    refine ⟨hpresent, hm, hname, hshape, fun payload' hpayload => ?_, fun _ => Nat.le_of_not_lt hvalid.1.2⟩
    rw [hinline] at hpayload
    cases hpayload

end Checks

end Ptah.ResultStore
