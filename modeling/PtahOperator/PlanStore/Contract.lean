import Mathlib.Data.List.DropRight
import PtahOperator.Go.Json

/-!
# Plans and their chunks

An executable plan is published as a manifest, which names the digest of the whole document, and as
chunks of its bytes (`internal/planstore`). An Apply reads the chunks from a volume of files
(`internal/runner/plan.go`).

* `prepare`: the manifest and the chunks of a document.
* `verifyChunk`, `verifyProjection`: what a stored object is held to.
* `volumeSources`, `reconstructPlan`: the volume, and the document that the runner reads from it.
* `split_flatten`: the chunks of a document are its bytes.
* `reconstructPlan_mounted`: a volume of the chunks reads as the document.
-/

namespace Ptah.PlanStore

open Go (Bytes bytes)

/-! ## Sizes and names -/

/-- `plancontract.MaxExecutableBytes` -/
def maxPlanBytes : Nat := 8 * 2 ^ 20

/-- `plancontract.ChunkBytes` -/
def chunkBytes : Nat := 512 * 2 ^ 10

/-- `plancontract.MaxChunks` -/
def maxChunks : Nat := (maxPlanBytes + chunkBytes - 1) / chunkBytes

/-- The verb `%03d`. -/
def pad3 (n : Nat) : Bytes := List.replicate (3 - (Go.decimal n).length) 0x30 ++ Go.decimal n

/-- The conversion to `int32`. -/
def int32 (n : Nat) : Int := (n : Int).bmod (2 ^ 32)

/-- The loop of `split`; `fuel` bounds the chunks. -/
def splitFrom (size : Nat) : (fuel : Nat) → Bytes → List Bytes
  | 0, _ => []
  | fuel + 1, content =>
    if content = [] then [] else content.take size :: splitFrom size fuel (content.drop size)

def split (content : Bytes) (size : Nat) : List Bytes := splitFrom size content.length content

/-! ## Objects -/

/-- `PlanChunkReference` -/
structure ChunkReference where
  name : Bytes
  index : Int
  digest : Bytes
  size : Int
  deriving DecidableEq

/-- `PtahSchemaPlanSpec`. -/
structure PlanSpec where
  contractVersion : Int
  schemaName : Bytes
  schemaUID : Bytes
  fingerprint : Bytes
  contentDigest : Bytes := []
  size : Int := 0
  executionBindingID : Bytes
  controllerStateVersion : Int
  controllerImage : Bytes
  controllerRevision : Bytes
  runnerImage : Bytes
  /-- The fields that the store only compares. -/
  others : List Bytes := []
  chunks : List ChunkReference := []
  deriving DecidableEq

structure OwnerReference where
  apiVersion : Bytes
  kind : Bytes
  name : Bytes
  uid : Bytes
  controller : Option Bool
  blockOwnerDeletion : Option Bool
  deriving DecidableEq

/-- `PublishedPlanChunkStatus` -/
structure PublishedChunk where
  name : Bytes
  uid : Bytes
  index : Int
  deriving DecidableEq

/-- `PtahSchemaPlanStatus`; `ready` is the condition `PlanStorageReady`. -/
structure PlanStatus where
  observedGeneration : Int := 0
  publishedChunks : List PublishedChunk := []
  ready : Bool := false
  deriving DecidableEq

/-- `PtahSchemaPlan` -/
structure Plan where
  name : Bytes
  uid : Bytes := []
  resourceVersion : Nat := 0
  generation : Int := 0
  deleting : Bool := false
  ownerReferences : List OwnerReference
  spec : PlanSpec
  status : PlanStatus := {}
  deriving DecidableEq

/-- The metadata that the store gives a chunk and its projection. -/
structure ChunkMetadata where
  name : Bytes
  planLabel : Bytes
  schemaLabel : Bytes
  ownerReferences : List OwnerReference
  deriving DecidableEq

/-- `PtahSchemaPlanChunk` -/
structure Chunk where
  metadata : ChunkMetadata
  uid : Bytes := []
  data : Bytes
  deriving DecidableEq

structure ConfigMap where
  metadata : ChunkMetadata
  immutable : Option Bool
  binaryData : List (Bytes × Bytes)
  data : List (Bytes × Bytes) := []
  deriving DecidableEq

/-- The parts of a PtahSchema that own a plan. -/
structure Schema where
  name : Bytes
  uid : Bytes
  deriving DecidableEq

/-! ## Checks -/

def lowerHex (c : UInt8) : Bool := Go.isDigit c || 0x61 ≤ c && c ≤ 0x66

/-- A text of so many lower-case hexadecimal digits behind an opening. -/
def hexBehind (opening : Bytes) (digits : Nat) (text : Bytes) : Bool :=
  opening.isPrefixOf text && (text.drop opening.length).length == digits &&
    (text.drop opening.length).all lowerHex

def sha256Pattern (text : Bytes) : Bool := hexBehind (bytes "sha256:") 64 text

def executionBindingIDPattern (text : Bytes) : Bool := hexBehind (bytes "v1-") 32 text

def imageDigestPattern (text : Bytes) : Bool :=
  let image := text.takeWhile (· ≠ 0x40)
  image ≠ [] && image.all (fun c => !(0x09 ≤ c && c ≤ 0x0d || c == 0x20)) &&
    sha256Pattern (text.drop (image.length + 1)) && (text.drop image.length).head? == some 0x40

/-- White space at the front of a text. -/
def startsSpace (text : Bytes) : Bool := 0 < Go.spaceWidth text

/-- `strings.TrimSpace` -/
def trimSpace (text : Bytes) : Bytes :=
  (((Go.runes text).dropWhile fun r => startsSpace r.text).rdropWhile
    fun r => startsSpace r.text).flatMap (·.text)

/-- `unicode.IsControl` -/
def control (rune : Go.Rune) : Bool :=
  match rune.text with
  | [c] => c < 0x20 || c == 0x7f
  | [c, d] => c == 0xc2 && d ≤ 0x9f
  | _ => false

/-- `controllerstate.ValidateRevision` -/
def validateRevision (revision : Bytes) : Except String Unit :=
  if revision = [] then .error "controller revision is required"
  else if 128 < revision.length then .error "controller revision must be at most 128 bytes"
  else if !Go.validText revision then .error "controller revision must be valid UTF-8"
  else if trimSpace revision ≠ revision then .error "controller revision must not have edge whitespace"
  else if (Go.runes revision).any control then
    .error "controller revision must not contain control characters"
  else .ok ()

def validatePlanContract (spec : PlanSpec) : Except String Unit :=
  if spec.contractVersion ≠ 1 ∧ spec.contractVersion ≠ 2 then
    .error ("unsupported plan contract version " ++ toString spec.contractVersion ++
      "; the supported versions are 1 and 2")
  else if !executionBindingIDPattern spec.executionBindingID then
    .error "plan requires a valid execution binding ID"
  else if !imageDigestPattern spec.controllerImage then
    .error "plan requires a digest-pinned controller image"
  else
    match validateRevision spec.controllerRevision with
    | .error reason => .error ("plan has an invalid controller revision: " ++ reason)
    | .ok () =>
      if spec.controllerStateVersion < 1 then
        .error "plan requires a positive controller state version"
      else .ok ()

section Digests

variable (sha256 : Bytes → Bytes)

/-- `fingerprint.DigestBytes` -/
def digestBytes (data : Bytes) : Bytes := bytes "sha256:" ++ Go.hexEncode (sha256 data)

/-! ## Manifests -/

/-- `Name` of a valid fingerprint. -/
def planName (fingerprint : Bytes) : Bytes := bytes "ptah-plan-" ++ (fingerprint.drop 7).take 24

def chunkReferences (name : Bytes) : (index : Nat) → List Bytes → List ChunkReference
  | _, [] => []
  | index, chunk :: chunks => {
      name := name ++ 0x2d :: pad3 index
      index := int32 index
      digest := digestBytes sha256 chunk
      size := int32 chunk.length } :: chunkReferences name (index + 1) chunks

def prepare (schema : Schema) (spec : PlanSpec) (content : Bytes) : Except String (Plan × List Bytes) :=
  if schema.uid = [] then .error "schema with a UID is required"
  else if content = [] then .error "plan content is empty"
  else if maxPlanBytes < content.length then
    .error ("plan is " ++ toString content.length ++ " bytes; maximum is " ++ toString maxPlanBytes)
  else
    let contentDigest := digestBytes sha256 content
    if spec.contentDigest ≠ [] ∧ spec.contentDigest ≠ contentDigest then
      .error "declared plan content digest does not match the content"
    else if !sha256Pattern spec.fingerprint then
      .error "plan fingerprint must be a lowercase SHA-256 digest"
    else
      match validatePlanContract spec with
      | .error reason => .error reason
      | .ok () =>
        if spec.schemaName ≠ schema.name ∨ spec.schemaUID ≠ schema.uid then
          .error "plan schema reference does not match the owner"
        else
          let name := planName spec.fingerprint
          let chunks := split content chunkBytes
          if maxChunks < chunks.length then
            .error ("plan requires " ++ toString chunks.length ++ " chunks; maximum is " ++
              toString maxChunks)
          else
            .ok ({
              name
              ownerReferences := [{
                apiVersion := bytes "operator.ptah.run/v1alpha1"
                kind := bytes "PtahSchema"
                name := schema.name
                uid := schema.uid
                controller := some true
                blockOwnerDeletion := some true }]
              spec := { spec with
                contentDigest
                size := content.length
                chunks := chunkReferences sha256 name 0 chunks } }, chunks)

def sameManifest (desired actual : Plan) : Except String Unit :=
  if actual.deleting then .error "deterministic plan name is being deleted"
  else
    let published := { actual.spec with
      controllerImage := desired.spec.controllerImage
      controllerRevision := desired.spec.controllerRevision
      runnerImage := desired.spec.runnerImage }
    if desired.spec ≠ published ∨ desired.ownerReferences ≠ actual.ownerReferences then
      .error "deterministic plan name collides with different immutable content"
    else .ok ()

/-! ## Chunks -/

def blockingPlanOwnerReference (plan : Plan) : OwnerReference where
  apiVersion := bytes "operator.ptah.run/v1alpha1"
  kind := bytes "PtahSchemaPlan"
  name := plan.name
  uid := plan.uid
  controller := some true
  blockOwnerDeletion := some true

def chunkMetadata (plan : Plan) (ref : ChunkReference) : ChunkMetadata where
  name := ref.name
  planLabel := plan.name
  schemaLabel := plan.spec.schemaName
  ownerReferences := [blockingPlanOwnerReference plan]

def desiredChunk (plan : Plan) (ref : ChunkReference) (content : Bytes) : Chunk where
  metadata := chunkMetadata plan ref
  data := content

def projectionDataKey : Bytes := bytes "chunk"

def desiredProjection (plan : Plan) (ref : ChunkReference) (content : Bytes) : ConfigMap where
  metadata := chunkMetadata plan ref
  immutable := some true
  binaryData := [(projectionDataKey, content)]

def verifyChunkMetadata (plan : Plan) (ref : ChunkReference) (object : ChunkMetadata) :
    Except String Unit :=
  let chunk := "plan chunk " ++ toString ref.index
  if object.name ≠ ref.name then
    .error (chunk ++ " is not named " ++ String.ofList (ref.name.map fun c => Char.ofNat c.toNat))
  else if object.planLabel ≠ plan.name ∨ object.schemaLabel ≠ plan.spec.schemaName then
    .error (chunk ++ " labels do not match the manifest")
  else if object.ownerReferences ≠ [blockingPlanOwnerReference plan] then
    .error (chunk ++ " does not have the exact blocking plan owner reference")
  else .ok ()

def verifyChunk (plan : Plan) (ref : ChunkReference) (expected : Bytes) (chunk : Chunk) :
    Except String Unit :=
  match verifyChunkMetadata plan ref chunk.metadata with
  | .error reason => .error reason
  | .ok () =>
    if int32 chunk.data.length ≠ ref.size ∨ ref.digest ≠ digestBytes sha256 chunk.data ∨
        chunk.data ≠ expected then
      .error ("plan chunk " ++ toString ref.index ++ " does not match the manifest")
    else .ok ()

def verifyProjection (plan : Plan) (ref : ChunkReference) (configMap : ConfigMap) : Except String Unit :=
  if configMap.immutable ≠ some true then
    .error ("plan projection " ++ toString ref.index ++ " is not immutable")
  else
    match verifyChunkMetadata plan ref configMap.metadata with
    | .error reason => .error reason
    | .ok () =>
      let mismatch := "plan projection " ++ toString ref.index ++ " does not match the manifest"
      match configMap.binaryData.lookup projectionDataKey with
      | none => .error mismatch
      | some actual =>
        if configMap.binaryData.length ≠ 1 ∨ configMap.data.length ≠ 0 ∨
            int32 actual.length ≠ ref.size ∨ ref.digest ≠ digestBytes sha256 actual then
          .error mismatch
        else .ok ()

/-! ## The volume of an Apply -/

/-- One `VolumeProjection`: a key of a ConfigMap, and the file it is read from. -/
structure VolumeSource where
  name : Bytes
  key : Bytes
  path : Bytes
  deriving DecidableEq

def chunkPath (index : Nat) : Bytes := pad3 index ++ bytes ".plan"

/-- The loop of `VolumeSources`. -/
def volumeSourcesFrom : (index : Nat) → List ChunkReference → Except String (List VolumeSource)
  | _, [] => .ok []
  | index, ref :: refs =>
    if ref.index ≠ int32 index ∨ ref.name = [] then
      .error ("plan chunk " ++ toString index ++ " has an invalid projection")
    else
      match volumeSourcesFrom (index + 1) refs with
      | .error reason => .error reason
      | .ok sources =>
        .ok ({ name := ref.name, key := projectionDataKey, path := chunkPath index } :: sources)

def volumeSources (plan : Plan) : Except String (List VolumeSource) :=
  if plan.spec.chunks = [] ∨ maxChunks < plan.spec.chunks.length then
    .error "plan has an invalid chunk manifest"
  else
    match validatePlanContract plan.spec with
    | .error reason => .error reason
    | .ok () => volumeSourcesFrom 0 plan.spec.chunks

/-- What goes wrong with a chunk, in the order in which the runner meets it. -/
inductive ChunkFault where
  | resolve
  | outside
  | open
  | irregular
  | read
  | close
  deriving DecidableEq

/-- An entry of the plan directory, with the bytes of its file. -/
structure Entry where
  name : Bytes
  fault : Option ChunkFault := none
  data : Bytes
  deriving DecidableEq

/-- What the runner finds at the path of the plan. -/
inductive PlanDir where
  /-- The path is empty. -/
  | unnamed
  | unresolved
  | unreadable
  | directory (entries : List Entry)

/-- The verb `%q` on a name of printable ASCII. -/
def quoted (name : Bytes) : String := "\"" ++ String.ofList (name.map fun c => Char.ofNat c.toNat) ++ "\""

/-- An entry that the runner skips. -/
def Entry.hidden (entry : Entry) : Bool := entry.name.head? == some 0x2e

/-- Why a chunk is not read, with `remaining` bytes up to the bound. Its size is looked at before it is read. -/
def Entry.refusal (entry : Entry) (maxBytes remaining : Int) : Option String :=
  let exceeds :=
    if remaining < entry.data.length then some s!"reconstructed plan exceeds {maxBytes} bytes" else none
  match entry.fault with
  | some .resolve => some ("resolve plan chunk " ++ quoted entry.name)
  | some .outside => some ("plan chunk " ++ quoted entry.name ++ " resolves outside the plan directory")
  | some .open => some ("open plan chunk " ++ quoted entry.name)
  | some .irregular => some ("plan chunk " ++ quoted entry.name ++ " is not a regular file")
  | some .read => exceeds.or (some ("read plan chunk " ++ quoted entry.name))
  | some .close => exceeds.or (some ("close plan chunk " ++ quoted entry.name))
  | none => exceeds

/-- The loop of `reconstructPlan`: the bytes and the chunks so far. -/
def readChunks (maxBytes : Int) : (plan : Bytes) → (chunkCount : Nat) → List Entry →
    Except String (Bytes × Nat)
  | plan, chunkCount, [] => .ok (plan, chunkCount)
  | plan, chunkCount, entry :: entries =>
    if entry.hidden then readChunks maxBytes plan chunkCount entries
    else
      match entry.refusal maxBytes (maxBytes - plan.length) with
      | some reason => .error reason
      | none => readChunks maxBytes (plan ++ entry.data) (chunkCount + 1) entries

def sortEntries (directory : List Entry) : List Entry :=
  directory.insertionSort fun a b => a.name ≤ b.name

def lowerByte (c : UInt8) : UInt8 := if 0x41 ≤ c && c ≤ 0x5a then c + 0x20 else c

def parseSHA256Digest (value : Bytes) : Except String Bytes :=
  let value := trimSpace value
  let value := if (value.take 7).map lowerByte = bytes "sha256:" then value.drop 7 else value
  match Go.hexDecode value with
  | none => .error "must be a SHA-256 digest"
  | some decoded => if decoded.length ≠ 32 then .error "must be a SHA-256 digest" else .ok decoded

/-- The bound of `reconstructPlan`. -/
def planBound (maxBytes : Int) : Int :=
  let maxBytes := if maxBytes ≤ 0 then (maxPlanBytes : Int) else maxBytes
  if 2 ^ 63 - 1 ≤ maxBytes then 2 ^ 63 - 2 else maxBytes

/-- `reconstructPlan` on a directory that is read. -/
def reconstructFrom (expected : Bytes) (maxBytes : Int) (entries : List Entry) :
    Except String (Bytes × Bytes) :=
  match readChunks (planBound maxBytes) [] 0 (sortEntries entries) with
  | .error reason => .error reason
  | .ok (content, chunkCount) =>
    if chunkCount = 0 then .error "plan directory contains no chunks"
    else if !Go.validText content then .error "reconstructed plan is not valid UTF-8"
    else if expected ≠ sha256 content then
      .error "reconstructed plan content digest does not match the expected digest"
    else .ok (content, digestBytes sha256 content)

/-- `reconstructPlan`: the document and its digest. -/
def reconstructPlan (planDir : PlanDir) (expectedDigest : Bytes) (maxBytes : Int) :
    Except String (Bytes × Bytes) :=
  match planDir, parseSHA256Digest expectedDigest with
  | .unnamed, _ => .error "plan directory is empty"
  | _, .error reason => .error ("expected plan content digest: " ++ reason)
  | .unresolved, .ok _ => .error "resolve plan directory"
  | .unreadable, .ok _ => .error "read plan directory"
  | .directory entries, .ok expected => reconstructFrom sha256 expected maxBytes entries

end Digests

/-! ## The chunks of a document -/

variable {content data : Bytes} {index : Nat} {chunks : List Bytes} {maxBytes : Int}

theorem splitFrom_flatten {size : Nat} (hsize : 0 < size) {fuel : Nat}
    (hfuel : content.length ≤ fuel) : (splitFrom size fuel content).flatten = content := by
  induction fuel generalizing content with
  | zero => rw [List.length_eq_zero_iff.1 (Nat.le_zero.1 hfuel)]; rfl
  | succ fuel ih =>
    rw [splitFrom]
    split
    · rename_i hnil
      rw [hnil]
      rfl
    · rename_i hne
      rw [List.flatten_cons, ih (by rw [List.length_drop]; omega), List.take_append_drop]

theorem split_flatten (content : Bytes) : (split content chunkBytes).flatten = content :=
  splitFrom_flatten (by decide) (Nat.le_refl _)

theorem split_ne_nil (h : content ≠ []) : split content chunkBytes ≠ [] := by
  intro hnil
  have hflat := split_flatten content
  rw [hnil] at hflat
  exact h hflat.symm

/-! ## Digests of a document -/

theorem visible_of_mem_digestBytes {sha256 : Bytes → Bytes} {c : UInt8}
    (h : c ∈ digestBytes sha256 data) : Go.visible c = true := by
  rcases List.mem_append.1 h with h | h
  · have hall : ∀ c ∈ bytes "sha256:", Go.visible c = true := by decide
    exact hall c h
  · exact Go.visible_of_mem_hexEncode h

theorem trimSpace_visible {text : Bytes} (h : ∀ c ∈ text, Go.visible c = true) : trimSpace text = text := by
  have hrune : ∀ r ∈ Go.runes text, startsSpace r.text = false := by
    intro r hr
    have hsub : ∀ c ∈ r.text, c ∈ text := fun c hc => by
      rw [← Go.runes_flatMap text]
      exact List.mem_flatMap.2 ⟨r, hr, hc⟩
    cases htext : r.text with
    | nil => rfl
    | cons c rest =>
      cases hwidth : Go.spaceWidth (c :: rest) with
      | zero => rw [startsSpace, hwidth]; rfl
      | succ width =>
        have hvisible := h c (hsub c (htext ▸ List.mem_cons_self))
        rw [(Go.not_visible_of_spaceWidth hwidth).1] at hvisible
        cases hvisible
  have hfront : (Go.runes text).dropWhile (fun r => startsSpace r.text) = Go.runes text := by
    rw [List.dropWhile_eq_self_iff]
    intro hlen
    simpa using hrune _ (List.getElem_mem hlen)
  have hback : (Go.runes text).rdropWhile (fun r => startsSpace r.text) = Go.runes text := by
    rw [List.rdropWhile_eq_self_iff]
    intro hne
    simpa using hrune _ (List.getLast_mem hne)
  rw [trimSpace, hfront, hback, Go.runes_flatMap]

theorem parseSHA256Digest_digestBytes {sha256 : Bytes → Bytes}
    (hlength : (sha256 data).length = 32) :
    parseSHA256Digest (digestBytes sha256 data) = .ok (sha256 data) := by
  have hopening : ((digestBytes sha256 data).take 7).map lowerByte = bytes "sha256:" := by
    rw [digestBytes, List.take_append_of_le_length (by decide)]
    decide
  have hrest : (digestBytes sha256 data).drop 7 = Go.hexEncode (sha256 data) := by
    rfl
  unfold parseSHA256Digest
  dsimp only
  rw [trimSpace_visible fun c hc => visible_of_mem_digestBytes hc, if_pos hopening, hrest,
    Go.hexDecode_hexEncode]
  simp [hlength]

/-- The digest of a document tells it from every other one. -/
def CollisionFree (sha256 : Bytes → Bytes) (data : Bytes) : Prop :=
  ∀ other, sha256 other = sha256 data → other = data

theorem CollisionFree.eq_of_digestBytes {sha256 : Bytes → Bytes} {other : Bytes}
    (h : CollisionFree sha256 data) (heq : digestBytes sha256 other = digestBytes sha256 data) :
    other = data := by
  have hhex := congrArg Go.hexDecode (List.append_cancel_left heq)
  rw [Go.hexDecode_hexEncode, Go.hexDecode_hexEncode] at hhex
  exact h other (Option.some.inj hhex)

/-! ## A volume of chunks -/

def chunkFiles : (index : Nat) → List Bytes → List Entry
  | _, [] => []
  | index, chunk :: chunks => { name := chunkPath index, data := chunk } :: chunkFiles (index + 1) chunks

theorem maxChunks_eq : maxChunks = 16 := by decide

theorem chunkPath_lt {i j : Nat} (hij : i < j) (hj : j < maxChunks) : chunkPath i < chunkPath j := by
  rw [maxChunks_eq] at hj
  have hall : ∀ i j : Fin 16, i < j → chunkPath i < chunkPath j := by decide +kernel
  exact hall ⟨i, by omega⟩ ⟨j, hj⟩ hij

theorem chunkPath_visible {i : Nat} (h : i < maxChunks) : (chunkPath i).head? ≠ some 0x2e := by
  have hall : ∀ i : Fin 16, (chunkPath i).head? ≠ some 0x2e := by decide +kernel
  exact hall ⟨i, h⟩

theorem mem_chunkFiles {entry : Entry} (h : entry ∈ chunkFiles index chunks) :
    ∃ i, index ≤ i ∧ i < index + chunks.length ∧ entry.name = chunkPath i := by
  induction chunks generalizing index with
  | nil => cases h
  | cons chunk chunks ih =>
    rw [List.length_cons]
    rcases h with _ | ⟨_, h⟩
    · exact ⟨index, Nat.le_refl _, by omega, rfl⟩
    · obtain ⟨i, hle, hlt, hname⟩ := ih h
      exact ⟨i, by omega, by omega, hname⟩

theorem chunkFiles_sorted (h : index + chunks.length ≤ maxChunks) :
    (chunkFiles index chunks).Pairwise fun a b => a.name < b.name := by
  induction chunks generalizing index with
  | nil => exact .nil
  | cons chunk chunks ih =>
    rw [List.length_cons] at h
    refine .cons (fun entry hentry => ?_) (ih (by omega))
    obtain ⟨i, hle, hlt, hname⟩ := mem_chunkFiles hentry
    rw [hname]
    exact chunkPath_lt (by omega) (by omega)

/-- A directory that holds files, whatever else it hides. -/
def Holds (directory files : List Entry) : Prop := (directory.filter fun e => !e.hidden).Perm files

/-- The visible files of a directory are read in the order of the chunks. -/
theorem sortEntries_filter {directory : List Entry}
    (hcount : chunks.length ≤ maxChunks) (h : Holds directory (chunkFiles 0 chunks)) :
    (sortEntries directory).filter (fun e => !e.hidden) = chunkFiles 0 chunks := by
  have hsorted := chunkFiles_sorted (by simpa using hcount : 0 + chunks.length ≤ maxChunks)
  have hperm : ((sortEntries directory).filter fun e => !e.hidden).Perm (chunkFiles 0 chunks) :=
    ((List.perm_insertionSort _ directory).filter _).trans h
  refine List.Perm.eq_of_pairwise ?_ ((List.pairwise_insertionSort _ directory).filter _)
    (hsorted.imp List.le_of_lt) hperm
  intro a b ha hb hab hba
  have hname : a.name = b.name := List.le_antisymm hab hba
  have hnodup : ((chunkFiles 0 chunks).map (·.name)).Nodup := by
    refine List.pairwise_map.2 (hsorted.imp ?_)
    intro a b hlt heq
    rw [heq] at hlt
    exact List.lt_irrefl _ hlt
  exact List.inj_on_of_nodup_map hnodup (hperm.mem_iff.1 ha) hb hname

theorem readChunks_filter {entries : List Entry} {plan : Bytes} {count : Nat} :
    readChunks maxBytes plan count (entries.filter fun e => !e.hidden) =
      readChunks maxBytes plan count entries := by
  induction entries generalizing plan count with
  | nil => rfl
  | cons entry entries ih =>
    cases hhidden : entry.hidden with
    | true => simp [hhidden, readChunks, ih]
    | false => simp [hhidden, readChunks, ih]

theorem readChunks_files {plan : Bytes} {count : Nat} (hcount : index + chunks.length ≤ maxChunks)
    (hbound : (plan.length + chunks.flatten.length : Int) ≤ maxBytes) :
    readChunks maxBytes plan count (chunkFiles index chunks) =
      .ok (plan ++ chunks.flatten, count + chunks.length) := by
  induction chunks generalizing index plan count with
  | nil => simp [chunkFiles, readChunks]
  | cons chunk chunks ih =>
    rw [List.length_cons] at hcount
    rw [List.flatten_cons, List.length_append] at hbound
    have hvisible : Entry.hidden { name := chunkPath index, data := chunk } = false := by
      simpa [Entry.hidden] using chunkPath_visible (by omega)
    rw [chunkFiles, readChunks, hvisible]
    have hfits : ¬(maxBytes - plan.length < chunk.length) := by omega
    simp only [Entry.refusal, Bool.false_eq_true, if_false, hfits]
    rw [ih (by omega) (by rw [List.length_append]; omega)]
    simp
    omega

theorem reconstructPlan_mounted {sha256 : Bytes → Bytes} {directory : List Entry}
    (hlength : (sha256 content).length = 32) (hne : content ≠ [])
    (hmax : content.length ≤ maxPlanBytes) (hcount : (split content chunkBytes).length ≤ maxChunks)
    (hdirectory : Holds directory (chunkFiles 0 (split content chunkBytes)))
    (hbound : maxBytes ≤ 0 ∨ content.length ≤ maxBytes) (hvalid : Go.validText content = true) :
    reconstructPlan sha256 (.directory directory) (digestBytes sha256 content) maxBytes =
      .ok (content, digestBytes sha256 content) := by
  have hfits : ((([] : Bytes).length : Int) + (split content chunkBytes).flatten.length) ≤ planBound maxBytes := by
    have hsmall : maxPlanBytes = 8388608 := by decide
    rw [split_flatten, planBound]
    simp only [List.length_nil]
    split <;> split <;> omega
  have hread := @readChunks_files 0 _ _ _ 0 (by simpa using hcount) hfits
  rw [← sortEntries_filter hcount hdirectory, readChunks_filter, split_flatten] at hread
  simp [reconstructPlan, parseSHA256Digest_digestBytes hlength, reconstructFrom, hread, split_ne_nil hne, hvalid]

end Ptah.PlanStore
