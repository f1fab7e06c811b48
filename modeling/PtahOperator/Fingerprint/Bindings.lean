import PtahOperator.Go.Strings
import PtahOperator.Scan.Order

/-!
# Fingerprints of plans

`internal/fingerprint` and the binding of `internal/migrationplan`: a fingerprint is the digest of a JSON
document that is made of a binding.

`encoding/json` and SHA-256 are one parameter, `digest`, which is injective where documents that differ are
written differently and have different sums. Texts are sequences of characters, so they are valid UTF-8.

* `normalizeSet_eq_iff`: what is left of the privilege changes.
* `fingerprints_bind`: what two bindings with one fingerprint agree in.
-/

namespace Ptah.Fingerprint

/-! ## Documents -/

/-- The values of a document. -/
inductive Value where
  | text (text : String)
  | number (number : Int)
  | flag (flag : Bool)
  | texts (texts : List String)
  | record (fields : List (String × String))
  deriving DecidableEq

/-- An object with its fields in the order in which they are written. -/
abbrev Object := List (String × Value)

/-- What `DigestCanonicalJSON` is called with. -/
inductive Document where
  | object (fields : Object)
  | array (items : List Object)
  deriving DecidableEq

/-- `strings.TrimSpace` -/
def trimSpace (text : String) : String := String.ofList (Go.trimSpace text.toList)

/-- The loop of `NormalizeSet`. -/
def collect : (normalized : List String) → List String → List String
  | normalized, [] => normalized
  | normalized, value :: values =>
    if trimSpace value = "" ∨ trimSpace value ∈ normalized then collect normalized values
    else collect (normalized ++ [trimSpace value]) values

def normalizeSet (values : List String) : List String := Scan.sortOn String.toList (collect [] values)

/-! ## Sources -/

structure PlanSource where
  kind : String
  revision : String
  contentDigest : String
  policyUID : String := ""
  policyDigest : String := ""
  deriving DecidableEq

/-- A field that is left out when it is empty. -/
def omitEmpty (name value : String) : List (String × String) := if value = "" then [] else [(name, value)]

def PlanSource.fields (source : PlanSource) : List (String × String) :=
  [("kind", source.kind), ("revision", source.revision), ("content_digest", source.contentDigest)] ++
    omitEmpty "policy_uid" source.policyUID ++ omitEmpty "policy_digest" source.policyDigest

def planContractVersionFor (source : Option PlanSource) : Int := if source.isSome then 2 else 1

def validatePlanContractVersion (version : Int) : Except String Unit :=
  if version ≠ 1 ∧ version ≠ 2 then
    .error s!"unsupported plan contract version {version}; the supported versions are 1 and 2"
  else .ok ()

/-- A loop over fields that must not be blank. -/
def required (fields : List (String × String)) : Except String Unit :=
  match fields.find? fun field => trimSpace field.2 = "" with
  | some (name, _) => .error (name ++ " is required")
  | none => .ok ()

def sha256Prefixed (digest : String) : Bool := "sha256:".toList.isPrefixOf digest.toList

def validatePlanSource (version : Int) (artifactDigest policyUID policyDigest : String)
    (source : Option PlanSource) : Except String Unit := do
  if version = 1 then
    required [("artifact digest", artifactDigest), ("verification policy UID", policyUID),
      ("verification policy digest", policyDigest)]
    if source.isSome then .error "a contract version 1 plan binds no source"
  else if version = 2 then
    match source with
    | none => .error "a contract version 2 plan binds a complete source"
    | some source =>
      if source.kind = "" ∨ source.revision = "" ∨ !sha256Prefixed source.contentDigest then
        .error "a contract version 2 plan binds a complete source"
      else if (source.policyUID = "") ≠ (source.policyDigest = "") ∨
          source.policyDigest ≠ "" ∧ !sha256Prefixed source.policyDigest then
        .error "a contract version 2 plan binds a source policy by its UID and digest or not at all"
      else if artifactDigest ≠ "" ∨ policyUID ≠ "" ∨ policyDigest ≠ "" then
        .error "a contract version 2 plan binds no artifact digest and no verification policy"

def executionBindingIDPattern (id : String) : Bool :=
  "v1-".toList.isPrefixOf id.toList && id.toList.length = 35 &&
    (id.toList.drop 3).all fun c => c.isDigit || 'a' ≤ c && c ≤ 'f'

def validExecutionBindingID (id : String) : Except String Unit :=
  if !executionBindingIDPattern id then .error "a valid execution binding ID is required" else .ok ()

def positive (name : String) (value : Int) : Except String Unit :=
  if value < 1 then .error (name ++ " must be positive") else .ok ()

/-- `ValidatePlanSource` -/
def validateSource (version : Int) (artifactDigest policyUID policyDigest : String)
    (source : Option PlanSource) : Except String Unit := do
  validatePlanContractVersion version
  validatePlanSource version artifactDigest policyUID policyDigest source

/-! ## Plans of schemas -/

structure PlanBinding where
  contractVersion : Int
  schemaUID : String
  planContentDigest : String
  artifactDigest : String
  source : Option PlanSource
  coordinationDigest : String
  targetIdentityDigest : String
  actualStateFingerprint : String
  desiredStateFingerprint : String
  policyFingerprint : String
  verificationPolicyUID : String
  verificationPolicyDigest : String
  executionBindingID : String
  controllerStateVersion : Int
  ptahVersion : String
  executorImage : String
  runnerProtocolVersion : Int
  destructive : Bool
  privilegeChanges : List String
  statementCount : Int
  deriving DecidableEq

/-- The document of a binding whose privilege changes are normalized. -/
def PlanBinding.fields (b : PlanBinding) : Object :=
  [("contract_version", .number b.contractVersion), ("schema_uid", .text b.schemaUID),
    ("plan_content_digest", .text b.planContentDigest), ("artifact_digest", .text b.artifactDigest)] ++
  (b.source.map fun source => ("source", Value.record source.fields)).toList ++
  [("coordination_digest", .text b.coordinationDigest),
    ("target_identity_digest", .text b.targetIdentityDigest),
    ("actual_state_fingerprint", .text b.actualStateFingerprint),
    ("desired_state_fingerprint", .text b.desiredStateFingerprint),
    ("policy_fingerprint", .text b.policyFingerprint),
    ("verification_policy_uid", .text b.verificationPolicyUID),
    ("verification_policy_digest", .text b.verificationPolicyDigest),
    ("execution_binding_id", .text b.executionBindingID),
    ("controller_state_version", .number b.controllerStateVersion),
    ("ptah_version", .text b.ptahVersion), ("executor_image", .text b.executorImage),
    ("runner_protocol_version", .number b.runnerProtocolVersion),
    ("destructive", .flag b.destructive), ("privilege_changes", .texts b.privilegeChanges),
    ("statement_count", .number b.statementCount)]

section Fingerprint

variable {Digest : Type} (digest : Document → Digest)

/-- `PlanBinding.Fingerprint` -/
def PlanBinding.fingerprint (b : PlanBinding) : Except String Digest := do
  validatePlanContractVersion b.contractVersion
  required [("schema UID", b.schemaUID), ("plan content digest", b.planContentDigest),
    ("coordination digest", b.coordinationDigest), ("target identity digest", b.targetIdentityDigest),
    ("actual state fingerprint", b.actualStateFingerprint),
    ("desired state fingerprint", b.desiredStateFingerprint), ("policy fingerprint", b.policyFingerprint),
    ("Ptah version", b.ptahVersion), ("executor image", b.executorImage)]
  validatePlanSource b.contractVersion b.artifactDigest b.verificationPolicyUID b.verificationPolicyDigest
    b.source
  validExecutionBindingID b.executionBindingID
  positive "controller state version" b.controllerStateVersion
  positive "runner protocol version" b.runnerProtocolVersion
  positive "statement count" b.statementCount
  .ok (digest (.object { b with privilegeChanges := normalizeSet b.privilegeChanges }.fields))

/-! ## Plans of migrations -/

/-- `Binding` -/
structure MigrationBinding where
  migrationUID : String
  historyFingerprint : String
  sequenceDigest : String
  artifactDigest : String
  source : Option PlanSource
  coordinationDigest : String
  targetIdentityDigest : String
  policyFingerprint : String
  verificationPolicyUID : String
  verificationPolicyDigest : String
  executionBindingID : String
  controllerStateVersion : Int
  ptahVersion : String
  executorImage : String
  runnerProtocolVersion : Int
  deriving DecidableEq

/-- The document of a binding. A map is written in the order of its keys. -/
def MigrationBinding.fields (b : MigrationBinding) : Object :=
  (if b.source.isNone then [("artifact_digest", .text b.artifactDigest)] else []) ++
  [("contract_version", .number (planContractVersionFor b.source)),
    ("controller_state_version", .number b.controllerStateVersion),
    ("coordination_digest", .text b.coordinationDigest),
    ("execution_binding_id", .text b.executionBindingID), ("executor_image", .text b.executorImage),
    ("history_fingerprint", .text b.historyFingerprint), ("migration_uid", .text b.migrationUID),
    ("policy_fingerprint", .text b.policyFingerprint), ("ptah_version", .text b.ptahVersion),
    ("runner_protocol_version", .number b.runnerProtocolVersion),
    ("sequence_digest", .text b.sequenceDigest)] ++
  (b.source.map fun source => ("source", Value.record source.fields)).toList ++
  [("target_identity_digest", .text b.targetIdentityDigest)] ++
  (if b.source.isNone then [("verification_policy_digest", .text b.verificationPolicyDigest),
    ("verification_policy_uid", .text b.verificationPolicyUID)] else [])

/-- `Binding.Fingerprint` -/
def MigrationBinding.fingerprint (b : MigrationBinding) : Except String Digest := do
  required [("migration UID", b.migrationUID), ("history fingerprint", b.historyFingerprint),
    ("sequence digest", b.sequenceDigest), ("coordination digest", b.coordinationDigest),
    ("target identity digest", b.targetIdentityDigest), ("policy fingerprint", b.policyFingerprint),
    ("Ptah version", b.ptahVersion), ("executor image", b.executorImage)]
  validateSource (planContractVersionFor b.source) b.artifactDigest b.verificationPolicyUID
    b.verificationPolicyDigest b.source
  validExecutionBindingID b.executionBindingID
  positive "controller state version" b.controllerStateVersion
  positive "runner protocol version" b.runnerProtocolVersion
  .ok (digest (.object b.fields))

structure SequenceEntry where
  version : Int
  versionKey : String
  checksum : String
  checkpoint : Bool
  transactionMode : String
  deriving DecidableEq

def SequenceEntry.fields (entry : SequenceEntry) : Object :=
  [("checkpoint", .flag entry.checkpoint), ("checksum", .text entry.checksum),
    ("transaction_mode", .text entry.transactionMode), ("version", .number entry.version),
    ("version_key", .text entry.versionKey)]

def migrationSequenceDigest (entries : List SequenceEntry) : Except String Digest :=
  if entries = [] then .error "a plan carries at least one migration"
  else .ok (digest (.array (entries.map SequenceEntry.fields)))

end Fingerprint

/-! ## What a document says -/

theorem mem_collect {normalized values : List String} {text : String} :
    text ∈ collect normalized values ↔
      text ∈ normalized ∨ text ≠ "" ∧ ∃ value ∈ values, trimSpace value = text := by
  induction values generalizing normalized with
  | nil => simp [collect]
  | cons value values ih =>
    rw [collect, List.exists_mem_cons_iff]
    split
    · rename_i hskip
      rw [ih]
      constructor
      · rintro (h | ⟨hne, h⟩)
        · exact .inl h
        · exact .inr ⟨hne, .inr h⟩
      · rintro (h | ⟨hne, rfl | h⟩)
        · exact .inl h
        · exact .inl (hskip.resolve_left hne)
        · exact .inr ⟨hne, h⟩
    · rename_i hnew
      rw [ih, List.mem_append, List.mem_singleton]
      constructor
      · rintro ((h | rfl) | ⟨hne, h⟩)
        · exact .inl h
        · exact .inr ⟨fun h => hnew (.inl h), .inl rfl⟩
        · exact .inr ⟨hne, .inr h⟩
      · rintro (h | ⟨hne, rfl | h⟩)
        · exact .inl (.inl h)
        · exact .inl (.inr rfl)
        · exact .inr ⟨hne, h⟩

theorem nodup_collect {normalized values : List String} (h : normalized.Nodup) :
    (collect normalized values).Nodup := by
  induction values generalizing normalized with
  | nil => exact h
  | cons value values ih =>
    rw [collect]
    split
    · exact ih h
    rename_i hnew
    refine ih (List.nodup_append'.2 ⟨h, List.nodup_singleton _, ?_⟩)
    exact List.disjoint_singleton.2 fun hmem => hnew (.inr hmem)

/-- What is left of a set: its entries without their edges, unless they are blank. -/
theorem normalizeSet_eq_iff {values others : List String} : normalizeSet values = normalizeSet others ↔
    ∀ text, text ≠ "" → ((∃ value ∈ values, trimSpace value = text) ↔ ∃ value ∈ others, trimSpace value = text) := by
  have hmem l text : text ∈ normalizeSet l ↔ text ≠ "" ∧ ∃ value ∈ l, trimSpace value = text := by
    rw [normalizeSet, Scan.perm_sortOn.mem_iff, mem_collect]
    simp
  constructor
  · intro h text hne
    have hsame := (hmem values text).symm.trans (h ▸ hmem others text)
    simpa [hne] using hsame
  intro h
  refine Scan.sortOn_eq_of_perm ((List.perm_ext_iff_of_nodup (nodup_collect List.nodup_nil)
    (nodup_collect List.nodup_nil)).2 fun text => ?_)
    ((nodup_collect List.nodup_nil).map fun _ _ => String.toList_injective)
  rw [mem_collect, mem_collect]
  simp only [List.not_mem_nil, false_or]
  exact and_congr_right (h text)

theorem PlanSource.fields_injective : Function.Injective PlanSource.fields := by
  rintro ⟨_, _, _, uid, digest⟩ ⟨_, _, _, uid', digest'⟩ h
  simp only [PlanSource.fields, omitEmpty] at h
  split_ifs at h <;> simp_all

theorem PlanBinding.fields_injective : Function.Injective PlanBinding.fields := by
  intro a b h
  cases a with
  | mk _ _ _ _ source =>
    cases b with
    | mk _ _ _ _ source' =>
      cases source <;> cases source' <;> simp [PlanBinding.fields] at h
      · simp_all
      · simp_all [PlanSource.fields_injective.eq_iff]

/-- A version 1 document has the fields that a version 2 binding leaves empty. -/
theorem MigrationBinding.fields_injective {a b : MigrationBinding}
    (ha : a.source ≠ none → a.artifactDigest = "" ∧ a.verificationPolicyUID = "" ∧ a.verificationPolicyDigest = "")
    (hb : b.source ≠ none → b.artifactDigest = "" ∧ b.verificationPolicyUID = "" ∧ b.verificationPolicyDigest = "")
    (h : a.fields = b.fields) : a = b := by
  cases a with
  | mk _ _ _ _ source =>
    cases b with
    | mk _ _ _ _ source' =>
      cases source <;> cases source' <;> simp [MigrationBinding.fields] at h
      · simp_all
      · simp_all [PlanSource.fields_injective.eq_iff]

theorem SequenceEntry.fields_injective : Function.Injective SequenceEntry.fields := by
  rintro ⟨⟩ ⟨⟩ h
  simp_all [SequenceEntry.fields]

/-! ## What a fingerprint binds -/

theorem bind_eq_ok {α β : Type} {x : Except String α} {k : α → Except String β} {b : β} :
    (x >>= k) = .ok b ↔ ∃ a, x = .ok a ∧ k a = .ok b := by
  cases x <;> simp [bind, Except.bind]

variable {Digest : Type} {digest : Document → Digest} {f : Digest}

theorem PlanBinding.fingerprint_ok {b : PlanBinding} (h : b.fingerprint digest = .ok f) :
    digest (.object { b with privilegeChanges := normalizeSet b.privilegeChanges }.fields) = f := by
  simp only [PlanBinding.fingerprint, bind_eq_ok] at h
  obtain ⟨-, -, -, -, -, -, -, -, -, -, -, -, -, -, h⟩ := h
  exact Except.ok.inj h

/-- A version 2 binding that has a fingerprint leaves the fields of a version 1 binding empty. -/
theorem MigrationBinding.fingerprint_ok {b : MigrationBinding} (h : b.fingerprint digest = .ok f) :
    digest (.object b.fields) = f ∧ (b.source ≠ none → b.artifactDigest = "" ∧
      b.verificationPolicyUID = "" ∧ b.verificationPolicyDigest = "") := by
  simp only [MigrationBinding.fingerprint, validateSource, bind_eq_ok] at h
  obtain ⟨-, -, _, ⟨_, -, hsource⟩, -, -, -, -, -, -, h⟩ := h
  refine ⟨Except.ok.inj h, fun hsome => ?_⟩
  obtain ⟨source, hb⟩ := Option.ne_none_iff_exists'.1 hsome
  simp only [hb, planContractVersionFor, validatePlanSource, Option.isSome_some, Int.reduceEq, reduceIte] at hsource
  split_ifs at hsource with _ _ hnone
  simpa only [not_or, not_not] using hnone

/-- Two bindings that differ in their privilege changes at most, and there in the edges, the order, the
repetition and the blank ones of the entries. -/
def PlanBinding.Same (a b : PlanBinding) : Prop :=
  { a with privilegeChanges := [] } = { b with privilegeChanges := [] } ∧
    ∀ change, change ≠ "" → ((∃ c ∈ a.privilegeChanges, trimSpace c = change) ↔
      ∃ c ∈ b.privilegeChanges, trimSpace c = change)

theorem PlanBinding.same_iff {a b : PlanBinding} :
    ({ a with privilegeChanges := normalizeSet a.privilegeChanges } : PlanBinding) =
      { b with privilegeChanges := normalizeSet b.privilegeChanges } ↔ a.Same b := by
  simp only [PlanBinding.Same, ← normalizeSet_eq_iff, PlanBinding.mk.injEq]
  tauto

/-- Bindings and sequences with one fingerprint agree. -/
theorem fingerprints_bind (hdigest : Function.Injective digest) :
    (∀ (a b : PlanBinding) f g, a.fingerprint digest = .ok f → b.fingerprint digest = .ok g →
      (f = g ↔ a.Same b)) ∧
    (∀ (a b : MigrationBinding) f g, a.fingerprint digest = .ok f → b.fingerprint digest = .ok g →
      (f = g ↔ a = b)) ∧
    ∀ entries others, entries ≠ [] → others ≠ [] →
      (migrationSequenceDigest digest entries = migrationSequenceDigest digest others ↔ entries = others) := by
  refine ⟨fun a b f g hf hg => ?_, fun a b f g hf hg => ?_, fun entries others he ho => ?_⟩
  · rw [← PlanBinding.fingerprint_ok hf, ← PlanBinding.fingerprint_ok hg, hdigest.eq_iff,
      Document.object.injEq, PlanBinding.fields_injective.eq_iff, PlanBinding.same_iff]
  · obtain ⟨rfl, ha⟩ := MigrationBinding.fingerprint_ok hf
    obtain ⟨rfl, hb⟩ := MigrationBinding.fingerprint_ok hg
    rw [hdigest.eq_iff, Document.object.injEq]
    exact ⟨MigrationBinding.fields_injective ha hb, congrArg _⟩
  · rw [migrationSequenceDigest, migrationSequenceDigest, if_neg he, if_neg ho, Except.ok.injEq,
      hdigest.eq_iff, Document.array.injEq, SequenceEntry.fields_injective.list_map.eq_iff]

def sampleBinding : PlanBinding where
  contractVersion := 2
  schemaUID := "uid"
  planContentDigest := "sha256:plan"
  artifactDigest := ""
  source := some { kind := "ConfigMap", revision := "1", contentDigest := "sha256:content" }
  coordinationDigest := "sha256:realm"
  targetIdentityDigest := "sha256:target"
  actualStateFingerprint := "actual"
  desiredStateFingerprint := "desired"
  policyFingerprint := "policy"
  verificationPolicyUID := ""
  verificationPolicyDigest := ""
  executionBindingID := "v1-0123456789abcdef0123456789abcdef"
  controllerStateVersion := 1
  ptahVersion := "1"
  executorImage := "image"
  runnerProtocolVersion := 1
  destructive := false
  privilegeChanges := []
  statementCount := 1

/-- Another order, and blanks at the edges. -/
theorem fingerprints_bind_sample :
    ({ sampleBinding with privilegeChanges := ["grant", "role"] } : PlanBinding).Same
      { sampleBinding with privilegeChanges := [" role", "grant", "role "] } :=
  ((@fingerprints_bind _ id Function.injective_id).1 _ _ _ _ rfl rfl).1 (by decide +kernel)

/-- A blank entry is trimmed to nothing and dropped, so it is not bound. -/
theorem blank_change_unbound :
    sampleBinding.fingerprint id = PlanBinding.fingerprint id { sampleBinding with privilegeChanges := [""] } ∧
    (sampleBinding.fingerprint id).isOk = true ∧
    ¬ ∀ change, (change ∈ sampleBinding.privilegeChanges.map trimSpace ↔ change ∈ [""].map trimSpace) := by
  refine ⟨by decide +kernel, by decide +kernel, fun h => ?_⟩
  exact absurd ((h "").2 (by decide +kernel)) (by decide)

end Ptah.Fingerprint
