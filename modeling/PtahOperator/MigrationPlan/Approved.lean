import Mathlib.Algebra.Group.Int.Defs
import PtahOperator.Fingerprint.Bindings
import PtahOperator.Go.Document
import PtahOperator.Go.Runes
import PtahOperator.MigrationPlan.Sequence

/-!
# The approved sequence

An Apply Job carries the sequence of its plan beside the digest that the plan binds
(`internal/workload/migration_builder.go`). The runner takes the sequence for Ptah from what it was handed
only if that has this digest (`internal/runner/expected_sequence.go`).

`encoding/json` is a parameter (`Carrier`): the sequence is written without the escapes of HTML, and read by
a decoder that refuses unknown fields.
-/

namespace Ptah.MigrationPlan

open DataPlane Fingerprint

/-- How a sequence is written and read. -/
structure Carrier where
  /-- The texts of an environment. -/
  Encoded : Type
  empty : Encoded
  /-- The bytes of a text. -/
  size : Encoded → Nat
  encode : List SequenceEntry → Encoded
  /-- `Decode` and `More`: the first value of a text, and whether another one follows. -/
  decode : Encoded → Option (List SequenceEntry × Bool)
  encode_ne_empty : ∀ entries, encode entries ≠ empty
  /-- Versions are 64-bit numbers. -/
  decode_encode : ∀ entries : List SequenceEntry,
    (∀ entry ∈ entries, -2 ^ 63 ≤ entry.version ∧ entry.version < 2 ^ 63) →
    decode (encode entries) = some (entries, false)

def migrationSequenceEntries (planned : List PlannedMigration) : List SequenceEntry :=
  planned.map fun migration => {
    version := migration.version
    versionKey := migration.versionKey
    checksum := migration.checksum
    checkpoint := migration.checkpoint
    transactionMode := migration.transactionMode }

section

variable (carrier : Carrier)

def encodeMigrationSequence (entries : List SequenceEntry) : Except String carrier.Encoded :=
  let encoded := carrier.encode entries
  if maxEncodedMigrationSequence < carrier.size encoded then
    .error s!"the approved sequence encodes to {carrier.size encoded} bytes, over the {maxEncodedMigrationSequence} an Apply Job can carry"
  else .ok encoded

/-- `Sequence`, with the length of what a Job carries. -/
def plannedSequence (report : MigrationStatusReport) : Except String (List PlannedMigration) :=
  sequence (fun planned => carrier.size (carrier.encode (migrationSequenceEntries planned))) report

variable {Digest : Type} [DecidableEq Digest] [DecidableEq carrier.Encoded] (digest : Document → Digest)

/-- `approvedSequenceDocument`, up to the text of the document. -/
def approvedSequenceDocument (encoded : carrier.Encoded) (expectedDigest : Digest) :
    Except String (List (Int × String)) :=
  if encoded = carrier.empty then .error "the approved migration sequence is required"
  else
    match carrier.decode encoded with
    | none => .error "the approved migration sequence is not readable"
    | some (_, true) => .error "the approved migration sequence holds more than one document"
    | some (entries, false) =>
      match migrationSequenceDigest digest entries with
      | .error e => .error e
      | .ok sum =>
        if sum ≠ expectedDigest then
          .error "the approved migration sequence does not match the digest its plan bound"
        else .ok (entries.map fun entry => (entry.version, entry.versionKey))

end

variable {carrier : Carrier} {Digest : Type} [DecidableEq Digest] [DecidableEq carrier.Encoded]
  {digest : Document → Digest} {planned : List PlannedMigration}

theorem sequence_ok {encodedBytes : List PlannedMigration → Nat} {report : MigrationStatusReport}
    (h : sequence encodedBytes report = .ok planned) :
    planned ≠ [] ∧ encodedBytes planned ≤ maxEncodedMigrationSequence := by
  unfold sequence at h
  split at h
  · cases h
  split_ifs at h with hnil _ hfits
  cases h
  exact ⟨hnil, Nat.not_lt.1 hfits⟩

theorem version_mem {encodedBytes : List PlannedMigration → Nat} {report : MigrationStatusReport}
    (h : sequence encodedBytes report = .ok planned) {entry : SequenceEntry}
    (hentry : entry ∈ migrationSequenceEntries planned) :
    ∃ r ∈ report.migrations, r.version = entry.version := by
  obtain ⟨migration, hmigration, rfl⟩ := List.mem_map.1 hentry
  have hversion : migration.version ∈ report.versionsIn [.pending, .outOfOrder] := by
    rw [← sequence_versions h]
    exact List.mem_map_of_mem hmigration
  obtain ⟨r, hr, hsame⟩ := List.mem_map.1 hversion
  exact ⟨r, (List.mem_filter.1 hr).1, hsame⟩

omit [DecidableEq Digest] in
theorem migrationSequenceDigest_ok {entries : List SequenceEntry} {sum : Digest}
    (h : migrationSequenceDigest digest entries = .ok sum) :
    digest (.array (entries.map SequenceEntry.fields)) = sum := by
  unfold migrationSequenceDigest at h
  split at h
  · cases h
  · exact Except.ok.inj h

/-- What is handed on is a sequence with the digest. -/
theorem approvedSequenceDocument_ok {encoded : carrier.Encoded} {sum : Digest} {document : List (Int × String)}
    (h : approvedSequenceDocument carrier digest encoded sum = .ok document) :
    ∃ entries : List SequenceEntry, digest (.array (entries.map SequenceEntry.fields)) = sum ∧
      document = entries.map fun entry => (entry.version, entry.versionKey) := by
  unfold approvedSequenceDocument at h
  split at h
  · cases h
  split at h
  · cases h
  · cases h
  rename_i entries _
  split at h
  · cases h
  rename_i found hfound
  split_ifs at h with hsame
  cases h
  exact ⟨entries, (migrationSequenceDigest_ok hfound).trans (not_not.1 hsame), rfl⟩

/-- The sequence that was planned is carried and handed on, and no other text is taken for it. -/
theorem approved_sequence_handed (hdigest : Function.Injective digest) :
    (∀ report planned, (∀ r ∈ report.migrations, -2 ^ 63 ≤ r.version ∧ r.version < 2 ^ 63) →
      plannedSequence carrier report = .ok planned →
      ∃ encoded sum, encodeMigrationSequence carrier (migrationSequenceEntries planned) = .ok encoded ∧
        migrationSequenceDigest digest (migrationSequenceEntries planned) = .ok sum ∧
        approvedSequenceDocument carrier digest encoded sum =
          .ok (planned.map fun migration => (migration.version, migration.versionKey))) ∧
    ∀ encoded planned sum document,
      migrationSequenceDigest digest (migrationSequenceEntries planned) = .ok sum →
      approvedSequenceDocument carrier digest encoded sum = .ok document →
      document = planned.map fun migration => (migration.version, migration.versionKey) := by
  have hpairs (planned : List PlannedMigration) :
      (migrationSequenceEntries planned).map (fun entry => (entry.version, entry.versionKey)) =
        planned.map fun migration => (migration.version, migration.versionKey) := by
    simp [migrationSequenceEntries]
  refine ⟨fun report planned hversions h => ?_, fun encoded planned sum document hsum h => ?_⟩
  · obtain ⟨hne, hfits⟩ := sequence_ok h
    have hread := carrier.decode_encode (migrationSequenceEntries planned) fun entry hentry => by
      obtain ⟨r, hr, hsame⟩ := version_mem h hentry
      exact hsame ▸ hversions r hr
    have hsum : migrationSequenceDigest digest (migrationSequenceEntries planned) =
        .ok (digest (.array ((migrationSequenceEntries planned).map SequenceEntry.fields))) :=
      if_neg fun hnil => hne (List.map_eq_nil_iff.1 hnil)
    refine ⟨_, _, if_neg (Nat.not_lt.2 hfits), hsum, ?_⟩
    simp only [approvedSequenceDocument, if_neg (carrier.encode_ne_empty _), hread, hsum, ne_eq,
      not_true_eq_false, if_false, hpairs]
  · obtain ⟨entries, hentries, rfl⟩ := approvedSequenceDocument_ok h
    have hsame := hdigest (hentries.trans (migrationSequenceDigest_ok hsum).symm)
    rw [Document.array.injEq, SequenceEntry.fields_injective.list_map.eq_iff] at hsame
    rw [hsame, hpairs]

/-! ## The sequence in JSON -/

open Go (Bytes Json bytes utf8 ofUtf8)

def sequenceKeys : List Bytes := ["version", "version_key", "checksum", "checkpoint", "transaction_mode"].map bytes

def entryDocument (entry : SequenceEntry) : Json :=
  .record sequenceKeys [.int entry.version, .string (utf8 entry.versionKey), .string (utf8 entry.checksum),
    .bool entry.checkpoint, .string (utf8 entry.transactionMode)]

def readEntry (value : Json) : Option SequenceEntry :=
  match value.fields? sequenceKeys with
  | some [version, .string versionKey, .string checksum, .bool checkpoint, .string transactionMode] => do
    return {
      version := ← version.int?
      versionKey := ← ofUtf8 versionKey
      checksum := ← ofUtf8 checksum
      checkpoint
      transactionMode := ← ofUtf8 transactionMode }
  | _ => none

theorem readEntry_document (entry : SequenceEntry) : readEntry (entryDocument entry).readBack = some entry := by
  have hvalid (text : String) : Go.toValid (utf8 text) = utf8 text := (Go.toValid_eq_iff _).2 (Go.validText_utf8 text)
  rw [entryDocument, readEntry, Json.fields?_record (by decide +kernel) rfl, if_pos rfl]
  simp [Json.readBack, hvalid, Go.ofUtf8_utf8]

/-- `Decoder.More`: something follows that closes nothing. -/
def more (rest : Bytes) : Bool :=
  match rest.dropWhile fun c => c = 0x20 || c = 0x09 || c = 0x0a || c = 0x0d with
  | [] => false
  | c :: _ => c != 0x5d && c != 0x7d

/-- `encoding/json` on sequences. -/
def jsonCarrier : Carrier where
  Encoded := Bytes
  empty := []
  size := List.length
  encode entries := (Json.array (entries.map entryDocument)).encode false
  decode encoded :=
    match Json.read (encoded.length + 1) encoded with
    | some (.array items, rest) => (items.mapM readEntry).map (·, more rest)
    | _ => none
  encode_ne_empty _ := nofun
  decode_encode entries _ := by
    have hread := @Json.read_encode false _ (.array (entries.map entryDocument)) (Nat.lt_succ_self _) [] nofun
    have hentries := Json.mapM_readBack readEntry_document entries
    rw [List.append_nil] at hread
    rw [hread, Json.readBack]
    dsimp only
    rw [hentries, List.map_id']
    rfl

instance : DecidableEq jsonCarrier.Encoded := inferInstanceAs (DecidableEq Bytes)

/-- The text that a Job carries, and the pairs that Ptah is handed. -/
theorem approved_sequence_handed_sample :
    let planned : List PlannedMigration := [⟨4, "", "", "sum", false, ""⟩]
    let encoded := bytes
      "[\x7b\"version\":4,\"version_key\":\"\",\"checksum\":\"sum\",\"checkpoint\":false,\"transaction_mode\":\"\"\x7d]"
    plannedSequence jsonCarrier (sampleDocument [1, 2, 3] [4]).report = .ok planned ∧
    encodeMigrationSequence jsonCarrier (migrationSequenceEntries planned) = .ok encoded ∧
    approvedSequenceDocument jsonCarrier id encoded
      (.array ((migrationSequenceEntries planned).map SequenceEntry.fields)) = .ok [(4, "")] := by
  intro planned encoded
  have hplanned : plannedSequence jsonCarrier (sampleDocument [1, 2, 3] [4]).report = .ok planned := by decide +kernel
  have hwritten : encodeMigrationSequence jsonCarrier (migrationSequenceEntries planned) = .ok encoded := by
    decide +kernel
  obtain ⟨found, sum, hfound, hsum, h⟩ := (@approved_sequence_handed jsonCarrier _ _ _ id Function.injective_id).1
    (sampleDocument [1, 2, 3] [4]).report planned (by decide +kernel) hplanned
  cases hfound.symm.trans hwritten
  cases hsum
  exact ⟨hplanned, hwritten, h⟩

end Ptah.MigrationPlan
