import PtahOperator.Go.Base64
import PtahOperator.Go.Document
import PtahOperator.Scan.Lines

/-!
# Sealed plans

`SealPlan` and `OpenPlan` of `internal/planseal`: a plan travels behind a header that names the operation
and the Job it was computed for, in one sealed box.

The box, base64 and the decoder of `encoding/json` are parameters (`Library`). The header is written here:
no literal holds a line break, so the first one of the message ends the header.
-/

namespace Ptah.PlanSeal

open Go (Bytes bytes newline validText Json)

structure Envelope where
  operationID : Bytes
  jobName : Bytes
  deriving DecidableEq

def Envelope.Valid (envelope : Envelope) : Prop :=
  validText envelope.operationID = true ∧ validText envelope.jobName = true

def envelopeKeys : List Bytes := ["operationID", "jobName"].map bytes

/-- `json.Marshal` of an envelope. -/
def Envelope.marshal (envelope : Envelope) : Bytes :=
  (Json.record envelopeKeys [.string envelope.operationID, .string envelope.jobName]).write

structure KeyPair (Key : Type) where
  publicKey : Key
  privateKey : Key

/-- What lies outside the repository. -/
structure Library where
  Key : Type
  /-- The pairs that `box.GenerateKey` returns. -/
  Generated : KeyPair Key → Prop
  /-- What `box.SealAnonymous` draws from `rand.Reader`, which may fail. -/
  Random : Type
  sealAnonymous : Option Random → Bytes → Key → Option Bytes
  openAnonymous : Bytes → KeyPair Key → Option Bytes
  open_seal : ∀ random message keys box, Generated keys →
    sealAnonymous random message keys.publicKey = some box → openAnonymous box keys = some message
  encodeBase64 : Bytes → Bytes
  decodeBase64 : Bytes → Option Bytes
  decode_encode : ∀ data, decodeBase64 (encodeBase64 data) = some data
  /-- `json.Unmarshal` into an envelope. -/
  unmarshal : Bytes → Option Envelope
  unmarshal_marshal : ∀ envelope : Envelope, envelope.Valid → unmarshal envelope.marshal = some envelope

section Plan

variable (lib : Library)

/-- `Seal` -/
def sealBox (random : Option lib.Random) (message : Bytes) (recipient : lib.Key) : Except String Bytes :=
  match lib.sealAnonymous random message recipient with
  | none => .error "seal plan payload"
  | some box => .ok (lib.encodeBase64 box)

/-- `Open` -/
def openBox (keys : KeyPair lib.Key) (payload : Bytes) : Except String Bytes :=
  match lib.decodeBase64 payload with
  | none => .error "decode sealed plan payload"
  | some raw =>
    match lib.openAnonymous raw keys with
    | none => .error "sealed payload could not be opened with this key pair"
    | some message => .ok message

def sealPlan (random : Option lib.Random) (plan : Bytes) (envelope : Envelope) (recipient : lib.Key) :
    Except String Bytes :=
  sealBox lib random (envelope.marshal ++ newline :: plan) recipient

def openPlan (keys : KeyPair lib.Key) (payload : Bytes) (want : Envelope) : Except String Bytes := do
  let message ← openBox lib keys payload
  match Scan.cut [newline] message with
  | none => .error "sealed plan payload carries no envelope"
  | some (header, plan) =>
    match lib.unmarshal header with
    | none => .error "decode sealed plan envelope"
    | some got =>
      if got ≠ want then .error "sealed plan envelope does not match the operation being harvested"
      else .ok plan

end Plan

theorem newline_notMem_marshal (envelope : Envelope) : newline ∉ envelope.marshal := fun h =>
  absurd (Json.le_of_mem_encode _ newline h) (by decide)

/-- A sealed plan opens to the plan for its own envelope, and for no other. -/
theorem sealed_plan_opens_for_own_attempt (lib : Library) {keys : KeyPair lib.Key}
    (hkeys : lib.Generated keys) {envelope want : Envelope} (hvalid : envelope.Valid) {plan payload : Bytes}
    {random : Option lib.Random}
    (hsealed : sealPlan lib random plan envelope keys.publicKey = .ok payload) :
    (want = envelope → openPlan lib keys payload want = .ok plan) ∧
      (want ≠ envelope → ∃ e, openPlan lib keys payload want = .error e) := by
  unfold sealPlan sealBox at hsealed
  cases hbox : lib.sealAnonymous random (envelope.marshal ++ newline :: plan) keys.publicKey with
  | none =>
    rw [hbox] at hsealed
    cases hsealed
  | some box =>
    rw [hbox] at hsealed
    cases hsealed
    have hopen : openBox lib keys (lib.encodeBase64 box) = .ok (envelope.marshal ++ newline :: plan) := by
      simp only [openBox, lib.decode_encode, lib.open_seal random _ keys box hkeys hbox]
    have hplan : openPlan lib keys (lib.encodeBase64 box) want =
        if envelope ≠ want then .error "sealed plan envelope does not match the operation being harvested"
        else .ok plan := by
      simp only [openPlan, hopen, bind, Except.bind, Scan.cut_sep (newline_notMem_marshal envelope),
        lib.unmarshal_marshal envelope hvalid]
    rw [hplan]
    constructor
    · rintro rfl
      exact if_neg (fun h => h rfl)
    · intro hne
      exact ⟨_, if_pos hne.symm⟩

/-! ## An example -/

/-- `json.Unmarshal` of what is written. -/
def readEnvelope (header : Bytes) : Option Envelope :=
  match (Json.parse header).bind (Json.fields? envelopeKeys) with
  | some [.string operationID, .string jobName] => some ⟨operationID, jobName⟩
  | _ => none

theorem readEnvelope_marshal (envelope : Envelope) (h : envelope.Valid) :
    readEnvelope envelope.marshal = some envelope := by
  rw [readEnvelope, Envelope.marshal, Json.parse_write, Option.bind_some,
    Json.fields?_record (by decide +kernel) rfl]
  simp [Json.readBack, (Go.toValid_eq_iff _).2 h.1, (Go.toValid_eq_iff _).2 h.2]

/-- A box that is the message behind the key. -/
def sampleLibrary : Library where
  Key := UInt8
  Generated keys := keys.privateKey = keys.publicKey
  Random := Unit
  sealAnonymous random message key := random.map fun _ => key :: message
  openAnonymous box keys := if box.head? = some keys.privateKey then some box.tail else none
  open_seal random message keys box hkeys h := by
    obtain ⟨_, _, rfl⟩ := Option.map_eq_some_iff.1 h
    exact if_pos (congrArg some hkeys.symm)
  encodeBase64 := Go.encodeBase64 false
  decodeBase64 := Go.decodeBase64 false
  decode_encode := Go.decodeBase64_encodeBase64 false
  unmarshal := readEnvelope
  unmarshal_marshal := readEnvelope_marshal

def sampleKeys : KeyPair UInt8 := ⟨7, 7⟩

/-- A name that needs escapes, and a plan of several lines. -/
theorem sealed_plan_opens_example :
    ∃ payload, sealPlan sampleLibrary (some ()) (bytes "x\n\ny") ⟨bytes "a\"\n", bytes "job"⟩
        sampleKeys.publicKey = .ok payload ∧
      openPlan sampleLibrary sampleKeys payload ⟨bytes "a\"\n", bytes "job"⟩ = .ok (bytes "x\n\ny") :=
  ⟨_, rfl, (@sealed_plan_opens_for_own_attempt sampleLibrary sampleKeys rfl ⟨bytes "a\"\n", bytes "job"⟩ _
    ⟨by decide, by decide⟩ (bytes "x\n\ny") _ (some ()) rfl).1 rfl⟩

end Ptah.PlanSeal
