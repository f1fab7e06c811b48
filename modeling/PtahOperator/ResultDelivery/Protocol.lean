import PtahOperator.DataPlane.Plan
import PtahOperator.ResultCleanup.Runs
import PtahOperator.Runner.Summary

/-!
# Delivery of results

`internal/resultdelivery/protocol.go`: the URI of a client certificate is an identity in base64, and a result
is delivered as its JSON document. Both are read by a decoder that takes several spellings, and held to the
one that is written.

The decoders of `encoding/json`, base64 and `net/url` are parameters (`Library`, `Uri`). The document of an
identity is written here (`marshalIdentity`).
-/

namespace Ptah.ResultDelivery

open Go (Bytes bytes validText Unicode)
open ResultCleanup (Documents Identity)
open Runner (Result Operation)

/-! ## The document of an identity -/

/-- `json.Marshal` of an identity. -/
def marshalIdentity (i : Identity) : Bytes := i.document.write

/-- The texts are valid UTF-8, and the generation is a number of 64 bits. -/
def Plain (i : Identity) : Prop :=
  (∀ text ∈ i.engine :: i.binding.texts, validText text = true) ∧ i.binding.generation < 2 ^ 63

instance (i : Identity) : Decidable (Plain i) := inferInstanceAs (Decidable (_ ∧ _))

/-! ## The protocol -/

/-- What lies outside the repository. -/
structure Library where
  docs : Documents
  /-- `base64.RawURLEncoding` -/
  encodeBase64 : Bytes → Bytes
  decodeBase64 : Bytes → Option Bytes
  decode_encode : ∀ data, decodeBase64 (encodeBase64 data) = some data
  /-- `json.Unmarshal`, which replaces what is not UTF-8. -/
  unmarshalIdentity : Bytes → Option Identity
  unmarshal_marshal : ∀ i, Plain i → 0 < i.binding.generation → unmarshalIdentity (marshalIdentity i) = some i
  unmarshal_plain : ∀ data i, unmarshalIdentity data = some i → Plain i
  marshalResult : Result → Option Bytes
  unmarshalResult : Bytes → Option Result
  /-- The decoder of plans, and the grammar of references. -/
  decodeJSON : Bytes → Except String DataPlane.PlanFile
  validatePinned : Bytes → Bytes → Bool

section

variable (lib : Library)

/-- What `String` prints of the URI for some data. -/
def uriText (data : Bytes) : Bytes := bytes "ptah-result://operator.ptah.run/v1/" ++ lib.encodeBase64 data

/-- A URL as `url.Parse` returns it, with the parts that are read. -/
structure Uri where
  scheme : Bytes
  user : Option Bytes
  host : Bytes
  path : Bytes
  rawQuery : Bytes
  fragment : Bytes
  /-- `String` -/
  text : Bytes
  /-- No byte of this text is printed for another one, so the parts are the ones it shows. -/
  parts : ∀ data, text = uriText lib data → scheme = bytes "ptah-result" ∧ user = none ∧
    host = bytes "operator.ptah.run" ∧ path = bytes "/v1/" ++ lib.encodeBase64 data ∧ rawQuery = [] ∧ fragment = []

def certificateURI (i : Identity) : Option (Uri lib) :=
  if !i.valid lib.docs then none
  else some {
    scheme := bytes "ptah-result"
    user := none
    host := bytes "operator.ptah.run"
    path := bytes "/v1/" ++ lib.encodeBase64 (marshalIdentity i)
    rawQuery := []
    fragment := []
    text := uriText lib (marshalIdentity i)
    parts := fun _ h => ⟨rfl, rfl, rfl, congrArg _ (List.append_cancel_left h), rfl, rfl⟩ }

variable {lib}

def certificateIdentity (uri : Uri lib) : Option Identity :=
  if 8192 < uri.text.length ∨ uri.scheme ≠ bytes "ptah-result" ∨ uri.host ≠ bytes "operator.ptah.run" ∨
      uri.user ≠ none ∨ uri.rawQuery ≠ [] ∨ uri.fragment ≠ [] ∨ !(bytes "/v1/").isPrefixOf uri.path then none
  else do
    let raw ← lib.decodeBase64 (uri.path.drop 4)
    let identity ← lib.unmarshalIdentity raw
    let canonical ← certificateURI lib identity
    if canonical.text ≠ uri.text then none else some identity

variable (lib) [Unicode]

def validateResultFor (result : Result) (operation : Operation) (operationID : Bytes) : Bool :=
  operation.valid && operationID ≠ [] && (Runner.validateResult lib.validatePinned result
      { expectedOperation := some operation, expectedOperationID := some operationID }).isOk

def decode (i : Identity) (payload : Bytes) : Option Result :=
  if !i.valid lib.docs || payload = [] || ResultStore.maxPayloadBytes < payload.length || !validText payload then none
  else do
    let result ← lib.unmarshalResult payload
    if lib.marshalResult result ≠ some payload then none
    else if !validateResultFor lib result (.ofName i.binding.operation) i.binding.operationID then none
    else if result.operation = .plan ∧ result.stdout ≠ [] ∧
        (PlanStore.maxPlanBytes < result.stdout.length ∨
          lib.docs.toCodec.digest result.stdout ≠ result.planContentDigest ∨
          !(DataPlane.decodePlan lib.decodeJSON result.stdout
            (i.engine.map fun c => Char.ofNat c.toNat)).isOk) then none
    else some result

def encode (i : Identity) (result : Result) : Option Bytes := do
  let payload ← lib.marshalResult result
  let _ ← decode lib i payload
  pure payload

end

/-! ## One spelling -/

variable {lib : Library} {i : Identity}

theorem certificateURI_eq_some {uri : Uri lib} (h : certificateURI lib i = some uri) :
    i.valid lib.docs = true ∧ uri.text = uriText lib (marshalIdentity i) := by
  unfold certificateURI at h
  split_ifs at h with hvalid
  cases h
  exact ⟨by simpa using hvalid, rfl⟩

theorem certificateIdentity_eq_some {uri : Uri lib} (h : certificateIdentity uri = some i) :
    Plain i ∧ i.valid lib.docs = true ∧ uri.text = uriText lib (marshalIdentity i) ∧ uri.text.length ≤ 8192 := by
  unfold certificateIdentity at h
  split_ifs at h with hparts
  obtain ⟨raw, -, h⟩ := Option.bind_eq_some_iff.1 h
  obtain ⟨identity, hread, h⟩ := Option.bind_eq_some_iff.1 h
  obtain ⟨canonical, hcanonical, h⟩ := Option.bind_eq_some_iff.1 h
  split_ifs at h with hsame
  cases h
  obtain ⟨hvalid, htext⟩ := certificateURI_eq_some hcanonical
  exact ⟨lib.unmarshal_plain raw i hread, hvalid, (not_not.1 hsame).symm.trans htext,
    Nat.not_lt.1 fun hlong => hparts (.inl hlong)⟩

theorem generation_pos (h : i.valid lib.docs = true) : 0 < i.binding.generation := by
  by_contra hneg
  have hinvalid : i.binding.validate = .error .invalid := by
    have hlow : i.binding.generation < 1 := by omega
    simp [ResultStore.Binding.validate, hlow]
  simp [Identity.valid, ResultStore.resultName, hinvalid, Except.isOk, Except.toBool] at h

theorem certificateIdentity_of_text {uri : Uri lib} (hplain : Plain i) (hvalid : i.valid lib.docs = true)
    (htext : uri.text = uriText lib (marshalIdentity i)) (hfits : uri.text.length ≤ 8192) :
    certificateIdentity uri = some i := by
  obtain ⟨hscheme, huser, hhost, hpath, hquery, hfragment⟩ := uri.parts _ htext
  have hread := lib.unmarshal_marshal i hplain (generation_pos hvalid)
  have hprefix : (bytes "/v1/").isPrefixOf uri.path = true := by simp [hpath]
  have hdrop : uri.path.drop 4 = lib.encodeBase64 (marshalIdentity i) := by rw [hpath]; rfl
  rw [htext] at hfits
  simp [certificateIdentity, hfits, hscheme, huser, hhost, hquery, hfragment, hprefix, hdrop,
    lib.decode_encode, hread, certificateURI, hvalid, htext]

/-- The URI of an identity and the document of a result have one spelling each. -/
theorem one_spelling [Unicode] (lib : Library) :
    (∀ (uri : Uri lib) i, certificateIdentity uri = some i ↔ Plain i ∧ ∃ canonical,
      certificateURI lib i = some canonical ∧ uri.text = canonical.text ∧ uri.text.length ≤ 8192) ∧
    (∀ i uri, Plain i → certificateURI lib i = some uri → uri.text.length ≤ 8192 → certificateIdentity uri = some i) ∧
    ∀ i payload result, decode lib i payload = some result →
      encode lib i result = some payload ∧ ∀ other, decode lib i other = some result → other = payload := by
  refine ⟨fun uri i => ⟨fun h => ?_, ?_⟩, fun i uri hplain huri hfits => ?_, fun i payload result h => ?_⟩
  · obtain ⟨hplain, hvalid, htext, hfits⟩ := certificateIdentity_eq_some h
    exact ⟨hplain, _, if_neg (by simp [hvalid]), htext, hfits⟩
  · rintro ⟨hplain, canonical, hcanonical, htext, hfits⟩
    obtain ⟨hvalid, hsame⟩ := certificateURI_eq_some hcanonical
    exact certificateIdentity_of_text hplain hvalid (htext.trans hsame) hfits
  · obtain ⟨hvalid, htext⟩ := certificateURI_eq_some huri
    exact certificateIdentity_of_text hplain hvalid htext hfits
  have hwritten (payload : Bytes) (h : decode lib i payload = some result) :
      lib.marshalResult result = some payload := by
    unfold decode at h
    split_ifs at h
    obtain ⟨read, -, h⟩ := Option.bind_eq_some_iff.1 h
    split_ifs at h with hsame
    cases h
    exact not_not.1 hsame
  refine ⟨?_, fun other hother => ?_⟩
  · simp [encode, hwritten payload h, h]
  · exact Option.some.inj ((hwritten other hother).symm.trans (hwritten payload h))

/-! ## An identity that is not UTF-8 -/

theorem readIdentity_marshal (h : Plain i) :
    (Go.Json.parse (marshalIdentity i)).bind ResultCleanup.readIdentity = some i := by
  obtain ⟨hengine, hbinding⟩ := List.forall_mem_cons.1 h.1
  rw [marshalIdentity, Go.Json.parse_write, Option.bind_some, ResultCleanup.readIdentity_document,
    ResultStore.Binding.readBack_of_valid hbinding, (Go.toValid_eq_iff _).2 hengine]

def sampleLibrary : Library where
  docs := ResultCleanup.sampleDocs
  encodeBase64 := Go.encodeBase64 true
  decodeBase64 := Go.decodeBase64 true
  decode_encode := Go.decodeBase64_encodeBase64 true
  unmarshalIdentity data := ((Go.Json.parse data).bind ResultCleanup.readIdentity).filter fun i => Plain i
  unmarshal_marshal i h _ := by simp [readIdentity_marshal h, h]
  unmarshal_plain data i h := by simpa using (Option.filter_eq_some_iff.1 h).2
  marshalResult _ := none
  unmarshalResult _ := none
  decodeJSON _ := .error ""
  validatePinned _ _ := false

/-- The UID of the identity is a byte outside a character. -/
def brokenIdentity : Identity :=
  { ResultCleanup.sampleIdentity with binding := { ResultCleanup.sampleIdentity.binding with uid := [0xff] } }

/-- The URI of this identity is short, and is not the URI of this identity when it is read. -/
theorem broken_identity_lost : ∃ uri, certificateURI sampleLibrary brokenIdentity = some uri ∧
    uri.text.length ≤ 8192 ∧ certificateIdentity uri ≠ some brokenIdentity := by
  refine ⟨_, if_neg (by decide +kernel), by decide +kernel, fun h => ?_⟩
  exact absurd (certificateIdentity_eq_some h).1 (by decide +kernel)

end Ptah.ResultDelivery
