import PtahOperator.Runner.Result
import PtahOperator.Scan.Lines

/-!
# Result frames

The frame a runner writes and the parser that finds it in a container log
(`internal/runner/protocol.go`). A position in a log is the text from there on, so that the length of
a text is the distance to the end of the log.

JSON and SHA-256 are parameters (`Wire`).

* `marshalFrame`: a header line with the length and the digest of the payload, the payload line, and
  the footer.
* `findFramePayload`: the line whose digest the header declares, and the footer behind it.
* `parseResultWithOptions`: the last valid frame of a log, or why there is none.
-/

namespace Ptah.Runner

open Go (Bytes bytes newline)

/-! ## Parameters and errors -/

/-- What lies outside the repository: `encoding/json`, `crypto/sha256` and the reference grammar of
the registry client. -/
structure Wire where
  /-- `json.Marshal` of a result. -/
  marshal : Result → Bytes
  /-- `json.Unmarshal` into a result. -/
  unmarshal : Bytes → Option Result
  /-- `json.Unmarshal` into a map of raw values, as its keys with their values. -/
  members : Bytes → Option (List (Bytes × Bytes))
  sha256 : Bytes → Bytes
  /-- `ocireference.ValidatePinned` -/
  validatePinned : Bytes → Bytes → Bool

/-- `ProtocolMismatchError` -/
structure ProtocolMismatch where
  runnerVersion : Int
  message : Bytes
  deriving DecidableEq

/-- The errors of `ParseResultWithOptions`. -/
inductive FrameError where
  /-- `ErrFrameNotFound` -/
  | notFound
  /-- `ErrFrameTooLarge` -/
  | tooLarge
  /-- `ErrMalformedFrame`, with a reason. -/
  | malformed (reason : String)
  /-- `incompleteFrameError` -/
  | incomplete (reason : String)
  | mismatch (refusal : ProtocolMismatch)
  deriving DecidableEq

def mayStillArrive : FrameError → Bool
  | .notFound | .incomplete _ => true
  | .tooLarge | .malformed _ | .mismatch _ => false

/-! ## Writing -/

def frameHeader : Bytes := bytes "PTAH_RUNNER_RESULT_V1 "

/-- The footer without the newline in front of it. -/
def footerText : Bytes := bytes "PTAH_RUNNER_RESULT_END_V1"

def frameFooter : Bytes := newline :: footerText

/-- `plancontract.MaxExecutableBytes` -/
def maxExecutableBytes : Nat := 8 * 2 ^ 20

def defaultMaxFrameBytes : Nat := maxExecutableBytes * 6 + 64 * 2 ^ 10

/-- The fields of the header line behind its marker. -/
def headerFields (wire : Wire) (payload : Bytes) : Bytes :=
  Go.decimal payload.length ++ Go.space :: Go.hexEncode (wire.sha256 payload)

def framed (wire : Wire) (payload : Bytes) : Bytes :=
  frameHeader ++ headerFields wire payload ++ newline :: payload ++ frameFooter ++ [newline]

/-- `marshalFrame`: the frame and the digest that its header declares. -/
def marshalFrame (wire : Wire) (result : Result) : Except FrameError (Bytes × Bytes) :=
  let result :=
    if result.protocolVersion = 0 then { result with protocolVersion := protocolVersion } else result
  match validateResult wire.validatePinned result {} with
  | .error reason => .error (.malformed reason)
  | .ok () =>
    let payload := wire.marshal result
    if defaultMaxFrameBytes < payload.length then .error .tooLarge
    else .ok (framed wire payload, bytes "sha256:" ++ Go.hexEncode (wire.sha256 payload))

theorem validateResult_protocolVersion {validatePinned : Bytes → Bytes → Bool} {result : Result}
    {options : ParseOptions} (h : validateResult validatePinned result options = .ok ()) :
    result.protocolVersion = protocolVersion := by
  by_contra hne
  simp [validateResult, validateEnvelope, refuse, hne, bind, Except.bind] at h

theorem marshalFrame_ok {wire : Wire} {result : Result} {frame : Bytes × Bytes}
    (hvalid : validateResult wire.validatePinned result {} = .ok ())
    (h : marshalFrame wire result = .ok frame) :
    (wire.marshal result).length ≤ defaultMaxFrameBytes ∧
      frame = (framed wire (wire.marshal result),
        bytes "sha256:" ++ Go.hexEncode (wire.sha256 (wire.marshal result))) := by
  have hversion : result.protocolVersion ≠ 0 := by
    rw [validateResult_protocolVersion hvalid]
    decide
  unfold marshalFrame at h
  rw [if_neg hversion] at h
  dsimp only at h
  rw [hvalid] at h
  dsimp only at h
  split at h
  · cases h
  rename_i hsize
  cases h
  exact ⟨Nat.le_of_not_lt hsize, rfl⟩

/-! ## Finding the payload -/

def maxInterleavedFrameBytes : Nat := 64 * 2 ^ 10

def maxFrameSearchBytes : Int := 64 * maxInterleavedFrameBytes

/-- The text behind the first footer that begins in the first `room` bytes. A footer begins with a
newline, so that each line ending is tried. -/
def footerWithin : (room : Nat) → Bytes → Option Bytes
  | 0, _ => none
  | _ + 1, [] => none
  | room + 1, c :: text =>
    if frameFooter.isPrefixOf (c :: text) then some ((c :: text).drop frameFooter.length)
    else footerWithin room text

/-- `frameFooterEnd`, of the text behind a payload: the text behind the footer that closes it. -/
def frameFooterEnd (behind : Bytes) : Option Bytes :=
  if behind.head? = some newline then footerWithin maxInterleavedFrameBytes behind else none

/-- One past the furthest byte that a footer of this frame could take, from where the payload is
declared. -/
def footerLimit (window : Bytes) (payloadLength : Nat) : Nat :=
  min (2 * maxInterleavedFrameBytes + payloadLength + frameFooter.length) window.length

/-- `footerScan.closes`: a footer at or behind `payloadEnd`, within the bound. The source keeps a
cursor at the first footer behind the last question; the questions only move forward. -/
def closes (window : Bytes) (payloadLength payloadEnd : Nat) : Bool :=
  (footerWithin maxInterleavedFrameBytes
    ((window.take (footerLimit window payloadLength)).drop payloadEnd)).isSome

/-- `framePayloadSearch`, with the payload and the text behind it where it was found, and the text
behind the footer that closes it. -/
structure FramePayloadSearch where
  found : Option (Bytes × Bytes) := none
  footerEnd : Option Bytes := none
  closed : Bool := false
  examined : Nat

/-- The loop of `findFramePayload` over the lines of `window`, at the line that begins at `candidate`.
`fuel` bounds the lines. -/
def findFrom (wire : Wire) (window : Bytes) (payloadLength : Nat) (claimedDigest : Bytes) :
    (fuel candidate : Nat) → (rest : Bytes) → FramePayloadSearch → FramePayloadSearch
  | 0, _, _, search => search
  | fuel + 1, candidate, rest, search =>
    if min maxInterleavedFrameBytes window.length < candidate then search
    else match Scan.cut [newline] rest with
    | none => { search with examined := window.length }
    | some (line, next) =>
      let search := { search with examined := max search.examined (candidate + line.length) }
      if line.length = payloadLength then
        if claimedDigest = wire.sha256 line then
          let behind := rest.drop payloadLength
          { search with
            found := some (line, behind)
            footerEnd := frameFooterEnd behind
            closed := (frameFooterEnd behind).isSome }
        else
          findFrom wire window payloadLength claimedDigest fuel (candidate + line.length + 1) next
            { search with
              closed := search.closed || closes window payloadLength (candidate + payloadLength) }
      else
        findFrom wire window payloadLength claimedDigest fuel (candidate + line.length + 1) next search

/-- `findFramePayload`, in the text behind a header line. -/
def findFramePayload (wire : Wire) (window : Bytes) (payloadLength : Nat) (claimedDigest : Bytes) :
    FramePayloadSearch :=
  findFrom wire window payloadLength claimedDigest (window.length + 1) 0 window
    { examined := footerLimit window payloadLength }

/-! ## The header line -/

/-- What the text behind a marker says. -/
inductive Header where
  | rejected (failure : FrameError)
  | oversized
  | declared (payloadLength : Nat) (claimedDigest window : Bytes)

/-- The part of the loop of `ParseResultWithOptions` that reads a header line. -/
def readHeader (limit : Nat) (behind : Bytes) : Header :=
  match Scan.cut [newline] behind with
  | none =>
    let reason := "the frame header has no end of line within its bounds"
    if behind.length ≤ 96 then .rejected (.incomplete reason) else .rejected (.malformed reason)
  | some (line, window) =>
    if 96 < line.length then
      .rejected (.malformed "the frame header has no end of line within its bounds")
    else match Go.fields line with
    | [lengthField, digestField] =>
      match Go.parseInt lengthField with
      | none => .rejected (.malformed "the frame header does not declare a length")
      | some length =>
        if length < 0 then .rejected (.malformed "the frame header does not declare a length")
        else if limit < length then .oversized
        else match (Go.hexDecode digestField).filter (·.length = 32) with
        | none => .rejected (.malformed "the frame header does not declare a SHA-256 digest")
        | some claimedDigest => .declared length.toNat claimedDigest window
    | _ => .rejected (.malformed "the frame header does not carry a length and a digest")

/-! ## Judging a payload -/

def codeRunnerProtocolMismatch : Bytes := bytes "runner_protocol_mismatch"

def maxErrorMessageBytes : Nat := 4 * 2 ^ 10

def protocolRefusalKeys : List Bytes :=
  ["childExitCode", "error", "operation", "operationId", "protocolVersion", "stdout"].map bytes

def foreignProtocolRefusal (wire : Wire) (payload : Bytes) (result : Result)
    (options : ParseOptions) : Option ProtocolMismatch := do
  if result.protocolVersion < 1 || result.protocolVersion = protocolVersion then none
  let document ← wire.members payload
  if !(document.map Prod.fst).isPerm protocolRefusalKeys then none
  let refusal ← wire.members (← document.lookup (bytes "error"))
  if !(refusal.map Prod.fst).isPerm [bytes "code", bytes "message"] then none
  let failure ← result.error
  if !result.operation.valid || result.operationID = [] || 256 < result.operationID.length ||
      hasControlCharacter result.operationID || result.childExitCode ≠ -1 || result.stdout ≠ [] ||
      failure.code ≠ codeRunnerProtocolMismatch || failure.message = [] ||
      maxErrorMessageBytes < failure.message.length then none
  if options.expectedOperation.any (result.operation ≠ ·) then none
  if options.expectedOperationID.any (result.operationID ≠ ·) then none
  pure { runnerVersion := result.protocolVersion, message := failure.message }

/-- What a payload with the right digest is. -/
inductive Judgement where
  | rejected (reason : String)
  | foreign (refusal : ProtocolMismatch)
  | accepted (result : Result)

/-- The part of the loop of `ParseResultWithOptions` behind the search. -/
def judge (wire : Wire) (options : ParseOptions) (payload : Bytes) : Judgement :=
  match wire.unmarshal payload with
  | none => .rejected "the frame payload is not a result document this build can decode"
  | some result =>
    match foreignProtocolRefusal wire payload result options with
    | some refusal => .foreign refusal
    | none =>
      match validateResult wire.validatePinned result options with
      | .error reason => .rejected reason
      | .ok () => .accepted result

/-! ## Parsing -/

/-- What the loop of `ParseResultWithOptions` carries from marker to marker. -/
structure ParseState where
  last : Option Result := none
  mismatch : Option ProtocolMismatch := none
  sawOversized : Bool := false
  sawMarker : Bool := false
  rejection : Option FrameError := none
  searchBudget : Int := maxFrameSearchBytes

/-- `rejectUnclosed`, with the length of the log behind the payload. -/
def unclosed (behindPayload : Nat) : FrameError :=
  if behindPayload ≤ maxInterleavedFrameBytes then
    .incomplete "the log ends after the payload without the footer that closes it, so the frame never finished arriving"
  else .malformed "no footer closes the payload within the bound on log lines interleaved after it"

/-- What one header ends in: it is rejected, it leads past the footer of a frame, or it ends the
loop. -/
inductive Verdict where
  | rejected (failure : FrameError)
  | oversized
  | exhausted
  | foreign (refusal : ProtocolMismatch) (next : Bytes)
  | accepted (result : Result) (next : Bytes)
deriving DecidableEq

/-- The verdict on a payload with the footer that closes it. -/
def judged (wire : Wire) (options : ParseOptions) (payload next : Bytes) : Verdict :=
  match judge wire options payload with
  | .rejected reason => .rejected (.malformed reason)
  | .foreign refusal => .foreign refusal next
  | .accepted result => .accepted result next

def searchVerdict (wire : Wire) (options : ParseOptions) (window : Bytes) (payloadLength : Nat)
    (search : FramePayloadSearch) : Verdict :=
  match search.found, search.footerEnd with
  | none, _ =>
    if search.closed then
      .rejected (.malformed "the frame payload does not match the digest its header declares")
    else .rejected (unclosed (window.length - payloadLength))
  | some (_, behind), none => .rejected (unclosed behind.length)
  | some (payload, _), some next => judged wire options payload next

/-- The limit on the length a header may declare. -/
def ParseOptions.limit (options : ParseOptions) : Nat :=
  if options.maxFrameBytes ≤ 0 then defaultMaxFrameBytes else options.maxFrameBytes.toNat

/-- One turn of the loop of `ParseResultWithOptions`: the verdict on the header behind a marker, and
what its search cost. -/
def turn (wire : Wire) (options : ParseOptions) (searchBudget : Int) (behind : Bytes) :
    Verdict × Nat :=
  match readHeader options.limit behind with
  | .rejected failure => (.rejected failure, 0)
  | .oversized => (.oversized, 0)
  | .declared payloadLength claimedDigest window =>
    if window.length < payloadLength then
      (.rejected (.incomplete "the log ends before the length the frame header declares, so the frame never finished arriving"), 0)
    else if searchBudget ≤ 0 then (.exhausted, 0)
    else
      let search := findFramePayload wire window payloadLength claimedDigest
      (searchVerdict wire options window payloadLength search, search.examined)

/-- The state behind a verdict, and where the loop goes on: behind the marker, behind the frame's
footer, or nowhere. -/
def ParseState.after (state : ParseState) (behind : Bytes) : Verdict → ParseState × Option Bytes
  | .rejected failure => ({ state with rejection := some failure }, some behind)
  | .oversized => ({ state with sawOversized := true }, some behind)
  | .exhausted =>
    ({ state with
      rejection := some (.malformed "the log presents more frame headers than one read will search") },
      none)
  | .foreign refusal next => ({ state with mismatch := some refusal }, some next)
  | .accepted result next => ({ state with last := some result }, some next)

/-- The loop of `ParseResultWithOptions`. `fuel` bounds its turns. -/
def scan (wire : Wire) (options : ParseOptions) :
    (fuel : Nat) → ParseState → (logs : Bytes) → ParseState
  | 0, state, _ => state
  | fuel + 1, state, logs =>
    match Scan.cut frameHeader logs with
    | none => state
    | some (_, behind) =>
      let (verdict, examined) := turn wire options state.searchBudget behind
      let state := { state with sawMarker := true, searchBudget := state.searchBudget - examined }
      match state.after behind verdict with
      | (state, some next) => scan wire options fuel state next
      | (state, none) => state

/-- What `ParseResultWithOptions` returns when its loop is done. -/
def ParseState.outcome (state : ParseState) : Except FrameError Result :=
  match state.last, state.mismatch with
  | some result, _ => .ok result
  | none, some refusal => .error (.mismatch refusal)
  | none, none =>
    if state.sawOversized then .error .tooLarge
    else if state.sawMarker then .error (state.rejection.getD (.malformed ""))
    else .error .notFound

def parseResultWithOptions (wire : Wire) (logs : Bytes) (options : ParseOptions) :
    Except FrameError Result :=
  (scan wire options (logs.length + 1) {} logs).outcome

def parseResult (wire : Wire) (logs : Bytes) : Except FrameError Result :=
  parseResultWithOptions wire logs {}

/-- The options of `ParseResultFor`. -/
def optionsFor (expectedOperation : Operation) (expectedOperationID : Bytes) : ParseOptions where
  expectedOperation := if expectedOperation = .unsupported [] then none else some expectedOperation
  expectedOperationID := if expectedOperationID = [] then none else some expectedOperationID

def parseResultFor (wire : Wire) (logs : Bytes) (expectedOperation : Operation)
    (expectedOperationID : Bytes) : Except FrameError Result :=
  parseResultWithOptions wire logs (optionsFor expectedOperation expectedOperationID)

end Ptah.Runner
