import PtahOperator.Go.Document
import PtahOperator.Runner.Summary

/-!
# Frames between the lines of a log

A container log merges two streams line by line, so that other lines stand in front of the header of
a frame, between its lines and behind it.

* `Interleaved`: a frame with lines of other output in and around it.
-/

namespace Ptah.Runner

open Go (Bytes bytes newline Json)
open Scan (unlines)

variable {wire : Wire} {options : ParseOptions}

/-! ## Footers -/

theorem newline_notMem_footerText : newline ∉ footerText := by decide

theorem newline_notMem_frameHeader : newline ∉ frameHeader := by decide

theorem frameHeader_ne_nil : frameHeader ≠ [] := by decide

variable {room limit : Nat} {text line behind : Bytes} {state : ParseState} {result back : Result}

theorem footerWithin_cons {c : UInt8} (h : ¬ frameFooter <+: c :: text) :
    footerWithin room (c :: text) = footerWithin (room - 1) text := by
  cases room with
  | zero => cases text <;> rfl
  | succ room =>
    rw [footerWithin, if_neg fun hp => h (List.isPrefixOf_iff_prefix.1 hp)]
    rfl

/-- A line that does not begin as a footer does is passed, with the newline in front of it. -/
theorem footerWithin_line (hline : newline ∉ line) (hfooter : ¬ footerText <+: line) :
    footerWithin room (newline :: (line ++ newline :: text)) =
      footerWithin (room - (line.length + 1)) (newline :: text) := by
  have hhead : ¬ frameFooter <+: newline :: (line ++ newline :: text) := by
    rw [frameFooter, List.cons_prefix_cons]
    exact fun hp => hfooter (Scan.prefix_line hp.2 newline_notMem_footerText)
  rw [footerWithin_cons hhead]
  -- Inside the line there is no newline for a footer to begin with.
  have hinside : ∀ rest room, newline ∉ rest → footerWithin room (rest ++ newline :: text) =
        footerWithin (room - rest.length) (newline :: text) := by
    intro rest
    induction rest with
    | nil => intro room _; rfl
    | cons c rest ih =>
      intro room hrest
      obtain ⟨hc, hrest⟩ := not_or.1 (List.mem_cons.not.1 hrest)
      rw [List.cons_append, footerWithin_cons fun hp => hc (List.cons_prefix_cons.1 hp).1, ih _ hrest,
        List.length_cons, Nat.sub_sub, Nat.add_comm 1]
  rw [hinside line _ hline, Nat.sub_sub, Nat.add_comm 1]

theorem footerWithin_unlines {lines : List Bytes}
    (hlines : ∀ line ∈ lines, newline ∉ line ∧ ¬ footerText <+: line) :
    footerWithin room (newline :: (unlines newline lines ++ text)) =
      footerWithin (room - (unlines newline lines).length) (newline :: text) := by
  induction lines generalizing room with
  | nil => rfl
  | cons line lines ih =>
    obtain ⟨hline, hfooter⟩ := hlines line (.head _)
    rw [Scan.unlines_cons, List.append_assoc, List.cons_append, footerWithin_line hline hfooter,
      ih fun l hl => hlines l (.tail _ hl), Nat.sub_sub]
    congr 2
    simp only [List.length_append, List.length_cons]
    omega

theorem footerWithin_none (h : ¬ frameFooter <:+: text) : footerWithin room text = none := by
  induction text generalizing room with
  | nil => cases room <;> rfl
  | cons c text ih =>
    rw [List.infix_cons_iff, not_or] at h
    rw [footerWithin_cons h.1, ih h.2]

/-- The footer behind lines of other output is found if it begins within the bound. -/
theorem frameFooterEnd_unlines {lines : List Bytes} {next : Bytes}
    (hlines : ∀ line ∈ lines, newline ∉ line ∧ ¬ footerText <+: line) :
    frameFooterEnd (newline :: (unlines newline lines ++ (footerText ++ next))) =
      if (unlines newline lines).length < maxInterleavedFrameBytes then some next else none := by
  rw [frameFooterEnd, if_pos (by rfl), footerWithin_unlines hlines]
  have hfooter : newline :: (footerText ++ next) = frameFooter ++ next := rfl
  split
  · rename_i hlt
    obtain ⟨room, hroom⟩ := Nat.exists_eq_succ_of_ne_zero (Nat.sub_ne_zero_of_lt hlt)
    have hhead : frameFooter.isPrefixOf (newline :: (footerText ++ next)) = true :=
      List.isPrefixOf_iff_prefix.2 (List.prefix_append _ _)
    rw [hroom, footerWithin, if_pos hhead, hfooter, List.drop_left]
  · rename_i hge
    rw [Nat.sub_eq_zero_of_le (Nat.le_of_not_lt hge)]
    rfl

theorem closes_false {window : Bytes} (h : ¬ frameFooter <:+: window) (payloadLength payloadEnd : Nat) :
    closes window payloadLength payloadEnd = false := by
  have hsub : ¬ frameFooter <:+: (window.take (footerLimit window payloadLength)).drop payloadEnd :=
    fun hin => h (hin.trans ((List.drop_suffix _ _).isInfix.trans (List.take_prefix _ _).isInfix))
  rw [closes, footerWithin_none hsub]
  rfl

/-! ## The search for the payload -/

/-- The lines of which none has the declared length and digest. -/
def NoPayload (wire : Wire) (payloadLength : Nat) (claimedDigest : Bytes) (lines : List Bytes) :
    Prop :=
  ∀ line ∈ lines, newline ∉ line ∧ (line.length = payloadLength → claimedDigest ≠ wire.sha256 line)

/-- What the search may change while it passes lines that are not the payload. -/
structure Passed (window : Bytes) (search search' : FramePayloadSearch) : Prop where
  found : search'.found = search.found
  footerEnd : search'.footerEnd = search.footerEnd
  closed : ¬ frameFooter <:+: window → search'.closed = search.closed

theorem Passed.trans {window : Bytes} {s1 s2 s3 : FramePayloadSearch} (h1 : Passed window s1 s2)
    (h2 : Passed window s2 s3) : Passed window s1 s3 :=
  ⟨h2.found.trans h1.found, h2.footerEnd.trans h1.footerEnd,
    fun h => (h2.closed h).trans (h1.closed h)⟩

section Search

variable {window claimedDigest rest : Bytes} {payloadLength : Nat} {lines : List Bytes}
  {fuel candidate : Nat} {search : FramePayloadSearch}

theorem findFrom_line (hline : newline ∉ line)
    (hdigest : line.length = payloadLength → claimedDigest ≠ wire.sha256 line)
    (hbound : candidate ≤ maxInterleavedFrameBytes) (hwindow : candidate ≤ window.length) :
    ∃ search', findFrom wire window payloadLength claimedDigest (fuel + 1) candidate
          (line ++ newline :: rest) search =
        findFrom wire window payloadLength claimedDigest fuel (candidate + line.length + 1) rest
          search' ∧ Passed window search search' := by
  rw [findFrom, if_neg (by omega), Scan.cut_sep hline]
  dsimp only
  split
  · rename_i hlength
    rw [if_neg (hdigest hlength)]
    refine ⟨_, rfl, rfl, rfl, fun h => ?_⟩
    rw [closes_false h, Bool.or_false]
  · exact ⟨_, rfl, rfl, rfl, fun _ => rfl⟩

/-- The search passes lines that are not the payload. -/
theorem findFrom_unlines (hlines : NoPayload wire payloadLength claimedDigest lines)
    (hbound : candidate + (unlines newline lines).length ≤ maxInterleavedFrameBytes)
    (hwindow : candidate + (unlines newline lines).length ≤ window.length) :
    ∃ search', Passed window search search' ∧
      findFrom wire window payloadLength claimedDigest (fuel + lines.length) candidate
          (unlines newline lines ++ rest) search =
        findFrom wire window payloadLength claimedDigest fuel
          (candidate + (unlines newline lines).length) rest search' := by
  induction lines generalizing candidate search with
  | nil => exact ⟨search, ⟨rfl, rfl, fun _ => rfl⟩, rfl⟩
  | cons line lines ih =>
    obtain ⟨hline, hdigest⟩ := hlines line (.head _)
    have hlen : (unlines newline (line :: lines)).length =
        line.length + 1 + (unlines newline lines).length := by
      rw [Scan.unlines_cons]
      simp only [List.length_append, List.length_cons]
      omega
    have htext : unlines newline (line :: lines) ++ rest =
        line ++ newline :: (unlines newline lines ++ rest) := by
      rw [Scan.unlines_cons, List.append_assoc, List.cons_append]
    obtain ⟨s1, heq1, hpassed1⟩ := @findFrom_line wire line window claimedDigest
      (unlines newline lines ++ rest) payloadLength (fuel + lines.length) candidate search hline
      hdigest (by omega) (by omega)
    obtain ⟨s2, hpassed2, heq2⟩ := @ih (candidate + line.length + 1) s1
      (fun l hl => hlines l (.tail _ hl)) (by omega) (by omega)
    refine ⟨s2, hpassed1.trans hpassed2, ?_⟩
    rw [htext, List.length_cons, ← Nat.add_assoc, heq1, heq2, hlen]
    congr 1
    omega

theorem length_le_unlines (lines : List Bytes) : lines.length ≤ (unlines newline lines).length := by
  induction lines with
  | nil => exact Nat.zero_le _
  | cons line lines ih =>
    rw [Scan.unlines_cons]
    simp only [List.length_append, List.length_cons]
    omega

/-- The search of a window that begins with lines that are not the payload, at the text behind
them. -/
theorem findFramePayload_unlines (hlines : NoPayload wire payloadLength claimedDigest lines)
    (hbound : (unlines newline lines).length ≤ maxInterleavedFrameBytes) :
    ∃ fuel search, rest.length < fuel ∧ Passed (unlines newline lines ++ rest) { examined := 0 } search ∧
      findFramePayload wire (unlines newline lines ++ rest) payloadLength claimedDigest =
        findFrom wire (unlines newline lines ++ rest) payloadLength claimedDigest fuel
          (unlines newline lines).length rest search := by
  have hfuel : (unlines newline lines ++ rest).length + 1 =
      ((unlines newline lines ++ rest).length + 1 - lines.length) + lines.length := by
    have := length_le_unlines lines
    simp only [List.length_append]
    omega
  obtain ⟨search, hpassed, heq⟩ := @findFrom_unlines wire (unlines newline lines ++ rest)
    claimedDigest rest payloadLength lines
    ((unlines newline lines ++ rest).length + 1 - lines.length) 0
    { examined := footerLimit (unlines newline lines ++ rest) payloadLength } hlines (by omega)
    (by simp)
  refine ⟨(unlines newline lines ++ rest).length + 1 - lines.length, search, ?_,
    ⟨hpassed.found, hpassed.footerEnd, hpassed.closed⟩, ?_⟩
  · have := length_le_unlines lines
    simp only [List.length_append]
    omega
  · rwa [← hfuel, Nat.zero_add] at heq

theorem findFramePayload_found {payload : Bytes}
    (hlines : NoPayload wire payload.length claimedDigest lines) (hpayload : newline ∉ payload)
    (hdigest : claimedDigest = wire.sha256 payload)
    (hbound : (unlines newline lines).length ≤ maxInterleavedFrameBytes) :
    let search := findFramePayload wire (unlines newline lines ++ (payload ++ newline :: behind))
      payload.length claimedDigest
    search.found = some (payload, newline :: behind) ∧
      search.footerEnd = frameFooterEnd (newline :: behind) := by
  obtain ⟨fuel, search, hfuel, -, heq⟩ := @findFramePayload_unlines wire claimedDigest
    (payload ++ newline :: behind) payload.length lines hlines hbound
  obtain ⟨fuel, rfl⟩ := Nat.exists_eq_succ_of_ne_zero (Nat.ne_zero_of_lt hfuel)
  rw [findFrom, if_neg (by simp; omega), Scan.cut_sep hpayload] at heq
  dsimp only at heq
  rw [if_pos rfl, if_pos hdigest, List.drop_left] at heq
  intro s
  rw [show s = _ from heq]
  exact ⟨rfl, rfl⟩

theorem findFramePayload_missing {part : Bytes}
    (hlines : NoPayload wire payloadLength claimedDigest lines) (hpart : newline ∉ part)
    (hbound : (unlines newline lines).length ≤ maxInterleavedFrameBytes)
    (hfooter : ¬ frameFooter <:+: unlines newline lines ++ part) :
    let search := findFramePayload wire (unlines newline lines ++ part) payloadLength claimedDigest
    search.found = none ∧ search.closed = false := by
  obtain ⟨fuel, search, hfuel, hpassed, heq⟩ := @findFramePayload_unlines wire claimedDigest part
    payloadLength lines hlines hbound
  obtain ⟨fuel, rfl⟩ := Nat.exists_eq_succ_of_ne_zero (Nat.ne_zero_of_lt hfuel)
  have hend : Scan.cut [newline] part = none :=
    Scan.cut_none_iff.2 fun hin => hpart (hin.subset (List.mem_singleton_self _))
  rw [findFrom, if_neg (by simp; omega), hend] at heq
  intro s
  rw [show s = _ from heq]
  exact ⟨hpassed.found, hpassed.closed hfooter⟩

end Search

/-! ## The header line -/

theorem visible_of_mem_headerFields {payload : Bytes} {c : UInt8}
    (h : c ∈ headerFields wire payload) : Go.visible c = true ∨ c = Go.space := by
  rcases List.mem_append.1 h with hc | hc
  · exact .inl (Go.visible_of_isDigit (Go.isDigit_of_mem_decimal hc))
  rcases hc with _ | ⟨_, hc⟩
  · exact .inr rfl
  · exact .inl (Go.visible_of_mem_hexEncode hc)

theorem newline_notMem_headerFields (payload : Bytes) : newline ∉ headerFields wire payload := by
  intro h
  rcases visible_of_mem_headerFields h with h | h <;> exact absurd h (by decide)

theorem length_headerFields {payload : Bytes} (hdigest : (wire.sha256 payload).length = 32)
    (hsize : payload.length ≤ defaultMaxFrameBytes) :
    (headerFields wire payload).length ≤ 96 := by
  have hlt : payload.length < 10 ^ 8 := by
    have : defaultMaxFrameBytes < 10 ^ 8 := by decide
    omega
  have := Go.length_decimal_le hlt (by decide)
  simp only [headerFields, List.length_append, List.length_cons, Go.length_hexEncode, hdigest]
  omega

theorem readHeader_headerFields {payload : Bytes} (window : Bytes)
    (hdigest : (wire.sha256 payload).length = 32) (hsize : payload.length ≤ defaultMaxFrameBytes)
    (hlimit : payload.length ≤ limit) :
    readHeader limit (headerFields wire payload ++ newline :: window) =
      .declared payload.length (wire.sha256 payload) window := by
  have hlen := length_headerFields hdigest hsize
  have hhex : Go.hexEncode (wire.sha256 payload) ≠ [] := by
    rw [← List.length_pos_iff, Go.length_hexEncode, hdigest]
    decide
  have hfields : Go.fields (headerFields wire payload) =
      [Go.decimal payload.length, Go.hexEncode (wire.sha256 payload)] :=
    Go.fields_pair (fun c hc => Go.visible_of_isDigit (Go.isDigit_of_mem_decimal hc))
      (fun c => Go.visible_of_mem_hexEncode) (Go.decimal_ne_nil _) hhex
  have hint : Go.parseInt (Go.decimal payload.length) = some (payload.length : Int) := by
    have : defaultMaxFrameBytes < 2 ^ 63 := by decide
    exact Go.parseInt_decimal (by omega)
  rw [readHeader, Scan.cut_sep (newline_notMem_headerFields payload)]
  dsimp only
  rw [if_neg (by omega), hfields]
  dsimp only
  rw [hint]
  dsimp only
  rw [if_neg (by omega), if_neg (by omega), Go.hexDecode_hexEncode,
    Option.filter_some_pos (by simpa using hdigest)]
  rfl

theorem readHeader_part {part : Bytes} (hpart : newline ∉ part)
    (hlen : part.length ≤ 96) : ∃ reason, readHeader limit part = .rejected (.incomplete reason) := by
  have hend : Scan.cut [newline] part = none :=
    Scan.cut_none_iff.2 fun hin => hpart (hin.subset (List.mem_singleton_self _))
  rw [readHeader, hend]
  rw [if_pos hlen]
  exact ⟨_, rfl⟩

/-! ## Logs with one frame -/

theorem scan_free {fuel : Nat} (h : ¬ frameHeader <:+: text) :
    scan wire options fuel state text = state := by
  cases fuel with
  | zero => rfl
  | succ fuel => rw [scan, Scan.cut_none_iff.2 h]

theorem scan_first {fuel : Nat} {lines : List Bytes}
    (hlines : ∀ line ∈ lines, ¬ frameHeader <:+: line) :
    scan wire options (fuel + 1) state (unlines newline lines ++ (frameHeader ++ behind)) =
      scan wire options (fuel + 1) state (frameHeader ++ behind) := by
  rw [scan, scan, Scan.cut_unlines newline_notMem_frameHeader frameHeader_ne_nil hlines,
    Scan.cut_here (List.prefix_append _ _)]
  rfl

/-- The first header of a log leads behind the footer of its frame, and no other marker follows. -/
theorem parse_accepted {lines : List Bytes} {next : Bytes}
    (hlines : ∀ line ∈ lines, ¬ frameHeader <:+: line)
    (hturn : (turn wire options maxFrameSearchBytes behind).1 = .accepted result next)
    (hnext : ¬ frameHeader <:+: next) :
    parseResultWithOptions wire (unlines newline lines ++ (frameHeader ++ behind)) options =
      .ok result := by
  rw [parseResultWithOptions, scan_first hlines, scan, Scan.cut_here (List.prefix_append _ _),
    List.drop_left]
  dsimp only
  rw [hturn]
  dsimp only [ParseState.after]
  rw [scan_free hnext]
  rfl

theorem parse_rejected {lines : List Bytes} {failure : FrameError}
    (hlines : ∀ line ∈ lines, ¬ frameHeader <:+: line)
    (hturn : (turn wire options maxFrameSearchBytes behind).1 = .rejected failure)
    (hbehind : ¬ frameHeader <:+: behind) :
    parseResultWithOptions wire (unlines newline lines ++ (frameHeader ++ behind)) options =
      .error failure := by
  rw [parseResultWithOptions, scan_first hlines, scan, Scan.cut_here (List.prefix_append _ _),
    List.drop_left]
  dsimp only
  rw [hturn]
  dsimp only [ParseState.after]
  rw [scan_free hbehind]
  rfl

/-- No marker in the text is followed by a header line that declares a payload. -/
def Undeclared (limit : Nat) (text : Bytes) : Prop :=
  ∀ a b, text = a ++ (frameHeader ++ b) →
    ∀ length digest window, readHeader limit b ≠ .declared length digest window

theorem Undeclared.drop {a b : Bytes} (h : Undeclared limit (a ++ b)) :
    Undeclared limit b := fun c d heq =>
  h (a ++ c) d (by rw [heq, List.append_assoc])

theorem scan_undeclared {fuel : Nat} (h : Undeclared options.limit text) :
    (scan wire options fuel state text).last = state.last := by
  induction fuel generalizing state text with
  | zero => rfl
  | succ fuel ih =>
    rw [scan]
    cases hcut : Scan.cut frameHeader text with
    | none => rfl
    | some found =>
      obtain ⟨left, behind⟩ := found
      have htext := Scan.cut_eq hcut
      rw [List.append_assoc] at htext
      have hbehind : Undeclared options.limit behind := by
        rw [htext] at h
        exact h.drop.drop
      dsimp only
      rw [turn]
      cases hheader : readHeader options.limit behind with
      | rejected failure => exact ih hbehind
      | oversized => exact ih hbehind
      | declared length digest window => exact absurd hheader (h _ _ htext _ _ _)

/-- The first header of a log is rejected or refused, and no other one declares a payload. -/
theorem parse_not_ok {lines : List Bytes} (hlines : ∀ line ∈ lines, ¬ frameHeader <:+: line)
    (hturn : ∀ accepted next,
      (turn wire options maxFrameSearchBytes behind).1 ≠ .accepted accepted next)
    (hbehind : Undeclared options.limit behind)
    (hnext : ∀ refusal next, (turn wire options maxFrameSearchBytes behind).1 = .foreign refusal next →
      Undeclared options.limit next) :
    parseResultWithOptions wire (unlines newline lines ++ (frameHeader ++ behind)) options ≠
      .ok result := by
  have hlast : ∀ state : ParseState, state.last = none → state.outcome ≠ .ok result := by
    intro state hlast
    unfold ParseState.outcome
    split
    · simp_all
    · simp
    split
    · simp
    · split <;> simp
  refine hlast _ ?_
  rw [scan_first hlines, scan, Scan.cut_here (List.prefix_append _ _), List.drop_left]
  dsimp only
  cases hverdict : turn wire options maxFrameSearchBytes behind with
  | mk verdict examined =>
    rw [hverdict] at hturn hnext
    cases verdict with
    | rejected failure => exact scan_undeclared hbehind
    | oversized => exact scan_undeclared hbehind
    | exhausted => rfl
    | foreign refusal next => exact scan_undeclared (hnext refusal next rfl)
    | accepted accepted next => exact absurd rfl (hturn accepted next)

/-! ## Interleaved lines -/

/-- What `encoding/json` and `crypto/sha256` promise: a marshalled result is one line, an object in
braces, and a digest has 32 bytes. -/
structure Wire.Lawful (wire : Wire) : Prop where
  oneLine : ∀ result, newline ∉ wire.marshal result
  opens : ∀ result, (wire.marshal result).head? = some 0x7b
  ends : ∀ result, (wire.marshal result).getLast? = some 0x7d
  digest : ∀ text, (wire.sha256 text).length = 32

/-- A line of other output, which contains neither the marker nor the footer's text. -/
structure PlainLine (line : Bytes) : Prop where
  oneLine : newline ∉ line
  noMarker : ¬ frameHeader <:+: line
  noFooter : ¬ footerText <:+: line

/-- Lines of other output in front of a frame's header, between its lines and behind it. -/
structure Interleaved where
  before : List Bytes
  ahead : List Bytes
  behind : List Bytes
  after : Bytes
  plain : ∀ line ∈ before ++ (ahead ++ behind), PlainLine line
  free : ¬ frameHeader <:+: after
  near : (unlines newline ahead).length ≤ maxInterleavedFrameBytes
  close : (unlines newline behind).length < maxInterleavedFrameBytes

/-- The text behind the header line of the frame of `payload`. -/
def Interleaved.window (i : Interleaved) (payload : Bytes) : Bytes :=
  unlines newline (i.ahead ++ payload :: i.behind) ++ (footerText ++ newline :: i.after)

/-- The log: the frame of `payload` with the lines in and around it. -/
def Interleaved.log (i : Interleaved) (wire : Wire) (payload : Bytes) : Bytes :=
  unlines newline i.before ++
    (frameHeader ++ (headerFields wire payload ++ newline :: i.window payload))

def Interleaved.alone : Interleaved where
  before := []
  ahead := []
  behind := []
  after := []
  plain := by simp
  free := by decide
  near := Nat.zero_le _
  close := by decide

/-- How far the footer begins behind the end of the first line that is the payload. -/
def toFooter (payload : Bytes) (behind : List Bytes) : (ahead : List Bytes) → Nat
  | [] => (unlines newline behind).length
  | line :: ahead =>
    if line = payload then (unlines newline (ahead ++ payload :: behind)).length
    else toFooter payload behind ahead

/-- The lines in front of the first one that is the payload, and those behind it. -/
theorem exists_split_payload (payload : Bytes) (behind ahead : List Bytes) :
    ∃ first rest, ahead ++ payload :: behind = first ++ payload :: rest ∧ payload ∉ first ∧
      first <+: ahead ∧ (∀ line ∈ rest, line = payload ∨ line ∈ ahead ++ behind) ∧
      (unlines newline rest).length = toFooter payload behind ahead := by
  induction ahead with
  | nil => exact ⟨[], behind, rfl, List.not_mem_nil, List.nil_prefix, fun l hl => .inr hl, rfl⟩
  | cons line ahead ih =>
    by_cases hline : line = payload
    · refine ⟨[], ahead ++ payload :: behind, by rw [hline]; rfl, List.not_mem_nil,
        List.nil_prefix, fun l hl => ?_, by rw [toFooter, if_pos hline]⟩
      simp only [List.mem_append, List.mem_cons] at hl ⊢
      tauto
    · obtain ⟨first, rest, heq, hfirst, hprefix, hrest, hlen⟩ := ih
      refine ⟨line :: first, rest, by rw [List.cons_append, heq]; rfl, ?_,
        List.cons_prefix_cons.2 ⟨rfl, hprefix⟩, fun l hl => ?_, by rw [toFooter, if_neg hline, hlen]⟩
      · rw [List.mem_cons, not_or]
        exact ⟨fun h => hline h.symm, hfirst⟩
      · exact (hrest l hl).imp_right (List.mem_cons_of_mem _)

/-- Lines in front of the first one that is the payload, and lines between it and the footer. -/
structure FirstPayload (wire : Wire) (payload : Bytes) (first rest : List Bytes) : Prop where
  noPayload : NoPayload wire payload.length (wire.sha256 payload) first
  near : (unlines newline first).length ≤ maxInterleavedFrameBytes
  noFooter : ∀ line ∈ first ++ rest, newline ∉ line ∧ ¬ footerText <+: line

theorem footerText_not_prefix {payload : Bytes} (h : payload.head? = some 0x7b) :
    ¬ footerText <+: payload := by
  rintro ⟨t, rfl⟩
  have hhead : (footerText ++ t).head? = some 0x50 := rfl
  rw [hhead] at h
  exact absurd h (by decide)

/-- The text behind the header line, from the first line that is the payload on. -/
theorem Interleaved.firstPayload (i : Interleaved) {payload : Bytes} (hline : newline ∉ payload)
    (hopens : payload.head? = some 0x7b)
    (hcollision : ∀ line ∈ i.ahead, wire.sha256 line = wire.sha256 payload → line = payload) :
    ∃ first rest, FirstPayload wire payload first rest ∧
      i.window payload = unlines newline first ++ (payload ++ newline ::
        (unlines newline rest ++ (footerText ++ newline :: i.after))) ∧
      (unlines newline rest).length = toFooter payload i.behind i.ahead := by
  obtain ⟨first, rest, heq, hfirst, hfront, hrest, hlen⟩ := exists_split_payload payload i.behind i.ahead
  have hplain : ∀ line ∈ i.ahead ++ i.behind, PlainLine line := fun line hl =>
    i.plain line (List.mem_append_right _ hl)
  refine ⟨first, rest, ⟨fun line hl => ?_, ?_, fun line hl => ?_⟩, ?_, hlen⟩
  · have hahead := hfront.subset hl
    refine ⟨(hplain line (List.mem_append_left _ hahead)).oneLine, fun _ hdigest => hfirst ?_⟩
    exact hcollision line hahead hdigest.symm ▸ hl
  · obtain ⟨t, ht⟩ := hfront
    refine Nat.le_trans ?_ i.near
    rw [← ht, Scan.unlines_append, List.length_append]
    exact Nat.le_add_right _ _
  · have hl : line = payload ∨ line ∈ i.ahead ++ i.behind := by
      rcases List.mem_append.1 hl with hl | hl
      · exact .inr (List.mem_append_left _ (hfront.subset hl))
      · exact hrest line hl
    rcases hl with rfl | hl
    · exact ⟨hline, footerText_not_prefix hopens⟩
    · exact ⟨(hplain line hl).oneLine, fun h => (hplain line hl).noFooter h.isInfix⟩
  · rw [Interleaved.window, heq, Scan.unlines_append, Scan.unlines_cons]
    simp only [List.append_assoc, List.cons_append]

section Turn

variable {payload : Bytes} {first rest : List Bytes}

/-- The turn at the header of a frame whose payload line has arrived. -/
theorem turn_found (hfirst : FirstPayload wire payload first rest) (hline : newline ∉ payload)
    (hdigest : (wire.sha256 payload).length = 32) (hsize : payload.length ≤ defaultMaxFrameBytes)
    (hlimit : payload.length ≤ options.limit) (tail : Bytes) :
    (turn wire options maxFrameSearchBytes (headerFields wire payload ++ newline ::
        (unlines newline first ++ (payload ++ newline :: tail)))).1 =
      match frameFooterEnd (newline :: tail) with
      | none => .rejected (unclosed (tail.length + 1))
      | some next => judged wire options payload next := by
  obtain ⟨hfound, hend⟩ := @findFramePayload_found wire tail (wire.sha256 payload) first payload
    hfirst.noPayload hline rfl hfirst.near
  rw [turn, readHeader_headerFields _ hdigest hsize hlimit]
  dsimp only
  rw [if_neg (by simp only [List.length_append]; omega), if_neg (by decide)]
  rw [searchVerdict, hfound, hend]
  cases frameFooterEnd (newline :: tail) <;> rfl

end Turn

/-! ## Other markers -/

/-- A line with a brace in it is no header line. -/
theorem readHeader_brace {window : Bytes} (hline : newline ∉ line)
    (hbrace : 0x7d ∈ line) (length : Nat) (digest rest : Bytes) :
    readHeader limit (line ++ newline :: window) ≠ .declared length digest rest := by
  obtain ⟨field, hfield, hmem⟩ := Go.mem_fields (by decide) hbrace
  rw [readHeader, Scan.cut_sep hline]
  dsimp only
  split
  · simp
  split
  · rename_i lengthField digestField hfields
    rw [hfields] at hfield
    split
    · simp
    rename_i n hint
    have hnot : 0x7d ∉ lengthField := fun h =>
      absurd (Go.mem_of_parseInt hint h) (by decide)
    rcases hfield with _ | ⟨_, hfield⟩
    · exact absurd hmem hnot
    obtain rfl := List.mem_singleton.1 hfield
    have hnone : Go.hexDecode field = none := by
      cases hdecode : Go.hexDecode field with
      | none => rfl
      | some data => exact absurd (Go.hexValue_of_hexDecode hdecode hmem) (by decide)
    rw [hnone]
    split
    · simp
    split <;> simp
  · simp

theorem frameHeader_not_infix_headerFields (payload : Bytes) :
    ¬ frameHeader <:+: headerFields wire payload := by
  intro h
  have hmem : 0x50 ∈ headerFields wire payload := h.subset (by decide)
  rcases List.mem_append.1 hmem with hc | hc
  · exact absurd (Go.isDigit_of_mem_decimal hc) (by decide)
  rcases List.mem_cons.1 hc with hc | hc
  · exact absurd hc (by decide)
  · exact absurd (Go.hexValue_of_hexDecode (Go.hexDecode_hexEncode _) hc) (by decide)

/-- Behind the marker of an interleaved frame, another one can stand only in the payload. -/
theorem Interleaved.marker_in_payload (i : Interleaved) {payload a b : Bytes}
    (h : headerFields wire payload ++ newline :: i.window payload = a ++ (frameHeader ++ b)) :
    ∃ u v w, payload = u ++ (frameHeader ++ v) ∧ b = v ++ newline :: w := by
  have htext : headerFields wire payload ++ newline :: i.window payload =
      unlines newline (headerFields wire payload :: (i.ahead ++ payload :: i.behind) ++ [footerText]) ++
        i.after := by
    rw [Interleaved.window, Scan.unlines_append, List.cons_append, Scan.unlines_cons]
    simp [unlines]
  rw [htext] at h
  rcases Scan.occurs_unlines newline_notMem_frameHeader frameHeader_ne_nil h with
    ⟨line, hl, u, v, w, hline, hb⟩ | hafter
  · have hinfix : frameHeader <:+: line := ⟨u, v, by rw [hline, List.append_assoc]⟩
    have hplain : line ∉ i.ahead ++ i.behind := fun h =>
      (i.plain line (List.mem_append_right _ h)).noMarker hinfix
    have hpayload : line = payload := by
      simp only [List.mem_append, List.mem_cons, List.not_mem_nil, or_false] at hl hplain
      rcases hl with (rfl | h | rfl | h) | rfl
      · exact absurd hinfix (frameHeader_not_infix_headerFields payload)
      · exact absurd (.inl h) hplain
      · rfl
      · exact absurd (.inr h) hplain
      · exact absurd hinfix (by decide)
    exact ⟨u, v, w, hpayload ▸ hline, hb⟩
  · exact absurd hafter i.free

/-- Such a marker has no header line. -/
theorem Interleaved.undeclared (i : Interleaved) {payload : Bytes} (hline : newline ∉ payload)
    (hends : payload.getLast? = some 0x7d) (limit : Nat) :
    Undeclared limit (headerFields wire payload ++ newline :: i.window payload) := by
  intro a b hab
  obtain ⟨u, v, w, rfl, rfl⟩ := i.marker_in_payload hab
  have hv : v ≠ [] := by
    rintro rfl
    have hlast : (u ++ frameHeader).getLast? = some Go.space := by
      rw [List.getLast?_append]
      rfl
    rw [List.append_nil, hlast] at hends
    exact absurd hends (by decide)
  have hbrace : 0x7d ∈ v := by
    rw [List.getLast?_append, List.getLast?_append, List.getLast?_eq_some_getLast hv] at hends
    have : v.getLast hv = 0x7d := by simpa using hends
    exact this ▸ List.getLast_mem hv
  exact readHeader_brace (fun h => hline (by simp [h])) hbrace

/-! ## Frames survive interleaving -/

/-- A valid result is no refusal of a foreign protocol. -/
theorem judge_accepted_iff {payload : Bytes} (hback : wire.unmarshal payload = some back) :
    judge wire options payload = .accepted back ↔
      validateResult wire.validatePinned back options = .ok () := by
  rw [judge, hback]
  dsimp only
  constructor
  · intro h
    split at h
    · cases h
    split at h
    · cases h
    · assumption
  · intro h
    have hforeign : foreignProtocolRefusal wire payload back options = none := by
      simp [foreignProtocolRefusal, validateResult_protocolVersion h]
    rw [hforeign, h]

theorem judge_eq_accepted {payload : Bytes} (hback : wire.unmarshal payload = some back)
    (h : judge wire options payload = .accepted result) : result = back := by
  rw [judge, hback] at h
  dsimp only at h
  split at h
  · cases h
  split at h
  · cases h
  · cases h; rfl

/-- The turn at the header of an interleaved frame. -/
theorem Interleaved.turn_eq (i : Interleaved) (hw : wire.Lawful)
    (hsize : (wire.marshal result).length ≤ defaultMaxFrameBytes)
    (hlimit : (wire.marshal result).length ≤ options.limit)
    (hcollision : ∀ line ∈ i.ahead,
      wire.sha256 line = wire.sha256 (wire.marshal result) → line = wire.marshal result) :
    ∃ failure, (turn wire options maxFrameSearchBytes (headerFields wire (wire.marshal result) ++
        newline :: i.window (wire.marshal result))).1 =
      if toFooter (wire.marshal result) i.behind i.ahead < maxInterleavedFrameBytes then
        judged wire options (wire.marshal result) (newline :: i.after)
      else .rejected failure := by
  obtain ⟨first, rest, hfirst, hwindow, hdistance⟩ :=
    i.firstPayload (hw.oneLine result) (hw.opens result) hcollision
  refine ⟨unclosed ((unlines newline rest ++ (footerText ++ newline :: i.after)).length + 1), ?_⟩
  rw [hwindow, turn_found hfirst (hw.oneLine result) (hw.digest _) hsize hlimit,
    frameFooterEnd_unlines fun l hl => hfirst.noFooter l (List.mem_append_right _ hl), hdistance]
  by_cases hlt : toFooter (wire.marshal result) i.behind i.ahead < maxInterleavedFrameBytes
  · rw [if_pos hlt, if_pos hlt]
  · rw [if_neg hlt, if_neg hlt]

theorem Interleaved.before_free (i : Interleaved) : ∀ line ∈ i.before, ¬ frameHeader <:+: line :=
  fun line hl => (i.plain line (List.mem_append_left _ hl)).noMarker

theorem Interleaved.after_free (i : Interleaved) : ¬ frameHeader <:+: newline :: i.after := by
  rw [List.infix_cons_iff, not_or]
  exact ⟨fun h => absurd (List.cons_prefix_cons.1 h).1 (by decide), i.free⟩

/-- When the parser returns what JSON reads back from an interleaved frame. -/
theorem Interleaved.parse_ok_iff (i : Interleaved) (hw : wire.Lawful)
    (hsize : (wire.marshal result).length ≤ defaultMaxFrameBytes)
    (hlimit : (wire.marshal result).length ≤ options.limit)
    (hback : wire.unmarshal (wire.marshal result) = some back)
    (hcollision : ∀ line ∈ i.ahead,
      wire.sha256 line = wire.sha256 (wire.marshal result) → line = wire.marshal result) :
    parseResultWithOptions wire (i.log wire (wire.marshal result)) options = .ok back ↔
      toFooter (wire.marshal result) i.behind i.ahead < maxInterleavedFrameBytes ∧
        validateResult wire.validatePinned back options = .ok () := by
  obtain ⟨failure, hturn⟩ := @Interleaved.turn_eq wire options result i hw hsize hlimit hcollision
  constructor
  · intro hok
    by_contra hnot
    refine parse_not_ok i.before_free (fun accepted next h => ?_)
      (i.undeclared (hw.oneLine result) (hw.ends result) _) (fun refusal next h => ?_) hok
    · -- The frame would be accepted only within the bound, and only as a valid result.
      rw [hturn] at h
      split at h
      · rename_i hlt
        unfold judged at h
        split at h
        · cases h
        · cases h
        rename_i hjudge
        obtain rfl := judge_eq_accepted hback hjudge
        exact hnot ⟨hlt, (judge_accepted_iff hback).1 hjudge⟩
      · cases h
    · rw [hturn] at h
      split at h
      · unfold judged at h
        split at h <;> cases h
        intro a b hab
        exact absurd ⟨a, b, by rw [List.append_assoc]; exact hab.symm⟩ i.after_free
      · cases h
  · rintro ⟨hlt, hback'⟩
    have haccepted : (turn wire options maxFrameSearchBytes (headerFields wire (wire.marshal result) ++
        newline :: i.window (wire.marshal result))).1 = .accepted back (newline :: i.after) := by
      rw [hturn, if_pos hlt, judged, (judge_accepted_iff hback).2 hback']
    exact parse_accepted i.before_free haccepted i.after_free

/-- Frames survive line interleaving.

For every valid result with its frame, and all lines of other output in and around the frame within
the bounds: the parser returns what JSON reads back from the payload, exactly if the first line that
is the payload lies within the bound of the footer and what JSON reads back is valid. -/
theorem parseResult_interleaved_iff (hw : wire.Lawful) {result back : Result} {frame : Bytes × Bytes}
    (hvalid : validateResult wire.validatePinned result {} = .ok ())
    (hframe : marshalFrame wire result = .ok frame)
    (hback : wire.unmarshal (wire.marshal result) = some back) (i : Interleaved)
    (hcollision : ∀ line ∈ i.ahead,
      wire.sha256 line = wire.sha256 (wire.marshal result) → line = wire.marshal result) :
    parseResult wire (i.log wire (wire.marshal result)) = .ok back ↔
      toFooter (wire.marshal result) i.behind i.ahead < maxInterleavedFrameBytes ∧
        validateResult wire.validatePinned back {} = .ok () := by
  have hsize := (marshalFrame_ok hvalid hframe).1
  exact i.parse_ok_iff hw hsize hsize hback hcollision

/-! ## A result and lines to interleave -/

/-- A line of `length` bytes. -/
def filler (length : Nat) : Bytes := List.replicate length 0x78

/-- A resolution that failed before its child was started, with a message of `length + 1` bytes. -/
def sampleResult (length : Nat) : Result where
  protocolVersion := 1
  operation := .resolve
  operationID := bytes "op"
  childExitCode := -1
  error := some ⟨bytes "invalid_input", filler (length + 1)⟩

def resultKeys : List Bytes :=
  ["protocolVersion", "operation", "operationId", "childExitCode", "stdout", "error"].map bytes

def errorKeys : List Bytes := ["code", "message"].map bytes

/-- The document of a result that failed before its child was started. -/
def resultDocument (r : Result) : Json :=
  .record resultKeys [.int r.protocolVersion, .string r.operation.name, .string r.operationID,
    .int r.childExitCode, .string r.stdout,
    (r.error.map fun e => Json.record errorKeys [.string e.code, .string e.message]).getD .null]

def readResult (value : Json) : Option Result :=
  match value.fields? resultKeys with
  | some [version, .string operation, .string operationID, exitCode, .string stdout, error] =>
    match version.int?, exitCode.int?, error.fields? errorKeys with
    | some protocolVersion, some childExitCode, some [.string code, .string message] => some {
      protocolVersion
      operation := .ofName operation
      operationID
      childExitCode
      stdout
      error := some ⟨code, message⟩ }
    | _, _, _ => none
  | _ => none

/-- A wire with results in JSON, and a digest that tells `payload` from other texts. -/
def sampleWire (payload : Bytes) : Wire where
  marshal r := (resultDocument r).write
  unmarshal data := (Json.parse data).bind readResult
  members data :=
    match Json.parse data with
    | some (.object members) => some (members.map fun member => (member.1, member.2.write))
    | _ => none
  sha256 text := List.replicate 32 (if text = payload then 1 else 0)
  validatePinned _ _ := true

def samplePayload (length : Nat) : Bytes := (resultDocument (sampleResult length)).write

theorem sampleWire_marshal (payload : Bytes) (length : Nat) :
    (sampleWire payload).marshal (sampleResult length) = samplePayload length := rfl

def sampleFront : Bytes :=
  bytes "\x7b\"protocolVersion\":1,\"operation\":\"resolve\",\"operationId\":\"op\",\"childExitCode\":-1," ++
    bytes "\"stdout\":\"\",\"error\":\x7b\"code\":\"invalid_input\",\"message\":\""

theorem filler_unescaped (length : Nat) : ∀ c ∈ filler length, Go.Unescaped true c := fun c hc =>
  List.eq_of_mem_replicate hc ▸ ⟨by decide, by decide⟩

theorem samplePayload_eq (length : Nat) :
    samplePayload length = sampleFront ++ (filler (length + 1) ++ bytes "\"\x7d\x7d") := by
  have hmessage := Go.escape_of_unescaped (filler_unescaped (length + 1))
  simp only [samplePayload, resultDocument, sampleResult, Option.map_some, Option.getD_some, Json.record, resultKeys,
    errorKeys, List.map_cons, List.map_nil, List.zip_cons_cons, List.zip_nil_left, Json.write, Json.encode,
    Json.encodeMembers, Json.joined, Go.quote, hmessage, List.cons_append, List.append_assoc, List.nil_append]
  rfl

theorem plainLine_of_notMem (hline : newline ∉ line) (hmarker : 0x50 ∉ line) :
    PlainLine line :=
  ⟨hline, fun h => hmarker (h.subset (by decide)), fun h => hmarker (h.subset (by decide))⟩

theorem filler_plain (length : Nat) : PlainLine (filler length) := by
  refine plainLine_of_notMem (fun h => ?_) (fun h => ?_) <;>
    exact absurd (List.eq_of_mem_replicate h) (by decide)

theorem samplePayload_notMem {length : Nat} {c : UInt8} (hfront : c ∉ sampleFront ++ bytes "\"\x7d\x7d")
    (hc : c ≠ 0x78) : c ∉ samplePayload length := by
  simp only [List.mem_append, not_or] at hfront
  simp [samplePayload_eq, filler, List.mem_replicate, hfront, hc]

theorem samplePayload_plain (length : Nat) : PlainLine (samplePayload length) :=
  plainLine_of_notMem (samplePayload_notMem (by decide) (by decide)) (samplePayload_notMem (by decide) (by decide))

theorem sampleWire_lawful (payload : Bytes) : (sampleWire payload).Lawful where
  oneLine _ h := absurd (Json.le_of_mem_encode _ _ h) (by decide)
  opens _ := rfl
  ends r := by
    change (0x7b :: Json.joined 0x7d _).getLast? = _
    rw [List.getLast?_cons, Json.getLast?_joined]
    rfl
  digest _ := List.length_replicate

theorem sampleWire_collision {payload : Bytes}
    (h : (sampleWire payload).sha256 line = (sampleWire payload).sha256 payload) : line = payload := by
  by_contra hne
  simp [sampleWire, hne] at h

theorem sampleWire_valid (payload : Bytes) (length : Nat) :
    validateResult (sampleWire payload).validatePinned (sampleResult length) {} = .ok () := rfl

theorem sampleWire_reads (payload : Bytes) (length : Nat) :
    (sampleWire payload).unmarshal (samplePayload length) = some (sampleResult length) := by
  have hmessage : Go.toValid (filler (length + 1)) = filler (length + 1) :=
    (Go.toValid_eq_iff _).2 (Go.validText_ascii fun c hc => (filler_unescaped _ c hc).1)
  have htexts : Operation.ofName (Go.toValid (bytes "resolve")) = .resolve ∧ Go.toValid (bytes "op") = bytes "op" ∧
      Go.toValid (bytes "invalid_input") = bytes "invalid_input" ∧ Go.toValid [] = [] := by decide +kernel
  have hkeys : resultKeys.map Go.toValid = resultKeys ∧ errorKeys.map Go.toValid = errorKeys := by decide +kernel
  simp only [sampleWire, samplePayload, Json.parse_write, Option.bind_some, readResult, resultDocument]
  rw [Json.fields?_record hkeys.1 (by simp [resultKeys]), if_pos rfl]
  simp only [sampleResult, List.map_cons, List.map_nil, Option.map_some, Option.getD_some, Json.readBack,
    Json.readBack_int, Json.int?_int, Operation.name, htexts]
  rw [Json.fields?_record hkeys.2 (by simp [errorKeys]), if_pos rfl]
  simp only [List.map_cons, List.map_nil, Json.readBack, htexts, hmessage]

theorem length_filler (length : Nat) : (filler length).length = length := List.length_replicate

theorem length_samplePayload (length : Nat) : (samplePayload length).length = length + 140 := by
  have hfront : sampleFront.length = 136 := rfl
  rw [samplePayload_eq, List.length_append, List.length_append, length_filler, hfront]
  change 136 + (length + 1 + 3) = _
  omega

theorem sampleWire_frame {length : Nat} (h : length + 140 ≤ defaultMaxFrameBytes) :
    ∃ frame, marshalFrame (sampleWire (samplePayload length)) (sampleResult length) = .ok frame := by
  have hsize : ¬ defaultMaxFrameBytes < (samplePayload length).length := by
    rw [length_samplePayload]
    omega
  have hversion : (sampleResult length).protocolVersion ≠ 0 := by change (1 : Int) ≠ 0; decide
  refine ⟨(framed (sampleWire (samplePayload length)) (samplePayload length), bytes "sha256:" ++ Go.hexEncode
    ((sampleWire (samplePayload length)).sha256 (samplePayload length))), ?_⟩
  rw [marshalFrame, if_neg hversion]
  rw [sampleWire_valid]
  exact if_neg hsize

/-- Lines in a frame, and none around it. -/
def linesIn (ahead behind : List Bytes) (plain : ∀ line ∈ ahead ++ behind, PlainLine line)
    (near : (unlines newline ahead).length ≤ maxInterleavedFrameBytes)
    (close : (unlines newline behind).length < maxInterleavedFrameBytes) : Interleaved where
  before := []
  ahead := ahead
  behind := behind
  after := []
  plain := plain
  free := by decide
  near := near
  close := close

/-- A line of exactly the payload's length ahead of it. -/
theorem parseResult_interleaved_line :
    ∃ i : Interleaved, i.ahead = [filler 148] ∧ i.behind = [filler 3] ∧
      parseResult (sampleWire (samplePayload 8))
        (i.log (sampleWire (samplePayload 8)) (samplePayload 8)) = .ok (sampleResult 8) := by
  obtain ⟨frame, hframe⟩ := @sampleWire_frame 8 (by decide)
  refine ⟨linesIn [filler 148] [filler 3] ?_ (by decide +kernel) (by decide), rfl, rfl, ?_⟩
  · intro line hl
    simp only [List.cons_append, List.nil_append, List.mem_cons, List.not_mem_nil, or_false] at hl
    rcases hl with rfl | rfl <;> exact filler_plain _
  · exact (parseResult_interleaved_iff (sampleWire_lawful _) (sampleWire_valid _ 8) hframe (sampleWire_reads _ 8) _
      fun line _ => sampleWire_collision).2 ⟨by decide +kernel, sampleWire_valid _ 8⟩

/-- A copy of the payload line ahead of it, and too much between the copy and the footer. -/
theorem parseResult_copied :
    ∃ i : Interleaved, i.ahead = [samplePayload 39860, filler 25000] ∧ i.behind = [filler 1000] ∧
      (∃ frame, marshalFrame (sampleWire (samplePayload 39860)) (sampleResult 39860) = .ok frame) ∧
      parseResult (sampleWire (samplePayload 39860))
        (i.log (sampleWire (samplePayload 39860)) (samplePayload 39860)) ≠ .ok (sampleResult 39860) := by
  refine ⟨linesIn [samplePayload 39860, filler 25000] [filler 1000] ?_ ?_ ?_, rfl, rfl,
    sampleWire_frame (by decide), fun hok => ?_⟩
  · intro line hl
    simp only [List.cons_append, List.nil_append, List.mem_cons, List.not_mem_nil, or_false] at hl
    rcases hl with rfl | rfl | rfl
    · exact samplePayload_plain _
    · exact filler_plain _
    · exact filler_plain _
  · simp [Scan.length_unlines, length_samplePayload, length_filler, maxInterleavedFrameBytes]
  · simp [Scan.length_unlines, length_filler, maxInterleavedFrameBytes]
  · have hsize : (samplePayload 39860).length ≤ defaultMaxFrameBytes := by
      rw [length_samplePayload]
      decide
    have hlimit : (samplePayload 39860).length ≤ ({} : ParseOptions).limit := hsize
    have hdistance := ((@Interleaved.parse_ok_iff (sampleWire (samplePayload 39860)) {} (sampleResult 39860) _ _
      (sampleWire_lawful _) hsize hlimit (sampleWire_reads _ _)
      fun line _ => sampleWire_collision).1 hok).1
    simp [sampleWire_marshal, linesIn, toFooter, Scan.length_unlines, length_samplePayload, length_filler,
      maxInterleavedFrameBytes] at hdistance

end Ptah.Runner
