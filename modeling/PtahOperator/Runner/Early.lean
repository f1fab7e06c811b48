import PtahOperator.Runner.Interleaving

/-!
# Logs read too early

A log that is read before the container is done is cut off anywhere: in front of the marker, in the
header line, between lines, in the payload or in the footer. The parser tells a frame that may still
arrive from one that is malformed by what is left of the log.

* `turn_missing`: in front of the end of the payload line, the frame may still arrive.
* `turn_unclosed`: behind it, the length of the rest of the log decides.
-/

namespace Ptah.Runner

open Go (Bytes bytes newline)
open Scan (unlines)

variable {wire : Wire} {options : ParseOptions}

variable {early : Bytes}

section Turn

variable {payload : Bytes} {first rest : List Bytes}

/-- A part of a line is one line, and begins as a footer does only if the line does. -/
theorem part_line {part line : Bytes} (hpart : part <+: line)
    (hline : newline ∉ line ∧ ¬ footerText <+: line) : newline ∉ part ∧ ¬ footerText <+: part :=
  ⟨fun h => hline.1 (hpart.subset h), fun h => hline.2 (h.trans hpart)⟩

theorem footer_free {lines : List Bytes} {part : Bytes}
    (h : ∀ line ∈ lines ++ [part], newline ∉ line ∧ ¬ footerText <+: line) :
    ¬ frameFooter <:+: unlines newline lines ++ part := by
  intro hfooter
  obtain ⟨line, hl, hbegins⟩ := Scan.line_of_occurs newline_notMem_footerText
    (fun line hl => (h line (List.mem_append_left _ hl)).1) (h part (by simp)).1 hfooter
  exact (h line hl).2 hbegins

/-- What has arrived in front of the end of the payload line: complete lines that are not the payload,
and a part of a line. No footer is among them. -/
theorem FirstPayload.part (hfirst : FirstPayload wire payload first rest)
    (hpayload : newline ∉ payload ∧ ¬ footerText <+: payload)
    (h : early <+: unlines newline first ++ payload) :
    ∃ lines part, early = unlines newline lines ++ part ∧ newline ∉ part ∧ lines <+: first ∧
      ¬ frameFooter <:+: early := by
  obtain ⟨lines, part, hlines, hpart, rfl⟩ := Scan.prefix_unlines h
  have hlast : newline ∉ part ∧ ¬ footerText <+: part := by
    rcases hpart with ⟨line, hl, hpart⟩ | ⟨-, hpart⟩
    · exact part_line hpart (hfirst.noFooter line (List.mem_append_left _ hl))
    · exact part_line hpart hpayload
  refine ⟨lines, part, rfl, hlast.1, hlines, footer_free fun line hl => ?_⟩
  rcases List.mem_append.1 hl with hl | hl
  · exact hfirst.noFooter line (List.mem_append_left _ (hlines.subset hl))
  · exact List.mem_singleton.1 hl ▸ hlast

/-- The turn at the header of a frame whose payload line has not arrived yet. -/
theorem turn_missing (hfirst : FirstPayload wire payload first rest)
    (hpayload : newline ∉ payload ∧ ¬ footerText <+: payload)
    (hdigest : (wire.sha256 payload).length = 32) (hsize : payload.length ≤ defaultMaxFrameBytes)
    (hlimit : payload.length ≤ options.limit)
    (h : early <+: unlines newline first ++ payload) :
    ∃ reason, (turn wire options maxFrameSearchBytes (headerFields wire payload ++ newline :: early)).1 =
      .rejected (.incomplete reason) := by
  rw [turn, readHeader_headerFields _ hdigest hsize hlimit]
  dsimp only
  by_cases hshort : early.length < payload.length
  · rw [if_pos hshort]
    exact ⟨_, rfl⟩
  rw [if_neg hshort, if_neg (by decide)]
  have hlength : early.length ≤ (unlines newline first).length + payload.length := by
    have := h.length_le
    rwa [List.length_append] at this
  have hnear := hfirst.near
  obtain ⟨lines, part, rfl, hpart, hlines, hfooter⟩ := hfirst.part hpayload h
  have hbound : (unlines newline lines).length ≤ maxInterleavedFrameBytes := by
    obtain ⟨more, rfl⟩ := hlines
    rw [Scan.unlines_append, List.length_append] at hnear
    omega
  obtain ⟨hfound, hclosed⟩ := findFramePayload_missing
    (fun line hl => hfirst.noPayload line (hlines.subset hl)) hpart hbound hfooter
  rw [searchVerdict, hfound, hclosed]
  rw [if_neg Bool.false_ne_true, unclosed, if_pos (by omega)]
  exact ⟨_, rfl⟩

/-- The turn at the header of a frame whose payload line has arrived, and whose footer has not. -/
theorem turn_unclosed (hfirst : FirstPayload wire payload first rest) (hline : newline ∉ payload)
    (hdigest : (wire.sha256 payload).length = 32) (hsize : payload.length ≤ defaultMaxFrameBytes)
    (hlimit : payload.length ≤ options.limit) {tail : Bytes}
    (htail : tail <+: unlines newline rest ++ footerText)
    (hne : tail ≠ unlines newline rest ++ footerText) :
    (turn wire options maxFrameSearchBytes (headerFields wire payload ++ newline ::
        (unlines newline first ++ (payload ++ newline :: tail)))).1 =
      .rejected (unclosed (tail.length + 1)) := by
  obtain ⟨lines, part, hlines, hpart, rfl⟩ := Scan.prefix_unlines htail
  have hlast : newline ∉ part ∧ ¬ footerText <+: part := by
    rcases hpart with ⟨line, hl, hpart⟩ | ⟨rfl, hpart⟩
    · exact part_line hpart (hfirst.noFooter line (List.mem_append_right _ hl))
    · refine ⟨fun h => newline_notMem_footerText (hpart.subset h), fun h => hne ?_⟩
      rw [hpart.eq_of_length_le h.length_le]
  have hfooter : ¬ frameFooter <:+: newline :: (unlines newline lines ++ part) := by
    -- The newline behind the payload ends an empty line.
    have hempty : newline :: (unlines newline lines ++ part) =
        unlines newline ([] :: lines) ++ part := rfl
    rw [hempty]
    refine footer_free fun line hl => ?_
    simp only [List.cons_append, List.mem_cons, List.mem_append, List.not_mem_nil, or_false] at hl
    rcases hl with rfl | hl | rfl
    · exact ⟨List.not_mem_nil, by decide⟩
    · exact hfirst.noFooter line (List.mem_append_right _ (hlines.subset hl))
    · exact hlast
  have hend : frameFooterEnd (newline :: (unlines newline lines ++ part)) = none := by
    rw [frameFooterEnd, if_pos (by rfl), footerWithin_none hfooter]
  rw [turn_found hfirst hline hdigest hsize hlimit, hend]

/-- The turn at the header of a frame of which `early` has arrived. -/
theorem turn_early (hfirst : FirstPayload wire payload first rest)
    (hpayload : newline ∉ payload ∧ ¬ footerText <+: payload)
    (hdigest : (wire.sha256 payload).length = 32) (hsize : payload.length ≤ defaultMaxFrameBytes)
    (hlimit : payload.length ≤ options.limit)
    (hclose : (unlines newline rest).length < maxInterleavedFrameBytes) {after : Bytes}
    (h : early <+: unlines newline first ++ (payload ++ newline ::
      (unlines newline rest ++ (footerText ++ after)))) :
    (∃ reason, (turn wire options maxFrameSearchBytes (headerFields wire payload ++ newline :: early)).1 =
        .rejected (.incomplete reason)) ∨
      (∃ length, length ≤ (unlines newline rest).length + footerText.length ∧
        (turn wire options maxFrameSearchBytes (headerFields wire payload ++ newline :: early)).1 =
          .rejected (unclosed length)) ∨
      ∃ next, next <+: after ∧
        (turn wire options maxFrameSearchBytes (headerFields wire payload ++ newline :: early)).1 =
          judged wire options payload next := by
  rw [← List.append_assoc] at h
  rcases Scan.prefix_append_cases h with h | ⟨tail, htail, rfl⟩
  · exact .inl (turn_missing hfirst hpayload hdigest hsize hlimit h)
  cases tail with
  | nil =>
    rw [List.append_nil]
    exact .inl (turn_missing hfirst hpayload hdigest hsize hlimit List.prefix_rfl)
  | cons c tail =>
    obtain ⟨rfl, harrived⟩ := List.cons_prefix_cons.1 htail
    rw [← List.append_assoc] at harrived
    rw [List.append_assoc]
    rcases Scan.prefix_append_cases harrived with htail | ⟨next, hnext, rfl⟩
    · by_cases hwhole : tail = unlines newline rest ++ footerText
      · -- The footer has just arrived.
        refine .inr (.inr ⟨[], List.nil_prefix, ?_⟩)
        have hend := @frameFooterEnd_unlines rest [] fun l hl =>
          hfirst.noFooter l (List.mem_append_right _ hl)
        rw [if_pos hclose, List.append_nil] at hend
        rw [turn_found hfirst hpayload.1 hdigest hsize hlimit, hwhole, hend]
      · refine .inr (.inl ⟨tail.length + 1, ?_,
          turn_unclosed hfirst hpayload.1 hdigest hsize hlimit htail hwhole⟩)
        have hlt : tail.length < (unlines newline rest ++ footerText).length :=
          Nat.lt_of_le_of_ne htail.length_le fun hlen => hwhole (htail.eq_of_length hlen)
        rw [List.length_append] at hlt
        omega
    · refine .inr (.inr ⟨next, hnext, ?_⟩)
      have hend := @frameFooterEnd_unlines rest next fun l hl =>
        hfirst.noFooter l (List.mem_append_right _ hl)
      rw [if_pos hclose] at hend
      rw [turn_found hfirst hpayload.1 hdigest hsize hlimit, List.append_assoc, hend]

end Turn

/-! ## A log read too early is never a verdict -/

/-- With no marker in the payload, a log has one marker. -/
theorem Interleaved.behind_free (i : Interleaved) {payload : Bytes}
    (hmarker : ¬ frameHeader <:+: payload) :
    ¬ frameHeader <:+: headerFields wire payload ++ newline :: i.window payload := by
  rintro ⟨a, b, hab⟩
  rw [List.append_assoc] at hab
  obtain ⟨u, v, w, rfl, -⟩ := i.marker_in_payload hab.symm
  exact hmarker ⟨u, v, by rw [List.append_assoc]⟩

/-- Lines without the marker, and a part of it, hold no marker. -/
theorem parse_unmarked {lines : List Bytes} {part : Bytes}
    (hlines : ∀ line ∈ lines, ¬ frameHeader <:+: line) (hpart : ¬ frameHeader <:+: part) :
    parseResultWithOptions wire (unlines newline lines ++ part) options = .error .notFound := by
  have hfree : ¬ frameHeader <:+: unlines newline lines ++ part := by
    rintro ⟨a, b, hab⟩
    rw [List.append_assoc] at hab
    rcases Scan.occurs_unlines newline_notMem_frameHeader frameHeader_ne_nil hab.symm with
      ⟨line, hl, u, v, w, rfl, -⟩ | h
    · exact hlines _ hl ⟨u, v, by rw [List.append_assoc]⟩
    · exact hpart h
  rw [parseResultWithOptions, scan_free hfree]
  rfl

/-- A text at the front of the lines before the header, of the marker or of the header line gives no
verdict. -/
theorem Interleaved.parse_front (i : Interleaved) {payload : Bytes}
    (hdigest : (wire.sha256 payload).length = 32) (hsize : payload.length ≤ defaultMaxFrameBytes)
    (h : early <+: unlines newline i.before ++ (frameHeader ++ headerFields wire payload)) :
    ∃ failure, parseResultWithOptions wire early options = .error failure ∧
      mayStillArrive failure = true := by
  obtain ⟨lines, part, hlines, hpart, rfl⟩ := Scan.prefix_unlines h
  have hfree : ∀ line ∈ lines, ¬ frameHeader <:+: line := fun line hl =>
    i.before_free line (hlines.subset hl)
  by_cases hmarker : frameHeader <:+: part
  · rcases hpart with ⟨line, hl, hpart⟩ | ⟨rfl, hpart⟩
    · exact absurd (hmarker.trans hpart.isInfix) (i.before_free line hl)
    obtain ⟨fields, hfields, rfl⟩ : ∃ fields, fields <+: headerFields wire payload ∧
        part = frameHeader ++ fields := by
      rcases Scan.prefix_append_cases hpart with hp | hp
      · exact ⟨[], List.nil_prefix, by
          rw [List.append_nil]
          exact hp.eq_of_length_le hmarker.length_le⟩
      · exact hp
    have hline : newline ∉ fields := fun hm =>
      newline_notMem_headerFields payload (hfields.subset hm)
    have hlen := Nat.le_trans hfields.length_le (length_headerFields hdigest hsize)
    obtain ⟨reason, hread⟩ := @readHeader_part options.limit fields hline hlen
    refine ⟨.incomplete reason, parse_rejected hfree ?_ ?_, rfl⟩
    · rw [turn, hread]
    · exact fun hin => frameHeader_not_infix_headerFields payload (hin.trans hfields.isInfix)
  · exact ⟨.notFound, parse_unmarked hfree hmarker, rfl⟩

section Early

variable (i : Interleaved) (hw : wire.Lawful) {result back : Result}
  (hsize : (wire.marshal result).length ≤ defaultMaxFrameBytes)
  (hlimit : (wire.marshal result).length ≤ options.limit)
  (hcollision : ∀ line ∈ i.ahead,
    wire.sha256 line = wire.sha256 (wire.marshal result) → line = wire.marshal result)
  (hmarker : ¬ frameHeader <:+: wire.marshal result)

include hw hsize hlimit hcollision hmarker

/-- Within the bound, what has arrived of an accepted log gives its result or no verdict. -/
theorem Interleaved.parse_early (hback : wire.unmarshal (wire.marshal result) = some back)
    (hok : parseResultWithOptions wire (i.log wire (wire.marshal result)) options = .ok back)
    (hbound : toFooter (wire.marshal result) i.behind i.ahead + footerText.length ≤
      maxInterleavedFrameBytes)
    (h : early <+: i.log wire (wire.marshal result)) :
    parseResultWithOptions wire early options = .ok back ∨
      ∃ failure, parseResultWithOptions wire early options = .error failure ∧
        mayStillArrive failure = true := by
  obtain ⟨hclose, hvalid⟩ := (i.parse_ok_iff hw hsize hlimit hback hcollision).1 hok
  obtain ⟨first, rest, hfirst, hwindow, hdistance⟩ :=
    i.firstPayload (hw.oneLine result) (hw.opens result) hcollision
  have hpayload : newline ∉ wire.marshal result ∧ ¬ footerText <+: wire.marshal result :=
    ⟨hw.oneLine result, footerText_not_prefix (hw.opens result)⟩
  rw [Interleaved.log, ← List.append_assoc frameHeader, ← List.append_assoc] at h
  rcases Scan.prefix_append_cases h with h | ⟨window, hin, rfl⟩
  · exact .inr (i.parse_front (hw.digest _) hsize h)
  cases window with
  | nil =>
    rw [List.append_nil]
    exact .inr (i.parse_front (hw.digest _) hsize List.prefix_rfl)
  | cons c window =>
    obtain ⟨rfl, harrived⟩ := List.cons_prefix_cons.1 hin
    have hfree : ¬ frameHeader <:+: headerFields wire (wire.marshal result) ++ newline :: window :=
      fun hm => i.behind_free hmarker (hm.trans ((List.prefix_append_right_inj _).2 hin).isInfix)
    rw [List.append_assoc, List.append_assoc]
    rw [hwindow] at harrived
    rcases turn_early hfirst hpayload (hw.digest _) hsize hlimit (hdistance ▸ hclose) harrived with
      ⟨reason, hturn⟩ | ⟨length, hle, hturn⟩ | ⟨next, hnext, hturn⟩
    · exact .inr ⟨_, parse_rejected i.before_free hturn hfree, rfl⟩
    · refine .inr ⟨_, parse_rejected i.before_free hturn hfree, ?_⟩
      rw [unclosed, if_pos (by omega)]
      rfl
    · rw [judged, (judge_accepted_iff hback).2 hvalid] at hturn
      exact .inl (parse_accepted i.before_free hturn fun hm =>
        i.after_free (hm.trans hnext.isInfix))

/-- The log up to the last byte of the footer's text. -/
theorem Interleaved.parse_before_footer :
    ∃ early, early <+: i.log wire (wire.marshal result) ∧ early ≠ i.log wire (wire.marshal result) ∧
      parseResultWithOptions wire early options =
        .error (unclosed (toFooter (wire.marshal result) i.behind i.ahead + footerText.length)) := by
  obtain ⟨first, rest, hfirst, hwindow, hdistance⟩ :=
    i.firstPayload (hw.oneLine result) (hw.opens result) hcollision
  have htail : unlines newline rest ++ footerText.dropLast <+: unlines newline rest ++ footerText :=
    (List.prefix_append_right_inj _).2 (List.dropLast_prefix _)
  have hne : unlines newline rest ++ footerText.dropLast ≠ unlines newline rest ++ footerText :=
    fun h => absurd (List.append_cancel_left h) (by decide)
  have hturn := @turn_unclosed wire options _ _ _ hfirst (hw.oneLine result) (hw.digest _) hsize hlimit
    _ htail hne
  have hearly : headerFields wire (wire.marshal result) ++ newline :: (unlines newline first ++
      (wire.marshal result ++ newline :: (unlines newline rest ++ footerText.dropLast))) <+:
      headerFields wire (wire.marshal result) ++ newline :: i.window (wire.marshal result) := by
    rw [hwindow]
    refine (List.prefix_append_right_inj _).2 (List.cons_prefix_cons.2 ⟨rfl,
      (List.prefix_append_right_inj _).2 ((List.prefix_append_right_inj _).2
        (List.cons_prefix_cons.2 ⟨rfl, ?_⟩))⟩)
    rw [← List.append_assoc]
    exact htail.trans (List.prefix_append _ _)
  refine ⟨unlines newline i.before ++ (frameHeader ++ _), ?_, fun heq => ?_,
    parse_rejected i.before_free (hturn.trans ?_) fun hm => i.behind_free hmarker
      (hm.trans hearly.isInfix)⟩
  · exact (List.prefix_append_right_inj _).2 ((List.prefix_append_right_inj _).2 hearly)
  · have hlen := congrArg List.length heq
    rw [Interleaved.log, hwindow] at hlen
    simp only [List.length_append, List.length_cons, List.length_dropLast] at hlen
    omega
  · rw [List.length_append, hdistance]
    rfl

end Early

/-- A log read too early is never a verdict.

For every accepted log with one marker: what has arrived of it parses to the same result or fails with
an error after which it may still arrive, exactly if the whole footer lies within the bound behind the
first line that is the payload. -/
theorem parseResultFor_early_iff (hw : wire.Lawful) {result back : Result} {frame : Bytes × Bytes}
    (hvalid : validateResult wire.validatePinned result {} = .ok ())
    (hframe : marshalFrame wire result = .ok frame)
    (hback : wire.unmarshal (wire.marshal result) = some back) (i : Interleaved)
    (hcollision : ∀ line ∈ i.ahead,
      wire.sha256 line = wire.sha256 (wire.marshal result) → line = wire.marshal result)
    (hmarker : ¬ frameHeader <:+: wire.marshal result) (operation : Operation) (operationID : Bytes)
    (hok : parseResultFor wire (i.log wire (wire.marshal result)) operation operationID = .ok back) :
    (∀ early, early <+: i.log wire (wire.marshal result) → early ≠ i.log wire (wire.marshal result) →
      parseResultFor wire early operation operationID = .ok back ∨
        ∃ failure, parseResultFor wire early operation operationID = .error failure ∧
          mayStillArrive failure = true) ↔
      toFooter (wire.marshal result) i.behind i.ahead + footerText.length ≤
        maxInterleavedFrameBytes := by
  have hsize := (marshalFrame_ok hvalid hframe).1
  have hlimit : (wire.marshal result).length ≤ (optionsFor operation operationID).limit := hsize
  unfold parseResultFor at hok ⊢
  constructor
  · intro h
    obtain ⟨early, hearly, hne, hparse⟩ := i.parse_before_footer hw hsize hlimit hcollision hmarker
    by_contra hbound
    rw [unclosed, if_neg hbound] at hparse
    rcases h early hearly hne with hgood | ⟨failure, hfailed, harrive⟩
    · exact absurd (hparse.symm.trans hgood) (by simp)
    · obtain rfl := Except.error.inj (hparse.symm.trans hfailed)
      exact absurd harrive (by decide)
  · intro hbound early hearly _
    exact i.parse_early hw hsize hlimit hcollision hmarker hback hok hbound hearly

theorem sampleWire_accepted (i : Interleaved) {length : Nat} (h : length + 140 ≤ defaultMaxFrameBytes)
    (hclose : toFooter (samplePayload length) i.behind i.ahead < maxInterleavedFrameBytes) :
    parseResultFor (sampleWire (samplePayload length))
      (i.log (sampleWire (samplePayload length)) (samplePayload length)) .resolve (bytes "op") =
        .ok (sampleResult length) := by
  have hsize : (samplePayload length).length ≤ defaultMaxFrameBytes :=
    length_samplePayload length ▸ h
  refine (@Interleaved.parse_ok_iff (sampleWire (samplePayload length))
    (optionsFor .resolve (bytes "op")) (sampleResult length) _ i (sampleWire_lawful _) hsize hsize
    (sampleWire_reads _ _) fun line _ => sampleWire_collision).2 ⟨hclose, rfl⟩

/-- A frame with two lines in it. -/
theorem parseResultFor_early_line :
    ∃ i : Interleaved, i.ahead = [filler 148] ∧ i.behind = [filler 3] ∧
      ∀ early, early <+: i.log (sampleWire (samplePayload 8)) (samplePayload 8) →
        early ≠ i.log (sampleWire (samplePayload 8)) (samplePayload 8) →
        parseResultFor (sampleWire (samplePayload 8)) early .resolve (bytes "op") = .ok (sampleResult 8) ∨
          ∃ failure, parseResultFor (sampleWire (samplePayload 8)) early .resolve (bytes "op") =
            .error failure ∧ mayStillArrive failure = true := by
  obtain ⟨frame, hframe⟩ := @sampleWire_frame 8 (by decide)
  refine ⟨linesIn [filler 148] [filler 3] ?_ (by decide +kernel) (by decide), rfl, rfl, ?_⟩
  · intro line hl
    simp only [List.cons_append, List.nil_append, List.mem_cons, List.not_mem_nil, or_false] at hl
    rcases hl with rfl | rfl <;> exact filler_plain _
  · exact (parseResultFor_early_iff (sampleWire_lawful _) (sampleWire_valid _ 8) hframe (sampleWire_reads _ 8) _
      (fun line _ => sampleWire_collision) (samplePayload_plain 8).noMarker .resolve (bytes "op")
      (sampleWire_accepted _ (by decide) (by decide +kernel))).2 (by decide +kernel)

/-- A footer that begins in the last byte of the bound: read up to the footer's last byte, the log is
malformed. -/
theorem parseResultFor_early_malformed :
    ∃ i : Interleaved, i.ahead = [] ∧ i.behind = [filler 65534] ∧
      parseResultFor (sampleWire (samplePayload 8))
        (i.log (sampleWire (samplePayload 8)) (samplePayload 8)) .resolve (bytes "op") =
          .ok (sampleResult 8) ∧
      ∃ early failure, early <+: i.log (sampleWire (samplePayload 8)) (samplePayload 8) ∧
        parseResultFor (sampleWire (samplePayload 8)) early .resolve (bytes "op") = .error failure ∧
          mayStillArrive failure = false := by
  have hlen : (unlines newline [filler 65534]).length = 65535 := by
    rw [Scan.length_unlines]
    simp [length_filler]
  have hclose : (unlines newline [filler 65534]).length < maxInterleavedFrameBytes := by
    rw [hlen]
    decide
  refine ⟨linesIn [] [filler 65534] (fun line hl => ?_) (by decide) hclose, rfl, rfl,
    sampleWire_accepted _ (by decide) hclose, ?_⟩
  · obtain rfl := List.mem_singleton.1 hl
    exact filler_plain _
  obtain ⟨early, hearly, -, hparse⟩ := @Interleaved.parse_before_footer
    (sampleWire (samplePayload 8)) (optionsFor .resolve (bytes "op"))
    (linesIn [] [filler 65534] _ (by decide) hclose) (sampleWire_lawful _) (sampleResult 8)
    (by decide +kernel) (by decide +kernel) (fun line _ => sampleWire_collision) (samplePayload_plain 8).noMarker
  refine ⟨early, _, hearly, hparse, ?_⟩
  have hbeyond : ¬ toFooter ((sampleWire (samplePayload 8)).marshal (sampleResult 8)) [filler 65534] [] +
      footerText.length ≤ maxInterleavedFrameBytes := by
    rw [toFooter, hlen]
    decide
  rw [unclosed]
  exact congrArg mayStillArrive (if_neg hbeyond)

end Ptah.Runner
