import PtahOperator.Runner.Frame
import PtahOperator.Scan.Index

/-!
# The footer scan

The two searches for the footer that closes a payload (`internal/runner/protocol.go`), over positions
of the log as the source has them.

* `frameFooterEndAt`: the direct search (`frameFooterEnd`). It walks the lines behind one payload end,
  up to a limit of that payload end.
* `FooterScan`: the search whose cursor moves forward with the questions, under one limit for the whole
  frame.

The cursor stands at the first footer behind a position that no question has passed
(`FooterScan.Seeks`); a question moves that position to the payload end it asks about
(`seeks_closes`). Both searches then answer whether a footer begins within the bound behind the payload
end. `Runner.Frame`, which takes a position as the text from there on and keeps no cursor, computes the
same (`frameFooterEndAt_drop`, `findFramePayload_eq_scan`).
-/

namespace Ptah.Runner

open Go (Bytes newline)
open Scan (Occurs seek seek_eq_some seek_eq_none seek_of_le seek_any_lt seek_any_sub_lt)

/-! ## The direct search -/

/-- The loop of `frameFooterEnd`, at the line that begins at `lineStart`. -/
def footerLines (logs : Bytes) (limit lineStart : Nat) : Option Nat :=
  if lineStart < limit then
    match Scan.index [newline] ((logs.take limit).drop lineStart) with
    | none => none
    | some lineEndRelative =>
      let lineEnd := lineStart + lineEndRelative
      if frameFooter.isPrefixOf (logs.drop lineEnd) then some (lineEnd + frameFooter.length)
      else footerLines logs limit (lineEnd + 1)
  else none
termination_by limit - lineStart

/-- `frameFooterEnd`: the end of the footer that closes the payload that ends at `payloadEnd`. -/
def frameFooterEndAt (logs : Bytes) (payloadEnd : Nat) : Option Nat :=
  if frameFooter.isPrefixOf (logs.drop payloadEnd) then some (payloadEnd + frameFooter.length)
  else if logs[payloadEnd]? = some newline then
    footerLines logs (min (payloadEnd + maxInterleavedFrameBytes) logs.length) (payloadEnd + 1)
  else none

/-! ## The scan -/

/-- `footerScan`. No cursor is the source's `-1`. -/
structure FooterScan where
  logs : Bytes
  /-- One past the furthest byte that a footer of this frame could take. -/
  limit : Nat
  /-- The first footer at or behind the last question. -/
  cursor : Option Nat

/-- `newFooterScan`. The source's `from` is `start`. -/
def newFooterScan (logs : Bytes) (start payloadLength : Nat) : FooterScan :=
  let limit :=
    min (start + 2 * maxInterleavedFrameBytes + payloadLength + frameFooter.length) logs.length
  { logs := logs
    limit := limit
    cursor := (Scan.index frameFooter ((logs.take limit).drop start)).map (start + ·) }

/-- The loop of `closes`, from a cursor that stands at a footer. -/
def FooterScan.forward (scan : FooterScan) (payloadEnd cursor : Nat) : Option Nat :=
  if cursor < payloadEnd then
    match Scan.index frameFooter ((scan.logs.take scan.limit).drop (cursor + 1)) with
    | none => none
    | some found => scan.forward payloadEnd (cursor + (1 + found))
  else some cursor
termination_by payloadEnd - cursor

/-- `closes`: the answer, and the scan with its cursor moved. -/
def FooterScan.closes (scan : FooterScan) (payloadEnd : Nat) : Bool × FooterScan :=
  let cursor := scan.cursor.bind (scan.forward payloadEnd)
  (cursor.any fun found => found - payloadEnd < maxInterleavedFrameBytes, { scan with cursor := cursor })

/-- The answers to one question after another. -/
def FooterScan.answers (scan : FooterScan) : List Nat → List Bool
  | [] => []
  | payloadEnd :: later =>
    (scan.closes payloadEnd).1 :: (scan.closes payloadEnd).2.answers later

/-! ## Footers by position -/

theorem frameFooter_ne_nil : frameFooter ≠ [] := by decide

section Direct

variable {logs : Bytes} {limit lineStart payloadEnd i : Nat}

theorem occurs_whole (h : frameFooter <+: logs.drop i) : Occurs frameFooter logs logs.length i := by
  refine ⟨h, ?_⟩
  have hle := h.length_le
  have hpos : 0 < frameFooter.length := by decide
  rw [List.length_drop] at hle
  omega

theorem newline_of_footer (h : frameFooter <+: logs.drop i) : [newline] <+: logs.drop i :=
  List.IsPrefix.trans ⟨footerText, rfl⟩ h

/-- The loop of the direct search finds the first footer that begins in front of its limit. A footer
begins with a newline, and the loop goes from one newline to the next. -/
theorem footerLines_eq : footerLines logs limit lineStart =
    ((seek frameFooter logs logs.length lineStart).filter (· < limit)).map
      (· + frameFooter.length) := by
  fun_induction footerLines logs limit lineStart with
  | case1 lineStart hlt hnone =>
    -- no newline is left in front of the limit
    have hfirst : ∀ i, seek frameFooter logs logs.length lineStart = some i → ¬ i < limit := by
      intro i hi hbound
      obtain ⟨hle, hocc, _⟩ := (seek_eq_some frameFooter_ne_nil).1 hi
      have hline : seek [newline] logs limit lineStart = none := by rw [seek, hnone]; rfl
      exact (seek_eq_none (by decide)).1 hline i hle
        ⟨newline_of_footer hocc.1, Nat.succ_le_of_lt hbound⟩
    cases hn : seek frameFooter logs logs.length lineStart with
    | none => rfl
    | some i =>
      have hfar : limit ≤ i := Nat.le_of_not_lt (hfirst i hn)
      simp [hfar]
  | case2 lineStart hlt relative hrelative lineEnd hfooter =>
    have hline : seek [newline] logs limit lineStart = some lineEnd := by rw [seek, hrelative]; rfl
    obtain ⟨hle, hocc, hbefore⟩ := (seek_eq_some (by decide)).1 hline
    have hfirst : seek frameFooter logs logs.length lineStart = some lineEnd := by
      refine (seek_eq_some frameFooter_ne_nil).2
        ⟨hle, occurs_whole <| List.isPrefixOf_iff_prefix.1 hfooter, fun j hj hjlt hocc' => ?_⟩
      have hend : lineEnd + 1 ≤ limit := hocc.2
      exact hbefore j hj hjlt ⟨newline_of_footer hocc'.1, by
        rw [List.length_singleton]
        omega⟩
    have hend : lineEnd < limit := hocc.2
    simp [hfirst, hend]
  | case3 lineStart hlt relative hrelative lineEnd hfooter ih =>
    have hline : seek [newline] logs limit lineStart = some lineEnd := by rw [seek, hrelative]; rfl
    obtain ⟨hle, hocc, hbefore⟩ := (seek_eq_some (by decide)).1 hline
    have hend : lineEnd + 1 ≤ limit := hocc.2
    rw [ih]
    rw [seek_of_le frameFooter_ne_nil (Nat.le_succ_of_le hle) fun j hj hjlt hocc' => ?_]
    rcases Nat.lt_or_ge j lineEnd with hj' | hj'
    · exact hbefore j hj hj' ⟨newline_of_footer hocc'.1, by
        rw [List.length_singleton]
        omega⟩
    · obtain rfl : j = lineEnd := by omega
      exact hfooter <| List.isPrefixOf_iff_prefix.2 hocc'.1
  | case4 lineStart hge =>
    cases hn : seek frameFooter logs logs.length lineStart with
    | none => rfl
    | some i =>
      obtain ⟨hle, _, _⟩ := (seek_eq_some frameFooter_ne_nil).1 hn
      have hfar : limit ≤ i := by omega
      simp [hfar]

/-- The direct search finds the first footer that begins within the bound behind a newline. -/
theorem frameFooterEndAt_eq (hnewline : logs[payloadEnd]? = some newline) :
    frameFooterEndAt logs payloadEnd = ((seek frameFooter logs logs.length payloadEnd).filter
        (· < payloadEnd + maxInterleavedFrameBytes)).map (· + frameFooter.length) := by
  rw [frameFooterEndAt, if_pos hnewline]
  by_cases hfooter : frameFooter.isPrefixOf (logs.drop payloadEnd) = true
  · rw [if_pos hfooter]
    have hocc := occurs_whole <| List.isPrefixOf_iff_prefix.1 hfooter
    have hfirst : seek frameFooter logs logs.length payloadEnd = some payloadEnd :=
      (seek_eq_some frameFooter_ne_nil).2 ⟨Nat.le_refl _, hocc, fun j hj hlt => by omega⟩
    have hroom : 0 < maxInterleavedFrameBytes := by decide
    simp [hfirst, hroom]
  · rw [if_neg hfooter, footerLines_eq]
    have hskip : seek frameFooter logs logs.length payloadEnd =
        seek frameFooter logs logs.length (payloadEnd + 1) := by
      refine seek_of_le frameFooter_ne_nil (Nat.le_succ _) fun j hj hlt hocc => ?_
      obtain rfl : j = payloadEnd := by omega
      exact hfooter <| List.isPrefixOf_iff_prefix.2 hocc.1
    rw [hskip]
    cases hn : seek frameFooter logs logs.length (payloadEnd + 1) with
    | none => rw [Option.filter_none, Option.filter_none]
    | some i =>
      obtain ⟨_, hocc, _⟩ := (seek_eq_some frameFooter_ne_nil).1 hn
      have hin : i < logs.length := Nat.lt_of_lt_of_le (Nat.lt_add_of_pos_right (by decide)) hocc.2
      simp [Option.filter_some, hin]

theorem frameFooterEndAt_isSome (hnewline : logs[payloadEnd]? = some newline) :
    (frameFooterEndAt logs payloadEnd).isSome = true ↔
      ∃ i, payloadEnd ≤ i ∧ i < payloadEnd + maxInterleavedFrameBytes ∧
        frameFooter <+: logs.drop i := by
  rw [frameFooterEndAt_eq hnewline, Option.isSome_map, Option.isSome_filter,
    seek_any_lt frameFooter_ne_nil]
  constructor
  · rintro ⟨i, hle, hlt, hocc⟩
    exact ⟨i, hle, hlt, hocc.1⟩
  · rintro ⟨i, hle, hlt, hfooter⟩
    exact ⟨i, hle, hlt, occurs_whole hfooter⟩

end Direct

/-! ## The cursor -/

namespace FooterScan

variable {scan : FooterScan} {position payloadEnd : Nat}

/-- The cursor stands at the first footer at or behind `position`. -/
def Seeks (scan : FooterScan) (position : Nat) : Prop :=
  scan.cursor = seek frameFooter scan.logs scan.limit position

theorem seeks_new (logs : Bytes) (start payloadLength : Nat) :
    (newFooterScan logs start payloadLength).Seeks start := rfl

/-- The loop of `closes` goes from one footer to the next until it reaches the question. -/
theorem forward_eq (scan : FooterScan) (payloadEnd cursor : Nat)
    (hat : Occurs frameFooter scan.logs scan.limit cursor) :
    scan.forward payloadEnd cursor =
      seek frameFooter scan.logs scan.limit (max cursor payloadEnd) := by
  fun_induction FooterScan.forward scan payloadEnd cursor with
  | case1 cursor hlt hnone =>
    have hnext : seek frameFooter scan.logs scan.limit (cursor + 1) = none := by
      rw [seek, hnone]
      rfl
    refine ((seek_eq_none frameFooter_ne_nil).2 fun j hj => ?_).symm
    exact (seek_eq_none frameFooter_ne_nil).1 hnext j (by omega)
  | case2 cursor hlt found hfound ih =>
    have hnext : seek frameFooter scan.logs scan.limit (cursor + 1) = some (cursor + (1 + found)) := by
      rw [seek, hfound, Option.map_some, Nat.add_assoc]
    obtain ⟨hle, hocc, hbefore⟩ := (seek_eq_some frameFooter_ne_nil).1 hnext
    rw [ih hocc, Nat.max_eq_right (Nat.le_of_lt hlt)]
    -- no footer stands between the question and a cursor that jumped past it
    refine (seek_of_le frameFooter_ne_nil (Nat.le_max_right _ _) fun j hj hjlt => ?_).symm
    exact hbefore j (by omega) (by omega)
  | case3 cursor hge =>
    have hge' : payloadEnd ≤ cursor := by omega
    rw [Nat.max_eq_left hge']
    exact ((seek_eq_some frameFooter_ne_nil).2
      ⟨Nat.le_refl _, hat, fun j hj hlt => by omega⟩).symm

theorem cursor_closes (hseeks : scan.Seeks position) (hle : position ≤ payloadEnd) :
    scan.cursor.bind (scan.forward payloadEnd) =
      seek frameFooter scan.logs scan.limit payloadEnd := by
  rw [hseeks]
  cases hn : seek frameFooter scan.logs scan.limit position with
  | none =>
    refine ((seek_eq_none frameFooter_ne_nil).2 fun j hj => ?_).symm
    exact (seek_eq_none frameFooter_ne_nil).1 hn j (Nat.le_trans hle hj)
  | some cursor =>
    obtain ⟨_, hocc, hbefore⟩ := (seek_eq_some frameFooter_ne_nil).1 hn
    rw [Option.bind_some, forward_eq scan payloadEnd cursor hocc]
    refine (seek_of_le frameFooter_ne_nil (Nat.le_max_right _ _) fun j hj hjlt => ?_).symm
    exact hbefore j (by omega) (by omega)

/-- A question leaves the cursor at the first footer behind it, in the same log under the same limit. -/
theorem seeks_closes (hseeks : scan.Seeks position) (hle : position ≤ payloadEnd) :
    (scan.closes payloadEnd).2.Seeks payloadEnd ∧ (scan.closes payloadEnd).2.logs = scan.logs ∧
      (scan.closes payloadEnd).2.limit = scan.limit :=
  ⟨cursor_closes hseeks hle, rfl, rfl⟩

/-- A question is answered by whether a footer begins within the bound behind the payload end. -/
theorem closes_iff (hseeks : scan.Seeks position) (hle : position ≤ payloadEnd) :
    (scan.closes payloadEnd).1 = true ↔
      ∃ i, payloadEnd ≤ i ∧ i < payloadEnd + maxInterleavedFrameBytes ∧
        Occurs frameFooter scan.logs scan.limit i := by
  have hanswer : (scan.closes payloadEnd).1 = (seek frameFooter scan.logs scan.limit payloadEnd).any
      fun found => found - payloadEnd < maxInterleavedFrameBytes := by
    simp only [closes, cursor_closes hseeks hle]
  rw [hanswer, seek_any_sub_lt frameFooter_ne_nil]

/-- The frame's limit leaves room for every footer within the bound of a payload end it is asked
about. -/
theorem closes_eq_direct {scan : FooterScan} {position payloadEnd : Nat} (hseeks : scan.Seeks position)
    (hle : position ≤ payloadEnd)
    (hlimit : min (payloadEnd + maxInterleavedFrameBytes + frameFooter.length) scan.logs.length ≤
      scan.limit)
    (hnewline : scan.logs[payloadEnd]? = some newline) :
    (scan.closes payloadEnd).1 = (frameFooterEndAt scan.logs payloadEnd).isSome := by
  rw [Bool.eq_iff_iff, closes_iff hseeks hle, frameFooterEndAt_isSome hnewline]
  constructor
  · rintro ⟨i, hi, hlt, hocc⟩
    exact ⟨i, hi, hlt, hocc.1⟩
  · rintro ⟨i, hi, hlt, hfooter⟩
    have hwhole := (occurs_whole hfooter).2
    exact ⟨i, hi, hlt, hfooter, by omega⟩

/-- Questions that only move forward are answered as the direct search answers them, whatever the
cursor passed on the way. -/
theorem answers_eq_direct {questions : List Nat} (hseeks : scan.Seeks position)
    (hincreasing : (position :: questions).Pairwise (· ≤ ·))
    (hasked : ∀ payloadEnd ∈ questions, scan.logs[payloadEnd]? = some newline ∧
      min (payloadEnd + maxInterleavedFrameBytes + frameFooter.length) scan.logs.length ≤ scan.limit) :
    scan.answers questions =
      questions.map fun payloadEnd => (frameFooterEndAt scan.logs payloadEnd).isSome := by
  induction questions generalizing scan position with
  | nil => rfl
  | cons payloadEnd later ih =>
    obtain ⟨hfirst, hlater⟩ := List.pairwise_cons.1 hincreasing
    have hle := hfirst payloadEnd (.head _)
    obtain ⟨hnewline, hlimit⟩ := hasked payloadEnd (.head _)
    obtain ⟨hseeks', hlogs, hlimits⟩ := seeks_closes hseeks hle
    have hrest := ih hseeks' hlater fun q hq => by
      exact hasked q (.tail _ hq)
    rw [answers, List.map_cons, closes_eq_direct hseeks hle hlimit hnewline, hrest, hlogs]

end FooterScan

/-- For every log, every place of a header in it and every declared length, the scan answers each of an
increasing sequence of payload ends as the direct search does. -/
theorem footerScan_answers_direct (logs : Bytes) (start payloadLength : Nat) (questions : List Nat)
    (hincreasing : questions.Pairwise (· < ·))
    (hasked : ∀ payloadEnd ∈ questions, logs[payloadEnd]? = some newline ∧ start ≤ payloadEnd ∧
      payloadEnd ≤ start + maxInterleavedFrameBytes + payloadLength) :
    (newFooterScan logs start payloadLength).answers questions =
      questions.map fun payloadEnd => (frameFooterEndAt logs payloadEnd).isSome := by
  refine FooterScan.answers_eq_direct (FooterScan.seeks_new logs start payloadLength) ?_ ?_
  · exact List.pairwise_cons.2 ⟨fun q hq => (hasked q hq).2.1, hincreasing.imp Nat.le_of_lt⟩
  intro q hq
  obtain ⟨hnewline, _, hnear⟩ := hasked q hq
  refine ⟨hnewline, ?_⟩
  simp only [newFooterScan]
  omega

/-- Two payload ends in front of one footer, with a line of diagnostics in between. -/
theorem footerScan_answers_direct_sample :
    (newFooterScan (Go.bytes "a\nb\nnoise" ++ frameFooter) 0 1).answers [1, 3] =
      [1, 3].map fun payloadEnd =>
        (frameFooterEndAt (Go.bytes "a\nb\nnoise" ++ frameFooter) payloadEnd).isSome :=
  footerScan_answers_direct _ 0 1 [1, 3] (by decide) (by decide +kernel)

/-! ## The search of the frame parser -/

theorem footerWithin_eq (room : Nat) (text : Bytes) : footerWithin room text =
    ((Scan.index frameFooter text).filter (· < room)).map
      fun found => text.drop (found + frameFooter.length) := by
  fun_induction footerWithin room text with
  | case1 text => cases Scan.index frameFooter text <;> simp
  | case2 => rfl
  | case3 room c text hfooter =>
    simp [Scan.index, Scan.cut_here <| List.isPrefixOf_iff_prefix.1 hfooter]
  | case4 room c text hfooter ih =>
    rw [ih, Scan.index, Scan.index, Scan.cut_cons_later (mt List.isPrefixOf_iff_prefix.2 hfooter)]
    cases Scan.cut frameFooter text with
    | none => rfl
    | some cut =>
      by_cases hroom : cut.1.length < room <;> simp [Option.filter_some, hroom, Nat.add_right_comm]

theorem frameFooterEndAt_drop {logs : Bytes} {payloadEnd : Nat}
    (hnewline : logs[payloadEnd]? = some newline) :
    (frameFooterEndAt logs payloadEnd).map (logs.drop ·) = frameFooterEnd (logs.drop payloadEnd) := by
  have hhead : (logs.drop payloadEnd).head? = some newline := by rw [List.head?_drop, hnewline]
  rw [frameFooterEnd, if_pos hhead, footerWithin_eq, frameFooterEndAt_eq hnewline, seek,
    List.take_length]
  cases Scan.index frameFooter (logs.drop payloadEnd) with
  | none => rfl
  | some found =>
    by_cases hnear : found < maxInterleavedFrameBytes <;>
      simp [Option.filter_some, hnear, Nat.add_assoc]

/-- `Runner.Frame` answers a question as a scan does whose cursor stands in front of it. -/
theorem closes_eq_scan {scan : FooterScan} {start position payloadLength payloadEnd : Nat}
    (hseeks : scan.Seeks position) (hle : position ≤ start + payloadEnd)
    (hlimit : scan.limit = start + footerLimit (scan.logs.drop start) payloadLength) :
    closes (scan.logs.drop start) payloadLength payloadEnd =
      (scan.closes (start + payloadEnd)).1 := by
  have hwindow (limit : Nat) : ((scan.logs.drop start).take limit).drop payloadEnd =
      (scan.logs.take (start + limit)).drop (start + payloadEnd) := by
    rw [List.take_drop, List.drop_drop]
  simp only [closes, FooterScan.closes, FooterScan.cursor_closes hseeks hle, footerWithin_eq, seek, hwindow,
    hlimit, Option.isSome_map, Option.isSome_filter]
  cases Scan.index frameFooter _ with
  | none => rfl
  | some found => simp

/-- The loop of `findFramePayload` with the scan it asks. The scan is asked only while the search has
found no footer. -/
def findFromScan (wire : Wire) (window : Bytes) (start payloadLength : Nat) (claimedDigest : Bytes) :
    (fuel candidate : Nat) → (rest : Bytes) → FooterScan → FramePayloadSearch → FramePayloadSearch
  | 0, _, _, _, search => search
  | fuel + 1, candidate, rest, footers, search =>
    if min maxInterleavedFrameBytes window.length < candidate then search
    else match Scan.cut [newline] rest with
    | none => { search with examined := window.length }
    | some (line, next) =>
      let search := { search with examined := max search.examined (candidate + line.length) }
      if line.length = payloadLength then
        if claimedDigest = wire.sha256 line then
          let behind := rest.drop payloadLength
          { search with
            found := some (line, behind)
            footerEnd := frameFooterEnd behind
            closed := (frameFooterEnd behind).isSome }
        else if search.closed then
          findFromScan wire window start payloadLength claimedDigest fuel (candidate + line.length + 1)
            next footers search
        else
          let asked := footers.closes (start + (candidate + payloadLength))
          findFromScan wire window start payloadLength claimedDigest fuel (candidate + line.length + 1)
            next asked.2 { search with closed := asked.1 }
      else
        findFromScan wire window start payloadLength claimedDigest fuel (candidate + line.length + 1)
          next footers search

/-- The parser's search finds what the search with the scan finds: its questions only move forward. -/
theorem findFromScan_eq {wire : Wire} {start payloadLength position : Nat} {claimedDigest : Bytes}
    {footers : FooterScan} (fuel candidate : Nat) (rest : Bytes) (search : FramePayloadSearch)
    (hseeks : footers.Seeks position) (hle : position ≤ start + (candidate + payloadLength))
    (hlimit : footers.limit = start + footerLimit (footers.logs.drop start) payloadLength) :
    findFromScan wire (footers.logs.drop start) start payloadLength claimedDigest fuel candidate rest
        footers search =
      findFrom wire (footers.logs.drop start) payloadLength claimedDigest fuel candidate rest
        search := by
  induction fuel generalizing candidate rest footers search position with
  | zero => rfl
  | succ fuel ih =>
    have hlater : ∀ width, position ≤ start + (candidate + width + 1 + payloadLength) :=
      fun width => by omega
    rw [findFromScan, findFrom]
    split_ifs
    · rfl
    cases Scan.cut [newline] rest with
    | none => rfl
    | some found =>
      obtain ⟨line, next⟩ := found
      dsimp only
      split_ifs with hline hdigest hclosed
      · rfl
      · rw [ih _ _ _ hseeks (hlater _) hlimit]
        simp only [hclosed, Bool.true_or]
      · obtain ⟨hseeks', hlogs, hlimit'⟩ := FooterScan.seeks_closes hseeks hle
        simp only [closes_eq_scan hseeks hle hlimit, Bool.eq_false_iff.2 hclosed, Bool.false_or]
        rw [← hlogs]
        exact ih _ _ _ hseeks' (by omega) (by rw [hlimit', hlogs, hlimit])
      · exact ih _ _ _ hseeks (hlater _) hlimit

/-- `findFramePayload` of `Runner.Frame` is the source's, with the scan it starts behind the header. -/
theorem findFramePayload_eq_scan (wire : Wire) (logs : Bytes) (start payloadLength : Nat)
    (claimedDigest : Bytes) :
    findFramePayload wire (logs.drop start) payloadLength claimedDigest =
      findFromScan wire (logs.drop start) start payloadLength claimedDigest
        ((logs.drop start).length + 1) 0 (logs.drop start) (newFooterScan logs start payloadLength)
        { examined := footerLimit (logs.drop start) payloadLength } := by
  by_cases hstart : start ≤ logs.length
  · refine (findFromScan_eq _ 0 _ _ (FooterScan.seeks_new logs start payloadLength) (by omega) ?_).symm
    simp only [newFooterScan, footerLimit, List.length_drop]
    omega
  · rw [List.drop_eq_nil_of_le (by omega)]
    rfl

end Ptah.Runner
