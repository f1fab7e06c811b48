import PtahOperator.Runner.Early
import PtahOperator.Logs.Tail

/-!
# Reading the tail of a log

The manager parses the last `maxResultLogBytes` bytes of a log. What the parser finds behind a marker
depends only on the text from there on, so the tail and the log differ in two things: frames that
begin in front of the tail, and the search budget that headers in front of the tail use up.

* `headers`: the headers that the parser comes to.
* `frames`: the complete frames among them, each with what the searches in front of it cost.
* `found`: the frames that the search budget reaches, which decide the result (`toOption_parse`).
* `found_tail_iff`: when a tail gives the frames of the whole log.
-/

namespace Ptah.Runner

open Go (Bytes bytes newline)

def maxFrameHeaderFieldBytes : Nat := 20 + 1 + 64 + 1

def maxResultLogBytes : Nat :=
  defaultMaxFrameBytes + 2 * maxInterleavedFrameBytes + (frameHeader.length + frameFooter.length) +
    maxFrameHeaderFieldBytes

/-! ## The frames of a text -/

section Frames

variable (wire : Wire) (options : ParseOptions)

/-- The verdict on the header behind a marker, with budget to search for its payload. -/
def verdict (behind : Bytes) : Verdict := (turn wire options maxFrameSearchBytes behind).1

/-- What that search costs. -/
def cost (behind : Bytes) : Nat := (turn wire options maxFrameSearchBytes behind).2

/-- Where the parser goes on: behind the footer of a complete frame, or behind the marker. -/
def next (behind : Bytes) : Bytes :=
  match verdict wire options behind with
  | .foreign _ next | .accepted _ next => next
  | .rejected _ | .oversized | .exhausted => behind

/-- The header begins a frame, of this protocol or a refusal of another one. -/
def complete (behind : Bytes) : Bool :=
  match verdict wire options behind with
  | .foreign _ _ | .accepted _ _ => true
  | .rejected _ | .oversized | .exhausted => false

def resultIn (behind : Bytes) : Option Result :=
  match verdict wire options behind with
  | .accepted result _ => some result
  | .foreign _ _ | .rejected _ | .oversized | .exhausted => none

/-- The headers that the parser comes to. `fuel` bounds them. -/
def headersFrom : (fuel : Nat) → (text : Bytes) → List Bytes
  | 0, _ => []
  | fuel + 1, text =>
    match Scan.cut frameHeader text with
    | none => []
    | some (_, behind) => behind :: headersFrom fuel (next wire options behind)

def headers (text : Bytes) : List Bytes := headersFrom wire options (text.length + 1) text

/-- What the searches behind some headers cost. -/
def spent (behinds : List Bytes) : Nat := (behinds.map (cost wire options)).sum

/-- The complete frames among some headers, each with what was spent in front of it. -/
def framesFrom : (spent : Nat) → List Bytes → List (Bytes × Nat)
  | _, [] => []
  | spent, behind :: behinds =>
    (if complete wire options behind then [(behind, spent)] else []) ++
      framesFrom (spent + cost wire options behind) behinds

/-- The complete frames of a text, each with what the searches in front of it cost. -/
def frames (text : Bytes) : List (Bytes × Nat) := framesFrom wire options 0 (headers wire options text)

/-- The search budget is not used up. -/
def Within (spent : Nat) : Prop := (spent : Int) < maxFrameSearchBytes

instance Within.decidable (spent : Nat) : Decidable (Within spent) :=
  inferInstanceAs (Decidable (_ < _))

/-- The frames that the search budget reaches. -/
def found (text : Bytes) : List Bytes :=
  ((frames wire options text).filter fun frame => Within frame.2).map Prod.fst

/-- The marker of the header begins in front of a tail. -/
def Ahead (tail behind : Bytes) : Prop := tail.length < frameHeader.length + behind.length

instance Ahead.decidable (tail behind : Bytes) : Decidable (Ahead tail behind) :=
  inferInstanceAs (Decidable (_ < _))

/-- What the searches in front of a tail cost. -/
def spentAhead (log tail : Bytes) : Nat :=
  spent wire options ((headers wire options log).filter fun behind => Ahead tail behind)

end Frames

variable {wire : Wire} {options : ParseOptions}

/-! ## What the parser returns -/

theorem verdict_ne_exhausted (behind : Bytes) : verdict wire options behind ≠ .exhausted := by
  unfold verdict turn
  cases readHeader options.limit behind with
  | rejected failure => nofun
  | oversized => nofun
  | declared payloadLength claimedDigest window =>
    dsimp only
    split
    · nofun
    rw [if_neg (by decide)]
    dsimp only [searchVerdict]
    split
    · split <;> nofun
    · nofun
    · unfold judged
      split <;> nofun

/-- The budget decides only whether a search is made. -/
theorem turn_cases (searchBudget : Int) (behind : Bytes) :
    (turn wire options searchBudget behind = (verdict wire options behind, cost wire options behind) ∧
        (0 < searchBudget ∨ cost wire options behind = 0 ∧ complete wire options behind = false)) ∨
      searchBudget ≤ 0 ∧ turn wire options searchBudget behind = (.exhausted, 0) := by
  unfold complete verdict cost turn
  cases readHeader options.limit behind with
  | rejected failure => exact .inl ⟨rfl, .inr ⟨rfl, rfl⟩⟩
  | oversized => exact .inl ⟨rfl, .inr ⟨rfl, rfl⟩⟩
  | declared payloadLength claimedDigest window =>
    dsimp only
    by_cases hshort : window.length < payloadLength
    · rw [if_pos hshort, if_pos hshort]
      exact .inl ⟨rfl, .inr ⟨rfl, rfl⟩⟩
    rw [if_neg hshort, if_neg hshort, if_neg (show ¬ maxFrameSearchBytes ≤ 0 by decide)]
    by_cases hbudget : searchBudget ≤ 0
    · rw [if_pos hbudget]
      exact .inr ⟨hbudget, rfl⟩
    · rw [if_neg hbudget]
      exact .inl ⟨rfl, .inl (by omega)⟩

/-- The loop of the parser over the headers that it comes to. -/
def readHeaders (wire : Wire) (options : ParseOptions) : ParseState → List Bytes → ParseState
  | state, [] => state
  | state, behind :: behinds =>
    let (verdict, examined) := turn wire options state.searchBudget behind
    let state := { state with sawMarker := true, searchBudget := state.searchBudget - examined }
    match state.after behind verdict with
    | (state, some _) => readHeaders wire options state behinds
    | (state, none) => state

variable {behind text : Bytes} {start : Nat}

theorem after_next {state state' : ParseState} {next' : Bytes}
    (h : state.after behind (verdict wire options behind) = (state', some next')) :
    next' = next wire options behind := by
  unfold next
  cases hverdict : verdict wire options behind <;> rw [hverdict] at h <;> cases h <;> rfl

theorem scan_eq_readHeaders (fuel : Nat) (state : ParseState) (text : Bytes) :
    scan wire options fuel state text =
      readHeaders wire options state (headersFrom wire options fuel text) := by
  induction fuel generalizing state text with
  | zero => rfl
  | succ fuel ih =>
    rw [scan, headersFrom]
    cases Scan.cut frameHeader text with
    | none => rfl
    | some occurrence =>
      obtain ⟨left, behind⟩ := occurrence
      dsimp only
      rw [readHeaders]
      rcases @turn_cases wire options state.searchBudget behind with ⟨hturn, -⟩ | ⟨-, hturn⟩
      · rw [hturn]
        dsimp only
        cases hafter : ParseState.after _ behind (verdict wire options behind) with
        | mk state' next' =>
          cases next' with
          | none => rfl
          | some next' =>
            rw [after_next hafter]
            exact ih state' _
      · rw [hturn]
        rfl

theorem le_of_mem_framesFrom {behinds : List Bytes} {frame : Bytes × Nat}
    (h : frame ∈ framesFrom wire options start behinds) :
    start ≤ frame.2 ∧ frame.2 ≤ start + spent wire options behinds ∧ frame.1 ∈ behinds := by
  induction behinds generalizing start with
  | nil => cases h
  | cons behind behinds ih =>
    have hspent : spent wire options (behind :: behinds) =
        cost wire options behind + spent wire options behinds := rfl
    rcases List.mem_append.1 h with h | h
    · split at h
      · obtain rfl := List.mem_singleton.1 h
        exact ⟨Nat.le_refl _, by omega, .head _⟩
      · cases h
    · obtain ⟨hle, hle', hmem⟩ := ih h
      exact ⟨by omega, by omega, .tail _ hmem⟩

/-- Behind the budget no frame is found. -/
theorem filter_beyond (h : ¬ Within start) (behinds : List Bytes) :
    (framesFrom wire options start behinds).filter (fun frame => Within frame.2) = [] := by
  rw [List.filter_eq_nil_iff]
  intro frame hframe hwithin
  have hle := (le_of_mem_framesFrom hframe).1
  have := of_decide_eq_true hwithin
  unfold Within at h this
  omega

/-- The loop keeps the result of the last frame that its budget reaches. -/
theorem readHeaders_last {state : ParseState} {behinds : List Bytes}
    (hbudget : state.searchBudget = maxFrameSearchBytes - start) :
    (readHeaders wire options state behinds).last =
      ((((framesFrom wire options start behinds).filter fun frame => Within frame.2).filterMap
        fun frame => resultIn wire options frame.1).getLast?).or state.last := by
  induction behinds generalizing state start with
  | nil => rfl
  | cons behind behinds ih =>
    rw [readHeaders]
    rcases @turn_cases wire options state.searchBudget behind with ⟨hturn, hcost⟩ | ⟨hzero, hturn⟩
    · rw [hturn]
      have hrest : ∀ state' : ParseState,
          state'.searchBudget = state.searchBudget - cost wire options behind →
          state'.searchBudget = maxFrameSearchBytes - ((start + cost wire options behind)) :=
        fun state' h => by omega
      have hwithin : complete wire options behind = true → Within start := by
        intro hcomplete
        rcases hcost with hpos | ⟨-, hnot⟩
        · unfold Within
          omega
        · rw [hnot] at hcomplete
          cases hcomplete
      rw [framesFrom]
      cases hverdict : verdict wire options behind with
      | rejected failure =>
        simp only [complete, hverdict, ParseState.after]
        exact ih (hrest _ rfl)
      | oversized =>
        simp only [complete, hverdict, ParseState.after]
        exact ih (hrest _ rfl)
      | exhausted => exact absurd hverdict (verdict_ne_exhausted behind)
      | foreign refusal next' =>
        have hin := hwithin (by rw [complete, hverdict])
        simp only [complete, hverdict, ParseState.after]
        rw [ih (hrest _ rfl)]
        simp [hin, resultIn, hverdict]
      | accepted result next' =>
        have hin := hwithin (by rw [complete, hverdict])
        have hresult : resultIn wire options behind = some result := by rw [resultIn, hverdict]
        simp only [complete, hverdict, ParseState.after]
        rw [ih (hrest _ rfl), if_pos trivial, List.cons_append, List.nil_append, List.filter_cons,
          if_pos (decide_eq_true hin), List.filterMap_cons, hresult, List.getLast?_cons]
        cases List.getLast? _ <;> rfl
    · have hbeyond : ¬ Within start := by
        unfold Within
        omega
      rw [hturn, filter_beyond hbeyond]
      rfl

theorem toOption_outcome (state : ParseState) : state.outcome.toOption = state.last := by
  unfold ParseState.outcome
  cases state.last with
  | some result => rfl
  | none =>
    cases state.mismatch with
    | some refusal => rfl
    | none =>
      dsimp only
      split
      · rfl
      · split <;> rfl

/-- The parser returns the result of the last frame that is found, and refuses a log without one. -/
theorem toOption_parse (text : Bytes) : (parseResultWithOptions wire text options).toOption =
      ((found wire options text).filterMap (resultIn wire options)).getLast? := by
  rw [parseResultWithOptions, toOption_outcome, scan_eq_readHeaders,
    @readHeaders_last wire options 0 _ _ (by simp), found, List.filterMap_map]
  exact Option.or_none

/-! ## The parser moves on -/

theorem footerWithin_suffix {room : Nat} (h : footerWithin room text = some behind) :
    behind <:+ text := by
  induction text generalizing room with
  | nil => cases room <;> cases h
  | cons c text ih =>
    cases room with
    | zero => cases h
    | succ room =>
      rw [footerWithin] at h
      split at h
      · obtain rfl := Option.some.inj h
        exact List.drop_suffix _ _
      · exact (ih h).trans (List.suffix_cons c text)

theorem findFrom_suffix {window claimedDigest rest : Bytes} {payloadLength fuel candidate : Nat}
    {search : FramePayloadSearch} (hrest : rest <:+ window)
    (hsearch : ∀ behind, search.footerEnd = some behind → behind <:+ window)
    (h : (findFrom wire window payloadLength claimedDigest fuel candidate rest search).footerEnd =
      some behind) : behind <:+ window := by
  induction fuel generalizing candidate rest search with
  | zero => exact hsearch behind h
  | succ fuel ih =>
    rw [findFrom] at h
    split at h
    · exact hsearch behind h
    cases hcut : Scan.cut [newline] rest with
    | none =>
      rw [hcut] at h
      exact hsearch behind h
    | some occurrence =>
      obtain ⟨line, next⟩ := occurrence
      have hnext : next <:+ window := by
        refine List.IsSuffix.trans ?_ hrest
        exact ⟨line ++ [newline], (Scan.cut_eq hcut).symm⟩
      rw [hcut] at h
      dsimp only at h
      split at h
      · split at h
        · rw [frameFooterEnd] at h
          split at h
          · exact (footerWithin_suffix h).trans ((List.drop_suffix _ _).trans hrest)
          · cases h
        · refine ih hnext ?_ h
          exact hsearch
      · refine ih hnext ?_ h
        exact hsearch

theorem readHeader_suffix {limit length : Nat} {digest window : Bytes}
    (h : readHeader limit behind = .declared length digest window) : window <:+ behind := by
  rw [readHeader] at h
  cases hcut : Scan.cut [newline] behind with
  | none =>
    rw [hcut] at h
    dsimp only at h
    split at h <;> cases h
  | some occurrence =>
    obtain ⟨line, rest⟩ := occurrence
    rw [hcut] at h
    dsimp only at h
    have hwindow : window = rest := by
      split at h
      · cases h
      split at h
      · split at h
        · cases h
        split at h
        · cases h
        split at h
        · cases h
        split at h
        · cases h
        · cases h; rfl
      · cases h
    exact hwindow ▸ ⟨line ++ [newline], (Scan.cut_eq hcut).symm⟩

theorem verdict_next {next' : Bytes}
    (h : (∃ refusal, verdict wire options behind = .foreign refusal next') ∨
      ∃ result, verdict wire options behind = .accepted result next') : next' <:+ behind := by
  unfold verdict turn at h
  cases hheader : readHeader options.limit behind with
  | rejected failure => rw [hheader] at h; rcases h with ⟨_, h⟩ | ⟨_, h⟩ <;> cases h
  | oversized => rw [hheader] at h; rcases h with ⟨_, h⟩ | ⟨_, h⟩ <;> cases h
  | declared payloadLength claimedDigest window =>
    rw [hheader] at h
    dsimp only at h
    split at h
    · rcases h with ⟨_, h⟩ | ⟨_, h⟩ <;> cases h
    rw [if_neg (by decide)] at h
    dsimp only [searchVerdict] at h
    split at h
    · split at h <;> rcases h with ⟨_, h⟩ | ⟨_, h⟩ <;> cases h
    · rcases h with ⟨_, h⟩ | ⟨_, h⟩ <;> cases h
    rename_i footerEnd _ hend
    have hnext : next' = footerEnd := by
      unfold judged at h
      split at h <;> rcases h with ⟨_, h⟩ | ⟨_, h⟩ <;> cases h <;> rfl
    rw [hnext]
    exact (findFrom_suffix List.suffix_rfl (fun _ hnone => by cases hnone) hend).trans (readHeader_suffix hheader)

theorem next_suffix (behind : Bytes) : next wire options behind <:+ behind := by
  unfold next
  split
  · rename_i h
    exact verdict_next (.inl ⟨_, h⟩)
  · rename_i h
    exact verdict_next (.inr ⟨_, h⟩)
  all_goals exact List.suffix_rfl

theorem next_eq (h : complete wire options behind = false) : next wire options behind = behind := by
  unfold complete at h
  unfold next
  split at h <;> simp_all

/-! ## Headers in front of a tail and in it -/

theorem headersFrom_fuel {fuel : Nat} (h : text.length < fuel) :
    headersFrom wire options fuel text = headers wire options text := by
  induction fuel using Nat.strong_induction_on generalizing text with
  | h fuel ih =>
    cases fuel with
    | zero => omega
    | succ fuel =>
      rw [headers, headersFrom, headersFrom]
      cases hcut : Scan.cut frameHeader text with
      | none => rfl
      | some occurrence =>
        obtain ⟨left, behind⟩ := occurrence
        dsimp only
        have hlt := (Scan.cut_length_lt frameHeader_ne_nil hcut).2
        have hle := (@next_suffix wire options behind).length_le
        rw [ih fuel (by omega) (by omega), ih text.length (by omega) (by omega)]

theorem headers_eq {left : Bytes} (h : Scan.cut frameHeader text = some (left, behind)) :
    headers wire options text = behind :: headers wire options (next wire options behind) := by
  have hlt := (Scan.cut_length_lt frameHeader_ne_nil h).2
  have hle := (@next_suffix wire options behind).length_le
  rw [headers, headersFrom, h]
  dsimp only
  rw [headersFrom_fuel (by omega)]

theorem headers_none (h : Scan.cut frameHeader text = none) : headers wire options text = [] := by
  rw [headers, headersFrom, h]

/-- Every header stands in the text behind its marker. -/
theorem marker_suffix (h : behind ∈ headers wire options text) :
    frameHeader ++ behind <:+ text := by
  induction hlen : text.length using Nat.strong_induction_on generalizing text with
  | h length ih =>
    cases hcut : Scan.cut frameHeader text with
    | none =>
      rw [headers_none hcut] at h
      cases h
    | some occurrence =>
      obtain ⟨left, first⟩ := occurrence
      have htext : frameHeader ++ first <:+ text :=
        ⟨left, by rw [Scan.cut_eq hcut, List.append_assoc]⟩
      rw [headers_eq hcut] at h
      rcases h with _ | ⟨_, h⟩
      · exact htext
      have hlt := (Scan.cut_length_lt frameHeader_ne_nil hcut).2
      have hnext := @next_suffix wire options first
      have := hnext.length_le
      exact (ih _ (by omega) h rfl).trans (hnext.trans ((List.suffix_append _ _).trans htext))

theorem not_ahead_of_mem {tail : Bytes} (htail : text.length ≤ tail.length)
    (h : behind ∈ headers wire options text) : ¬ Ahead tail behind := by
  have := (marker_suffix h).length_le
  rw [List.length_append] at this
  unfold Ahead
  omega

/-- A marker that a tail cuts hides no marker of the tail. -/
theorem headers_cut_marker {tail left : Bytes}
    (h : Scan.cut frameHeader text = some (left, behind)) (htail : tail <:+ text)
    (hahead : Ahead tail behind) (hshort : behind.length ≤ tail.length) :
    headers wire options tail = headers wire options behind := by
  have htext := Scan.cut_eq h
  have hbehind : behind <:+ text := ⟨left ++ frameHeader, htext.symm⟩
  obtain ⟨part, rfl⟩ := List.suffix_of_suffix_length_le hbehind htail hshort
  -- The part of the marker in the tail does not hold the first byte of the marker.
  have hpart : part <:+ frameHeader.tail := by
    have hmarker : part <:+ left ++ frameHeader := by
      obtain ⟨u, hu⟩ := htail
      rw [htext, ← List.append_assoc] at hu
      exact ⟨u, List.append_cancel_right hu⟩
    have hlen : part.length ≤ frameHeader.tail.length := by
      unfold Ahead at hahead
      rw [List.length_append] at hahead
      rw [List.length_tail]
      omega
    exact List.suffix_of_suffix_length_le hmarker
      ((List.tail_suffix _).trans (List.suffix_append _ _)) hlen
  have hnotMem : 0x50 ∉ part := fun hmem =>
    absurd (hpart.subset hmem) (by decide)
  have hcut := @Scan.cut_pass _ _ frameHeader.tail part behind 0x50 hnotMem
  change Scan.cut frameHeader (part ++ behind) = (Scan.cut frameHeader behind).map _ at hcut
  cases hlater : Scan.cut frameHeader behind with
  | none =>
    rw [hlater] at hcut
    rw [headers_none hcut, headers_none hlater]
  | some occurrence =>
    rw [hlater] at hcut
    rw [headers_eq hcut, headers_eq hlater]

/-- The headers of a log: those in front of a tail, and those in it, which are the headers of the tail
if no frame leads into it. -/
structure Split (wire : Wire) (options : ParseOptions) (log tail : Bytes) (front rest : List Bytes) :
    Prop where
  split : headers wire options log = front ++ rest
  ahead : ∀ behind ∈ front, Ahead tail behind
  inside : ∀ behind ∈ rest, ¬ Ahead tail behind
  same : (∀ behind ∈ front, complete wire options behind = false) → rest = headers wire options tail

theorem exists_split {tail : Bytes} (h : tail <:+ text) :
    ∃ front rest, Split wire options text tail front rest := by
  induction hlen : text.length using Nat.strong_induction_on generalizing text with
  | h length ih =>
    cases hcut : Scan.cut frameHeader text with
    | none =>
      have hnone : Scan.cut frameHeader tail = none :=
        Scan.cut_none_iff.2 fun hin => Scan.cut_none_iff.1 hcut (hin.trans h.isInfix)
      exact ⟨[], [], headers_none hcut, nofun, nofun, fun _ => (headers_none hnone).symm⟩
    | some occurrence =>
      obtain ⟨left, behind⟩ := occurrence
      have hlt := (Scan.cut_length_lt frameHeader_ne_nil hcut).2
      have hnext := @next_suffix wire options behind
      have hle := hnext.length_le
      have hbehind : behind <:+ text := ⟨left ++ frameHeader, (Scan.cut_eq hcut).symm⟩
      by_cases hahead : Ahead tail behind
      · by_cases hshort : tail.length ≤ (next wire options behind).length
        · -- The parser goes on in front of the tail.
          have htail : tail <:+ next wire options behind :=
            List.suffix_of_suffix_length_le h (hnext.trans hbehind) hshort
          obtain ⟨front, rest, heq, hfront, hrest, hsame⟩ := ih _ (by omega) htail rfl
          refine ⟨behind :: front, rest, by rw [headers_eq hcut, heq]; rfl, ?_, hrest, fun hnone =>
            hsame fun b hb => hnone b (.tail _ hb)⟩
          intro b hb
          rcases hb with _ | ⟨_, hb⟩
          · exact hahead
          · exact hfront b hb
        · refine ⟨[behind], headers wire options (next wire options behind), headers_eq hcut, ?_,
            fun b hb => not_ahead_of_mem (by omega) hb, fun hnone => ?_⟩
          · intro b hb
            exact List.mem_singleton.1 hb ▸ hahead
          · rw [next_eq (hnone behind (.head _))] at hshort ⊢
            exact (headers_cut_marker hcut h hahead (by omega)).symm
      · obtain ⟨a, rfl⟩ := h
        obtain ⟨left', hcut'⟩ := Scan.cut_rest hcut (Nat.le_of_not_lt hahead)
        refine ⟨[], headers wire options (a ++ tail), rfl, nofun, ?_, fun _ => ?_⟩
        · rw [headers_eq hcut, ← headers_eq hcut']
          exact fun b hb => not_ahead_of_mem (Nat.le_refl _) hb
        · rw [headers_eq hcut, headers_eq hcut']

/-! ## The frames of a tail -/

theorem framesFrom_append (start : Nat) (xs ys : List Bytes) :
    framesFrom wire options start (xs ++ ys) = framesFrom wire options start xs ++
      framesFrom wire options (start + spent wire options xs) ys := by
  induction xs generalizing start with
  | nil => rfl
  | cons x xs ih =>
    have hspent : spent wire options (x :: xs) = cost wire options x + spent wire options xs := rfl
    rw [List.cons_append, framesFrom, framesFrom, ih, List.append_assoc, hspent, Nat.add_assoc]

theorem framesFrom_start (start : Nat) (behinds : List Bytes) :
    framesFrom wire options start behinds =
      (framesFrom wire options 0 behinds).map fun frame => (frame.1, start + frame.2) := by
  have hshift : ∀ offset, framesFrom wire options (start + offset) behinds =
      (framesFrom wire options offset behinds).map fun frame => (frame.1, start + frame.2) := by
    induction behinds with
    | nil => exact fun _ => rfl
    | cons behind behinds ih =>
      intro offset
      rw [framesFrom, framesFrom, List.map_append, Nat.add_assoc, ih]
      split <;> rfl
  exact hshift 0

section Split

variable {log tail : Bytes} {front rest : List Bytes} (hsplit : Split wire options log tail front rest)

include hsplit

theorem Split.spentAhead_eq : spentAhead wire options log tail = spent wire options front := by
  rw [spentAhead, hsplit.split, List.filter_append,
    List.filter_eq_self.2 fun b hb => decide_eq_true (hsplit.ahead b hb),
    List.filter_eq_nil_iff.2 (by simpa using hsplit.inside), List.append_nil]

theorem Split.frames_eq : frames wire options log = framesFrom wire options 0 front ++
    framesFrom wire options (spentAhead wire options log tail) rest := by
  rw [frames, hsplit.split, framesFrom_append, Nat.zero_add, hsplit.spentAhead_eq]

variable (hnone : ∀ frame ∈ frames wire options log, Within frame.2 → ¬ Ahead tail frame.1)

include hnone

/-- A complete frame in front of the tail that the budget does not reach leaves no budget for the
tail. -/
theorem Split.rest_eq (hwithin : Within (spentAhead wire options log tail)) :
    rest = headers wire options tail := by
  refine hsplit.same fun behind hb => ?_
  by_contra hcomplete
  obtain ⟨xs, ys, rfl⟩ := List.append_of_mem hb
  have hframe : (behind, spent wire options xs) ∈ framesFrom wire options 0 (xs ++ behind :: ys) := by
    rw [framesFrom_append, framesFrom, if_pos (by simpa using hcomplete), Nat.zero_add]
    simp
  refine hnone _ (hsplit.frames_eq ▸ List.mem_append_left _ hframe) ?_ (hsplit.ahead _ hb)
  have hle := (le_of_mem_framesFrom hframe).2.1
  rw [hsplit.spentAhead_eq] at hwithin
  unfold Within at hwithin ⊢
  omega

theorem Split.front_beyond :
    (framesFrom wire options 0 front).filter (fun frame => Within frame.2) = [] := by
  rw [List.filter_eq_nil_iff]
  intro frame hframe hwithin
  exact hnone frame (hsplit.frames_eq ▸ List.mem_append_left _ hframe) (of_decide_eq_true hwithin)
    (hsplit.ahead _ (le_of_mem_framesFrom hframe).2.2)

/-- The frames found in the log are those of the tail that the rest of the budget reaches. -/
theorem Split.found_eq : found wire options log = ((frames wire options tail).filter
    fun frame => Within (spentAhead wire options log tail + frame.2)).map Prod.fst := by
  rw [found, hsplit.frames_eq, List.filter_append, hsplit.front_beyond hnone, List.nil_append]
  by_cases hwithin : Within (spentAhead wire options log tail)
  · rw [hsplit.rest_eq hnone hwithin, framesFrom_start, List.filter_map, List.map_map]
    simp only [Function.comp_def, frames]
  have hbeyond : ∀ frame ∈ frames wire options tail,
      ¬ Within (spentAhead wire options log tail + frame.2) := by
    intro frame _ h
    unfold Within at h hwithin
    omega
  rw [filter_beyond hwithin, List.filter_eq_nil_iff.2 fun frame hf => by simpa using hbeyond frame hf]

end Split

/-- A tail gives the frames of the whole log exactly if none of these begins in front of the tail, and
what is spent in front of the tail takes the budget from none of the tail's frames. -/
theorem found_tail_iff {log tail : Bytes} (h : tail <:+ log) :
    found wire options tail = found wire options log ↔
      (∀ frame ∈ frames wire options log, Within frame.2 → ¬ Ahead tail frame.1) ∧
      ∀ frame ∈ frames wire options tail, Within frame.2 →
        Within (spentAhead wire options log tail + frame.2) := by
  obtain ⟨front, rest, hsplit⟩ := @exists_split wire options _ _ h
  have hless : ∀ spent, Within (spentAhead wire options log tail + spent) → Within spent := by
    intro spent hin
    unfold Within at hin ⊢
    omega
  constructor
  · intro hsame
    have hnone : ∀ frame ∈ frames wire options log, Within frame.2 → ¬ Ahead tail frame.1 := by
      intro frame hframe hwithin
      have hmem : frame.1 ∈ found wire options tail := by
        rw [hsame]
        exact List.mem_map_of_mem (List.mem_filter.2 ⟨hframe, decide_eq_true hwithin⟩)
      obtain ⟨frame', hframe', heq⟩ := List.mem_map.1 hmem
      have hheader := (le_of_mem_framesFrom (List.mem_filter.1 hframe').1).2.2
      exact heq ▸ not_ahead_of_mem (Nat.le_refl _) hheader
    refine ⟨hnone, fun frame hframe hwithin => ?_⟩
    rw [hsplit.found_eq hnone, found] at hsame
    have hsub : ((frames wire options tail).filter fun frame =>
        Within (spentAhead wire options log tail + frame.2)).Sublist
        ((frames wire options tail).filter fun frame => Within frame.2) :=
      List.monotone_filter_right _ fun frame hin => decide_eq_true (hless _ (of_decide_eq_true hin))
    have hlen := congrArg List.length hsame
    rw [List.length_map, List.length_map] at hlen
    have hmem : frame ∈ (frames wire options tail).filter fun frame => Within frame.2 :=
      List.mem_filter.2 ⟨hframe, decide_eq_true hwithin⟩
    rw [← hsub.eq_of_length hlen.symm] at hmem
    exact of_decide_eq_true (List.mem_filter.1 hmem).2
  · rintro ⟨hnone, hbudget⟩
    rw [hsplit.found_eq hnone, found]
    refine congrArg (List.map Prod.fst) (List.filter_congr fun frame hframe => ?_)
    exact decide_eq_decide.2 ⟨hbudget frame hframe, hless _⟩

/-- Reading the tail.

For every log and operation: the tail that the manager keeps gives the frames and the result of the
whole log, or a refusal where the whole log gives one, exactly if no frame that the search budget
reaches begins in front of the tail, and what the searches in front of the tail cost leaves budget for
each frame that a reader of the tail finds. -/
theorem parseResultFor_tail_iff (wire : Wire) (chunks : List Bytes) (operation : Operation)
    (operationID : Bytes) :
    ∃ tail, Logs.readLogTail ⟨chunks, none⟩ maxResultLogBytes = .ok tail ∧
      ((found wire (optionsFor operation operationID) tail =
            found wire (optionsFor operation operationID) chunks.flatten ∧
          (parseResultFor wire tail operation operationID).toOption =
            (parseResultFor wire chunks.flatten operation operationID).toOption) ↔
        (∀ frame ∈ frames wire (optionsFor operation operationID) chunks.flatten,
          Within frame.2 → ¬ Ahead tail frame.1) ∧
        ∀ frame ∈ frames wire (optionsFor operation operationID) tail, Within frame.2 →
          Within (spentAhead wire (optionsFor operation operationID) chunks.flatten tail + frame.2)) := by
  refine ⟨_, Logs.readLogTail_ok chunks (by decide), ?_⟩
  have htail : chunks.flatten.rtake maxResultLogBytes <:+ chunks.flatten := List.drop_suffix _ _
  rw [← found_tail_iff htail]
  refine ⟨And.left, fun hfound => ⟨hfound, ?_⟩⟩
  rw [parseResultFor, parseResultFor, toOption_parse, toOption_parse, hfound]

/-- A frame in front of as much output as the manager keeps. -/
theorem parseResultFor_tail_loses :
    ∃ chunks tail, Logs.readLogTail ⟨chunks, none⟩ maxResultLogBytes = .ok tail ∧
      parseResultFor (sampleWire (samplePayload 8)) chunks.flatten .resolve (bytes "op") =
        .ok (sampleResult 8) ∧
      parseResultFor (sampleWire (samplePayload 8)) tail .resolve (bytes "op") = .error .notFound := by
  have hpos : 0 < maxResultLogBytes := by decide
  generalize maxResultLogBytes = limit at hpos ⊢
  have hfree : ¬ frameHeader <:+: filler limit := (filler_plain limit).noMarker
  obtain ⟨i, hahead, hbehind, hafter⟩ : ∃ i : Interleaved, i.ahead = [] ∧ i.behind = [] ∧
      i.after = filler limit :=
    ⟨{ Interleaved.alone with after := filler limit, free := hfree }, rfl, rfl, rfl⟩
  obtain ⟨front, hlog⟩ : filler limit <:+ i.log (sampleWire (samplePayload 8)) (samplePayload 8) := by
    rw [← hafter, Interleaved.log, Interleaved.window]
    exact (List.suffix_cons _ _).trans ((List.suffix_append _ _).trans ((List.suffix_append _ _).trans
      ((List.suffix_cons _ _).trans ((List.suffix_append _ _).trans ((List.suffix_append _ _).trans
        (List.suffix_append _ _))))))
  refine ⟨[i.log (sampleWire (samplePayload 8)) (samplePayload 8)], filler limit, ?_, ?_, ?_⟩
  · rw [Logs.readLogTail_ok _ hpos, List.flatten_singleton, ← hlog,
      Logs.rtake_append_of_le (Nat.le_of_eq (length_filler _).symm),
      Logs.rtake_of_length_le (Nat.le_of_eq (length_filler _))]
  · rw [List.flatten_singleton]
    refine sampleWire_accepted i (by decide) ?_
    rw [hahead, hbehind]
    decide
  · exact @parse_unmarked _ _ [] _ (fun line hline => by cases hline) hfree

end Ptah.Runner
