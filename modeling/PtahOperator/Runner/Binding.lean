import PtahOperator.Runner.Summary
import PtahOperator.Runner.Tail

/-!
# Summaries are bound to their run

A summary is found in a termination message behind the text of the runtime, for the operation it
answers and for no other, and not in a message that was cut. It stands in only for a frame that may
still arrive.

* `Summary.ReadBy`: what `encoding/json` promises about the text of a summary.
* `parseSummaryFor_summary`: what is read from a message that ends in a summary.
* `parse_pending_iff`: the logs that the parser may still find a frame in.
-/

namespace Ptah.Runner

open Go (Bytes bytes newline)

variable {decode : SummaryDecoder} {s : Summary}

/-! ## Texts of a valid summary -/

/-- A byte of the texts that a summary takes from a fixed vocabulary: ASCII, and not the first byte of
the marker. -/
def Ordinary (c : UInt8) : Prop := c < 0x80 ∧ c ≠ 0x50

instance Ordinary.decidable (c : UInt8) : Decidable (Ordinary c) :=
  inferInstanceAs (Decidable (_ ∧ _))

theorem ordinary_iff {c : UInt8} : Ordinary c ↔ c.toNat < 0x80 ∧ c.toNat ≠ 0x50 := by
  rw [Ordinary, UInt8.lt_iff_toNat_lt, ne_eq, ← UInt8.toNat_inj]
  rfl

theorem ordinary_lowerHex {c : UInt8} (h : lowerHex c = true) : Ordinary c := by
  simp only [lowerHex, Go.isDigit, Bool.or_eq_true, Bool.and_eq_true, decide_eq_true_eq,
    UInt8.le_iff_toNat_le, UInt8.reduceToNat] at h
  exact ordinary_iff.2 (by omega)

variable {digest text pre behind summary logs : Bytes} {result : Result}

theorem ordinary_digest (h : validProtocolDigest digest = true) : ∀ c ∈ digest, Ordinary c := by
  simp only [validProtocolDigest, Bool.and_eq_true, decide_eq_true_eq] at h
  obtain ⟨⟨-, hprefix⟩, hall⟩ := h
  obtain ⟨rest, rfl⟩ := List.isPrefixOf_iff_prefix.1 hprefix
  refine List.forall_mem_append.2 ⟨by decide, fun c hc => ordinary_lowerHex ?_⟩
  exact List.all_eq_true.1 hall c hc

theorem ordinary_requirement {code : Bytes} (h : runnerRequirement code = true) :
    ∀ c ∈ code, Ordinary c := by
  have hletter c (hc : isLower c = true ∨ Go.isDigit c = true ∨ c = 0x5f) : Ordinary c := by
    simp only [isLower, Go.isDigit, Bool.and_eq_true, decide_eq_true_eq, UInt8.le_iff_toNat_le,
      ← UInt8.toNat_inj, UInt8.reduceToNat] at hc
    exact ordinary_iff.2 (by omega)
  cases code with
  | nil => cases h
  | cons c rest =>
    simp only [runnerRequirement, Bool.and_eq_true, List.all_eq_true, Bool.or_eq_true,
      decide_eq_true_eq] at h
    exact List.forall_mem_cons.2 ⟨hletter c (.inl h.1.1), fun d hd => hletter d (or_assoc.1 (h.2 d hd))⟩

theorem ordinary_outcome {outcome : Bytes} (h : isKnownMigrationOutcome outcome = true) :
    ∀ c ∈ outcome, Ordinary c := by
  have hfixed : ∀ outcome ∈ migrationOutcomes, ∀ c ∈ outcome, Ordinary c := by decide
  exact hfixed outcome (List.contains_iff_mem.1 h)

theorem ordinary_operation {operation : Operation} (h : operation.valid = true) :
    ∀ c ∈ operation.name, Ordinary c := by
  cases operation with
  | unsupported name => cases h
  | _ => decide

/-- What holds of a summary that satisfies its rules. -/
structure Summary.Wellformed (s : Summary) : Prop where
  operation : s.operation.valid = true
  operationID : s.operationID ≠ []
  frameDigest : ∀ c ∈ s.frameDigest, Ordinary c
  errorCode : ∀ c ∈ s.errorCode, Ordinary c
  coordinationDigest : ∀ c ∈ s.coordinationDigest, Ordinary c
  targetIdentityDigest : ∀ c ∈ s.targetIdentityDigest, Ordinary c
  outcome : ∀ m ∈ s.migration, ∀ c ∈ m.outcome, Ordinary c

theorem Summary.wellformed (h : s.validate {} = .ok ()) : s.Wellformed := by
  simp only [Summary.validate, Summary.validateBinding, Summary.validateAccount, bind_ok, refuse_ok] at h
  obtain ⟨⟨-, hoperation, hid, -⟩, hframe, hcode, -, -, hdigests, -, -, hmigration⟩ := h
  have hdigest : ∀ digest ∈ [s.coordinationDigest, s.targetIdentityDigest],
      ∀ c ∈ digest, Ordinary c := by
    intro digest hd
    have hvalid := List.any_eq_false.1 hdigests digest hd
    by_cases hempty : digest = []
    · simp [hempty]
    · exact ordinary_digest (by simpa [hempty] using hvalid)
  refine ⟨by simpa using hoperation, ?_, ordinary_digest (by simpa using hframe), ?_,
    hdigest _ (by simp), hdigest _ (by simp), ?_⟩
  · rintro hempty
    simp [hempty] at hid
  · by_cases hempty : s.errorCode = []
    · simp [hempty]
    · exact ordinary_requirement (by simpa [hempty] using hcode)
  · intro m hm
    rw [Option.mem_def.1 hm] at hmigration
    simp only [MigrationSummary.validate, bind_ok, refuse_ok] at hmigration
    exact ordinary_outcome (by simpa using hmigration.2.1)

/-! ## The text of a summary -/

/-- A byte of a document that is neither a control character nor the first byte of the marker. -/
def Inert (c : UInt8) : Prop := 0x20 ≤ c ∧ c ≠ 0x50

instance Inert.decidable (c : UInt8) : Decidable (Inert c) :=
  inferInstanceAs (Decidable (_ ∧ _))

theorem mem_escape_marker (text : Bytes) : 0x50 ∈ Go.escape false text ↔ 0x50 ∈ text := by
  have hpattern : ∀ c ∈ [0x50], Go.Unescaped false c := by
    intro c hc
    obtain rfl := List.mem_singleton.1 hc
    exact ⟨by decide, by decide⟩
  have h := Go.infix_escape hpattern (by decide) text
  rwa [List.singleton_infix_iff, List.singleton_infix_iff] at h

theorem inert_quote (h : ∀ c ∈ text, Ordinary c) : ∀ c ∈ Go.quote false text, Inert c := by
  refine List.forall_mem_cons.2 ⟨by decide, List.forall_mem_append.2 ⟨fun c hc => ?_, by decide⟩⟩
  refine ⟨Go.le_of_mem_escape hc, ?_⟩
  rintro rfl
  exact (h 0x50 ((mem_escape_marker text).1 hc)).2 rfl

theorem inert_decimal (n : Nat) : ∀ c ∈ Go.decimal n, Inert c := by
  intro c hc
  have h := Go.isDigit_of_mem_decimal hc
  simp only [Go.isDigit, Bool.and_eq_true, decide_eq_true_eq, UInt8.le_iff_toNat_le,
    UInt8.reduceToNat] at h
  simp only [Inert, UInt8.le_iff_toNat_le, ne_eq, ← UInt8.toNat_inj, UInt8.reduceToNat]
  omega

theorem inert_signed (n : Int) : ∀ c ∈ Go.signed n, Inert c := by
  unfold Go.signed
  split
  · exact List.forall_mem_cons.2 ⟨by decide, inert_decimal _⟩
  · exact inert_decimal _

theorem inert_member {key : String} {value : Bytes} (hkey : ∀ c ∈ bytes key, Inert c)
    (hvalue : ∀ c ∈ value, Inert c) : ∀ c ∈ member key value, Inert c := by
  simp only [member, List.cons_append, List.forall_mem_cons, List.forall_mem_append]
  exact ⟨by decide, hkey, by decide, by decide, hvalue⟩

theorem inert_memberUnless {empty : Bool} {key : String} {value : Bytes}
    (hkey : ∀ c ∈ bytes key, Inert c) (hvalue : ∀ c ∈ value, Inert c) :
    ∀ m ∈ memberUnless empty key value, ∀ c ∈ m, Inert c := by
  cases empty with
  | true => exact List.forall_mem_nil _
  | false => exact List.forall_mem_singleton.2 (inert_member hkey hvalue)

theorem intercalate_cons (sep m : Bytes) {members : List Bytes} (h : members ≠ []) :
    sep.intercalate (m :: members) = m ++ sep ++ sep.intercalate members := by
  obtain ⟨m', rest, rfl⟩ := List.exists_cons_of_ne_nil h
  simp [List.intercalate]

theorem inert_intercalate {members : List Bytes} (h : ∀ m ∈ members, ∀ c ∈ m, Inert c) :
    ∀ c ∈ [0x2c].intercalate members, Inert c := by
  induction members with
  | nil => exact List.forall_mem_nil _
  | cons m members ih =>
    obtain ⟨hm, hmembers⟩ := List.forall_mem_cons.1 h
    by_cases hne : members = []
    · simpa [hne, List.intercalate] using hm
    · rw [intercalate_cons _ _ hne, List.forall_mem_append, List.forall_mem_append]
      exact ⟨⟨hm, by decide⟩, ih hmembers⟩

theorem inert_object {members : List Bytes} (h : ∀ m ∈ members, ∀ c ∈ m, Inert c) :
    ∀ c ∈ object members, Inert c :=
  List.forall_mem_cons.2 ⟨by decide, List.forall_mem_append.2 ⟨inert_intercalate h, by decide⟩⟩

theorem inert_migration {m : MigrationSummary} (h : ∀ c ∈ m.outcome, Ordinary c) :
    ∀ c ∈ m.encode, Inert c := by
  refine inert_object ?_
  simp only [List.forall_mem_append, List.forall_mem_cons]
  exact ⟨⟨⟨inert_member (by decide) (inert_quote h), inert_member (by decide) (inert_signed _),
    List.forall_mem_nil _⟩, inert_memberUnless (by decide) (inert_signed _)⟩,
    inert_memberUnless (by decide) (inert_signed _)⟩

theorem Summary.Wellformed.members (h : s.Wellformed) : ∀ m ∈ s.members, ∀ c ∈ m, Inert c := by
  have hquote {key : String} {empty : Bool} {text : Bytes} (hkey : ∀ c ∈ bytes key, Inert c)
      (ht : ∀ c ∈ text, Ordinary c) :=
    @inert_memberUnless empty key _ hkey (inert_quote ht)
  simp only [Summary.members, List.forall_mem_append, List.forall_mem_cons]
  refine ⟨inert_member (by decide) (inert_quote h.frameDigest), ⟨⟨⟨⟨inert_memberUnless (by decide) (by decide),
    inert_memberUnless (by decide) (by decide)⟩, hquote (by decide) h.errorCode⟩,
    hquote (by decide) h.coordinationDigest⟩, hquote (by decide) h.targetIdentityDigest⟩, ?_⟩
  cases hm : s.migration with
  | none => exact List.forall_mem_nil _
  | some m =>
    exact List.forall_mem_singleton.2 (inert_member (by decide) (inert_migration (h.outcome m hm)))

/-- The text of a summary: the operation ID between quotes, and inert bytes around it. -/
theorem Summary.Wellformed.encode (h : s.Wellformed) :
    ∃ front back, s.encode = front ++ 0x22 :: (Go.escape false s.operationID ++ 0x22 :: back) ∧
      (∀ c ∈ front, Inert c) ∧ ∀ c ∈ back, Inert c := by
  have hmembers : s.members ≠ [] := List.cons_ne_nil _ _
  refine ⟨0x7b :: (member "protocolVersion" (Go.signed s.protocolVersion) ++ [0x2c] ++
      (member "operation" (Go.quote false s.operation.name) ++ [0x2c] ++
        (0x22 :: bytes "operationId" ++ [0x22, 0x3a]))),
    0x2c :: ([0x2c].intercalate s.members ++ [0x7d]), ?_, ?_, ?_⟩
  · rw [Summary.encode, object, intercalate_cons _ _ (List.cons_ne_nil _ _),
      intercalate_cons _ _ (List.cons_ne_nil _ _), intercalate_cons _ _ hmembers]
    simp [member, Go.quote]
  · simp only [List.forall_mem_cons, List.forall_mem_append]
    exact ⟨by decide, ⟨inert_member (by decide) (inert_signed _), by decide⟩,
      ⟨inert_member (by decide) (inert_quote (ordinary_operation h.operation)), by decide⟩, by decide⟩
  · simp only [List.forall_mem_cons, List.forall_mem_append]
    exact ⟨by decide, inert_intercalate h.members, by decide⟩

theorem Summary.Wellformed.oneLine (h : s.Wellformed) : ∀ c ∈ s.encode, 0x20 ≤ c := by
  obtain ⟨front, back, heq, hfront, hback⟩ := h.encode
  simp only [heq, List.forall_mem_append, List.forall_mem_cons]
  exact ⟨fun c hc => (hfront c hc).1, by decide, fun c => Go.le_of_mem_escape, by decide,
    fun c hc => (hback c hc).1⟩

theorem Summary.Wellformed.marker_iff (h : s.Wellformed) :
    summaryMarker <:+: s.encode ++ [newline] ↔ summaryMarker <:+: s.operationID := by
  obtain ⟨front, back, heq, hfront, hback⟩ := h.encode
  have hmarker : summaryMarker = 0x50 :: summaryMarker.tail := rfl
  have hquote : 0x22 ∉ summaryMarker := by decide
  have hpattern : ∀ c ∈ 0x50 :: summaryMarker.tail, Go.Unescaped false c := by
    have hall : ∀ c ∈ summaryMarker, c < 0x80 ∧ Go.escapeByte false c = [c] := by decide
    exact hall
  have hfree text (htext : ∀ c ∈ text, c ≠ 0x50) : ¬ summaryMarker <:+: text :=
    fun hin => htext 0x50 (hin.subset (by decide)) rfl
  have hfront' := hfree front fun c hc => (hfront c hc).2
  have hback' := hfree (back ++ [newline])
    (List.forall_mem_append.2 ⟨fun c hc => (hback c hc).2, by decide⟩)
  rw [heq, List.append_assoc, List.cons_append, List.append_assoc, List.cons_append,
    Scan.infix_line_iff hquote (by decide), Scan.infix_line_iff hquote (by decide), hmarker,
    Go.infix_escape hpattern (by decide), ← hmarker]
  simp only [hfront', hback', false_or, or_false]

/-! ## Reading a summary back -/

/-- The summary that `encoding/json` reads from the text of a summary: U+FFFD stands for what is not
UTF-8. -/
def Summary.readBack (s : Summary) : Summary :=
  { s with
    operation := .ofName (Go.toValid s.operation.name)
    operationID := Go.toValid s.operationID
    frameDigest := Go.toValid s.frameDigest
    errorCode := Go.toValid s.errorCode
    coordinationDigest := Go.toValid s.coordinationDigest
    targetIdentityDigest := Go.toValid s.targetIdentityDigest
    migration := s.migration.map fun m => { m with outcome := Go.toValid m.outcome } }

/-- What `encoding/json` promises about the text of a summary: it is read back with nothing behind it,
and no part of it is a document. -/
structure Summary.ReadBy (decode : SummaryDecoder) (s : Summary) : Prop where
  readsBack : decode s.encode = some (s.readBack, true)
  whole : ∀ part, part <+: s.encode → part ≠ s.encode → decode part = none

theorem toValid_ordinary (h : ∀ c ∈ text, Ordinary c) : Go.toValid text = text :=
  (Go.toValid_eq_iff text).2 (Go.validText_ascii fun c hc => (h c hc).1)

theorem ofName_name {operation : Operation} (h : operation.valid = true) :
    Operation.ofName operation.name = operation := by
  cases operation with
  | unsupported name => cases h
  | _ => decide

/-- Only the operation ID may be read as another text. -/
theorem Summary.Wellformed.readBack (h : s.Wellformed) :
    s.readBack = { s with operationID := Go.toValid s.operationID } := by
  have hmigration : (s.migration.map fun m => { m with outcome := Go.toValid m.outcome }) = s.migration := by
    cases hm : s.migration with
    | none => rfl
    | some m =>
      rw [Option.map_some, toValid_ordinary (h.outcome m hm)]
  rw [Summary.readBack, toValid_ordinary (ordinary_operation h.operation), ofName_name h.operation,
    toValid_ordinary h.frameDigest, toValid_ordinary h.errorCode, toValid_ordinary h.coordinationDigest,
    toValid_ordinary h.targetIdentityDigest, hmigration]

theorem summaryMarker_eq : summaryMarker = 0x50 :: summaryMarker.tail := rfl

theorem cut_summaryMarker (h : ¬ summaryMarker <:+: pre) :
    Scan.cut summaryMarker (pre ++ (summaryMarker ++ behind)) = some (pre, behind) := by
  rw [summaryMarker_eq] at h ⊢
  exact Scan.cut_first (by decide) h

/-- The document of a message that ends in the text of a summary. -/
theorem trimNewline (text : Bytes) (h : ∀ c ∈ text, 0x20 ≤ c) :
    (text.any fun c => c = 0x0d || c = newline) = false ∧
      (if (text ++ [newline]).getLast? = some newline then (text ++ [newline]).dropLast
        else text ++ [newline]) = text ∧
      (if text.getLast? = some newline then text.dropLast else text) = text := by
  have hnot : ∀ c ∈ text, c ≠ 0x0d ∧ c ≠ newline := by
    intro c hc
    have hle := h c hc
    constructor
    · rintro rfl
      exact absurd hle (by decide)
    · rintro rfl
      exact absurd hle (by decide)
  refine ⟨?_, by simp, if_neg fun hlast => ?_⟩
  · rw [List.any_eq_false]
    intro c hc
    simp [hnot c hc]
  · exact (hnot newline (List.mem_of_getLast? hlast)).2 rfl

theorem marshalSummary_eq (hvalid : s.validate {} = .ok ())
    (hsize : (summaryMarker ++ s.encode ++ [newline]).length ≤ maxSummaryBytes) :
    marshalSummary s = .ok (summaryMarker ++ s.encode ++ [newline]) := by
  have hrefuse reason :
      refuse (decide (maxSummaryBytes < (summaryMarker ++ s.encode ++ [newline]).length)) reason = .ok () :=
    refuse_ok.2 (decide_eq_false (Nat.not_lt.2 hsize))
  rw [marshalSummary, hvalid]
  dsimp only [bind, Except.bind]
  rw [hrefuse]
  rfl

theorem marshalSummary_ok (h : marshalSummary s = .ok summary) :
    s.validate {} = .ok () ∧ (summaryMarker ++ s.encode ++ [newline]).length ≤ maxSummaryBytes ∧
      summary = summaryMarker ++ s.encode ++ [newline] := by
  rw [marshalSummary] at h
  cases hvalid : s.validate {} with
  | error reason =>
    rw [hvalid] at h
    cases h
  | ok u =>
    rw [hvalid] at h
    simp only [refuse, bind, Except.bind, pure, Except.pure] at h
    split at h
    · cases h
    rename_i heq
    split at heq
    · cases heq
    rename_i hsize
    cases h
    exact ⟨rfl, Nat.le_of_not_lt (by simpa using hsize), rfl⟩

theorem parseSummaryFor_summary (hread : s.ReadBy decode)
    (hmarshal : marshalSummary s = .ok summary) (hpre : ¬ summaryMarker <:+: pre)
    (operation : Operation) (operationID : Bytes) :
    parseSummaryFor decode (pre ++ summary) operation operationID =
      if summaryMarker <:+: s.operationID then
        .error (.refused "the termination message carries more than one runner summary")
      else match s.readBack.validate (optionsFor operation operationID) with
      | .error reason => .error (.refused reason)
      | .ok () => .ok s.readBack := by
  obtain ⟨hvalid, hsize, rfl⟩ := marshalSummary_ok hmarshal
  have hform := Summary.wellformed hvalid
  obtain ⟨hline, hdocument, -⟩ := trimNewline s.encode hform.oneLine
  rw [parseSummaryFor, List.append_assoc, cut_summaryMarker hpre]
  dsimp only
  by_cases hmarker : summaryMarker <:+: s.operationID
  · have hsome : (Scan.cut summaryMarker (s.encode ++ [newline])).isSome = true := by
      rw [← Option.ne_none_iff_isSome]
      exact fun hnone => Scan.cut_none_iff.1 hnone (hform.marker_iff.2 hmarker)
    rw [if_pos hsome, if_pos hmarker]
  · have hnone : Scan.cut summaryMarker (s.encode ++ [newline]) = none :=
      Scan.cut_none_iff.2 fun hin => hmarker (hform.marker_iff.1 hin)
    rw [hnone, if_neg (by decide), if_neg (by simpa [Nat.add_assoc] using hsize), hdocument, hline,
      if_neg (by decide), if_neg hmarker]
    cases hback : s.readBack.validate (optionsFor operation operationID) with
    | error reason => simp only [hread.readsBack, hback]
    | ok u => simp only [hread.readsBack, hback]

/-- A part of the text of a summary is refused behind the marker. -/
theorem parseSummaryFor_part (hread : s.ReadBy decode) (hform : s.Wellformed)
    (hpre : ¬ summaryMarker <:+: pre) (hbehind : behind <+: s.encode)
    (hlen : behind.length < s.encode.length) (operation : Operation) (operationID : Bytes) :
    ∃ failure,
      parseSummaryFor decode (pre ++ (summaryMarker ++ behind)) operation operationID = .error failure := by
  obtain ⟨hline, -, hdocument⟩ := trimNewline behind fun c hc => hform.oneLine c (hbehind.subset hc)
  have hnone : decode behind = none := hread.whole behind hbehind fun heq => by
    rw [heq] at hlen
    omega
  rw [parseSummaryFor, cut_summaryMarker hpre]
  dsimp only
  split
  · exact ⟨_, rfl⟩
  split
  · exact ⟨_, rfl⟩
  · rw [hdocument, hline, hnone]
    exact ⟨_, rfl⟩

theorem parseSummaryFor_cut {message : Bytes} (hread : s.ReadBy decode)
    (hmarshal : marshalSummary s = .ok summary) (hpre : ¬ summaryMarker <:+: pre)
    (hmessage : message <+: pre ++ summary) (hcut : message.length + 2 ≤ (pre ++ summary).length)
    (operation : Operation) (operationID : Bytes) :
    ∃ failure, parseSummaryFor decode message operation operationID = .error failure := by
  obtain ⟨hvalid, -, rfl⟩ := marshalSummary_ok hmarshal
  have hform := Summary.wellformed hvalid
  rcases Scan.prefix_append_cases hmessage with hin | ⟨part, hpart, rfl⟩
  · have hnone : Scan.cut summaryMarker message = none :=
      Scan.cut_none_iff.2 fun hmarker => hpre (hmarker.trans hin.isInfix)
    exact ⟨.notFound, by rw [parseSummaryFor, hnone]⟩
  rw [List.append_assoc] at hpart
  by_cases hshort : part.length < summaryMarker.length
  · -- The marker itself is cut.
    have hmarker : part <+: summaryMarker :=
      List.prefix_of_prefix_length_le hpart (List.prefix_append _ _) (Nat.le_of_lt hshort)
    have hnone : Scan.cut summaryMarker (pre ++ part) = none := by
      rw [Scan.cut_none_iff, summaryMarker_eq]
      refine Scan.not_infix_part (by decide) hpre hmarker fun heq => ?_
      rw [heq, ← summaryMarker_eq] at hshort
      omega
    exact ⟨.notFound, by rw [parseSummaryFor, hnone]⟩
  rcases Scan.prefix_append_cases hpart with hin | ⟨behind, hbehind, rfl⟩
  · -- The message ends with the marker.
    obtain rfl := hin.eq_of_length_le (by omega)
    exact parseSummaryFor_part hread hform hpre List.nil_prefix (by
      simp only [List.length_append, List.length_singleton, List.length_nil] at hcut ⊢
      omega) operation operationID
  · have hlen : behind.length < s.encode.length := by
      simp only [List.length_append, List.length_singleton] at hcut
      omega
    have hprefix : behind <+: s.encode :=
      List.prefix_of_prefix_length_le hbehind (List.prefix_append _ _) (Nat.le_of_lt hlen)
    exact parseSummaryFor_part hread hform hpre hprefix hlen operation operationID

/-! ## Markers of a log -/

/-- A complete header line behind a marker, and the digest that it declares. -/
structure HeaderLine (behind digest : Bytes) : Prop where
  line : ∃ line rest lengthField digestField data, behind = line ++ newline :: rest ∧ newline ∉ line ∧
    line.length ≤ 96 ∧ Go.fields line = [lengthField, digestField] ∧
    Go.hexDecode digestField = some data ∧ data.length = 32 ∧
    digest = bytes "sha256:" ++ Go.hexEncode data

theorem declaredDigest_iff : declaredDigest behind = some digest ↔ HeaderLine behind digest := by
  constructor
  · intro h
    rw [declaredDigest] at h
    cases hcut : Scan.cut [newline] behind with
    | none =>
      rw [hcut] at h
      cases h
    | some occurrence =>
      obtain ⟨line, rest⟩ := occurrence
      rw [hcut] at h
      dsimp only at h
      split at h
      · cases h
      split at h
      · rename_i lengthField digestField hfields
        obtain ⟨data, hdata, hdigest⟩ := Option.map_eq_some_iff.1 h
        obtain ⟨hdecode, hsize⟩ := Option.filter_eq_some_iff.1 hdata
        refine ⟨line, rest, lengthField, digestField, data, ?_, ?_, by omega, hfields, hdecode,
          by simpa using hsize, hdigest.symm⟩
        · rw [Scan.cut_eq hcut, List.append_assoc]
          rfl
        · exact Scan.sep_notMem_of_cut hcut
      · cases h
  · rintro ⟨line, rest, lengthField, digestField, data, rfl, hline, hlen, hfields, hdecode, hsize, rfl⟩
    rw [declaredDigest, Scan.cut_sep hline]
    dsimp only
    rw [if_neg (by omega), hfields]
    dsimp only
    rw [hdecode, Option.filter_some, if_pos (by simpa using hsize)]
    rfl

theorem cut_frameHeader {left first : Bytes}
    (h : Scan.cut frameHeader text = some (left, first)) (hs : frameHeader ++ behind <:+ text) :
    behind = first ∨ frameHeader ++ behind <:+ first :=
  @Scan.cut_next _ _ frameHeader.tail text behind 0x50 left first (by decide) h hs

/-- `frameHeaderDigests` comes to every marker of a log. -/
theorem mem_headerDigestsFrom {fuel : Nat} (hfuel : logs.length < fuel) :
    digest ∈ headerDigestsFrom fuel logs ↔
      ∃ behind, frameHeader ++ behind <:+ logs ∧ HeaderLine behind digest := by
  induction fuel generalizing logs with
  | zero => omega
  | succ fuel ih =>
    rw [headerDigestsFrom]
    cases hcut : Scan.cut frameHeader logs with
    | none =>
      refine ⟨nofun, fun ⟨behind, hs, _⟩ => ?_⟩
      exact absurd ((List.prefix_append _ _).isInfix.trans hs.isInfix) (Scan.cut_none_iff.1 hcut)
    | some occurrence =>
      obtain ⟨left, first⟩ := occurrence
      have hlt := (Scan.cut_length_lt frameHeader_ne_nil hcut).2
      have hfirst : frameHeader ++ first <:+ logs :=
        ⟨left, by rw [Scan.cut_eq hcut, List.append_assoc]⟩
      rw [List.mem_append, Option.mem_toList, declaredDigest_iff, ih (by omega)]
      constructor
      · rintro (hline | ⟨behind, hs, hline⟩)
        · exact ⟨first, hfirst, hline⟩
        · exact ⟨behind, hs.trans ((List.suffix_append _ _).trans hfirst), hline⟩
      · rintro ⟨behind, hs, hline⟩
        rcases cut_frameHeader hcut hs with rfl | hs
        · exact .inl hline
        · exact .inr ⟨behind, hs, hline⟩

theorem mem_frameHeaderDigests : digest ∈ frameHeaderDigests logs ↔
      ∃ behind, frameHeader ++ behind <:+ logs ∧ HeaderLine behind digest :=
  mem_headerDigestsFrom (Nat.lt_succ_self _)

section Pending

variable {wire : Wire} {options : ParseOptions}

/-- The parser comes to every marker of a log without a complete frame. -/
theorem mem_headers (h : ∀ behind ∈ headers wire options logs, complete wire options behind = false)
    (hs : frameHeader ++ behind <:+ logs) : behind ∈ headers wire options logs := by
  induction hlen : logs.length using Nat.strong_induction_on generalizing logs with
  | h length ih =>
    cases hcut : Scan.cut frameHeader logs with
    | none =>
      exact absurd ((List.prefix_append _ _).isInfix.trans hs.isInfix) (Scan.cut_none_iff.1 hcut)
    | some occurrence =>
      obtain ⟨left, first⟩ := occurrence
      have hlt := (Scan.cut_length_lt frameHeader_ne_nil hcut).2
      rw [headers_eq hcut] at h ⊢
      rw [next_eq (h first (.head _))] at h ⊢
      rcases cut_frameHeader hcut hs with rfl | hs
      · exact .head _
      · exact List.mem_cons_of_mem _
          (ih first.length (by omega) (fun b hb => h b (.tail _ hb)) hs rfl)

/-! ## Logs that a frame may still arrive in -/

/-- The header needs a search for its payload. -/
def searched (options : ParseOptions) (behind : Bytes) : Bool :=
  match readHeader options.limit behind with
  | .declared payloadLength _ window => payloadLength ≤ window.length
  | .rejected _ | .oversized => false

/-- The search budget reaches every header that needs a search. -/
def Reached (wire : Wire) (options : ParseOptions) : (spent : Nat) → List Bytes → Prop
  | _, [] => True
  | spent, behind :: behinds =>
    (searched options behind = true → Within spent) ∧
      Reached wire options (spent + cost wire options behind) behinds

/-- The header is rejected for a reason that a longer log may remove. -/
def Awaited (wire : Wire) (options : ParseOptions) (behind : Bytes) : Prop :=
  ∃ failure, verdict wire options behind = .rejected failure ∧ mayStillArrive failure = true

/-- A frame may still arrive in the log: every header is rejected, the search budget lasts, and the
last header awaits the rest of its frame. -/
structure Pending (wire : Wire) (options : ParseOptions) (logs : Bytes) : Prop where
  rejected : ∀ behind ∈ headers wire options logs, ∃ failure,
    verdict wire options behind = .rejected failure
  reached : Reached wire options 0 (headers wire options logs)
  last : ∀ behind ∈ (headers wire options logs).getLast?, Awaited wire options behind

/-- The loop has found nothing that the parser returns. -/
structure ParseState.Clear (state : ParseState) : Prop where
  last : state.last = none
  mismatch : state.mismatch = none
  sawOversized : state.sawOversized = false

/-- The parser would say that a frame may still arrive. -/
def ParseState.Awaits (state : ParseState) : Prop :=
  state.sawMarker = true → ∃ failure, state.rejection = some failure ∧ mayStillArrive failure = true

theorem outcome_pending {state : ParseState} :
    (∃ failure, state.outcome = .error failure ∧ mayStillArrive failure = true) ↔
      state.Clear ∧ state.Awaits := by
  obtain ⟨last, mismatch, sawOversized, sawMarker, rejection, searchBudget⟩ := state
  constructor
  · rintro ⟨failure, houtcome, hmay⟩
    cases last with
    | some result => cases houtcome
    | none =>
    cases mismatch with
    | some refusal =>
      cases houtcome
      cases hmay
    | none =>
    cases sawOversized with
    | true =>
      cases houtcome
      cases hmay
    | false =>
      refine ⟨⟨rfl, rfl, rfl⟩, fun hmarker => ?_⟩
      obtain rfl : sawMarker = true := hmarker
      cases rejection with
      | none =>
        cases houtcome
        cases hmay
      | some reason =>
        cases houtcome
        exact ⟨reason, rfl, hmay⟩
  · rintro ⟨⟨hlast, hmismatch, hoversized⟩, hawaits⟩
    obtain rfl : last = none := hlast
    obtain rfl : mismatch = none := hmismatch
    obtain rfl : sawOversized = false := hoversized
    cases sawMarker with
    | false => exact ⟨.notFound, rfl, rfl⟩
    | true =>
      obtain ⟨failure, hrejection, hmay⟩ := hawaits rfl
      obtain rfl : rejection = some failure := hrejection
      exact ⟨failure, rfl, hmay⟩

theorem turn_eq {searchBudget : Int} (h : searched options behind = true → 0 < searchBudget) :
    turn wire options searchBudget behind = (verdict wire options behind, cost wire options behind) := by
  rcases @turn_cases wire options searchBudget behind with ⟨hturn, -⟩ | ⟨hbudget, hturn⟩
  · exact hturn
  unfold turn at hturn
  unfold searched at h
  cases hheader : readHeader options.limit behind with
  | rejected failure => rw [hheader] at hturn; cases hturn
  | oversized => rw [hheader] at hturn; cases hturn
  | declared payloadLength claimedDigest window =>
    rw [hheader] at h hturn
    dsimp only at h hturn
    split at hturn
    · cases hturn
    · have := h (decide_eq_true (by omega))
      omega

theorem turn_exhausted {searchBudget : Int} (h : searched options behind = true)
    (hbudget : searchBudget ≤ 0) : turn wire options searchBudget behind = (.exhausted, 0) := by
  unfold searched at h
  unfold turn
  cases hheader : readHeader options.limit behind with
  | rejected failure => rw [hheader] at h; cases h
  | oversized => rw [hheader] at h; cases h
  | declared payloadLength claimedDigest window =>
    rw [hheader] at h
    dsimp only at h ⊢
    rw [if_neg (by simpa using h), if_pos hbudget]

/-- The loop ends with a frame that may still arrive exactly if every header is rejected and the last
one awaits its rest. -/
theorem readHeaders_pending {start : Nat} {state : ParseState} {behinds : List Bytes}
    (hbudget : state.searchBudget = maxFrameSearchBytes - start) :
    (readHeaders wire options state behinds).Clear ∧ (readHeaders wire options state behinds).Awaits ↔
      state.Clear ∧ (∀ behind ∈ behinds, ∃ failure, verdict wire options behind = .rejected failure) ∧
        Reached wire options start behinds ∧ (behinds = [] → state.Awaits) ∧
        ∀ behind ∈ behinds.getLast?, Awaited wire options behind := by
  induction behinds generalizing state start with
  | nil =>
    constructor
    · rintro ⟨hclear, hawaits⟩
      refine ⟨hclear, fun b hb => ?_, trivial, fun _ => hawaits, fun b hb => ?_⟩
      · cases hb
      · cases hb
    · rintro ⟨hclear, -, -, hawaits, -⟩
      exact ⟨hclear, hawaits rfl⟩
  | cons behind behinds ih =>
    rw [readHeaders]
    by_cases hreach : searched options behind = true → Within start
    · rw [turn_eq fun h => by have := hreach h; unfold Within at this; omega]
      have hrest : ∀ state' : ParseState,
          state'.searchBudget = state.searchBudget - cost wire options behind →
          state'.searchBudget = maxFrameSearchBytes - ((start + cost wire options behind)) :=
        fun state' h => by omega
      cases hverdict : verdict wire options behind with
      | exhausted => exact absurd hverdict (verdict_ne_exhausted behind)
      | oversized | foreign refusal next' | accepted result next' =>
        dsimp only [ParseState.after]
        rw [ih (hrest _ rfl)]
        refine ⟨fun h => ?_, fun h => ?_⟩
        · obtain ⟨hlast, hmismatch, hoversized⟩ := h.1
          first | cases hoversized | cases hmismatch | cases hlast
        · obtain ⟨failure, hfailure⟩ := h.2.1 behind (.head _)
          rw [hverdict] at hfailure
          cases hfailure
      | rejected failure =>
        dsimp only [ParseState.after]
        rw [ih (hrest _ rfl)]
        constructor
        · rintro ⟨hclear, hall, hreached, hlast, hlater⟩
          refine ⟨⟨hclear.last, hclear.mismatch, hclear.sawOversized⟩, ?_, ⟨hreach, hreached⟩,
            (fun hnil => by cases hnil), ?_⟩
          · intro b hb
            rcases hb with _ | ⟨_, hb⟩
            · exact ⟨failure, hverdict⟩
            · exact hall b hb
          · intro b hb
            by_cases hnil : behinds = []
            · obtain rfl : behind = b := by simpa [hnil] using hb
              obtain ⟨failure', hrejection, hmay⟩ := hlast hnil rfl
              obtain rfl := Option.some.inj hrejection
              exact ⟨failure, hverdict, hmay⟩
            · rw [List.getLast?_cons_of_ne_nil hnil] at hb
              exact hlater b hb
        · rintro ⟨hclear, hall, ⟨-, hreached⟩, -, hlater⟩
          refine ⟨⟨hclear.last, hclear.mismatch, hclear.sawOversized⟩,
            fun b hb => hall b (.tail _ hb), hreached, fun hnil _ => ?_, ?_⟩
          · obtain ⟨failure', hfailure, hmay⟩ := hlater behind (by simp [hnil])
            rw [hverdict] at hfailure
            cases hfailure
            exact ⟨failure, rfl, hmay⟩
          · intro b hb
            refine hlater b ?_
            rw [List.getLast?_cons_of_ne_nil fun hnil => by simp [hnil] at hb]
            exact hb
    · obtain ⟨hsearched, hbeyond⟩ := Classical.not_imp.1 hreach
      rw [turn_exhausted hsearched (by unfold Within at hbeyond; omega)]
      refine ⟨fun h => ?_, fun h => absurd h.2.2.1.1 hreach⟩
      obtain ⟨failure, hrejection, hmay⟩ := h.2 rfl
      cases hrejection
      cases hmay

theorem parse_pending_iff (logs : Bytes) :
    (∃ failure, parseResultWithOptions wire logs options = .error failure ∧
        mayStillArrive failure = true) ↔ Pending wire options logs := by
  rw [parseResultWithOptions, outcome_pending, scan_eq_readHeaders,
    @readHeaders_pending wire options 0 _ _ (by simp)]
  constructor
  · rintro ⟨-, hall, hreached, -, hlast⟩
    exact ⟨hall, hreached, hlast⟩
  · rintro ⟨hall, hreached, hlast⟩
    exact ⟨⟨rfl, rfl, rfl⟩, hall, hreached, (fun _ hmarker => by cases hmarker), hlast⟩

/-! ## Standing in for a frame -/

/-- The frame behind a marker is an answer: it parses, or it was refused for a reason that no longer log
removes. -/
def Answered (wire : Wire) (options : ParseOptions) (behind : Bytes) : Prop :=
  match verdict wire options behind with
  | .rejected failure => mayStillArrive failure = false
  | .oversized | .foreign _ _ | .accepted _ _ => True
  | .exhausted => False

/-- A log that holds more than a summary bound to `frameDigest` can say. -/
def Outspoken (wire : Wire) (options : ParseOptions) (frameDigest logs : Bytes) : Prop :=
  ∃ behind, frameHeader ++ behind <:+ logs ∧
    ((∃ digest, HeaderLine behind digest ∧ digest ≠ frameDigest) ∨ Answered wire options behind)

/-- A refused frame behind which another one only began: the parser keeps the reason of the last header
alone. -/
structure Overwritten (wire : Wire) (options : ParseOptions) (frameDigest logs : Bytes) : Prop where
  pending : Pending wire options logs
  refused : ∃ behind ∈ headers wire options logs, Answered wire options behind
  digests : ∀ behind digest, frameHeader ++ behind <:+ logs → HeaderLine behind digest →
    digest = frameDigest

theorem standsInFor_ok {outcome : Except FrameError Result} : s.standsInFor logs outcome = .ok () ↔
      (∃ failure, outcome = .error failure ∧ mayStillArrive failure = true) ∧
        ∀ digest ∈ frameHeaderDigests logs, digest = s.frameDigest := by
  cases outcome with
  | ok result =>
    constructor
    · intro h
      cases h
    · rintro ⟨⟨_, h, -⟩, -⟩
      cases h
  | error failure =>
    simp only [Summary.standsInFor, bind_ok, refuse_ok, Bool.not_eq_false', List.any_eq_false,
      decide_eq_true_eq, not_not, ne_eq]
    constructor
    · rintro ⟨hmay, hdigests⟩
      exact ⟨⟨failure, rfl, hmay⟩, hdigests⟩
    · rintro ⟨⟨failure', heq, hmay⟩, hdigests⟩
      cases heq
      exact ⟨hmay, hdigests⟩

theorem Pending.incomplete (h : Pending wire options logs)
    (hb : behind ∈ headers wire options logs) : complete wire options behind = false := by
  obtain ⟨failure, hfailure⟩ := h.rejected behind hb
  rw [complete, hfailure]

/-- A summary is refused for each log that says more than it, unless a refused frame of the log is
overwritten. -/
theorem standsInFor_iff (logs : Bytes) : (Outspoken wire options s.frameDigest logs →
        ∃ reason, s.standsInFor logs (parseResultWithOptions wire logs options) = .error reason) ↔
      ¬ Overwritten wire options s.frameDigest logs := by
  constructor
  · rintro h ⟨hpending, ⟨behind, hb, hanswered⟩, hdigests⟩
    obtain ⟨reason, hreason⟩ := h ⟨behind, marker_suffix hb, .inr hanswered⟩
    have hok : s.standsInFor logs (parseResultWithOptions wire logs options) = .ok () := by
      refine standsInFor_ok.2 ⟨(parse_pending_iff logs).2 hpending, fun digest hd => ?_⟩
      obtain ⟨b, hs, hline⟩ := mem_frameHeaderDigests.1 hd
      exact hdigests b digest hs hline
    rw [hok] at hreason
    cases hreason
  · rintro h ⟨behind, hs, hsays⟩
    cases hstands : s.standsInFor logs (parseResultWithOptions wire logs options) with
    | error reason => exact ⟨reason, rfl⟩
    | ok u =>
      obtain ⟨hpending, hall⟩ := standsInFor_ok.1 hstands
      have hdigests : ∀ behind digest, frameHeader ++ behind <:+ logs → HeaderLine behind digest →
          digest = s.frameDigest :=
        fun b d hs hline => hall d (mem_frameHeaderDigests.2 ⟨b, hs, hline⟩)
      rw [parse_pending_iff] at hpending
      rcases hsays with ⟨digest, hline, hne⟩ | hanswered
      · exact absurd (hdigests behind digest hs hline) hne
      · exact absurd ⟨hpending, ⟨behind, mem_headers (fun b hb => hpending.incomplete hb) hs, hanswered⟩,
          hdigests⟩ h

end Pending

/-! ## A summary and its run -/

/-- The result that is written: one without a protocol version takes this build's. -/
def Result.versioned (result : Result) : Result :=
  if result.protocolVersion = 0 then { result with protocolVersion := Runner.protocolVersion } else result

def frameDigestOf (wire : Wire) (result : Result) : Bytes :=
  bytes "sha256:" ++ Go.hexEncode (wire.sha256 (wire.marshal result.versioned))

def boundSummary (wire : Wire) (result : Result) : Summary :=
  summaryOf result.versioned (frameDigestOf wire result)

theorem versioned_operation (result : Result) :
    result.versioned.operation = result.operation ∧ result.versioned.operationID = result.operationID := by
  unfold Result.versioned
  split <;> exact ⟨rfl, rfl⟩

theorem versioned_versioned (result : Result) : result.versioned.versioned = result.versioned := by
  by_cases h : result.protocolVersion = 0
  · have heq : result.versioned = { result with protocolVersion := Runner.protocolVersion } := if_pos h
    rw [heq]
    exact if_neg (show Runner.protocolVersion ≠ 0 by decide)
  · have heq : result.versioned = result := if_neg h
    rw [heq, heq]

theorem marshalFrame_eq (wire : Wire) (result : Result) : marshalFrame wire result =
      match validateResult wire.validatePinned result.versioned {} with
      | .error reason => .error (.malformed reason)
      | .ok () =>
        if defaultMaxFrameBytes < (wire.marshal result.versioned).length then .error .tooLarge
        else .ok (framed wire (wire.marshal result.versioned), frameDigestOf wire result) := rfl

theorem marshalFrame_digest {wire : Wire} {frame : Bytes}
    (h : marshalFrame wire result = .ok (frame, digest)) : digest = frameDigestOf wire result := by
  rw [marshalFrame_eq] at h
  split at h
  · cases h
  split at h
  · cases h
  · exact (Prod.mk.inj (Except.ok.inj h)).2.symm

theorem encodeResult_versioned (wire : Wire) (result : Result) : encodeResult wire result =
      match marshalFrame wire result.versioned with
      | .error failure => .error failure
      | .ok (frame, digest) => .ok ⟨frame, marshalSummary (summaryOf result.versioned digest)⟩ := rfl

theorem encodeResult_summary {wire : Wire} {encoded : EncodedResult}
    (h : encodeResult wire result = .ok encoded) :
    encoded.summary = marshalSummary (boundSummary wire result) := by
  rw [encodeResult_versioned] at h
  cases hframe : marshalFrame wire result.versioned with
  | error failure =>
    rw [hframe] at h
    cases h
  | ok written =>
    rw [hframe] at h
    cases h
    rw [marshalFrame_digest hframe, frameDigestOf, versioned_versioned]
    rfl

theorem encodeResult_eq {wire : Wire}
    (hvalid : validateResult wire.validatePinned result.versioned {} = .ok ())
    (hsize : (wire.marshal result.versioned).length ≤ defaultMaxFrameBytes) :
    encodeResult wire result =
      .ok ⟨framed wire (wire.marshal result.versioned), marshalSummary (boundSummary wire result)⟩ := by
  have hframe : marshalFrame wire result.versioned =
      .ok (framed wire (wire.marshal result.versioned), frameDigestOf wire result) := by
    rw [marshalFrame_eq, versioned_versioned, hvalid]
    rw [if_neg (Nat.not_lt.2 hsize), frameDigestOf, versioned_versioned]
    rfl
  rw [encodeResult_versioned, hframe]
  rfl

/-- The caller asks for another operation, or for another attempt. -/
def AsksForOther (result : Result) (operation : Operation) (operationID : Bytes) : Prop :=
  operation ≠ .unsupported [] ∧ operation ≠ result.operation ∨
    operationID ≠ [] ∧ operationID ≠ result.operationID

theorem validate_options {options : ParseOptions} :
    s.validate options = .ok () ↔ s.validate {} = .ok () ∧
      (∀ operation ∈ options.expectedOperation, s.operation = operation) ∧
      ∀ operationID ∈ options.expectedOperationID, s.operationID = operationID := by
  have hoperation : options.expectedOperation.any (decide <| s.operation ≠ ·) = false ↔
      ∀ operation ∈ options.expectedOperation, s.operation = operation := by
    cases options.expectedOperation <;> simp
  have hid : options.expectedOperationID.any (decide <| s.operationID ≠ ·) = false ↔
      ∀ operationID ∈ options.expectedOperationID, s.operationID = operationID := by
    cases options.expectedOperationID <;> simp
  simp only [Summary.validate, Summary.validateBinding, bind_ok, refuse_ok, hoperation, hid,
    Option.any_none, and_true]
  tauto

/-- A termination summary is bound to its run, unless the operation ID holds the marker or is not UTF-8,
or the log hides a refused frame behind the beginning of another one. -/
theorem summary_bound_iff {wire : Wire} {result : Result} {encoded : EncodedResult} {pre summary : Bytes}
    (hencode : encodeResult wire result = .ok encoded) (hsummary : encoded.summary = .ok summary)
    (hread : (boundSummary wire result).ReadBy decode) (hpre : ¬ summaryMarker <:+: pre) (logs : Bytes) :
    (parseSummaryFor decode (pre ++ summary) result.operation result.operationID =
          .ok (boundSummary wire result) ∧
        (∀ operation operationID, AsksForOther result operation operationID → ∃ failure,
          parseSummaryFor decode (pre ++ summary) operation operationID = .error failure) ∧
        (∀ message operation operationID, message <+: pre ++ summary →
          message.length + 2 ≤ (pre ++ summary).length → ∃ failure,
            parseSummaryFor decode message operation operationID = .error failure) ∧
        (Outspoken wire (optionsFor result.operation result.operationID) (frameDigestOf wire result) logs →
          ∃ reason, (boundSummary wire result).standsInFor logs
            (parseResultFor wire logs result.operation result.operationID) = .error reason)) ↔
      ¬ summaryMarker <:+: result.operationID ∧ Go.validText result.operationID = true ∧
        ¬ Overwritten wire (optionsFor result.operation result.operationID) (frameDigestOf wire result)
          logs := by
  have hmarshal : marshalSummary (boundSummary wire result) = .ok summary := by
    rw [← encodeResult_summary hencode, hsummary]
  have hvalid := (marshalSummary_ok hmarshal).1
  have hform := Summary.wellformed hvalid
  have hoperation : (boundSummary wire result).operation = result.operation :=
    (versioned_operation result).1
  have hid : (boundSummary wire result).operationID = result.operationID := (versioned_operation result).2
  have hparse := parseSummaryFor_summary hread hmarshal hpre
  rw [hid, hform.readBack, hid] at hparse
  have hstands := @standsInFor_iff (boundSummary wire result) wire
    (optionsFor result.operation result.operationID) logs
  constructor
  · rintro ⟨hown, -, -, hrefuses⟩
    rw [hparse] at hown
    split at hown
    · cases hown
    rename_i hmarker
    refine ⟨hmarker, ?_, hstands.1 hrefuses⟩
    split at hown
    · cases hown
    have hback := congrArg Summary.operationID (Except.ok.inj hown)
    rw [hid] at hback
    exact (Go.toValid_eq_iff _).1 hback
  · rintro ⟨hmarker, htext, hnot⟩
    have hback : { boundSummary wire result with operationID := Go.toValid result.operationID } =
        boundSummary wire result := by
      rw [(Go.toValid_eq_iff _).2 htext, ← hid]
    rw [hback] at hparse
    simp only [if_neg hmarker] at hparse
    refine ⟨?_, fun operation operationID hother => ?_, fun message operation operationID hmessage hcut =>
      parseSummaryFor_cut hread hmarshal hpre hmessage hcut operation operationID, hstands.2 hnot⟩
    · have hown : (boundSummary wire result).validate
          (optionsFor result.operation result.operationID) = .ok () := by
        refine validate_options.2 ⟨hvalid, ?_, ?_⟩
        · intro operation ho
          change operation ∈ (if _ then none else some _) at ho
          split at ho
          · cases ho
          · exact hoperation.trans (Option.some.inj ho)
        · intro operationID ho
          change operationID ∈ (if _ then none else some _) at ho
          split at ho
          · cases ho
          · exact hid.trans (Option.some.inj ho)
      rw [hparse, hown]
    · rw [hparse]
      split
      · exact ⟨_, rfl⟩
      rename_i hok
      obtain ⟨-, hop, hattempt⟩ := validate_options.1 hok
      rcases hother with ⟨hne, hdiffers⟩ | ⟨hne, hdiffers⟩
      · exact absurd ((hop operation (if_neg hne)).symm.trans hoperation) hdiffers
      · exact absurd ((hattempt operationID (if_neg hne)).symm.trans hid) hdiffers

/-- A decoder that knows the text of one summary. -/
def sampleDecoder (s : Summary) : SummaryDecoder := fun document =>
  if document = s.encode then some (s, true) else none

theorem sampleDecoder_reads (h : s.readBack = s) : s.ReadBy (sampleDecoder s) where
  readsBack := by rw [h]; exact if_pos rfl
  whole _ _ hne := if_neg hne

/-- A log with a line of other output and the sample frame. -/
def sampleLog : Bytes :=
  filler 3 ++ newline :: framed (sampleWire (samplePayload 8)) (samplePayload 8)

theorem sampleLog_outspoken : Outspoken (sampleWire (samplePayload 8))
    (optionsFor .resolve (bytes "op")) (frameDigestOf (sampleWire (samplePayload 8)) (sampleResult 8))
      sampleLog := by
  refine ⟨headerFields (sampleWire (samplePayload 8)) (samplePayload 8) ++ newline :: samplePayload 8 ++
    frameFooter ++ [newline], ⟨filler 3 ++ [newline], by decide +kernel⟩, .inr ?_⟩
  have hverdict : verdict (sampleWire (samplePayload 8)) (optionsFor .resolve (bytes "op"))
      (headerFields (sampleWire (samplePayload 8)) (samplePayload 8) ++ newline :: samplePayload 8 ++
        frameFooter ++ [newline]) = .accepted (sampleResult 8) [newline] := by decide +kernel
  rw [Answered, hverdict]
  trivial

/-- The summary behind the text of the runtime: it is read, it is refused for another attempt, and it does
not stand in for the frame that the log holds. -/
theorem summary_bound_sample :
    ∃ summary, marshalSummary (boundSummary (sampleWire (samplePayload 8)) (sampleResult 8)) = .ok summary ∧
      parseSummaryFor (sampleDecoder (boundSummary (sampleWire (samplePayload 8)) (sampleResult 8)))
          (bytes "Error: " ++ summary) .resolve (bytes "op") =
        .ok (boundSummary (sampleWire (samplePayload 8)) (sampleResult 8)) ∧
      (∃ failure, parseSummaryFor (sampleDecoder (boundSummary (sampleWire (samplePayload 8)) (sampleResult 8)))
          (bytes "Error: " ++ summary) .resolve (bytes "other") = .error failure) ∧
      ∃ reason, (boundSummary (sampleWire (samplePayload 8)) (sampleResult 8)).standsInFor sampleLog
          (parseResultFor (sampleWire (samplePayload 8)) sampleLog .resolve (bytes "op")) = .error reason := by
  have hsize : ((sampleWire (samplePayload 8)).marshal (sampleResult 8).versioned).length ≤
      defaultMaxFrameBytes := by decide +kernel
  have hmarshal := @marshalSummary_eq (boundSummary (sampleWire (samplePayload 8)) (sampleResult 8))
    (by decide +kernel) (by decide +kernel)
  have hparse : (parseResultFor (sampleWire (samplePayload 8)) sampleLog .resolve (bytes "op")).toBool =
      true := by decide +kernel
  have hnot : ¬ Overwritten (sampleWire (samplePayload 8)) (optionsFor .resolve (bytes "op"))
      (frameDigestOf (sampleWire (samplePayload 8)) (sampleResult 8)) sampleLog := by
    rintro ⟨hpending, -, -⟩
    obtain ⟨failure, hfailure, -⟩ := (parse_pending_iff _).2 hpending
    rw [parseResultFor, hfailure] at hparse
    cases hparse
  obtain ⟨hown, hother, -, hlog⟩ := (summary_bound_iff (encodeResult_eq (sampleWire_valid _ 8) hsize) hmarshal
    (sampleDecoder_reads (by decide +kernel)) (by decide +kernel : ¬ summaryMarker <:+: bytes "Error: ")
      sampleLog).2 ⟨by decide +kernel, by decide +kernel, hnot⟩
  exact ⟨_, hmarshal, hown, hother .resolve (bytes "other") (.inr (by decide +kernel)),
    hlog sampleLog_outspoken⟩

def markedResult : Result := { sampleResult 8 with operationID := summaryMarker }

/-- Behind a marker: the header of the sample frame, another line of the declared length in the place of
its payload, the footer, and the beginning of another header. -/
def overwrittenFrame : Bytes :=
  headerFields (sampleWire (samplePayload 8)) (samplePayload 8) ++ newline :: filler 148 ++ frameFooter ++
    newline :: frameHeader

/-- A summary whose operation ID holds the marker is not read, and a summary stands in for a log with a
refused frame. -/
theorem summary_bound_fails :
    (∃ encoded summary, encodeResult (sampleWire (samplePayload 8)) markedResult = .ok encoded ∧
      encoded.summary = .ok summary ∧
      parseSummaryFor (sampleDecoder (boundSummary (sampleWire (samplePayload 8)) markedResult)) summary
          markedResult.operation markedResult.operationID =
        .error (.refused "the termination message carries more than one runner summary")) ∧
      (∃ encoded summary, encodeResult (sampleWire (samplePayload 8)) (sampleResult 8) = .ok encoded ∧
        encoded.summary = .ok summary) ∧
      verdict (sampleWire (samplePayload 8)) (optionsFor .resolve (bytes "op")) overwrittenFrame =
        .rejected (.malformed "the frame payload does not match the digest its header declares") ∧
      (boundSummary (sampleWire (samplePayload 8)) (sampleResult 8)).standsInFor
        (frameHeader ++ overwrittenFrame)
        (parseResultFor (sampleWire (samplePayload 8)) (frameHeader ++ overwrittenFrame) .resolve
          (bytes "op")) = .ok () := by
  refine ⟨⟨_, _, encodeResult_eq (by rfl) (by decide +kernel), @marshalSummary_eq
    (boundSummary (sampleWire (samplePayload 8)) markedResult) (by decide +kernel) (by decide +kernel),
      by decide +kernel⟩, ⟨_, _, encodeResult_eq (sampleWire_valid _ 8) (by decide +kernel), @marshalSummary_eq
    (boundSummary (sampleWire (samplePayload 8)) (sampleResult 8)) (by decide +kernel) (by decide +kernel)⟩,
      by decide +kernel, by decide +kernel⟩

end Ptah.Runner
