import PtahOperator.DataPlane.Plan
import PtahOperator.DataPlane.SqlContext
import PtahOperator.Scan.Lines

/-!
# Classification of statements put together

What the classifiers of `internal/dataplane` make of two statements with a semicolon between them. The
token stream of the whole holds the two readings of each statement apart (`Woven`):

* `privilegeChanges` reads segment by segment, so the kinds of the whole are those of the two.
* `conservativelyDestructiveDDL` and `credentialBearingPrincipalDDL` look for keywords, and find in the
  whole what they find in a reading.

`credentialBearingPrincipalDDL` also looks from a CREATE or ALTER at the end of the first reading of a
statement to a ROLE or USER at the head of the second one. In the whole, the other statement stands
between them (`SplitPrincipal`).
-/

namespace Ptah.DataPlane

open Go (Text Unicode)

/-! ## Token streams -/

/-- The two readings of a statement stand in a token stream, one behind the other. -/
def Woven (first second tokens : List String) : Prop :=
  ∃ before between behind, tokens = before ++ first ++ between ++ second ++ behind

section Streams

variable {first second tokens keywords : List String}

theorem hasSQLTokenSequence_iff (hne : keywords ≠ []) :
    hasSQLTokenSequence tokens keywords = true ↔ keywords <:+: tokens := by
  refine ⟨fun h => ?_, hasSQLTokenSequence_of_infix hne⟩
  simp only [hasSQLTokenSequence, Bool.and_eq_true, List.any_eq_true, List.mem_tails] at h
  obtain ⟨_, behind, hsuffix, hfront⟩ := h
  have hbegins := List.isPrefixOf_iff_prefix.1 hfront
  exact hbegins.isInfix.trans hsuffix.isInfix

theorem Woven.first_in (h : Woven first second tokens) : first <:+: tokens := by
  obtain ⟨before, between, behind, rfl⟩ := h
  exact ⟨before, between ++ second ++ behind, by simp⟩

theorem Woven.second_in (h : Woven first second tokens) : second <:+: tokens := by
  obtain ⟨before, between, behind, rfl⟩ := h
  exact ⟨before ++ first ++ between, behind, by simp⟩

/-- Keywords next to each other in the readings stand next to each other in the stream. -/
theorem Woven.sequence (h : Woven first second tokens) (hne : keywords ≠ [])
    (hclear : statementBoundary ∉ keywords)
    (hseq : hasSQLTokenSequence (first ++ statementBoundary :: second) keywords = true) :
    hasSQLTokenSequence tokens keywords = true := by
  rw [hasSQLTokenSequence_iff hne, Scan.infix_line_iff hclear hne] at hseq
  rw [hasSQLTokenSequence_iff hne]
  rcases hseq with hseq | hseq
  · exact hseq.trans h.first_in
  · exact hseq.trans h.second_in

theorem Woven.mem (h : Woven first second tokens) {token : String} (hclear : token ≠ statementBoundary)
    (hmem : token ∈ first ++ statementBoundary :: second) : token ∈ tokens := by
  rcases List.mem_append.1 hmem with hmem | hmem
  · exact h.first_in.subset hmem
  rcases hmem with _ | ⟨_, hmem⟩
  · exact absurd rfl hclear
  · exact h.second_in.subset hmem

/-- SET PASSWORD, or GRANT with IDENTIFIED BY or WITH behind it. -/
def credentialClause (tokens : List String) : Bool := tokens.tails.any fun
  | "SET" :: "PASSWORD" :: _ => true
  | "GRANT" :: rest =>
    hasSQLTokenSequence rest ["IDENTIFIED", "BY"] || hasSQLTokenSequence rest ["IDENTIFIED", "WITH"]
  | _ => false

/-- CREATE or ALTER with ROLE or USER among the four tokens behind it. -/
def principalClause (tokens : List String) : Bool := tokens.tails.any fun
  | token :: rest =>
    (token = "CREATE" || token = "ALTER") &&
      (rest.take 4).any fun candidate => candidate = "ROLE" || candidate = "USER"
  | [] => false

theorem credentialClause_iff : credentialClause tokens = true ↔ ["SET", "PASSWORD"] <:+: tokens ∨
      ∃ before rest, tokens = before ++ "GRANT" :: rest ∧
        (["IDENTIFIED", "BY"] <:+: rest ∨ ["IDENTIFIED", "WITH"] <:+: rest) := by
  simp only [credentialClause, List.any_eq_true, List.mem_tails]
  constructor
  · rintro ⟨tail, ⟨before, rfl⟩, h⟩
    split at h
    · rename_i rest
      exact .inl ⟨before, rest, by simp⟩
    · rename_i rest
      rw [Bool.or_eq_true, hasSQLTokenSequence_iff (by simp), hasSQLTokenSequence_iff (by simp)] at h
      exact .inr ⟨before, rest, rfl, h⟩
    · cases h
  · rintro (⟨before, rest, rfl⟩ | ⟨before, rest, rfl, h⟩)
    · exact ⟨"SET" :: "PASSWORD" :: rest, ⟨before, by simp⟩, rfl⟩
    refine ⟨"GRANT" :: rest, ⟨before, rfl⟩, ?_⟩
    change (hasSQLTokenSequence rest ["IDENTIFIED", "BY"] ||
      hasSQLTokenSequence rest ["IDENTIFIED", "WITH"]) = true
    rw [Bool.or_eq_true, hasSQLTokenSequence_iff (by simp), hasSQLTokenSequence_iff (by simp)]
    exact h

/-- A credential clause of the readings is one of the stream, even from one reading to the other. -/
theorem Woven.credentialClause (h : Woven first second tokens)
    (hclause : credentialClause (first ++ statementBoundary :: second) = true) :
    credentialClause tokens = true := by
  rw [credentialClause_iff] at hclause ⊢
  rcases hclause with hset | ⟨before, rest, heq, hident⟩
  · left
    rw [← hasSQLTokenSequence_iff (by simp)] at hset ⊢
    exact h.sequence (by simp) (by decide) hset
  right
  obtain ⟨pre, between, behind, rfl⟩ := h
  rcases List.append_eq_append_iff.1 heq with ⟨mid, rfl, hmid⟩ | ⟨mid, hfirst, hmid⟩
  · -- the GRANT stands in the second reading
    cases mid with
    | nil => exact absurd (List.cons.inj hmid).1 (by decide)
    | cons t mid =>
      obtain ⟨_, rfl⟩ := List.cons.inj hmid
      refine ⟨pre ++ first ++ between ++ mid, rest ++ behind, by simp, ?_⟩
      exact hident.imp (fun hin => hin.trans (List.prefix_append _ _).isInfix)
        (fun hin => hin.trans (List.prefix_append _ _).isInfix)
  · -- the GRANT stands in the first one, and what follows in either
    cases mid with
    | nil => exact absurd (List.cons.inj hmid).1.symm (by decide)
    | cons t mid =>
      obtain ⟨rfl, rfl⟩ := List.cons.inj hmid
      subst hfirst
      refine ⟨pre ++ before, mid ++ between ++ second ++ behind, by simp, ?_⟩
      have hlater : ∀ {sequence : List String}, sequence ≠ [] → statementBoundary ∉ sequence →
          sequence <:+: mid ++ statementBoundary :: second →
            sequence <:+: mid ++ between ++ second ++ behind := by
        intro sequence hne hclear hin
        rcases (Scan.infix_line_iff hclear hne).1 hin with hin | hin
        · exact hin.trans ⟨[], between ++ second ++ behind, by simp⟩
        · exact hin.trans ⟨mid ++ between, behind, by simp⟩
      exact hident.imp (hlater (by simp) (by decide)) (hlater (by simp) (by decide))

theorem principalClause_of_reading {reading : List String} (h : reading <:+: tokens)
    (hclause : principalClause reading = true) : principalClause tokens = true := by
  simp only [principalClause, List.any_eq_true, List.mem_tails] at hclause ⊢
  obtain ⟨tail, ⟨before, rfl⟩, hfound⟩ := hclause
  obtain ⟨pre, behind, rfl⟩ := h
  cases tail with
  | nil => cases hfound
  | cons token rest =>
    refine ⟨token :: (rest ++ behind), ⟨pre ++ before, by simp⟩, ?_⟩
    simp only [Bool.and_eq_true, List.any_eq_true] at hfound ⊢
    obtain ⟨hverb, candidate, hin, hkind⟩ := hfound
    have hmore : rest.take 4 <+: (rest ++ behind).take 4 := (List.prefix_append _ _).take 4
    exact ⟨hverb, candidate, hmore.subset hin, hkind⟩

end Streams

/-! ## The classifiers -/

section Classifiers

variable [Unicode] {statement dialect more : Text}

theorem credentialBearingPrincipalDDL_eq (statement dialect : Text) :
    credentialBearingPrincipalDDL statement dialect =
      (credentialClause (sqlKeywordTokens statement dialect) ||
        principalClause (sqlKeywordTokens statement dialect) &&
          (sqlKeywordTokens statement dialect).any
            fun token => token = "PASSWORD" || token = "IDENTIFIED") := rfl

/-- The only principal clause of a statement leads from the end of its first reading to the head of the
second one. -/
def SplitPrincipal (statement dialect : Text) : Prop :=
  principalClause (sqlKeywordTokens statement dialect) = true ∧
    ∀ escapes, principalClause (sqlKeywordTokensWithEscapes statement dialect escapes) = false

/-- What the destructive classifier finds in the readings of a statement it finds in a stream that they
stand in. -/
theorem Woven.destructive {whole : Text}
    (h : Woven (sqlKeywordTokensWithEscapes statement dialect false)
      (sqlKeywordTokensWithEscapes statement dialect true) (sqlKeywordTokens whole dialect))
    (hddl : conservativelyDestructiveDDL statement dialect = true) :
    conservativelyDestructiveDDL whole dialect = true := by
  have htoken : ∀ token, token ≠ statementBoundary →
      hasSQLToken (sqlKeywordTokens statement dialect) token = true →
        hasSQLToken (sqlKeywordTokens whole dialect) token = true := fun token hclear hin =>
    List.contains_iff_mem.2 (h.mem hclear (List.contains_iff_mem.1 hin))
  have hsequence : ∀ sequence, sequence ≠ [] → statementBoundary ∉ sequence →
      hasSQLTokenSequence (sqlKeywordTokens statement dialect) sequence = true →
        hasSQLTokenSequence (sqlKeywordTokens whole dialect) sequence = true :=
    fun sequence hne hclear hin => h.sequence hne hclear hin
  simp only [conservativelyDestructiveDDL, Bool.or_eq_true, Bool.and_eq_true] at hddl ⊢
  rcases hddl with (((((hin | hin) | hin) | hin) | ⟨hin, htype⟩) | hin) | hin
  · exact .inl (.inl (.inl (.inl (.inl (.inl (htoken _ (by decide) hin))))))
  · exact .inl (.inl (.inl (.inl (.inl (.inr (htoken _ (by decide) hin))))))
  · exact .inl (.inl (.inl (.inl (.inr (hsequence _ (by simp) (by decide) hin)))))
  · exact .inl (.inl (.inl (.inr (hsequence _ (by simp) (by decide) hin))))
  · exact .inl (.inl (.inr ⟨hsequence _ (by simp) (by decide) hin, htoken _ (by decide) htype⟩))
  · exact .inl (.inr (hsequence _ (by simp) (by decide) hin))
  · exact .inr (hsequence _ (by simp) (by decide) hin)

/-- So does the credential classifier, unless the clause is split between the readings. -/
theorem Woven.credential {whole : Text}
    (h : Woven (sqlKeywordTokensWithEscapes statement dialect false)
      (sqlKeywordTokensWithEscapes statement dialect true) (sqlKeywordTokens whole dialect))
    (hddl : credentialBearingPrincipalDDL statement dialect = true)
    (hsplit : ¬ SplitPrincipal statement dialect) :
    credentialBearingPrincipalDDL whole dialect = true := by
  rw [credentialBearingPrincipalDDL_eq, Bool.or_eq_true, Bool.and_eq_true] at hddl ⊢
  rcases hddl with hclause | ⟨hprincipal, hany⟩
  · exact .inl (h.credentialClause hclause)
  right
  constructor
  · have hreading : ∃ escapes,
        principalClause (sqlKeywordTokensWithEscapes statement dialect escapes) = true := by
      by_contra hnone
      exact hsplit ⟨hprincipal, fun escapes =>
        Bool.eq_false_iff.2 fun htrue => hnone ⟨escapes, htrue⟩⟩
    obtain ⟨escapes, hreading⟩ := hreading
    cases escapes with
    | false => exact principalClause_of_reading h.first_in hreading
    | true => exact principalClause_of_reading h.second_in hreading
  · obtain ⟨token, hin, htoken⟩ := List.any_eq_true.1 hany
    refine List.any_eq_true.2 ⟨token, h.mem ?_ hin, htoken⟩
    rintro rfl
    revert htoken
    decide

theorem mem_privilegeChanges {kind : PrivilegeChange} : kind ∈ privilegeChanges statement dialect ↔
    ∃ tokens ∈ statementSegments (sqlKeywordTokens statement dialect),
      kind ∈ classifyPrivilegeSegment tokens ++
        (if mysqlDialect dialect && definerRightsRoutine tokens then [.securityDefiner] else []) := by
  simp only [privilegeChanges, List.mem_filter, mem_privilegeChangeKinds, true_and,
    List.contains_iff_mem, List.mem_flatMap]

variable (hout : ∀ escapes, endsOutside statement dialect escapes = true)

include hout in
theorem sqlKeywordTokens_semicolon (more : Text) :
    sqlKeywordTokens (statement ++ ';' :: more) dialect =
      (sqlKeywordTokensWithEscapes statement dialect false ++
        statementBoundary :: sqlKeywordTokensWithEscapes more dialect false) ++
      statementBoundary :: (sqlKeywordTokensWithEscapes statement dialect true ++
        statementBoundary :: sqlKeywordTokensWithEscapes more dialect true) := by
  rw [sqlKeywordTokens, tokens_semicolon (hout false), tokens_semicolon (hout true)]

include hout in
theorem woven_left (more : Text) : Woven (sqlKeywordTokensWithEscapes statement dialect false)
    (sqlKeywordTokensWithEscapes statement dialect true)
    (sqlKeywordTokens (statement ++ ';' :: more) dialect) := by
  rw [sqlKeywordTokens_semicolon hout]
  exact ⟨[], statementBoundary :: sqlKeywordTokensWithEscapes more dialect false ++ [statementBoundary],
    statementBoundary :: sqlKeywordTokensWithEscapes more dialect true, by simp⟩

include hout in
theorem woven_right (more : Text) : Woven (sqlKeywordTokensWithEscapes more dialect false)
    (sqlKeywordTokensWithEscapes more dialect true)
    (sqlKeywordTokens (statement ++ ';' :: more) dialect) := by
  rw [sqlKeywordTokens_semicolon hout]
  exact ⟨sqlKeywordTokensWithEscapes statement dialect false ++ [statementBoundary],
    statementBoundary :: sqlKeywordTokensWithEscapes statement dialect true ++ [statementBoundary],
    [], by simp⟩

include hout in
theorem privilegeChanges_semicolon (more : Text) (kind : PrivilegeChange) :
    kind ∈ privilegeChanges (statement ++ ';' :: more) dialect ↔
      kind ∈ privilegeChanges statement dialect ∨ kind ∈ privilegeChanges more dialect := by
  rw [mem_privilegeChanges, mem_privilegeChanges, mem_privilegeChanges,
    sqlKeywordTokens_semicolon hout, sqlKeywordTokens, sqlKeywordTokens]
  simp only [statementSegments_append, List.mem_append]
  constructor
  · rintro ⟨tokens, (hin | hin) | hin | hin, hkind⟩
    · exact .inl ⟨tokens, .inl hin, hkind⟩
    · exact .inr ⟨tokens, .inl hin, hkind⟩
    · exact .inl ⟨tokens, .inr hin, hkind⟩
    · exact .inr ⟨tokens, .inr hin, hkind⟩
  · rintro (⟨tokens, hin | hin, hkind⟩ | ⟨tokens, hin | hin, hkind⟩)
    · exact ⟨tokens, .inl (.inl hin), hkind⟩
    · exact ⟨tokens, .inr (.inl hin), hkind⟩
    · exact ⟨tokens, .inl (.inr hin), hkind⟩
    · exact ⟨tokens, .inr (.inr hin), hkind⟩

end Classifiers

/-- Classification is compositional, in every dialect. The kinds of authority of two statements with a
semicolon between them are those of the two; what is destructive or holds a credential in one of them
does in the whole, but for a principal clause that is split between the readings of a statement. In
PostgreSQL, the reading of a text with a dollar-quoted body in it is that of its parts. -/
theorem classification_compositional [Unicode] (dialect : Text) :
    (∀ s1 s2 : Text, (∀ escapes, endsOutside s1 dialect escapes = true) →
      (∀ kind, kind ∈ privilegeChanges (s1 ++ ';' :: s2) dialect ↔
        kind ∈ privilegeChanges s1 dialect ∨ kind ∈ privilegeChanges s2 dialect) ∧
      ∀ s, s = s1 ∨ s = s2 → (conservativelyDestructiveDDL s dialect = true →
          conservativelyDestructiveDDL (s1 ++ ';' :: s2) dialect = true) ∧
        (credentialBearingPrincipalDDL s dialect = true → ¬ SplitPrincipal s dialect →
          credentialBearingPrincipalDDL (s1 ++ ';' :: s2) dialect = true)) ∧
    (mysqlDialect dialect = false → ∀ pre tag body post : Text,
      (∀ escapes, endsOutside pre dialect escapes = true) →
      pre.getLast?.any identifierCharacter = false →
      Cursor.dollarQuoteTag ⟨[], tag⟩ = some (tag, []) →
      Scan.cut tag (body ++ tag) = some (body, []) →
      Cursor.dollarQuoteTag ⟨[], post⟩ = none →
      (∀ e rest, post = e :: '\'' :: rest → e ≠ 'E' ∧ e ≠ 'e') →
      ∀ escapes, sqlKeywordTokensWithEscapes (pre ++ (tag ++ body ++ tag ++ post)) dialect escapes =
        sqlKeywordTokensWithEscapes pre dialect escapes ++
          statementBoundary :: sqlKeywordTokensWithEscapes body dialect escapes ++
          statementBoundary :: sqlKeywordTokensWithEscapes post dialect escapes) := by
  refine ⟨fun s1 s2 hout => ⟨privilegeChanges_semicolon hout s2, fun s hs => ?_⟩,
    fun hdialect pre tag body post hout hlast htag hbody hdollar hescape escapes =>
      tokens_dollarQuoted hdialect (hout escapes) hlast htag hbody hdollar hescape⟩
  rcases hs with rfl | rfl
  · exact ⟨(woven_left hout s2).destructive, (woven_left hout s2).credential⟩
  · exact ⟨(woven_right hout _).destructive, (woven_right hout _).credential⟩

/-- A grant and a drop, and a function whose body holds an open quote. -/
theorem classification_compositional_sample :
    let _ := Go.asciiTables
    (PrivilegeChange.grant ∈ privilegeChanges "GRANT ALL ON t TO x;DROP TABLE t".toList "postgres".toList ∧
      conservativelyDestructiveDDL "GRANT ALL ON t TO x;DROP TABLE t".toList "postgres".toList = true) ∧
    sqlKeywordTokensWithEscapes "AS $b$ SELECT 1 -- ' $b$ SECURITY DEFINER".toList "postgres".toList
        false =
      ["AS", ";", "SELECT", ";", "SECURITY", "DEFINER"] := by
  intro _
  have hgrant := (classification_compositional "postgres".toList).1 "GRANT ALL ON t TO x".toList
    "DROP TABLE t".toList (by decide +kernel)
  have hbody := (classification_compositional "postgres".toList).2 (by decide +kernel) "AS ".toList
    "$b$".toList " SELECT 1 -- ' ".toList " SECURITY DEFINER".toList (by decide +kernel) (by decide)
    (by decide +kernel) (by decide +kernel) (by decide +kernel) (fun e rest h => by cases h) false
  exact ⟨⟨(hgrant.1 .grant).2 (.inl (by decide +kernel)),
    (hgrant.2 _ (.inr rfl)).1 (by decide +kernel)⟩, hbody.trans (by decide +kernel)⟩

/-- Where it is not: a principal clause that is split between the readings, a body that makes up the
delimiter with the closing one, and a body right behind another one. -/
theorem classification_not_compositional :
    let _ := Go.asciiTables
    let postgres := "postgres".toList
    ((∀ escapes, endsOutside "USER PASSWORD CREATE".toList postgres escapes = true) ∧
      credentialBearingPrincipalDDL "USER PASSWORD CREATE".toList postgres = true ∧
      credentialBearingPrincipalDDL "USER PASSWORD CREATE;A B C D".toList postgres = false) ∧
    (¬ "$$".toList <:+: "x$".toList ∧
      sqlKeywordTokensWithEscapes "$$x$$$".toList postgres false = [";", "X", ";"] ∧
      sqlKeywordTokensWithEscapes "x$".toList postgres false = ["X$"]) ∧
    (sqlKeywordTokensWithEscapes "$$a$$$$'$$ DROP".toList postgres false = [";", "A", ";"] ∧
      sqlKeywordTokensWithEscapes "$$'$$ DROP".toList postgres false = [";", ";", "DROP"]) := by
  decide +kernel

end Ptah.DataPlane
