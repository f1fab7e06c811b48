import PtahOperator.DataPlane.PostgresReading

/-!
# Privilege changes of plan statements

`internal/dataplane/privilege.go`: the kinds of authority that a statement changes, read off its
keyword tokens.

* `privilegeChanges`: the kinds of a statement, in vocabulary order.
* `AuthorityStatement`: the PostgreSQL statements that grant, revoke, hand over or assume authority,
  as the lexemes a server reads.
* `authority_raised`: every such statement is raised, unless a name is spelled like a keyword that the
  classifier looks for in its place.
-/

namespace Ptah.DataPlane

open Go (Text Unicode)

/-! ## Token sequences -/

def hasSQLToken (tokens : List String) (wanted : String) : Bool := tokens.contains wanted

def hasSQLTokenSequence (tokens sequence : List String) : Bool :=
  !sequence.isEmpty && tokens.tails.any sequence.isPrefixOf

/-- `tokenAt` of an index in front of a list, from its end: the previous token, the one before
it. -/
def tokenBefore (before : List String) (back : Nat) : String := before.reverse.getD back ""

/-- `tokenAt` of an index into a list. -/
def tokenAt (tokens : List String) (index : Nat) : String := tokens.getD index ""

def statementSegments (tokens : List String) : List (List String) :=
  (tokens.splitOnP (· = statementBoundary)).filter (· ≠ [])

/-! ## The classifier -/

/-- The kinds of authority that a statement can change. -/
inductive PrivilegeChange where
  | grant
  | revoke
  | roleMembership
  | role
  | ownership
  | rowSecurityPolicy
  | securityDefiner
  | definer
  | functionReplacement
  deriving DecidableEq

def privilegeChangeKinds : List PrivilegeChange :=
  [.grant, .revoke, .roleMembership, .role, .ownership, .rowSecurityPolicy, .securityDefiner,
    .definer, .functionReplacement]

/-- `grantKind`, of the tokens behind GRANT or REVOKE. -/
def grantKind (grantee : String) (objectKind : PrivilegeChange) : List String → PrivilegeChange
  | [] => objectKind
  | token :: tokens =>
    if token = "ON" || token = "PRIVILEGES" then objectKind
    else if token = grantee then .roleMembership
    else grantKind grantee objectKind tokens

/-- `insideAlter`, of the tokens up to the word whose predecessor it asks for. -/
def insideAlter (before : List String) (object : String) : Bool :=
  before.length > 1 && hasSQLTokenSequence before.dropLast ["ALTER", object]

/-- `renamesTo`, of the tokens in front of OWNER TO. -/
def renamesTo (before : List String) : Bool :=
  let previous := tokenBefore before 0
  if previous = "COLUMN" || previous = "CONSTRAINT" || previous = "ATTRIBUTE" then true
  else if previous = "RENAME" then
    !(["TABLE", "VIEW", "SEQUENCE", "INDEX", "SCHEMA", "TYPE", "DOMAIN", "FUNCTION", "PROCEDURE",
      "DATABASE", "EXISTS", "ONLY"].contains (tokenBefore before 1))
  else false

def definerClause (before : List String) (token : String) (after : List String) : Bool :=
  let first := tokenAt (before ++ token :: after) 0
  (first = "CREATE" || first = "ALTER") && !before.contains "TABLE" &&
    after.any ["VIEW", "PROCEDURE", "FUNCTION", "TRIGGER", "EVENT"].contains

/-- `startsStatement`. `tokenAt` in front of the first token is empty. -/
def startsStatement (before : List String) : Bool :=
  ["", "BEGIN", "THEN", "ELSE", "LOOP"].contains (tokenBefore before 0)

def assumesIdentity (tokens : List String) : Bool :=
  let sessionAuthorization (tokens : List String) :=
    tokenAt tokens 0 = "SESSION" && tokenAt tokens 1 = "AUTHORIZATION"
  if sessionAuthorization tokens then true
  else
    let tokens :=
      if tokenAt tokens 0 = "SESSION" || tokenAt tokens 0 = "LOCAL" then tokens.drop 1 else tokens
    tokenAt tokens 0 = "ROLE" || sessionAuthorization tokens

def namesRoutine : List String → Bool
  | [] => false
  | token :: tokens =>
    if token = "FUNCTION" || token = "PROCEDURE" then true
    else if ["VIEW", "TRIGGER", "RULE", "TABLE", "INDEX", "SEQUENCE", "TYPE", "SCHEMA", "DATABASE",
        "EVENT", "LANGUAGE", "TRANSFORM", "PACKAGE", "SERVER", "USER", "ROLE", "RECURSIVE",
        "MATERIALIZED", "TEMPORARY", "TEMP"].contains token then false
    else namesRoutine tokens

def definerRightsRoutine (tokens : List String) : Bool :=
  tokenAt tokens 0 = "CREATE" && namesRoutine (tokens.drop 1) &&
    !hasSQLTokenSequence tokens ["SQL", "SECURITY", "INVOKER"]

def principalVerb (token : String) : Bool := token = "CREATE" || token = "ALTER" || token = "DROP"

/-- The branch for ROLE, USER and GROUP. -/
def principalKinds (before : List String) (token : String) (after : List String) :
    List PrivilegeChange :=
  let previous := tokenBefore before 0
  if !principalVerb previous then []
  else if insideAlter before "TABLE" then []
  else if insideAlter before "GROUP" || token = "GROUP" && previous = "ALTER" &&
      (hasSQLTokenSequence (token :: after) ["ADD", "USER"] ||
        hasSQLTokenSequence (token :: after) ["DROP", "USER"]) then [.roleMembership]
  else [.role]

/-- The switch of the loop in `classifyPrivilegeSegment`, at a token of a segment. -/
def kindsAt (before : List String) (token : String) (after : List String) :
    List PrivilegeChange :=
  let previous := tokenBefore before 0
  let next := tokenAt after 0
  let raise (condition : Bool) (kind : PrivilegeChange) := if condition then [kind] else []
  match token with
  | "GRANT" => raise (next ≠ "OPTION") (grantKind "TO" .grant after)
  | "REVOKE" => [grantKind "FROM" .revoke after]
  | "ROLE" | "USER" | "GROUP" => principalKinds before token after
  | "POLICY" => raise (principalVerb previous && !insideAlter before "TABLE") .rowSecurityPolicy
  | "OWNER" => raise (next = "TO" && !renamesTo before) .ownership
  | "OWNED" =>
    if previous = "REASSIGN" then [.ownership] else if previous = "DROP" then [.revoke] else []
  | "AUTHORIZATION" => raise (hasSQLTokenSequence before ["CREATE", "SCHEMA"]) .ownership
  | "SECURITY" => raise (next = "DEFINER") .securityDefiner
  | "SET" => raise (startsStatement before && assumesIdentity after) .role
  | "SECURITY_INVOKER" =>
    raise (next = "FALSE" || next = "OFF" || previous = "RESET") .securityDefiner
  | "DEFINER" => raise (previous ≠ "SECURITY" && definerClause before token after) .definer
  | "REPLACE" =>
    raise (previous = "OR" && tokenBefore before 1 = "CREATE" && namesRoutine after)
      .functionReplacement
  | _ => []

/-- The loop of `classifyPrivilegeSegment`. -/
def kindsFrom (before : List String) : List String → List PrivilegeChange
  | [] => []
  | token :: after => kindsAt before token after ++ kindsFrom (before ++ [token]) after

/-- `classifyPrivilegeSegment`: the kinds it finds. -/
def classifyPrivilegeSegment (tokens : List String) : List PrivilegeChange :=
  kindsFrom [] tokens ++ (if hasSQLTokenSequence tokens ["DISABLE", "ROW", "LEVEL", "SECURITY"] ||
        hasSQLTokenSequence tokens ["NO", "FORCE", "ROW", "LEVEL", "SECURITY"] then
      [.rowSecurityPolicy] else []) ++
    (if tokenAt tokens 0 = "SET" && tokenAt tokens 1 = "DEFAULT" && tokenAt tokens 2 = "ROLE" then
      [.roleMembership] else [])

def privilegeChanges [Unicode] (statement dialect : Text) : List PrivilegeChange :=
  let found := (statementSegments (sqlKeywordTokens statement dialect)).flatMap fun tokens =>
    classifyPrivilegeSegment tokens ++
      (if mysqlDialect dialect && definerRightsRoutine tokens then [.securityDefiner] else [])
  privilegeChangeKinds.filter found.contains

/-! ## Statements that change authority -/

/-- Neither white space nor a comment. -/
def PgLexeme.significant : PgLexeme → Bool
  | .comment => false
  | .other c => !pgSpace c
  | _ => true

/-- A name or a keyword, or punctuation inside a clause. -/
def PgLexeme.plain : PgLexeme → Bool
  | .word _ | .name => true
  | .other c => c ≠ ';'
  | _ => false

/-- An unquoted word that is the keyword `k`. -/
def keyword (k : String) (w : Text) : Prop := w.map Char.toUpper = k.toList

instance (k : String) (w : Text) : Decidable (keyword k w) := inferInstanceAs (Decidable (_ = _))

/-- A PostgreSQL statement that changes authority, as the lexemes of its clauses. The names in a
clause are quoted or not, qualified or not; what follows the last keyword a form needs is free. -/
inductive AuthorityStatement where
  /-- GRANT … TO … -/
  | grant (grant : Text) (clause : List PgLexeme) (preposition : Text) (tail : List PgLexeme)
  /-- REVOKE … FROM … -/
  | revoke (revoke : Text) (clause : List PgLexeme) (preposition : Text) (tail : List PgLexeme)
  /-- ALTER … OWNER TO …, with the object's kind and name. -/
  | owner (alter : Text) (object : List PgLexeme) (owner preposition : Text) (tail : List PgLexeme)
  /-- REASSIGN OWNED BY … -/
  | reassign (reassign owned : Text) (tail : List PgLexeme)
  /-- CREATE, ALTER or DROP of a ROLE, USER or GROUP. -/
  | principal (verb kind : Text) (tail : List PgLexeme)
  /-- CREATE, ALTER or DROP POLICY … -/
  | policy (verb policy : Text) (tail : List PgLexeme)
  /-- SET [SESSION | LOCAL] ROLE … -/
  | setRole (set : Text) (scope : Option Text) (role : Text) (tail : List PgLexeme)

namespace AuthorityStatement

/-- What the classifier has to see of the statement: the lexemes up to its last keyword. -/
def head : AuthorityStatement → List PgLexeme
  | .grant verb clause preposition _ | .revoke verb clause preposition _ =>
    .word verb :: clause ++ [.word preposition]
  | .owner alter object clause preposition _ =>
    .word alter :: object ++ [.word clause, .word preposition]
  | .reassign verb object _ | .principal verb object _ | .policy verb object _ =>
    [.word verb, .word object]
  | .setRole set scope role _ => .word set :: scope.toList.map .word ++ [.word role]

def tail : AuthorityStatement → List PgLexeme
  | .grant _ _ _ tail | .revoke _ _ _ tail | .owner _ _ _ _ tail | .reassign _ _ tail
  | .principal _ _ tail | .policy _ _ tail | .setRole _ _ _ tail => tail

def WellFormed : AuthorityStatement → Prop
  | .grant verb clause preposition _ =>
    keyword "GRANT" verb ∧ keyword "TO" preposition ∧ ∀ l ∈ clause, l.plain = true
  | .revoke verb clause preposition _ =>
    keyword "REVOKE" verb ∧ keyword "FROM" preposition ∧ ∀ l ∈ clause, l.plain = true
  | .owner alter object clause preposition _ =>
    keyword "ALTER" alter ∧ keyword "OWNER" clause ∧ keyword "TO" preposition ∧
      ∀ l ∈ object, l.plain = true
  | .reassign verb object _ => keyword "REASSIGN" verb ∧ keyword "OWNED" object
  | .principal verb kind _ =>
    (keyword "CREATE" verb ∨ keyword "ALTER" verb ∨ keyword "DROP" verb) ∧
      (keyword "ROLE" kind ∨ keyword "USER" kind ∨ keyword "GROUP" kind)
  | .policy verb object _ =>
    (keyword "CREATE" verb ∨ keyword "ALTER" verb ∨ keyword "DROP" verb) ∧ keyword "POLICY" object
  | .setRole set scope role _ =>
    keyword "SET" set ∧ (∀ w ∈ scope, keyword "SESSION" w ∨ keyword "LOCAL" w) ∧ keyword "ROLE" role

/-- A server reads `statement` as this one, with `escapes` the rule for ordinary strings. -/
def ReadFrom (escapes : Bool) (statement : Text) (s : AuthorityStatement) : Prop :=
  (pgLexemes escapes statement).filter PgLexeme.significant = s.head ++ s.tail

instance (escapes : Bool) (statement : Text) (s : AuthorityStatement) :
    Decidable (s.ReadFrom escapes statement) :=
  inferInstanceAs (Decidable (_ = _))

end AuthorityStatement

def clauseTokens [Unicode] (clause : List PgLexeme) : List String :=
  clause.flatMap fun
    | .word w => runTokens w
    | _ => []

/-- The unquoted words of a clause with a letter or an underscore of ASCII. -/
def clauseWords (clause : List PgLexeme) : List Text :=
  (clause.filterMap PgLexeme.word?).filter (·.any asciiKeywordCharacter)

/-- A word from its first letter or underscore of ASCII on, in upper case. -/
def spelling [Unicode] (w : Text) : String := token (w.dropWhile (!asciiKeywordCharacter ·))

/-- No name is spelled like a keyword that the classifier looks for in its place: the first word behind GRANT
not like OPTION, and the last word in front of OWNER TO not like those that end a RENAME clause. -/
def AuthorityStatement.Clear [Unicode] : AuthorityStatement → Prop
  | .grant _ clause _ _ => ∀ w ∈ (clauseWords clause).head?, spelling w ≠ "OPTION"
  | .owner _ object _ _ _ => ∀ w ∈ (clauseWords object).getLast?,
    spelling w ∉ ["COLUMN", "CONSTRAINT", "ATTRIBUTE"] ∧
      (spelling w = "RENAME" → ∃ v ∈ (clauseWords object).dropLast.getLast?,
        spelling v ∈ ["TABLE", "VIEW", "SEQUENCE", "INDEX", "SCHEMA", "TYPE", "DOMAIN", "FUNCTION",
          "PROCEDURE", "DATABASE", "EXISTS", "ONLY"])
  | _ => True

/-! ## What a segment raises -/

theorem kindsAt_subset_kindsFrom (before pre : List String) (token : String) (after : List String) :
    kindsAt (before ++ pre) token after ⊆ kindsFrom before (pre ++ token :: after) := by
  induction pre generalizing before with
  | nil =>
    rw [List.append_nil]
    exact List.subset_append_left _ _
  | cons t pre ih =>
    have hrest := ih (before ++ [t])
    rw [List.append_assoc] at hrest
    exact List.Subset.trans hrest (List.subset_append_right _ _)

theorem kindsAt_subset_classify (before : List String) (token : String) (after : List String) :
    kindsAt before token after ⊆ classifyPrivilegeSegment (before ++ token :: after) :=
  List.Subset.trans (kindsAt_subset_kindsFrom [] before token after)
    (List.Subset.trans (List.subset_append_left _ _) (List.subset_append_left _ _))

theorem statementSegments_append (a b : List String) :
    statementSegments (a ++ statementBoundary :: b) = statementSegments a ++ statementSegments b := by
  rw [statementSegments, List.splitOnP_append_cons _ _ (by simp), List.filter_append]
  rfl

theorem exists_mem_statementSegments {tokens : List String} (rest : List String)
    (hne : tokens ≠ []) (hclear : statementBoundary ∉ tokens) :
    ∃ more, tokens ++ more ∈ statementSegments (tokens ++ rest) := by
  have hfree : ∀ more : List String, statementBoundary ∉ more →
      ∀ t ∈ tokens ++ more, decide (t = statementBoundary) = false := by
    intro more hmore t ht
    refine decide_eq_false fun heq => ?_
    subst heq
    rcases List.mem_append.1 ht with ht | ht
    · exact hclear ht
    · exact hmore ht
  have hne' : ∀ more, decide (tokens ++ more ≠ []) = true := by
    simp [hne]
  by_cases hmem : statementBoundary ∈ rest
  · obtain ⟨more, later, rfl, hmore⟩ := List.eq_append_cons_of_mem hmem
    refine ⟨more, ?_⟩
    rw [statementSegments, ← List.append_assoc,
      List.splitOnP_append_cons_of_forall_mem (hfree more hmore) _ (by simp)]
    exact List.mem_filter.2 ⟨.head _, hne' more⟩
  · refine ⟨rest, ?_⟩
    rw [statementSegments, List.splitOnP_eq_singleton (hfree rest hmem)]
    exact List.mem_filter.2 ⟨List.mem_singleton_self _, hne' rest⟩

theorem mem_privilegeChangeKinds (kind : PrivilegeChange) : kind ∈ privilegeChangeKinds := by
  cases kind <;> decide

variable {k : String} {w : Text}

section Statements

variable [Unicode] {escapes : Bool}

/-- What a token in the head of one reading raises, whatever follows, the statement raises. -/
theorem kindsAt_subset_privilegeChanges {statement dialect : Text} {tokens rest : List String}
    (before : List String) (token : String) (after : List String)
    (htokens : sqlKeywordTokensWithEscapes statement dialect escapes = tokens ++ rest)
    (hsplit : tokens = before ++ token :: after) (hclear : statementBoundary ∉ tokens) :
    ∃ more, kindsAt before token (after ++ more) ⊆ privilegeChanges statement dialect := by
  have hsegment : ∃ more, before ++ token :: (after ++ more) ∈
      statementSegments (sqlKeywordTokens statement dialect) := by
    rw [sqlKeywordTokens, statementSegments_append]
    obtain ⟨more, hmore⟩ := exists_mem_statementSegments rest (by simp [hsplit]) hclear
    rw [← htokens, hsplit, List.append_assoc, List.cons_append] at hmore
    refine ⟨more, ?_⟩
    cases escapes with
    | false => exact List.mem_append_left _ hmore
    | true => exact List.mem_append_right _ hmore
  obtain ⟨more, hsegment⟩ := hsegment
  refine ⟨more, fun kind hkind => ?_⟩
  refine List.mem_filter.2 ⟨mem_privilegeChangeKinds kind, ?_⟩
  rw [List.contains_iff_mem]
  refine List.mem_flatMap.2 ⟨_, hsegment, List.mem_append_left _ ?_⟩
  exact kindsAt_subset_classify _ _ _ hkind

/-! ### The tokens of a clause -/

omit [Unicode] in
theorem toUpper_of_not_lower {c : Char} (h : ¬ ('a'.val ≤ c.val ∧ c.val ≤ 'z'.val)) : c.toUpper = c :=
  dif_neg h

theorem token_of_keyword (h : keyword k w)
    (hk : ∀ c ∈ k.toList, Go.ascii c = true) : token w = k := by
  have hmap : Go.toUpper w = w.map Char.toUpper := by
    refine List.map_congr_left fun c hc => ?_
    have hupper : Go.ascii c.toUpper = true := hk _ (h ▸ List.mem_map_of_mem hc)
    cases hascii : Go.ascii c with
    | true => rw [if_pos rfl]
    | false =>
      have hfix : c.toUpper = c := by
        refine toUpper_of_not_lower ?_
        rintro ⟨-, hz⟩
        have : c.val.toNat ≤ 'z'.val.toNat := UInt32.le_iff_toNat_le.1 hz
        have : 'z'.val.toNat = 122 := rfl
        have : ¬ c.toNat < 0x80 := of_decide_eq_false hascii
        have : c.val.toNat = c.toNat := rfl
        omega
      rw [hfix, hascii] at hupper
      cases hupper
  rw [token, hmap, h, String.ofList_toList]

omit [Unicode] in
theorem toUpper_ne_semicolon {c : Char} (h : asciiKeywordCharacter c = true) :
    Go.ascii c = true ∧ c.toUpper ≠ ';' := by
  have hall : ∀ n : Fin 128, asciiKeywordCharacter (Char.ofNat n) = true →
      (Char.ofNat n).toUpper ≠ ';' := by
    decide
  have hlt : c.toNat < 128 := by
    simp only [asciiKeywordCharacter, Bool.or_eq_true, Bool.and_eq_true, decide_eq_true_eq,
      Char.le_def, UInt32.le_iff_toNat_le] at h
    have : 'z'.val.toNat = 122 := rfl
    have : 'Z'.val.toNat = 90 := rfl
    have : c.val.toNat = c.toNat := rfl
    rcases h with (h | h) | rfl
    · omega
    · omega
    · decide
  have hc := hall ⟨c.toNat, hlt⟩
  rw [Char.ofNat_toNat] at hc
  exact ⟨decide_eq_true hlt, hc h⟩

theorem boundary_notMem_runTokens (w : Text) : statementBoundary ∉ runTokens w := by
  unfold runTokens
  have hhead := List.head?_dropWhile_not (!asciiKeywordCharacter ·) w
  split
  · simp
  rename_i c w' heq
  rw [heq] at hhead
  obtain ⟨hascii, hne⟩ := toUpper_ne_semicolon (by simpa using hhead)
  rw [List.mem_singleton]
  intro htoken
  have hsemicolon : statementBoundary.toList = [';'] := by decide
  have hchars : Go.toUpper (c :: w') = [';'] := by
    rw [← hsemicolon, htoken, token, String.toList_ofList]
  rw [Go.toUpper, List.map_cons, if_pos hascii] at hchars
  exact hne (List.cons.inj hchars).1

theorem boundary_notMem_clauseTokens (clause : List PgLexeme) :
    statementBoundary ∉ clauseTokens clause := by
  unfold clauseTokens
  rw [List.mem_flatMap]
  rintro ⟨l, -, hl⟩
  split at hl
  · exact boundary_notMem_runTokens _ hl
  · cases hl

theorem clauseTokens_append (a b : List PgLexeme) :
    clauseTokens (a ++ b) = clauseTokens a ++ clauseTokens b :=
  List.flatMap_append

theorem clauseTokens_eq (clause : List PgLexeme) :
    clauseTokens clause = (clauseWords clause).map spelling := by
  induction clause with
  | nil => rfl
  | cons l clause ih =>
    cases l with
    | word w =>
      change runTokens w ++ clauseTokens clause =
        ((w :: clause.filterMap PgLexeme.word?).filter (·.any asciiKeywordCharacter)).map spelling
      rw [ih, List.filter_cons, runTokens]
      split
      · rename_i hnil
        rw [List.dropWhile_eq_nil_iff] at hnil
        rw [if_neg (by simpa using hnil)]
        rfl
      · rename_i c rest hcons
        have hany : w.any asciiKeywordCharacter = true := by
          by_contra hnone
          have hnil : w.dropWhile (!asciiKeywordCharacter ·) = [] :=
            List.dropWhile_eq_nil_iff.2 (by simpa using hnone)
          rw [hnil] at hcons
          cases hcons
        rw [if_pos hany, List.map_cons, spelling, hcons]
        rfl
    | _ => exact ih

omit [Unicode] in
theorem asciiKeywordCharacter_of_toUpper {c : Char} (h : asciiKeywordCharacter c.toUpper = true) :
    asciiKeywordCharacter c = true := by
  by_cases hlow : 'a'.val ≤ c.val ∧ c.val ≤ 'z'.val
  · have : 'a' ≤ c ∧ c ≤ 'z' := hlow
    simp [asciiKeywordCharacter, this.1, this.2]
  · rwa [toUpper_of_not_lower hlow] at h

/-- The name of a keyword: ASCII, from a letter on. -/
def KeywordName (k : String) : Prop :=
  k.toList.all Go.ascii = true ∧ startsAsKeyword k.toList = true

instance (k : String) : Decidable (KeywordName k) := inferInstanceAs (Decidable (_ ∧ _))

theorem runTokens_keyword (hk : KeywordName k) (h : keyword k w) : runTokens w = [k] := by
  have hstart : startsAsKeyword w = true := by
    have hk := hk.2
    rw [← h] at hk
    cases w with
    | nil => cases hk
    | cons c w =>
      exact asciiKeywordCharacter_of_toUpper (by simpa [startsAsKeyword] using hk)
  rw [runTokens_of_startsAsKeyword hstart, token_of_keyword h (List.all_eq_true.1 hk.1)]

theorem clauseTokens_keyword (hk : KeywordName k) (h : keyword k w)
    (rest : List PgLexeme) : clauseTokens (.word w :: rest) = k :: clauseTokens rest := by
  change runTokens w ++ clauseTokens rest = k :: clauseTokens rest
  rw [runTokens_keyword hk h]
  rfl

/-- A clause of plain lexemes is read in step, with white space and comments between them. -/
theorem clause_tokens {l : PgLexeme} (h : l.significant = false ∨ l.plain = true) :
    l.InStep escapes escapes ∧ l.tokens escapes = if l.significant then clauseTokens [l] else [] := by
  cases l with
  | word w => exact ⟨trivial, by simp [PgLexeme.tokens, PgLexeme.significant, clauseTokens]⟩
  | name => exact ⟨trivial, by simp [PgLexeme.tokens, PgLexeme.significant, clauseTokens]⟩
  | comment => exact ⟨trivial, by simp [PgLexeme.tokens, PgLexeme.significant]⟩
  | string opening before text => simp [PgLexeme.significant, PgLexeme.plain] at h
  | body before text => simp [PgLexeme.significant, PgLexeme.plain] at h
  | other c =>
    refine ⟨trivial, ?_⟩
    have hne : c ≠ ';' := by
      rintro rfl
      revert h
      decide
    simp [PgLexeme.tokens, boundary, hne, clauseTokens]

omit [Unicode] in
theorem exists_take_filter {α : Type} {p : α → Bool} {ls head tail : List α}
    (h : ls.filter p = head ++ tail) : ∃ k, (ls.take k).filter p = head := by
  induction ls generalizing head with
  | nil =>
    have hnil : head = [] := (List.append_eq_nil_iff.1 h.symm).1
    exact ⟨0, hnil.symm⟩
  | cons l ls ih =>
    cases head with
    | nil => exact ⟨0, rfl⟩
    | cons x head =>
      cases hl : p l with
      | true =>
        rw [List.filter_cons_of_pos hl, List.cons_append] at h
        obtain ⟨rfl, hrest⟩ := List.cons.inj h
        obtain ⟨k, hk⟩ := ih hrest
        exact ⟨k + 1, by rw [List.take_succ_cons, List.filter_cons_of_pos hl, hk]⟩
      | false =>
        rw [List.filter_cons_of_neg (by simp [hl])] at h
        obtain ⟨k, hk⟩ := ih h
        exact ⟨k + 1, by rw [List.take_succ_cons, List.filter_cons_of_neg (by simp [hl]), hk]⟩

/-- The tokens of a statement begin with those of its head, if that is made of plain lexemes. -/
theorem tokens_of_head {statement dialect : Text} {head tail : List PgLexeme}
    (hdialect : mysqlDialect dialect = false)
    (hread : (pgLexemes escapes statement).filter PgLexeme.significant = head ++ tail)
    (hplain : ∀ l ∈ head, l.plain = true) :
    ∃ rest, sqlKeywordTokensWithEscapes statement dialect escapes = clauseTokens head ++ rest := by
  obtain ⟨k, hk⟩ := exists_take_filter hread
  have hcase : ∀ l ∈ (pgLexemes escapes statement).take k,
      l.significant = false ∨ l.plain = true := by
    intro l hl
    cases hsig : l.significant with
    | false => exact .inl rfl
    | true => exact .inr (hplain l (hk ▸ List.mem_filter.2 ⟨hl, hsig⟩))
  obtain ⟨rest, heq, -⟩ := @pgRead_tokens_take none { rest := statement } _ escapes escapes _
    (Nat.lt_succ_self _) k fun l hl => (clause_tokens (hcase l hl)).1
  refine ⟨rest, ?_⟩
  rw [sqlKeywordTokensWithEscapes, hdialect, heq, ← hk]
  congr 1
  change ((pgLexemes escapes statement).take k).flatMap _ = _
  generalize (pgLexemes escapes statement).take k = ls at hcase
  induction ls with
  | nil => rfl
  | cons l ls ih =>
    rw [List.flatMap_cons, ih fun m hm => hcase m (.tail _ hm),
      (clause_tokens (hcase l (.head _))).2, List.filter_cons]
    split
    · exact (clauseTokens_append [l] _).symm
    · rfl

omit [Unicode] in
theorem AuthorityStatement.head_plain {s : AuthorityStatement} (h : s.WellFormed) :
    ∀ l ∈ s.head, l.plain = true := by
  have hword : ∀ w, PgLexeme.plain (.word w) = true := fun _ => rfl
  cases s with
  | grant => simpa [head, hword, or_imp, forall_and] using h.2.2
  | revoke => simpa [head, hword, or_imp, forall_and] using h.2.2
  | owner => simpa [head, hword, or_imp, forall_and] using h.2.2.2
  | reassign => simp [head, hword]
  | principal => simp [head, hword]
  | policy => simp [head, hword]
  | setRole => simp [head, hword, or_imp, forall_and]

def AuthorityStatement.isOwner : AuthorityStatement → Bool
  | .owner .. => true
  | _ => false

theorem clauseTokens_verb {verb : Text}
    (h : keyword "CREATE" verb ∨ keyword "ALTER" verb ∨ keyword "DROP" verb)
    (rest : List PgLexeme) :
    ∃ token, principalVerb token = true ∧ clauseTokens (.word verb :: rest) =
      token :: clauseTokens rest := by
  rcases h with h | h | h
  · exact ⟨"CREATE", by decide, clauseTokens_keyword (by decide) h rest⟩
  · exact ⟨"ALTER", by decide, clauseTokens_keyword (by decide) h rest⟩
  · exact ⟨"DROP", by decide, clauseTokens_keyword (by decide) h rest⟩

omit [Unicode] in
theorem principalKinds_ne_nil {verb token : String} (hverb : principalVerb verb = true)
    (after : List String) : principalKinds [verb] token after ≠ [] := by
  unfold principalKinds
  have hprevious : tokenBefore [verb] 0 = verb := rfl
  have hinside : ∀ object, insideAlter [verb] object = false := fun _ => rfl
  simp only [hprevious, hverb, hinside, Bool.not_true, Bool.false_eq_true, if_false]
  split <;> simp

/-- At some token of the statement's head the classifier raises a kind, whatever follows, and for OWNER TO the
ownership. -/
def AuthorityStatement.RaisedAt (s : AuthorityStatement) : Prop :=
  ∃ before token after, clauseTokens s.head = before ++ token :: after ∧
    ∀ more, kindsAt before token (after ++ more) ≠ [] ∧
      (s.isOwner = true → .ownership ∈ kindsAt before token (after ++ more))

section Forms

variable {verb object preposition : Text} {clause tail : List PgLexeme}

theorem grant_raised (hverb : keyword "GRANT" verb) (hprep : keyword "TO" preposition)
    (hclear : (AuthorityStatement.grant verb clause preposition tail).Clear) :
    (AuthorityStatement.grant verb clause preposition tail).RaisedAt := by
  refine ⟨[], "GRANT", clauseTokens clause ++ ["TO"], ?_, fun more => ⟨?_, fun h => by cases h⟩⟩
  · rw [AuthorityStatement.head, List.cons_append, clauseTokens_keyword (by decide) hverb,
      clauseTokens_append, clauseTokens_keyword (by decide) hprep]
    rfl
  · have hnext : tokenAt (clauseTokens clause ++ ["TO"] ++ more) 0 ≠ "OPTION" := by
      change ∀ w ∈ (clauseWords clause).head?, spelling w ≠ "OPTION" at hclear
      rw [clauseTokens_eq]
      cases hwords : clauseWords clause with
      | nil => simp [tokenAt]
      | cons w words =>
        rw [hwords] at hclear
        simpa [tokenAt] using hclear w rfl
    change (if decide (tokenAt (clauseTokens clause ++ ["TO"] ++ more) 0 ≠ "OPTION") then [_] else []) ≠ []
    rw [if_pos (decide_eq_true hnext)]
    exact List.cons_ne_nil _ _

theorem revoke_raised (hverb : keyword "REVOKE" verb) :
    (AuthorityStatement.revoke verb clause preposition tail).RaisedAt := by
  refine ⟨[], "REVOKE", clauseTokens (clause ++ [.word preposition]), ?_, fun more =>
    ⟨List.cons_ne_nil _ _, fun h => by cases h⟩⟩
  rw [AuthorityStatement.head, List.cons_append, clauseTokens_keyword (by decide) hverb]
  rfl

/-- The words in front of OWNER TO do not end as a RENAME clause does. -/
theorem not_renamesTo {alter owner : Text}
    (hclear : (AuthorityStatement.owner alter clause owner preposition tail).Clear) :
    renamesTo ("ALTER" :: clauseTokens clause) = false := by
  change ∀ w ∈ (clauseWords clause).getLast?, _ at hclear
  rw [clauseTokens_eq]
  rcases List.eq_nil_or_concat (clauseWords clause) with hnil | ⟨words, w, hwords⟩
  · rw [hnil, List.map_nil]
    decide
  rw [hwords, List.concat_eq_append] at hclear ⊢
  obtain ⟨hkeyword, hrename⟩ := hclear w (by simp)
  have hprevious : tokenBefore ("ALTER" :: (words ++ [w]).map spelling) 0 = spelling w := by
    simp [tokenBefore]
  simp only [renamesTo, hprevious]
  rw [if_neg (by simpa [and_assoc] using hkeyword)]
  split
  · rename_i hspelled
    obtain ⟨v, hv, hobject⟩ := hrename hspelled
    rw [List.dropLast_concat] at hv
    have hbefore : tokenBefore ("ALTER" :: (words ++ [w]).map spelling) 1 = spelling v := by
      obtain ⟨front, rfl⟩ := List.getLast?_eq_some_iff.1 hv
      simp [tokenBefore]
    rw [hbefore, List.contains_iff_mem.2 hobject]
    rfl
  · rfl

theorem owner_raised {alter owner : Text} (halter : keyword "ALTER" alter) (howner : keyword "OWNER" owner)
    (hprep : keyword "TO" preposition)
    (hclear : (AuthorityStatement.owner alter clause owner preposition tail).Clear) :
    (AuthorityStatement.owner alter clause owner preposition tail).RaisedAt := by
  have hkinds : ∀ more, kindsAt ("ALTER" :: clauseTokens clause) "OWNER" (["TO"] ++ more) = [.ownership] := by
    intro more
    change (if true && !renamesTo ("ALTER" :: clauseTokens clause) then [_] else []) = _
    rw [not_renamesTo hclear]
    rfl
  refine ⟨"ALTER" :: clauseTokens clause, "OWNER", ["TO"], ?_, fun more => ?_⟩
  · rw [AuthorityStatement.head, List.cons_append, clauseTokens_keyword (by decide) halter,
      clauseTokens_append, clauseTokens_keyword (by decide) howner, clauseTokens_keyword (by decide) hprep]
    rfl
  · rw [hkinds more]
    exact ⟨List.cons_ne_nil _ _, fun _ => .head _⟩

theorem reassign_raised (hverb : keyword "REASSIGN" verb) (howned : keyword "OWNED" object) :
    (AuthorityStatement.reassign verb object tail).RaisedAt := by
  refine ⟨["REASSIGN"], "OWNED", [], ?_, fun more => ⟨List.cons_ne_nil _ _, fun h => by cases h⟩⟩
  rw [AuthorityStatement.head, clauseTokens_keyword (by decide) hverb, clauseTokens_keyword (by decide) howned]
  rfl

theorem principal_raised (hverb : keyword "CREATE" verb ∨ keyword "ALTER" verb ∨ keyword "DROP" verb)
    (hkind : keyword "ROLE" object ∨ keyword "USER" object ∨ keyword "GROUP" object) :
    (AuthorityStatement.principal verb object tail).RaisedAt := by
  obtain ⟨token, htoken, heq⟩ := clauseTokens_verb hverb [.word object]
  obtain ⟨kind, hraised, hone⟩ : ∃ kind, (∀ after, kindsAt [token] kind after ≠ []) ∧
      clauseTokens [.word object] = [kind] := by
    rcases hkind with h | h | h
    · exact ⟨"ROLE", principalKinds_ne_nil htoken, clauseTokens_keyword (by decide) h []⟩
    · exact ⟨"USER", principalKinds_ne_nil htoken, clauseTokens_keyword (by decide) h []⟩
    · exact ⟨"GROUP", principalKinds_ne_nil htoken, clauseTokens_keyword (by decide) h []⟩
  refine ⟨[token], kind, [], ?_, fun more => ⟨hraised _, fun h => by cases h⟩⟩
  rw [AuthorityStatement.head, heq, hone]
  rfl

theorem policy_raised (hverb : keyword "CREATE" verb ∨ keyword "ALTER" verb ∨ keyword "DROP" verb)
    (hpolicy : keyword "POLICY" object) : (AuthorityStatement.policy verb object tail).RaisedAt := by
  obtain ⟨token, htoken, heq⟩ := clauseTokens_verb hverb [.word object]
  refine ⟨[token], "POLICY", [], ?_, fun more => ⟨?_, fun h => by cases h⟩⟩
  · rw [AuthorityStatement.head, heq, clauseTokens_keyword (by decide) hpolicy]
    rfl
  · change (if principalVerb token && !insideAlter [token] "TABLE" then [_] else []) ≠ []
    rw [htoken]
    exact List.cons_ne_nil _ _

theorem setRole_raised {set role : Text} {scope : Option Text} (hset : keyword "SET" set)
    (hscope : ∀ w ∈ scope, keyword "SESSION" w ∨ keyword "LOCAL" w) (hrole : keyword "ROLE" role) :
    (AuthorityStatement.setRole set scope role tail).RaisedAt := by
  have hlast : clauseTokens [.word role] = ["ROLE"] := clauseTokens_keyword (by decide) hrole []
  obtain ⟨scopes, hassumes, heq⟩ : ∃ scopes : List String,
      (∀ more, assumesIdentity (scopes ++ ["ROLE"] ++ more) = true) ∧
        clauseTokens (scope.toList.map PgLexeme.word ++ [.word role]) = scopes ++ ["ROLE"] := by
    cases scope with
    | none => exact ⟨[], fun more => by simp [assumesIdentity, tokenAt], hlast⟩
    | some w =>
      rcases hscope w rfl with h | h
      · exact ⟨["SESSION"], fun more => by simp [assumesIdentity, tokenAt],
          (clauseTokens_keyword (by decide) h [.word role]).trans (by rw [hlast]; rfl)⟩
      · exact ⟨["LOCAL"], fun more => by simp [assumesIdentity, tokenAt],
          (clauseTokens_keyword (by decide) h [.word role]).trans (by rw [hlast]; rfl)⟩
  refine ⟨[], "SET", scopes ++ ["ROLE"], ?_, fun more => ⟨?_, fun h => by cases h⟩⟩
  · rw [AuthorityStatement.head, List.cons_append, clauseTokens_keyword (by decide) hset, heq]
    rfl
  · change (if startsStatement [] && assumesIdentity (scopes ++ ["ROLE"] ++ more) then [_] else []) ≠ []
    rw [hassumes more]
    exact List.cons_ne_nil _ _

end Forms

/-- A change of authority is raised.

For every PostgreSQL statement of one of the forms, under either rule for ordinary strings: some
kind is raised, and for OWNER TO it is the ownership, if no name is spelled like a keyword that the
classifier looks for in its place. -/
theorem authority_raised {statement dialect : Text} {s : AuthorityStatement}
    (hdialect : mysqlDialect dialect = false) (hform : s.WellFormed)
    (hread : s.ReadFrom escapes statement) (hclear : s.Clear) :
    privilegeChanges statement dialect ≠ [] ∧
      (s.isOwner = true → .ownership ∈ privilegeChanges statement dialect) := by
  have hraised : s.RaisedAt := by
    cases s with
    | grant => exact grant_raised hform.1 hform.2.1 hclear
    | revoke => exact revoke_raised hform.1
    | owner => exact owner_raised hform.1 hform.2.1 hform.2.2.1 hclear
    | reassign => exact reassign_raised hform.1 hform.2
    | principal => exact principal_raised hform.1 hform.2
    | policy => exact policy_raised hform.1 hform.2
    | setRole => exact setRole_raised hform.1 hform.2.1 hform.2.2
  obtain ⟨before, token, after, hsplit, hkinds⟩ := hraised
  obtain ⟨rest, htokens⟩ := tokens_of_head hdialect hread (AuthorityStatement.head_plain hform)
  obtain ⟨more, hsub⟩ := kindsAt_subset_privilegeChanges before token after htokens hsplit
    (boundary_notMem_clauseTokens s.head)
  refine ⟨fun hnil => (hkinds more).1 ?_, fun howner => hsub ((hkinds more).2 howner)⟩
  rw [hnil] at hsub
  exact List.subset_nil.1 hsub

end Statements

def ownerOf (table : List PgLexeme) : AuthorityStatement :=
  .owner "ALTER".toList (.word "TABLE".toList :: table) "OWNER".toList "TO".toList
    [.word "bob".toList]

theorem ownerOf_wellFormed {table : List PgLexeme} (h : ∀ l ∈ table, l.plain = true) :
    (ownerOf table).WellFormed :=
  ⟨by decide, by decide, by decide, List.forall_mem_cons.2 ⟨rfl, h⟩⟩

/-- A schema-qualified table. -/
theorem authority_raised_option :
    letI := Go.asciiTables
    .ownership ∈ privilegeChanges "ALTER TABLE app.option OWNER TO bob".toList
      "postgres".toList := by
  let _ := Go.asciiTables
  have hclear : (ownerOf [.word "app".toList, .other '.', .word "option".toList]).Clear := by
    change ∀ w ∈ (clauseWords _).getLast?, _
    decide +kernel
  have hread : (ownerOf [.word "app".toList, .other '.', .word "option".toList]).ReadFrom false
      "ALTER TABLE app.option OWNER TO bob".toList := by
    decide +kernel
  exact (authority_raised (by decide +kernel) (ownerOf_wellFormed (by decide)) hread hclear).2 rfl

/-- A statement of the form that raises nothing. -/
def unraised [Unicode] (s : AuthorityStatement) (statement : String) : Prop :=
  s.WellFormed ∧ s.ReadFrom false statement.toList ∧
    privilegeChanges statement.toList "postgres".toList = []

/-- A table called attribute, a qualified table called rename, a role called option, and names that end in
such a word behind other letters. -/
theorem authority_unraised :
    letI := Go.asciiTables
    unraised (ownerOf [.word "attribute".toList]) "ALTER TABLE attribute OWNER TO bob" ∧
      unraised (ownerOf [.word "app".toList, .other '.', .word "rename".toList])
        "ALTER TABLE app.rename OWNER TO bob" ∧
      unraised (.grant "GRANT".toList [.word "option".toList] "TO".toList [.word "bob".toList])
        "GRANT option TO bob" ∧
      unraised (ownerOf [.word "表attribute".toList]) "ALTER TABLE 表attribute OWNER TO bob" ∧
      unraised (.grant "GRANT".toList [.word "表option".toList] "TO".toList [.word "bob".toList])
        "GRANT 表option TO bob" := by
  refine ⟨⟨ownerOf_wellFormed (by decide), by decide +kernel, by decide +kernel⟩,
    ⟨ownerOf_wellFormed (by decide), by decide +kernel, by decide +kernel⟩,
    ⟨⟨by decide, by decide, by decide⟩, by decide +kernel, by decide +kernel⟩,
    ⟨ownerOf_wellFormed (by decide), by decide +kernel, by decide +kernel⟩,
    ⟨⟨by decide, by decide, by decide⟩, by decide +kernel, by decide +kernel⟩⟩

end Ptah.DataPlane
