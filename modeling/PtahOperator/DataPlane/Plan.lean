import Mathlib.Data.List.Infix
import PtahOperator.DataPlane.MysqlReading
import PtahOperator.DataPlane.Privilege

/-!
# Plan documents

`DecodePlan` of `internal/dataplane/contracts.go`: what it accepts, and the destructive flag and the
privilege changes it reads off the statements. The JSON decoder is a parameter.

* `decodePlan`: the plan of a document.
* `DenotesDestructive`: what the document or its SQL says.
* `decodePlan_reports_iff`: the flag reports it, unless only an overlooked statement says so.
-/

namespace Ptah.DataPlane

open Go (Text Unicode)

/-! ## The document -/

/-- `PlanStatement`. `DecodePlan` reads no other field. -/
structure PlanStatement where
  sql : Text
  severity : Text
  deriving DecidableEq

structure PlanRowSet where
  schema : Text
  table : Text
  keys : List Text
  columns : List Text
  deriving DecidableEq

/-- `PlanFile`, with the fields that `DecodePlan` reads or sets. -/
structure PlanFile where
  formatVersion : Int
  name : Text
  dialect : Text
  fromFingerprint : Text
  toFingerprint : Text
  managedRows : List PlanRowSet := []
  rowsFingerprint : Text := []
  destructive : Bool
  statements : List PlanStatement
  privilegeChanges : List PrivilegeChange := []
  deriving DecidableEq

def planFormatVersion : Int := 1

/-- The refusals of `validateManagedRows`. -/
inductive RowsError where
  | fingerprint
  | fingerprintAlone
  | rowsAlone
  | table (index : Nat)
  | schema (index : Nat)
  | keys (index : Nat)
  | column (index : Nat)
  | twice (qualified : Text)
  deriving DecidableEq

/-- The refusals of `DecodePlan`. -/
inductive PlanError where
  | decode (failure : String)
  | formatVersion (version : Int)
  | missingName
  | dialect (dialect engine : Text)
  | noStatements
  | managedRows (failure : RowsError)
  | statement (index : Nat) (severity : Text)
  | credential (index : Nat)
  deriving DecidableEq

/-! ## Checks -/

def blank (text : Text) : Bool := Go.trimSpace text = []

def validDigest (value : Text) : Bool :=
  "sha256:".toList.isPrefixOf value && value.length = 71 &&
    (value.drop 7).all fun c => digit c || 'a' ≤ c && c ≤ 'f'

def planIdentifier : Text → Bool
  | [] => false
  | c :: name => (c :: name).length ≤ 128 && asciiKeywordCharacter c &&
    name.all fun d => asciiKeywordCharacter d || digit d || d = '$'

/-- The loop of `validateManagedRows`. -/
def validateRowSets (seen : List Text) (index : Nat) : List PlanRowSet → Except RowsError Unit
  | [] => .ok ()
  | rowSet :: rowSets =>
    if !planIdentifier rowSet.table then .error (.table index)
    else if rowSet.schema ≠ [] && !planIdentifier rowSet.schema then .error (.schema index)
    else if rowSet.keys.isEmpty || rowSet.columns.isEmpty then .error (.keys index)
    else if !(rowSet.keys ++ rowSet.columns).all planIdentifier then .error (.column index)
    else
      let qualified := rowSet.schema ++ '.' :: rowSet.table
      if seen.contains qualified then .error (.twice qualified)
      else validateRowSets (qualified :: seen) (index + 1) rowSets

def validateManagedRows (plan : PlanFile) : Except RowsError Unit :=
  if plan.rowsFingerprint ≠ [] && !validDigest plan.rowsFingerprint then .error .fingerprint
  else if plan.managedRows.isEmpty then
    if plan.rowsFingerprint ≠ [] then .error .fingerprintAlone else .ok ()
  else if plan.rowsFingerprint = [] then .error .rowsAlone
  else validateRowSets [] 0 plan.managedRows

section Decode

variable [Unicode]

def knownSeverity (value : Text) : Bool :=
  ["safe", "info", "warning", "error", "destructive"].contains
    (String.ofList (Go.toLower (Go.trimSpace value)))

def dialectMatches (engine dialect : Text) : Bool :=
  let engine := String.ofList (Go.toLower (Go.trimSpace engine))
  let dialect := String.ofList (Go.toLower (Go.trimSpace dialect))
  if engine = "postgresql" || engine = "postgres" then dialect = "postgres" || dialect = "postgresql"
  else if engine = "mysql" then dialect = "mysql" || dialect = "mariadb"
  else false

def conservativelyDestructiveDDL (statement dialect : Text) : Bool :=
  let tokens := sqlKeywordTokens statement dialect
  hasSQLToken tokens "DROP" || hasSQLToken tokens "TRUNCATE" ||
    hasSQLTokenSequence tokens ["DISABLE", "ROW", "LEVEL", "SECURITY"] ||
    hasSQLTokenSequence tokens ["DELETE", "FROM", "PG_ENUM"] ||
    hasSQLTokenSequence tokens ["ALTER", "COLUMN"] && hasSQLToken tokens "TYPE" ||
    hasSQLTokenSequence tokens ["MODIFY", "COLUMN"] ||
    hasSQLTokenSequence tokens ["CHANGE", "COLUMN"]

def credentialBearingPrincipalDDL (statement dialect : Text) : Bool :=
  let tokens := sqlKeywordTokens statement dialect
  let credential := tokens.tails.any fun
    | "SET" :: "PASSWORD" :: _ => true
    | "GRANT" :: rest =>
      hasSQLTokenSequence rest ["IDENTIFIED", "BY"] || hasSQLTokenSequence rest ["IDENTIFIED", "WITH"]
    | _ => false
  let principalDDL := tokens.tails.any fun
    | token :: rest =>
      (token = "CREATE" || token = "ALTER") &&
        (rest.take 4).any fun candidate => candidate = "ROLE" || candidate = "USER"
    | [] => false
  credential ||
    principalDDL && tokens.any fun token => token = "PASSWORD" || token = "IDENTIFIED"

/-! ## Decoding -/

/-- The turn of the loop in `DecodePlan` for one statement: it may raise the severity. -/
def decodeStatement (dialect : Text) (index : Nat) (statement : PlanStatement) :
    Except PlanError PlanStatement :=
  if blank statement.sql || !knownSeverity statement.severity then
    .error (.statement index statement.severity)
  else if credentialBearingPrincipalDDL statement.sql dialect then .error (.credential index)
  else if conservativelyDestructiveDDL statement.sql dialect then
    .ok { statement with severity := "destructive".toList }
  else .ok statement

def decodeStatements (dialect : Text) (index : Nat) :
    List PlanStatement → Except PlanError (List PlanStatement)
  | [] => .ok []
  | statement :: statements => do
    let statement ← decodeStatement dialect index statement
    let statements ← decodeStatements dialect (index + 1) statements
    pure (statement :: statements)

/-- The checks of `DecodePlan` in front of its loop. -/
def checkPlan (expectedDialect : Text) (plan : PlanFile) : Except PlanError Unit :=
  if plan.formatVersion ≠ planFormatVersion then .error (.formatVersion plan.formatVersion)
  else if blank plan.name || blank plan.fromFingerprint || blank plan.toFingerprint then
    .error .missingName
  else if !dialectMatches expectedDialect plan.dialect then
    .error (.dialect plan.dialect expectedDialect)
  else if plan.statements.isEmpty then .error .noStatements
  else (validateManagedRows plan).mapError .managedRows

/-- `DecodePlan`, with the JSON decoder as a parameter. -/
def decodePlan {Data : Type} (decodeJSON : Data → Except String PlanFile) (data : Data)
    (expectedDialect : Text) : Except PlanError PlanFile := do
  let plan ← (decodeJSON data).mapError .decode
  checkPlan expectedDialect plan
  let statements ← decodeStatements plan.dialect 0 plan.statements
  let privileges := plan.statements.flatMap fun s => DataPlane.privilegeChanges s.sql plan.dialect
  pure { plan with
    statements
    destructive := plan.destructive ||
      statements.any fun s => Go.equalFold s.severity "destructive".toList
    privilegeChanges := privilegeChangeKinds.filter privileges.contains }

end Decode

/-! ## What a plan document says -/

/-- A lexeme of either engine that the grammar sees. -/
inductive Symbol where
  | word (w : Text)
  | quoted
  | literal
  | mark (c : Char)
  deriving DecidableEq

/-- A lexeme without the white space and the comments. -/
def PgLexeme.symbol? : PgLexeme → Option Symbol
  | .word w => some (.word w)
  | .name => some .quoted
  | .string _ _ _ | .body _ _ => some .literal
  | .comment => none
  | .other c => if pgSpace c then none else some (.mark c)

@[inherit_doc PgLexeme.symbol?]
def MysqlLexeme.symbol? : MysqlLexeme → Option Symbol
  | .word w => some (.word w)
  | .identifier _ => some .quoted
  | .string _ _ | .number _ => some .literal
  | .lineComment _ | .comment _ _ | .executable _ _ => none
  | .other c => if c ≤ ' ' then none else some (.mark c)

/-- The symbols that a server reads, with `escapes` its rule for ordinary strings. -/
def symbols (mysql escapes : Bool) (sql : Text) : List Symbol :=
  if mysql then (mysqlLexemes escapes sql).filterMap MysqlLexeme.symbol?
  else (pgLexemes escapes sql).filterMap PgLexeme.symbol?

/-- An unquoted or quoted name. -/
def Symbol.isName : Symbol → Bool
  | .word _ | .quoted => true
  | .literal | .mark _ => false

inductive QualifiedName : List Symbol → Prop
  | plain {name : Symbol} : name.isName = true → QualifiedName [name]
  | qualified {schema : Symbol} {name : List Symbol} :
    schema.isName = true → QualifiedName name → QualifiedName (schema :: .mark '.' :: name)

/-- What stands between ALTER TABLE and an action: the table, or the table and other actions up to a
comma. -/
inductive BeforeAction : List Symbol → Prop
  | first {options : List Text} {table : List Symbol} :
    (∀ w ∈ options, keyword "IF" w ∨ keyword "EXISTS" w ∨ keyword "ONLY" w) →
    QualifiedName table → BeforeAction (options.map .word ++ table)
  | later (actions : List Symbol) : BeforeAction (actions ++ [.mark ','])

/-- The column an action is about, and whether the keyword COLUMN is written. -/
inductive ColumnName : Bool → List Symbol → Prop
  | written {k : Text} {c : Symbol} :
    keyword "COLUMN" k → c.isName = true → ColumnName true [.word k, c]
  | unwritten {c : Symbol} : (∀ w, c = .word w → ¬ keyword "COLUMN" w) → c.isName = true →
    ColumnName false [c]

/-- `ALTER [COLUMN] c [SET DATA] TYPE …`, `MODIFY [COLUMN] c …`, `CHANGE [COLUMN] c d …` -/
inductive TypeChange : (mysql column : Bool) → List Symbol → Prop
  | alter {column : Bool} {verb type : Text} {name rest : List Symbol} : keyword "ALTER" verb →
    ColumnName column name → keyword "TYPE" type →
    TypeChange false column (.word verb :: name ++ .word type :: rest)
  | alterData {column : Bool} {verb set data type : Text} {name rest : List Symbol} :
    keyword "ALTER" verb → ColumnName column name → keyword "SET" set → keyword "DATA" data →
    keyword "TYPE" type →
    TypeChange false column (.word verb :: name ++ .word set :: .word data :: .word type :: rest)
  | modify {column : Bool} {verb : Text} {name rest : List Symbol} : keyword "MODIFY" verb →
    ColumnName column name → TypeChange true column (.word verb :: name ++ rest)
  | change {column : Bool} {verb : Text} {name rest : List Symbol} {d : Symbol} :
    keyword "CHANGE" verb → ColumnName column name → d.isName = true →
    TypeChange true column (.word verb :: name ++ d :: rest)

/-- `ALTER TABLE` with a change of a column's type. -/
inductive ChangesType (mysql column : Bool) : List Symbol → Prop
  | mk {alter table : Text} {before action : List Symbol} : keyword "ALTER" alter →
    keyword "TABLE" table → BeforeAction before → TypeChange mysql column action →
    ChangesType mysql column (.word alter :: .word table :: before ++ action)

/-- An unquoted DROP or TRUNCATE. -/
def Drops (read : List Symbol) : Prop :=
  ∃ w, .word w ∈ read ∧ (keyword "DROP" w ∨ keyword "TRUNCATE" w)

/-- The SQL drops, truncates or changes a column's type, with `escapes` the rule for ordinary
strings. -/
def DestructiveRead (mysql escapes : Bool) (sql : Text) : Prop :=
  Drops (symbols mysql escapes sql) ∨ ∃ column, ChangesType mysql column (symbols mysql escapes sql)

/-- The keyword lexer ends each lexeme where the server does, and takes no comment for an executable
one that the server does not. -/
def ReadInStep (mysql escapes : Bool) (sql : Text) : Prop :=
  if mysql then
    ∀ l ∈ mysqlLexemes escapes sql, l.InStep escapes escapes ∧
      ∀ content, l = .comment content true → mysqlExecutableComment true content = none
  else ∀ l ∈ pgLexemes escapes sql, l.InStep escapes escapes

variable {w : Text} {before : List Symbol} {plan : PlanFile}

section Denotes

variable [Unicode]

/-- The severity denotes destructive, by the rule of `knownSeverity`. -/
def destructiveSeverity (severity : Text) : Bool :=
  Go.toLower (Go.trimSpace severity) = "destructive".toList

/-- The document or its SQL says that the plan is destructive: a field, a severity, or what some
server reads. -/
def PlanFile.DenotesDestructive (plan : PlanFile) : Prop :=
  plan.destructive = true ∨ ∃ s ∈ plan.statements, destructiveSeverity s.severity = true ∨
    ∃ escapes, DestructiveRead (mysqlDialect plan.dialect) escapes s.sql

/-- A mark that `DecodePlan` reads. -/
def PlanStatement.Marked (dialect : Text) (s : PlanStatement) : Prop :=
  Go.equalFold s.severity "destructive".toList = true ∨
    conservativelyDestructiveDDL s.sql dialect = true

@[inherit_doc PlanStatement.Marked]
def PlanFile.Marked (plan : PlanFile) : Prop :=
  plan.destructive = true ∨ ∃ s ∈ plan.statements, s.Marked plan.dialect

/-- A statement that is destructive in a way `DecodePlan` does not look for: by a severity with
white space around it, by SQL that the keyword lexer does not read in step, or by a change of type
without the keyword COLUMN. -/
def PlanStatement.Overlooked (mysql : Bool) (s : PlanStatement) : Prop :=
  destructiveSeverity s.severity = true ∧ Go.equalFold s.severity "destructive".toList = false ∨
    ∃ escapes, DestructiveRead mysql escapes s.sql ∧ ¬ ReadInStep mysql escapes s.sql ∨
      ChangesType mysql false (symbols mysql escapes s.sql)

/-! ## Keywords in step -/

theorem MysqlLexeme.tokens_of_word {l : MysqlLexeme} (escapes : Bool)
    (h : l.symbol? = some (.word w)) : l.tokens escapes = runTokens w := by
  cases l with
  | word v => cases h; rfl
  | other c =>
    change (if c ≤ ' ' then none else some (Symbol.mark c)) = _ at h
    split at h <;> cases h
  | string _ _ | number _ | identifier _ | lineComment _ | comment _ _ | executable _ _ => cases h

theorem MysqlLexeme.tokens_of_none {l : MysqlLexeme} (escapes : Bool)
    (hcomment : ∀ content, l = .comment content true → mysqlExecutableComment true content = none)
    (h : l.symbol? = none) : l.tokens escapes = [] := by
  cases l with
  | word w => cases h
  | number w => cases h
  | comment content closed =>
    cases closed with
    | false => rfl
    | true => simp [MysqlLexeme.tokens, hcomment content rfl]
  | other c =>
    have hc : c ≤ ' ' := by simpa [MysqlLexeme.symbol?] using h
    have hne : c ≠ ';' := fun heq => absurd (heq ▸ hc) (by decide)
    simp [MysqlLexeme.tokens, boundary, hne]
  | string _ _ | identifier _ | lineComment _ | executable _ _ => rfl

theorem PgLexeme.tokens_of_word {l : PgLexeme} (escapes : Bool)
    (h : l.symbol? = some (.word w)) : l.tokens escapes = runTokens w := by
  cases l with
  | word v => cases h; rfl
  | other c =>
    change (if pgSpace c then none else some (Symbol.mark c)) = _ at h
    split at h <;> cases h
  | string _ _ _ | name | body _ _ | comment => cases h

theorem PgLexeme.tokens_of_none {l : PgLexeme} (escapes : Bool) (h : l.symbol? = none) :
    l.tokens escapes = [] := by
  cases l with
  | comment => rfl
  | other c =>
    have hc : pgSpace c = true := by simpa [PgLexeme.symbol?] using h
    have hne : c ≠ ';' := fun heq => absurd (heq ▸ hc) (by decide)
    simp [PgLexeme.tokens, boundary, hne]
  | word _ | string _ _ _ | name | body _ _ => cases h

theorem keywords_first {α : Type} {symbol? : α → Option Symbol} {tokens : α → List String}
    {ls : List α} (hword : ∀ l w, symbol? l = some (.word w) → tokens l = runTokens w)
    (hnone : ∀ l ∈ ls, symbol? l = none → tokens l = [])
    {ks : List String} {ws : List Text} {behind : List Symbol}
    (hkeys : List.Forall₂ (fun k w => KeywordName k ∧ keyword k w) ks ws)
    (h : ls.filterMap symbol? = ws.map .word ++ behind) : ks <+: ls.flatMap tokens := by
  induction ls generalizing ks ws with
  | nil =>
    obtain ⟨hws, -⟩ := List.append_eq_nil_iff.1 h.symm
    rw [List.map_eq_nil_iff] at hws
    subst hws
    cases hkeys
    exact List.nil_prefix
  | cons l ls ih =>
    have ih := @ih fun m hm => hnone m (.tail _ hm)
    rw [List.flatMap_cons]
    cases hl : symbol? l with
    | none =>
      rw [hnone l (.head _) hl, List.nil_append]
      exact ih hkeys (by rwa [List.filterMap_cons_none hl] at h)
    | some s =>
      rw [List.filterMap_cons_some hl] at h
      cases hkeys with
      | nil => exact List.nil_prefix
      | @cons k w ks ws hk hkeys =>
        obtain ⟨rfl, hrest⟩ := List.cons.inj h
        rw [hword l w hl, runTokens_keyword hk.1 hk.2]
        exact (List.prefix_cons_inj k).2 (ih hkeys hrest)

/-- The keywords that a server reads one after the other are so among the tokens, if the text is
read in step. -/
theorem keywords_within {dialect sql : Text} {escapes : Bool} {ks : List String} {ws : List Text}
    {behind : List Symbol} (hstep : ReadInStep (mysqlDialect dialect) escapes sql)
    (h : symbols (mysqlDialect dialect) escapes sql = before ++ (ws.map .word ++ behind))
    (hkeys : List.Forall₂ (fun k w => KeywordName k ∧ keyword k w) ks ws) :
    ks <:+: sqlKeywordTokens sql dialect := by
  refine List.IsInfix.trans ?_ <| sqlKeywordTokensWithEscapes_infix sql dialect escapes
  rw [sqlKeywordTokensWithEscapes]
  cases hdialect : mysqlDialect dialect with
  | true =>
    rw [hdialect] at hstep h
    obtain ⟨ls, ms, hls, -, h⟩ := List.filterMap_eq_append_iff.1 h
    have htokens := mysqlLexemes_tokens fun l hl => (hstep l hl).1
    rw [mysqlTokens] at htokens
    rw [htokens, hls, List.flatMap_append]
    refine (keywords_first (fun l w => l.tokens_of_word escapes) (fun l hl => ?_) hkeys
      h).isInfix.trans (List.suffix_append _ _).isInfix
    exact l.tokens_of_none escapes (hstep l (hls ▸ List.mem_append_right _ hl)).2
  | false =>
    rw [hdialect] at hstep h
    obtain ⟨ls, ms, hls, -, h⟩ := List.filterMap_eq_append_iff.1 h
    rw [pgLexemes_tokens hstep, hls, List.flatMap_append]
    exact (keywords_first (fun l w => l.tokens_of_word escapes)
      (fun l _ => l.tokens_of_none escapes) hkeys h).isInfix.trans (List.suffix_append _ _).isInfix

omit [Unicode] in
theorem hasSQLTokenSequence_of_infix {tokens sequence : List String} (hne : sequence ≠ [])
    (h : sequence <:+: tokens) : hasSQLTokenSequence tokens sequence = true := by
  obtain ⟨before, behind, rfl⟩ := h
  simp only [hasSQLTokenSequence, Bool.and_eq_true, Bool.not_eq_true', List.isEmpty_eq_false_iff,
    List.any_eq_true, List.mem_tails]
  exact ⟨hne, sequence ++ behind, List.append_assoc .. ▸ List.suffix_append _ _, by simp⟩

section InStep

variable {dialect sql : Text} {escapes : Bool}

theorem keyword_mem {k : String} (hstep : ReadInStep (mysqlDialect dialect) escapes sql)
    (hw : .word w ∈ symbols (mysqlDialect dialect) escapes sql) (hk : KeywordName k)
    (hkey : keyword k w) : k ∈ sqlKeywordTokens sql dialect := by
  obtain ⟨before, behind, hread⟩ := List.append_of_mem hw
  exact (keywords_within hstep hread (.cons ⟨hk, hkey⟩ .nil)).subset (List.mem_singleton_self k)

theorem Drops.conservative (hstep : ReadInStep (mysqlDialect dialect) escapes sql)
    (h : Drops (symbols (mysqlDialect dialect) escapes sql)) :
    conservativelyDestructiveDDL sql dialect = true := by
  obtain ⟨w, hw, h | h⟩ := h
  · have hdrop := keyword_mem hstep hw (by decide) h
    simp [conservativelyDestructiveDDL, hasSQLToken, hdrop]
  · have htruncate := keyword_mem hstep hw (by decide) h
    simp [conservativelyDestructiveDDL, hasSQLToken, htruncate]

theorem TypeChange.conservative {action : List Symbol}
    (hstep : ReadInStep (mysqlDialect dialect) escapes sql)
    (hread : symbols (mysqlDialect dialect) escapes sql = before ++ action)
    (h : TypeChange (mysqlDialect dialect) true action) :
    conservativelyDestructiveDDL sql dialect = true := by
  -- The keyword COLUMN is the word behind the verb.
  have hsequence : ∀ {k : String} {verb : Text} {name rest : List Symbol}, KeywordName k →
      keyword k verb → ColumnName true name → action = .word verb :: name ++ rest →
      hasSQLTokenSequence (sqlKeywordTokens sql dialect) [k, "COLUMN"] = true := by
    intro k verb name rest hk hverb hname haction
    cases hname with
    | @written column c hcolumn hc =>
      have hread : symbols _ _ _ = before ++ ([verb, column].map .word ++ (c :: rest)) :=
        hread.trans (by rw [haction]; rfl)
      exact hasSQLTokenSequence_of_infix (List.cons_ne_nil _ _)
        (keywords_within hstep hread (.cons ⟨hk, hverb⟩ (.cons ⟨by decide, hcolumn⟩ .nil)))
  have htoken : ∀ {type : Text}, keyword "TYPE" type → .word type ∈ action →
      "TYPE" ∈ sqlKeywordTokens sql dialect := fun htype hmem =>
    keyword_mem hstep (hread ▸ List.mem_append_right _ hmem) (by decide) htype
  generalize mysqlDialect dialect = mysql at h
  cases h with
  | alter hverb hname htype =>
    simp [conservativelyDestructiveDDL, hasSQLToken, hsequence (by decide) hverb hname rfl,
      htoken htype (by simp)]
  | alterData hverb hname hset hdata htype =>
    simp [conservativelyDestructiveDDL, hasSQLToken, hsequence (by decide) hverb hname rfl,
      htoken htype (by simp)]
  | modify hverb hname =>
    simp [conservativelyDestructiveDDL, hsequence (by decide) hverb hname rfl]
  | change hverb hname hd =>
    simp [conservativelyDestructiveDDL, hsequence (by decide) hverb hname rfl]

/-- Read in step and with the keyword COLUMN, what a server finds destructive is found. -/
theorem DestructiveRead.conservative (h : DestructiveRead (mysqlDialect dialect) escapes sql)
    (hstep : ReadInStep (mysqlDialect dialect) escapes sql)
    (hcolumn : ¬ ChangesType (mysqlDialect dialect) false
      (symbols (mysqlDialect dialect) escapes sql)) :
    conservativelyDestructiveDDL sql dialect = true := by
  obtain h | ⟨column, h⟩ := h
  · exact h.conservative hstep
  cases column with
  | false => exact absurd h hcolumn
  | true =>
    generalize hread : symbols (mysqlDialect dialect) escapes sql = read at h
    obtain ⟨-, -, -, haction⟩ := h
    exact haction.conservative hstep hread

end InStep

/-! ## The flag -/

theorem decodeStatement_marked {dialect : Text} {index : Nat} {s s' : PlanStatement}
    (h : decodeStatement dialect index s = .ok s') :
    Go.equalFold s'.severity "destructive".toList = true ↔ s.Marked dialect := by
  unfold decodeStatement at h
  split at h
  · cases h
  split at h
  · cases h
  split at h
  · rename_i hddl
    cases h
    simp [PlanStatement.Marked, hddl, Go.equalFold]
  · rename_i hddl
    cases h
    simp [PlanStatement.Marked, hddl]

theorem decodeStatements_marked {dialect : Text} {index : Nat} {ss ss' : List PlanStatement}
    (h : decodeStatements dialect index ss = .ok ss') :
    (∃ s ∈ ss', Go.equalFold s.severity "destructive".toList = true) ↔
      ∃ s ∈ ss, s.Marked dialect := by
  induction ss generalizing index ss' with
  | nil => cases h; simp
  | cons s ss ih =>
    unfold decodeStatements at h
    cases hs : decodeStatement dialect index s with
    | error e => rw [hs] at h; cases h
    | ok t =>
      cases hss : decodeStatements dialect (index + 1) ss with
      | error e => rw [hs, hss] at h; cases h
      | ok ts =>
        rw [hs, hss] at h
        cases h
        simp only [List.exists_mem_cons_iff, decodeStatement_marked hs, ih hss]

/-- The destructive flag of an accepted document: the document's own, or a mark of a statement. -/
theorem decodePlan_destructive {Data : Type} {decodeJSON : Data → Except String PlanFile}
    {data : Data} {engine : Text} {document : PlanFile} (hjson : decodeJSON data = .ok document)
    (h : decodePlan decodeJSON data engine = .ok plan) :
    plan.destructive = true ↔ document.Marked := by
  unfold decodePlan at h
  rw [hjson] at h
  cases hcheck : checkPlan engine document with
  | error e => simp [Except.mapError, hcheck, bind, Except.bind] at h
  | ok =>
    cases hss : decodeStatements document.dialect 0 document.statements with
    | error e => simp [Except.mapError, hcheck, hss, bind, Except.bind] at h
    | ok ss =>
      simp only [Except.mapError, hcheck, hss, bind, Except.bind, pure, Except.pure,
        Except.ok.injEq] at h
      rw [← h]
      simp only [Bool.or_eq_true, List.any_eq_true, decodeStatements_marked hss, PlanFile.Marked]

/-- What a mark or an overlooked statement says. -/
theorem PlanStatement.Overlooked.denotes {s : PlanStatement}
    (hs : s ∈ plan.statements) (h : s.Overlooked (mysqlDialect plan.dialect)) :
    plan.DenotesDestructive := by
  refine .inr ⟨s, hs, ?_⟩
  obtain h | ⟨escapes, h | h⟩ := h
  · exact .inl h.1
  · exact .inr ⟨escapes, h.1⟩
  · exact .inr ⟨escapes, .inr ⟨false, h⟩⟩

theorem PlanFile.DenotesDestructive.marked_or (h : plan.DenotesDestructive) :
    plan.Marked ∨ ∃ s ∈ plan.statements, s.Overlooked (mysqlDialect plan.dialect) := by
  obtain h | ⟨s, hs, h | ⟨escapes, h⟩⟩ := h
  · exact .inl (.inl h)
  · cases hfold : Go.equalFold s.severity "destructive".toList with
    | true => exact .inl (.inr ⟨s, hs, .inl hfold⟩)
    | false => exact .inr ⟨s, hs, .inl ⟨h, hfold⟩⟩
  by_cases hstep : ReadInStep (mysqlDialect plan.dialect) escapes s.sql
  · by_cases hcolumn : ChangesType (mysqlDialect plan.dialect) false
      (symbols (mysqlDialect plan.dialect) escapes s.sql)
    · exact .inr ⟨s, hs, .inr ⟨escapes, .inr hcolumn⟩⟩
    · exact .inl (.inr ⟨s, hs, .inr (h.conservative hstep hcolumn)⟩)
  · exact .inr ⟨s, hs, .inr ⟨escapes, .inl ⟨h, hstep⟩⟩⟩

/-- The destructive flag of every accepted document reports what the document and its SQL say, unless
a statement is overlooked and nothing else marks the plan. -/
theorem decodePlan_reports_iff {Data : Type} {decodeJSON : Data → Except String PlanFile}
    {data : Data} {engine : Text} {document plan : PlanFile} (hjson : decodeJSON data = .ok document)
    (h : decodePlan decodeJSON data engine = .ok plan) :
    (document.DenotesDestructive → plan.destructive = true) ↔
      ((∃ s ∈ document.statements, s.Overlooked (mysqlDialect document.dialect)) →
        document.Marked) := by
  rw [decodePlan_destructive hjson h]
  constructor
  · rintro hreports ⟨s, hs, hover⟩
    exact hreports (hover.denotes hs)
  · intro hmarked hdenotes
    exact hdenotes.marked_or.elim id hmarked

end Denotes

def onePlan (dialect severity sql : String) : PlanFile where
  formatVersion := 1
  name := "plan".toList
  dialect := dialect.toList
  fromFingerprint := "a".toList
  toFingerprint := "b".toList
  destructive := false
  statements := [⟨sql.toList, severity.toList⟩]

/-- An `ALTER TABLE` of a plan of one statement, from the symbols of its table and its action. -/
theorem onePlan_changesType [Unicode] {dialect severity sql : String} {mysql column : Bool}
    {action : List Symbol} (hdialect : mysqlDialect dialect.toList = mysql)
    (hread : symbols mysql false sql.toList =
      .word "ALTER".toList :: .word "TABLE".toList :: before ++ action)
    (hbefore : BeforeAction before) (haction : TypeChange mysql column action) :
    (onePlan dialect severity sql).DenotesDestructive := by
  refine .inr ⟨_, List.mem_singleton_self _, .inr ⟨false, .inr ⟨column, ?_⟩⟩⟩
  change ChangesType (mysqlDialect dialect.toList) column
    (symbols (mysqlDialect dialect.toList) false sql.toList)
  rw [hdialect, hread]
  exact .mk rfl rfl hbefore haction

theorem beforeAction_t : BeforeAction [.word "t".toList] :=
  .first (fun _ h => absurd h List.not_mem_nil) (.plain rfl)

/-- A type change with the keyword COLUMN, marked safe. -/
theorem decodePlan_reports_column :
    letI := Go.asciiTables
    ∃ plan, decodePlan (fun _ : Unit => .ok (onePlan "postgres" "safe"
        "ALTER TABLE t ALTER COLUMN c SET DATA TYPE int")) () "postgresql".toList = .ok plan ∧
      plan.destructive = true := by
  let _ := Go.asciiTables
  have hname : ColumnName true [.word "COLUMN".toList, .word "c".toList] := .written (by decide) rfl
  have haction : TypeChange false true [.word "ALTER".toList, .word "COLUMN".toList,
      .word "c".toList, .word "SET".toList, .word "DATA".toList, .word "TYPE".toList,
      .word "int".toList] :=
    .alterData (by decide) hname (by decide) (by decide) (by decide)
  have hplan : decodePlan (fun _ : Unit => .ok (onePlan "postgres" "safe"
      "ALTER TABLE t ALTER COLUMN c SET DATA TYPE int")) () "postgresql".toList =
      .ok { onePlan "postgres" "destructive" "ALTER TABLE t ALTER COLUMN c SET DATA TYPE int" with
        destructive := true } := by
    decide +kernel
  refine ⟨_, hplan, (decodePlan_reports_iff rfl hplan).2 (fun _ => ?_) ?_⟩
  · exact .inr ⟨_, List.mem_singleton_self _, .inr (by decide +kernel)⟩
  · exact onePlan_changesType (by decide +kernel) (by decide +kernel) beforeAction_t haction

/-- The document says that the plan is destructive, and the plan that `DecodePlan` makes of it does
not. -/
def Underreported [Unicode] (document : PlanFile) (engine : String) : Prop :=
  document.DenotesDestructive ∧ ((decodePlan (fun _ : Unit => .ok document) () engine.toList).map
      PlanFile.destructive).toOption = some false

/-- White space around the severity, and type changes without COLUMN. -/
theorem decodePlan_underreports :
    letI := Go.asciiTables
    Underreported (onePlan "postgres" " destructive " "SELECT 1") "postgresql" ∧
      Underreported (onePlan "postgres" "safe" "ALTER TABLE t ALTER c TYPE int") "postgresql" ∧
      Underreported (onePlan "mysql" "safe" "ALTER TABLE t MODIFY c int") "mysql" ∧
      Underreported (onePlan "mysql" "safe" "ALTER TABLE t CHANGE c d int") "mysql" := by
  let _ := Go.asciiTables
  have hname : ColumnName false [.word "c".toList] :=
    .unwritten (fun w hw => by cases hw; decide) rfl
  have halter : TypeChange false false [.word "ALTER".toList, .word "c".toList,
      .word "TYPE".toList, .word "int".toList] :=
    .alter (by decide) hname (by decide)
  have hmodify : TypeChange true false [.word "MODIFY".toList, .word "c".toList,
      .word "int".toList] :=
    .modify (by decide) hname
  have hchange : TypeChange true false [.word "CHANGE".toList, .word "c".toList, .word "d".toList,
      .word "int".toList] :=
    .change (by decide) hname rfl
  refine ⟨⟨.inr ⟨_, List.mem_singleton_self _, .inl ?_⟩, ?_⟩, ⟨onePlan_changesType ?_ ?_
    beforeAction_t halter, ?_⟩, ⟨onePlan_changesType ?_ ?_ beforeAction_t hmodify, ?_⟩,
    ⟨onePlan_changesType ?_ ?_ beforeAction_t hchange, ?_⟩⟩
  all_goals decide +kernel

end Ptah.DataPlane
