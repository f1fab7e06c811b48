import PtahOperator.Go.Strings
import PtahOperator.Scan.Cut

/-!
# The keyword lexer of plan statements

`sqlKeywordTokens` of `internal/dataplane/contracts.go` and what it calls. A statement is read
twice, without and with backslash escapes in strings, and the classifiers see both readings.

A statement is a list of characters. The lexer tells no two characters from U+0080 on apart and
steps over such a character as over each of its bytes, so a text may be taken for its bytes as well
as for its code points.

A position in a statement is a `Cursor`: the source's index, as the text in front of it and the
text from it on. The skip functions take the text behind what opens them and give the text behind
what closes them.
-/

namespace Ptah.DataPlane

open Go (Text Unicode)

/-! ## Characters -/

def asciiKeywordCharacter (c : Char) : Bool :=
  'a' ≤ c && c ≤ 'z' || 'A' ≤ c && c ≤ 'Z' || c = '_'

def digit (c : Char) : Bool := '0' ≤ c && c ≤ '9'

def identifierCharacter (c : Char) : Bool :=
  asciiKeywordCharacter c || digit c || c = '$' || 0x80 ≤ c.toNat

theorem identifierCharacter_of_keyword {c : Char} (h : asciiKeywordCharacter c = true) :
    identifierCharacter c = true := by
  simp [identifierCharacter, h]

theorem asciiKeywordCharacter_of_digit {c : Char} (h : digit c = true) :
    asciiKeywordCharacter c = false := by
  have hunder : c ≠ '_' := by
    rintro rfl
    revert h
    decide
  simp only [digit, Bool.and_eq_true, decide_eq_true_eq, Char.le_def, UInt32.le_iff_toNat_le] at h
  simp [asciiKeywordCharacter, hunder, Char.le_def, UInt32.le_iff_toNat_le]
  have : '9'.val.toNat = 57 := rfl
  have : c.val.toNat = c.toNat := rfl
  omega

/-! ## What is skipped -/

/-- `skipSQLQuoted`, from behind the opening quote. -/
def skipSQLQuoted (quote : Char) (backslashEscapes : Bool) : Text → Text
  | [] => []
  -- A quote that is the last byte closes the text, any other byte leaves it unterminated.
  | [_] => []
  | c :: d :: rest =>
    if backslashEscapes && c = '\\' then skipSQLQuoted quote backslashEscapes rest
    else if c ≠ quote then skipSQLQuoted quote backslashEscapes (d :: rest)
    else if d = quote then skipSQLQuoted quote backslashEscapes rest
    else d :: rest

def skipSQLLineComment : Text → Text
  | [] => []
  | '\r' :: '\n' :: rest => rest
  | c :: rest => if c = '\r' || c = '\n' then rest else skipSQLLineComment rest

/-- `skipNestedBlockComment`, from the comment's opening at depth 0. `none` is a comment that is not
closed. -/
def skipNestedBlockComment (depth : Nat) : Text → Option Text
  | [] => none
  | '/' :: '*' :: rest => skipNestedBlockComment (depth + 1) rest
  | '*' :: '/' :: rest =>
    if depth - 1 = 0 then some rest else skipNestedBlockComment (depth - 1) rest
  | _ :: rest => skipNestedBlockComment depth rest

def startsDashComment (mysql : Bool) : Text → Bool
  | '-' :: '-' :: rest =>
    if mysql then
      match rest with
      | [] => false
      | next :: _ => next ≤ ' ' || next = '\x7f'
    else true
  | _ => false

/-- The cut set of the two `strings.TrimLeft`. -/
def trimmed (c : Char) : Bool := c = ' ' || c = '\t' || c = '\r' || c = '\n'

def mysqlExecutableComment (mysql : Bool) (comment : Text) : Option Text :=
  if !mysql then none
  else
    let body := match comment with
      | '!' :: body => some body
      | 'M' :: '!' :: body => some body
      | 'm' :: '!' :: body => some body
      | _ => none
    body.map fun body => ((body.dropWhile trimmed).dropWhile digit).dropWhile trimmed

/-! ## Positions -/

/-- An index into a statement. `before` is the text in front of it, the last character first. -/
structure Cursor where
  before : List Char := []
  rest : Text

/-- The cursor in front of `rest`, a suffix of what the cursor has in front of it. -/
def Cursor.to (c : Cursor) (rest : Text) : Cursor where
  before := (c.rest.take (c.rest.length - rest.length)).reverse ++ c.before
  rest

/-- `escapeStringPrefix`: the quote here opens `E'…'`, where the E is a word of its own. -/
def Cursor.escapeStringPrefix (c : Cursor) : Bool :=
  match c.before with
  | e :: before => (e = 'E' || e = 'e') && !before.head?.any identifierCharacter
  | [] => false

/-- The tag's characters and its closing dollar sign, from behind the opening one. -/
def dollarTag (first : Bool) : Text → Option (Text × Text)
  | [] => none
  | c :: rest =>
    if c = '$' then some (['$'], rest)
    else if asciiKeywordCharacter c || 0x80 ≤ c.toNat || digit c && !first then
      (dollarTag false rest).map fun tag => (c :: tag.1, tag.2)
    else none

/-- `dollarQuoteTagEnd`: the delimiter that opens here, and the text behind it. -/
def Cursor.dollarQuoteTag (c : Cursor) : Option (Text × Text) :=
  match c.rest with
  | '$' :: rest =>
    if c.before.head?.any identifierCharacter then none
    else (dollarTag true rest).map fun tag => ('$' :: tag.1, tag.2)
  | _ => none

/-! ## The loop -/

/-- What one turn of the loop in `sqlKeywordTokensWithEscapes` does. -/
inductive Turn where
  /-- The statement ends, or a comment that is not closed ends the reading. -/
  | stop
  | skip (next : Cursor)
  | word (w : Text) (next : Cursor)
  | boundary (next : Cursor)
  /-- A dollar-quoted body. -/
  | body (text : Text) (next : Cursor)
  /-- An executable comment. -/
  | executable (text : Text) (next : Cursor)

/-- `dollarQuotedTokens`: the body and the position behind it. Unterminated, the body runs to the
end. -/
def Cursor.dollarQuoted (c : Cursor) (tag text : Text) : Turn :=
  match Scan.cut tag text with
  | some (body, rest) => .body body (c.to rest)
  | none => .body text (c.to [])

/-- The branch for `/*`. -/
def Cursor.blockComment (c : Cursor) (mysql : Bool) (text : Text) : Turn :=
  if mysql then
    match Scan.cut ['*', '/'] text with
    | some (comment, rest) =>
      match mysqlExecutableComment mysql comment with
      | some body => .executable body (c.to rest)
      | none => .skip (c.to rest)
    | none => .stop
  else
    match skipNestedBlockComment 0 c.rest with
    | some rest => .skip (c.to rest)
    | none => .stop

/-- The switch of the loop. -/
def Cursor.turn (mysql backslashEscapes : Bool) (c : Cursor) : Turn :=
  match c.rest with
  | [] => .stop
  | b :: rest =>
    if b = '\'' then
      let escapes := backslashEscapes || !mysql && c.escapeStringPrefix
      .skip (c.to (skipSQLQuoted '\'' escapes rest))
    else if b = '"' then .skip (c.to (skipSQLQuoted '"' (backslashEscapes && mysql) rest))
    else if b = '`' && mysql then .skip (c.to (skipSQLQuoted '`' backslashEscapes rest))
    else if b = ';' then .boundary (c.to rest)
    else if mysql && b = '#' then .skip (c.to (skipSQLLineComment rest))
    else if startsDashComment mysql c.rest then .skip (c.to (skipSQLLineComment (rest.drop 1)))
    else
      match if mysql then none else c.dollarQuoteTag with
      | some (tag, text) => c.dollarQuoted tag text
      | none =>
        if b = '/' && rest.head? = some '*' then c.blockComment mysql (rest.drop 1)
        else if asciiKeywordCharacter b then
          .word (c.rest.takeWhile identifierCharacter) (c.to (c.rest.dropWhile identifierCharacter))
        else .skip (c.to rest)

def statementBoundary : String := ";"

def token [Unicode] (w : Text) : String := String.ofList (Go.toUpper w)

/-- The tokens of a turn, where `go` reads from a position on. -/
def Turn.emit [Unicode] (go : Cursor → List String) : Turn → List String
  | .stop => []
  | .skip next => go next
  | .word w next => token w :: go next
  | .boundary next => statementBoundary :: go next
  | .body text next =>
    statementBoundary :: go { rest := text } ++ statementBoundary :: go next
  | .executable text next => go { rest := text } ++ go next

/-- `sqlKeywordTokensWithEscapes` from a position on. Every turn goes on with shorter texts, so
`fuel` above the length of the text does not run out. -/
def readTokens [Unicode] (mysql backslashEscapes : Bool) : Nat → Cursor → List String
  | 0, _ => []
  | fuel + 1, c => (c.turn mysql backslashEscapes).emit (readTokens mysql backslashEscapes fuel)

def Cursor.tokens [Unicode] (mysql backslashEscapes : Bool) (c : Cursor) : List String :=
  readTokens mysql backslashEscapes (c.rest.length + 1) c

/-! ## The loop ends -/

theorem skipSQLQuoted_suffix (quote : Char) (escapes : Bool) (text : Text) :
    skipSQLQuoted quote escapes text <:+ text := by
  fun_induction skipSQLQuoted quote escapes text with
  | case1 => exact List.suffix_rfl
  | case2 c => exact List.nil_suffix
  | case3 c d rest _ ih => exact (ih.trans (List.suffix_cons d rest)).trans (List.suffix_cons c _)
  | case4 c d rest _ _ ih => exact ih.trans (List.suffix_cons c _)
  | case5 c rest _ _ ih => exact (ih.trans (List.suffix_cons _ rest)).trans (List.suffix_cons _ _)
  | case6 c d rest => exact List.suffix_cons c _

theorem skipSQLLineComment_suffix (text : Text) : skipSQLLineComment text <:+ text := by
  fun_induction skipSQLLineComment text with
  | case1 => exact List.suffix_rfl
  | case2 rest => exact (List.suffix_cons _ rest).trans (List.suffix_cons _ _)
  | case3 c rest _ _ => exact List.suffix_cons c rest
  | case4 c rest _ _ ih => exact ih.trans (List.suffix_cons c rest)

variable {text tag : Text} {c : Cursor}

theorem skipNestedBlockComment_suffix {depth : Nat} {rest : Text}
    (h : skipNestedBlockComment depth text = some rest) : rest <:+ text := by
  fun_induction skipNestedBlockComment depth text with
  | case1 => cases h
  | case2 depth more ih => exact ((ih h).trans (List.suffix_cons _ more)).trans (List.suffix_cons _ _)
  | case3 depth more _ =>
    cases h
    exact (List.suffix_cons _ _).trans (List.suffix_cons _ _)
  | case4 depth more _ ih =>
    exact ((ih h).trans (List.suffix_cons _ more)).trans (List.suffix_cons _ _)
  | case5 depth c more _ _ ih => exact (ih h).trans (List.suffix_cons c more)

theorem dollarTag_eq {first : Bool} {rest : Text}
    (h : dollarTag first text = some (tag, rest)) : text = tag ++ rest := by
  induction text generalizing first tag with
  | nil => cases h
  | cons c text ih =>
    unfold dollarTag at h
    split at h
    · rename_i hc
      cases h
      rw [hc]
      rfl
    · split at h
      · obtain ⟨found, hfound, heq⟩ := Option.map_eq_some_iff.1 h
        cases heq
        rw [List.cons_append, ← ih hfound]
      · cases h

/-- Every text a turn goes on with is shorter than `n`. -/
def Turn.Below (n : Nat) : Turn → Prop
  | .stop => True
  | .skip next | .word _ next | .boundary next => next.rest.length < n
  | .body text next | .executable text next => text.length < n ∧ next.rest.length < n

@[simp] theorem Cursor.to_rest (c : Cursor) (rest : Text) : (c.to rest).rest = rest := rfl

theorem mysqlExecutableComment_length {mysql : Bool} {comment body : Text}
    (h : mysqlExecutableComment mysql comment = some body) : body.length < comment.length := by
  have hdrop : ∀ t : Text, (((t.dropWhile trimmed).dropWhile digit).dropWhile trimmed).length ≤
      t.length := fun t =>
    (((List.dropWhile_suffix _).trans (List.dropWhile_suffix _)).trans
      (List.dropWhile_suffix _)).length_le
  unfold mysqlExecutableComment at h
  split at h
  · cases h
  obtain ⟨inner, hinner, rfl⟩ := Option.map_eq_some_iff.1 h
  have := hdrop inner
  split at hinner <;> cases hinner <;> simp only [List.length_cons] <;> omega

theorem Cursor.blockComment_below {mysql : Bool}
    (h : c.rest = '/' :: '*' :: text) : (c.blockComment mysql text).Below c.rest.length := by
  unfold Cursor.blockComment
  split
  · split
    · rename_i comment rest hcut
      obtain ⟨hl, hr⟩ := Scan.cut_length_lt (by simp) hcut
      have hlen : c.rest.length = text.length + 2 := by rw [h]; rfl
      split
      · rename_i body hbody
        have := mysqlExecutableComment_length hbody
        exact ⟨by omega, by rw [Cursor.to_rest]; omega⟩
      · simp only [Turn.Below, Cursor.to_rest]
        omega
    · trivial
  · split
    · rename_i rest hskip
      rw [h, skipNestedBlockComment] at hskip
      have := (skipNestedBlockComment_suffix hskip).length_le
      simp only [Turn.Below, Cursor.to_rest, h, List.length_cons]
      omega
    · trivial

theorem Cursor.dollarQuoteTag_eq
    (h : c.dollarQuoteTag = some (tag, text)) : c.rest = tag ++ text ∧ tag ≠ [] := by
  unfold Cursor.dollarQuoteTag at h
  split at h
  · rename_i rest hrest
    split at h
    · cases h
    obtain ⟨found, hfound, heq⟩ := Option.map_eq_some_iff.1 h
    cases heq
    rw [hrest, dollarTag_eq hfound]
    exact ⟨rfl, by simp⟩
  · cases h

theorem Cursor.dollarQuoted_below
    (h : c.dollarQuoteTag = some (tag, text)) : (c.dollarQuoted tag text).Below c.rest.length := by
  obtain ⟨heq, htag⟩ := Cursor.dollarQuoteTag_eq h
  have hlen := List.length_pos_iff.2 htag
  unfold Cursor.dollarQuoted
  rw [heq]
  split
  · rename_i body rest hcut
    obtain ⟨hl, hr⟩ := Scan.cut_length_lt htag hcut
    simp only [Turn.Below, Cursor.to_rest, List.length_append]
    omega
  · simp only [Turn.Below, Cursor.to_rest, List.length_append, List.length_nil]
    omega

/-- The cases of the switch. Most turns go on behind the first character, at a suffix of the text
there. -/
theorem Cursor.turn_cases {mysql escapes : Bool} {P : Turn → Prop} {b : Char} {rest : Text}
    (hrest : c.rest = b :: rest)
    (hskip : ∀ next, next <:+ rest → P (.skip (c.to next)))
    (hboundary : P (.boundary (c.to rest)))
    (hquoted : ∀ tag text, c.dollarQuoteTag = some (tag, text) → P (c.dollarQuoted tag text))
    (hcomment : ∀ text, c.rest = '/' :: '*' :: text → P (c.blockComment mysql text))
    (hword : asciiKeywordCharacter b = true →
      P (.word (c.rest.takeWhile identifierCharacter) (c.to (rest.dropWhile identifierCharacter)))) :
    P (c.turn mysql escapes) := by
  unfold Cursor.turn
  split
  · rename_i hnil
    cases hnil.symm.trans hrest
  rename_i b' rest' hcons
  obtain ⟨rfl, rfl⟩ := List.cons.inj (hcons.symm.trans hrest)
  refine iteInduction (fun _ => hskip _ (skipSQLQuoted_suffix _ _ _)) fun _ => ?_
  refine iteInduction (fun _ => hskip _ (skipSQLQuoted_suffix _ _ _)) fun _ => ?_
  refine iteInduction (fun _ => hskip _ (skipSQLQuoted_suffix _ _ _)) fun _ => ?_
  refine iteInduction (fun _ => hboundary) fun _ => ?_
  refine iteInduction (fun _ => hskip _ (skipSQLLineComment_suffix _)) fun _ => ?_
  refine iteInduction
    (fun _ => hskip _ ((skipSQLLineComment_suffix _).trans (List.drop_suffix 1 rest'))) fun _ => ?_
  split
  · rename_i tag text htag
    split at htag
    · cases htag
    · exact hquoted tag text htag
  refine iteInduction (fun hopen => ?_) fun _ => iteInduction (fun hb => ?_) fun _ => hskip _ List.suffix_rfl
  · simp only [Bool.and_eq_true, decide_eq_true_eq] at hopen
    obtain ⟨rfl, hstar⟩ := hopen
    obtain ⟨text, rfl⟩ := List.head?_eq_some_iff.1 hstar
    exact hcomment text hrest
  · have hdrop : c.rest.dropWhile identifierCharacter = rest'.dropWhile identifierCharacter := by
      rw [hrest, List.dropWhile_cons, if_pos (identifierCharacter_of_keyword hb)]
    rw [hdrop]
    exact hword hb

theorem Cursor.turn_below (mysql escapes : Bool) (c : Cursor) :
    (c.turn mysql escapes).Below c.rest.length := by
  cases hrest : c.rest with
  | nil =>
    unfold Cursor.turn
    rw [hrest]
    trivial
  | cons b rest =>
    rw [← hrest]
    have hshort : ∀ next : Text, next <:+ rest → next.length < c.rest.length := by
      intro next hnext
      rw [hrest, List.length_cons]
      exact Nat.lt_succ_of_le hnext.length_le
    exact Cursor.turn_cases hrest (fun next hnext => hshort next hnext) (hshort _ List.suffix_rfl)
      (fun tag text htag => Cursor.dollarQuoted_below htag)
      (fun text hopen => Cursor.blockComment_below hopen)
      (fun _ => hshort _ (List.dropWhile_suffix _))

variable [Unicode]

theorem Turn.emit_congr {n : Nat} {t : Turn} {f g : Cursor → List String} (ht : t.Below n)
    (h : ∀ c : Cursor, c.rest.length < n → f c = g c) : t.emit f = t.emit g := by
  cases t with
  | stop => rfl
  | skip next => exact h next ht
  | word w next => rw [emit, emit, h next ht]
  | boundary next => rw [emit, emit, h next ht]
  | body text next => rw [emit, emit, h _ ht.1, h next ht.2]
  | executable text next => rw [emit, emit, h _ ht.1, h next ht.2]

theorem readTokens_fuel (mysql escapes : Bool) {m n : Nat}
    (hm : c.rest.length < m) (hn : c.rest.length < n) :
    readTokens mysql escapes m c = readTokens mysql escapes n c := by
  induction m generalizing n c with
  | zero => omega
  | succ m ih =>
    obtain ⟨n, rfl⟩ : ∃ k, n = k + 1 := ⟨n - 1, by omega⟩
    exact Turn.emit_congr (c.turn_below mysql escapes) fun next h => ih (by omega) (by omega)

theorem Cursor.tokens_eq (mysql escapes : Bool) (c : Cursor) :
    c.tokens mysql escapes = (c.turn mysql escapes).emit (Cursor.tokens mysql escapes) :=
  Turn.emit_congr (c.turn_below mysql escapes) fun _ h =>
    readTokens_fuel mysql escapes h (by omega)

/-! ## Both readings -/

def mysqlDialect (dialect : Text) : Bool :=
  let dialect := Go.toLower (Go.trimSpace dialect)
  dialect = "mysql".toList || dialect = "mariadb".toList

def sqlKeywordTokensWithEscapes (statement dialect : Text) (backslashEscapes : Bool) :
    List String :=
  Cursor.tokens (mysqlDialect dialect) backslashEscapes { rest := statement }

def sqlKeywordTokens (statement dialect : Text) : List String :=
  sqlKeywordTokensWithEscapes statement dialect false ++
    statementBoundary :: sqlKeywordTokensWithEscapes statement dialect true

theorem sqlKeywordTokensWithEscapes_sublist (statement dialect : Text) (escapes : Bool) :
    (sqlKeywordTokensWithEscapes statement dialect escapes).Sublist
      (sqlKeywordTokens statement dialect) := by
  cases escapes with
  | false => exact List.sublist_append_left _ _
  | true => exact (List.sublist_cons_self _ _).trans (List.sublist_append_right _ _)

theorem sqlKeywordTokensWithEscapes_infix (statement dialect : Text) (escapes : Bool) :
    sqlKeywordTokensWithEscapes statement dialect escapes <:+: sqlKeywordTokens statement dialect := by
  cases escapes with
  | false => exact (List.prefix_append _ _).isInfix
  | true => exact ((List.suffix_cons _ _).trans (List.suffix_append _ _)).isInfix

end Ptah.DataPlane
