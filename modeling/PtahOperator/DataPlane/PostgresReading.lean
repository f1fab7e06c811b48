import PtahOperator.DataPlane.SqlReading

/-!
# PostgreSQL statements

The lexemes that a PostgreSQL server reads in a statement, and when the keyword lexer sees all of
its words.

* `pgRead`: the server's reading. An ordinary string takes doubled quotes, and backslash escapes
  while `standard_conforming_strings` is off; an `E''` string always takes them; a quoted segment
  behind a string and white space with a newline continues that string under its rule; a
  double-quoted identifier takes doubled quotes; a `--` comment ends with its line; `/* */` nest; a
  `$tag$` that is not inside a word opens a body that ends at the next `$tag$`.
* `PgLexeme.InStep`: the keyword lexer ends the lexeme where the server does.
* `pgLexemes_tokens`: where every lexeme is read in step, the tokens are those of the lexemes, one
  after another.
* `postgres_words_visible`: where one of the lexer's two readings has every lexeme in step, the words
  of the server are among the tokens, in their order, and so are the words of every dollar-quoted body.
-/

namespace Ptah.DataPlane

open Go (Text Unicode)

/-! ## The server's reading -/

/-- How a quoted segment of a string opens. -/
inductive StringOpening where
  | ordinary
  | escape
  /-- It continues a string that was read under this rule. -/
  | continued (escapes : Bool)
  deriving DecidableEq

/-- Whether backslashes escape in the segment; `escapes` is the rule for ordinary strings. -/
def StringOpening.rule (escapes : Bool) : StringOpening → Bool
  | .ordinary => escapes
  | .escape => true
  | .continued rule => rule

/-- A lexeme, with the texts that decide where it ends. `before` is the text in front of a string's
quote or a body's tag, the last character first. -/
inductive PgLexeme where
  | word (w : Text)
  | string (opening : StringOpening) (before : List Char) (text : Text)
  /-- A double-quoted identifier. -/
  | name
  | body (before : List Char) (text : Text)
  | comment
  | other (c : Char)
  deriving DecidableEq

/-- The characters an unquoted name begins with. -/
def startsName (c : Char) : Bool := asciiKeywordCharacter c || 0x80 ≤ c.toNat

/-- The characters of a dollar-quote tag. -/
def tagCharacter (c : Char) : Bool := startsName c || digit c

def pgNewline (c : Char) : Bool := c = '\n' || c = '\r'

def pgSpace (c : Char) : Bool := c = ' ' || c = '\t' || pgNewline c || c = '\x0b' || c = '\x0c'

/-- The text behind the `*/` that closes a comment, from inside it. -/
def closeComment (nested : Nat) : Text → Option Text
  | [] => none
  | '/' :: '*' :: rest => closeComment (nested + 1) rest
  | '*' :: '/' :: rest =>
    match nested with
    | 0 => some rest
    | nested + 1 => closeComment nested rest
  | _ :: rest => closeComment nested rest

/-- The delimiter that opens at a dollar sign, and the text behind it. -/
def dollarOpening (c : Char) (text : Text) : Option (Text × Text) :=
  if c = '$' then
    let tag := text.takeWhile tagCharacter
    match text.dropWhile tagCharacter with
    | '$' :: inner => if tag.head?.any digit then none else some ('$' :: tag ++ ['$'], inner)
    | _ => none
  else none

/-- The string in front of the reading, where only white space follows it: its rule, and whether the
white space has a newline. -/
abbrev Prior := Option (Bool × Bool)

def Prior.space (prior : Prior) (c : Char) : Prior :=
  if pgSpace c then prior.map fun (rule, newline) => (rule, newline || pgNewline c) else none

def Prior.opening : Prior → StringOpening
  | some (rule, true) => .continued rule
  | _ => .ordinary

/-- The lexeme at a position, and the position behind it. -/
def pgNext (escapes : Bool) (prior : Prior) (c : Cursor) : Option (PgLexeme × Prior × Cursor) :=
  match c.rest with
  | [] => none
  | b :: text =>
    if b = '\'' then
      let rule := prior.opening.rule escapes
      some (.string prior.opening c.before text, some (rule, false),
        c.to (closeQuote '\'' rule text))
    else if (b = 'E' || b = 'e') && text.head? = some '\'' then
      some (.string .escape (b :: c.before) (text.drop 1), some (true, false),
        c.to (closeQuote '\'' true (text.drop 1)))
    else if b = '"' then some (.name, none, c.to (closeQuote '"' false text))
    else if b = '-' && text.head? = some '-' then
      some (.comment, none, c.to ((text.drop 1).dropWhile (!pgNewline ·)))
    else if b = '/' && text.head? = some '*' then
      some (.comment, none, c.to ((closeComment 0 (text.drop 1)).getD []))
    else
      match dollarOpening b text with
      | some (tag, inner) =>
        match Scan.cut tag inner with
        | some (body, rest) => some (.body c.before body, none, c.to rest)
        | none => some (.body c.before inner, none, c.to [])
      | none =>
        if startsName b then
          some (.word (c.rest.takeWhile identifierCharacter), none,
            c.to (c.rest.dropWhile identifierCharacter))
        else some (.other b, prior.space b, c.to text)

/-- The lexemes from a position on. Each takes a character at least, so `fuel` above the length of
the text does not run out. -/
def pgRead (escapes : Bool) : Nat → Prior → Cursor → List PgLexeme
  | 0, _, _ => []
  | fuel + 1, prior, c =>
    match pgNext escapes prior c with
    | none => []
    | some (l, prior, next) => l :: pgRead escapes fuel prior next

def pgLexemes (escapes : Bool) (statement : Text) : List PgLexeme :=
  pgRead escapes (statement.length + 1) none { rest := statement }

def PgLexeme.word? : PgLexeme → Option Text
  | .word w => some w
  | _ => none

def pgWords (standardConformingStrings : Bool) (text : Text) : List Text :=
  (pgLexemes (!standardConformingStrings) text).filterMap PgLexeme.word?

/-- The statement and every dollar-quoted body in it, each of them read as SQL. -/
inductive ReadsAsSQL (escapes : Bool) (statement : Text) : Text → Prop where
  | whole : ReadsAsSQL escapes statement statement
  | body {text : Text} {before : List Char} {body : Text}
      (h : ReadsAsSQL escapes statement text) (hbody : .body before body ∈ pgLexemes escapes text) :
      ReadsAsSQL escapes statement body

/-- The keyword lexer ends the lexeme where the server does, with `escapes` the server's rule for ordinary
strings and `lexer` that of the lexer's reading: a segment of a string under the rule that the lexer takes for
it, and a dollar-quoted body, which it finds only where no identifier character is in front of it. -/
def PgLexeme.InStep (escapes lexer : Bool) : PgLexeme → Prop
  | .string opening before text =>
    closeQuote '\'' (opening.rule escapes) text =
      closeQuote '\'' (lexer || Cursor.escapeStringPrefix ⟨before, text⟩) text
  | .body before _ => before.head?.any identifierCharacter = false
  | .word _ | .name | .comment | .other _ => True

instance PgLexeme.decidableInStep (escapes lexer : Bool) :
    (l : PgLexeme) → Decidable (l.InStep escapes lexer)
  | .string _ _ _ => inferInstanceAs (Decidable (_ = _))
  | .body _ _ => inferInstanceAs (Decidable (_ = _))
  | .word _ | .name | .comment | .other _ => .isTrue trivial

/-! ## The skips agree -/

theorem skipNestedBlockComment_eq_closeComment (nested : Nat) (text : Text) :
    skipNestedBlockComment (nested + 1) text = closeComment nested text := by
  fun_induction closeComment nested text with
  | case1 => rfl
  | case2 nested rest ih => rw [skipNestedBlockComment, ih]
  | case3 rest => rfl
  | case4 rest nested ih => rw [skipNestedBlockComment, if_neg (by simp), Nat.add_sub_cancel, ih]
  | case5 nested c rest hopen hclose ih => rw [skipNestedBlockComment, ih] <;> assumption

theorem digit_of_startsName {c : Char} (h : startsName c = true) : digit c = false := by
  cases hd : digit c with
  | false => rfl
  | true =>
    rw [startsName, asciiKeywordCharacter_of_digit hd, Bool.false_or, decide_eq_true_eq] at h
    simp only [digit, Bool.and_eq_true, decide_eq_true_eq, Char.le_def, UInt32.le_iff_toNat_le] at hd
    have : '9'.val.toNat = 57 := rfl
    have : c.val.toNat = c.toNat := rfl
    omega

theorem dollarTag_eq_span (first : Bool) (text : Text) : dollarTag first text =
      match text.dropWhile tagCharacter with
      | '$' :: inner =>
        if first && (text.takeWhile tagCharacter).head?.any digit then none
        else some (text.takeWhile tagCharacter ++ ['$'], inner)
      | _ => none := by
  induction text generalizing first with
  | nil => rfl
  | cons c text ih =>
    have hdollar : tagCharacter '$' = false := by decide
    unfold dollarTag
    by_cases hc : c = '$'
    · subst hc
      simp [hdollar]
    rw [if_neg hc]
    cases htag : tagCharacter c with
    | false =>
      have hno : (asciiKeywordCharacter c || decide (0x80 ≤ c.toNat) || digit c && !first) = false := by
        simp only [tagCharacter, startsName, Bool.or_eq_false_iff] at htag
        simp [htag.1.1, htag.1.2, htag.2]
      rw [if_neg (by simp [hno]), List.dropWhile_cons, if_neg (by simp [htag])]
      split
      · rename_i heq
        exact absurd (List.cons.inj heq).1 hc
      · rfl
    | true =>
      rw [List.dropWhile_cons, List.takeWhile_cons, if_pos htag, if_pos htag, ih false]
      by_cases hfirst : first = true ∧ digit c = true
      · obtain ⟨rfl, hdigit⟩ := hfirst
        have hno : (asciiKeywordCharacter c || decide (0x80 ≤ c.toNat) || digit c && !true) = false := by
          have hname : startsName c = false := by
            cases hname : startsName c with
            | false => rfl
            | true => rw [digit_of_startsName hname] at hdigit; cases hdigit
          simpa [startsName] using hname
        rw [if_neg (by rw [hno]; simp)]
        split
        · simp [hdigit]
        · rfl
      · have hyes : (asciiKeywordCharacter c || decide (0x80 ≤ c.toNat) || digit c && !first) = true := by
          simp only [tagCharacter, startsName, Bool.or_eq_true] at htag
          simp only [Bool.or_eq_true, Bool.and_eq_true, Bool.not_eq_true']
          rcases htag with htag | hdigit
          · exact .inl htag
          refine .inr ⟨hdigit, ?_⟩
          cases first with
          | false => rfl
          | true => exact absurd ⟨rfl, hdigit⟩ hfirst
        have hhead : (first && ((c :: text.takeWhile tagCharacter).head?.any digit)) = false := by
          simpa using hfirst
        rw [if_pos hyes, hhead]
        split
        · simp
        · rfl

variable {text : Text} {b : Char} {prior : Prior} {c : Cursor}

theorem closeComment_suffix {nested : Nat} {rest : Text}
    (h : closeComment nested text = some rest) : rest <:+ text := by
  rw [← skipNestedBlockComment_eq_closeComment] at h
  exact skipNestedBlockComment_suffix h

/-- The lexer finds the tags of the server, unless an identifier character is in front of them. -/
theorem Cursor.dollarQuoteTag_eq_opening (before : List Char) (b : Char) (text : Text) :
    Cursor.dollarQuoteTag ⟨before, b :: text⟩ =
      if before.head?.any identifierCharacter then none else dollarOpening b text := by
  unfold Cursor.dollarQuoteTag dollarOpening
  by_cases hb : b = '$'
  · subst hb
    simp only [if_true]
    split
    · rfl
    rw [dollarTag_eq_span]
    split
    · simp only [Bool.true_and]
      split <;> rfl
    · rfl
  · rw [if_neg hb]
    split
    · rename_i heq
      exact absurd (List.cons.inj heq).1 hb
    · simp

theorem dollarOpening_eq {tag inner : Text}
    (h : dollarOpening b text = some (tag, inner)) : b :: text = tag ++ inner ∧ tag ≠ [] := by
  have hcursor : Cursor.dollarQuoteTag ⟨[], b :: text⟩ = some (tag, inner) := by
    rw [Cursor.dollarQuoteTag_eq_opening, if_neg (by simp), h]
  exact Cursor.dollarQuoteTag_eq hcursor

theorem skipSQLLineComment_eq_dropWhile (text : Text) : skipSQLLineComment text =
      match text.dropWhile (!pgNewline ·) with
      | [] => []
      | '\r' :: '\n' :: rest => rest
      | _ :: rest => rest := by
  fun_induction skipSQLLineComment text with
  | case1 => rfl
  | case2 rest => rfl
  | case3 c rest hcr hc =>
    have hnl : pgNewline c = true := by
      rw [pgNewline, Bool.or_comm]
      exact hc
    rw [List.dropWhile_cons, if_neg (by simp [hnl])]
    split
    · rename_i heq
      cases heq
    · rename_i heq
      cases heq
      exact absurd rfl (hcr _ rfl)
    · rename_i heq
      cases heq
      rfl
  | case4 c rest hcr hc ih =>
    have hnl : pgNewline c = false := by
      rw [pgNewline, Bool.or_comm]
      exact Bool.eq_false_iff.2 hc
    rw [List.dropWhile_cons, if_pos (by simp [hnl])]
    exact ih

/-! ## The tokens of a PostgreSQL text -/

section Tokens

variable [Unicode] {escapes lexer : Bool}

theorem Cursor.tokens_newline {c : Char} (hc : pgNewline c = true) (before : List Char)
    (text : Text) :
    Cursor.tokens false lexer ⟨before, c :: text⟩ =
      Cursor.tokens false lexer ⟨c :: before, text⟩ := by
  have hne : ∀ d : Char, pgNewline d = false → c ≠ d := by
    rintro d hd rfl
    rw [hc] at hd
    cases hd
  rw [Cursor.tokens_plain (hne '\'' (by decide)) (hne '"' (by decide)) (fun h => by cases h) ?_ ?_
    (fun h => absurd h (hne '/' (by decide))) ?_, boundary, if_neg (hne ';' (by decide)),
    List.nil_append]
  · unfold startsDashComment
    split
    · rename_i heq
      exact absurd (List.cons.inj heq).1 (hne '-' (by decide))
    · rfl
  · intro _
    rw [Cursor.dollarQuoteTag_eq_opening, dollarOpening, if_neg (hne '$' (by decide)), ite_self]
  · simp only [pgNewline, Bool.or_eq_true, decide_eq_true_eq] at hc
    rcases hc with rfl | rfl <;> decide

/-- The lexer skips the end of the line with the comment, the server reads it behind the comment. -/
theorem Cursor.tokens_lineComment (before : List Char) (text : Text) :
    Cursor.tokens false lexer ⟨before, '-' :: '-' :: text⟩ =
      (Cursor.to ⟨before, '-' :: '-' :: text⟩ (text.dropWhile (!pgNewline ·))).tokens
        false lexer := by
  rw [Cursor.tokens_dashes rfl, skipSQLLineComment_eq_dropWhile]
  have hsuffix : text.dropWhile (!pgNewline ·) <:+ '-' :: '-' :: text :=
    (List.dropWhile_suffix _).trans ((List.suffix_cons _ _).trans (List.suffix_cons _ _))
  have hhead := List.head?_dropWhile_not (!pgNewline ·) text
  generalize hc : (⟨before, '-' :: '-' :: text⟩ : Cursor) = c
  replace hsuffix : text.dropWhile (!pgNewline ·) <:+ c.rest := hc ▸ hsuffix
  generalize text.dropWhile (!pgNewline ·) = line at hsuffix hhead ⊢
  -- Behind the line, the cursor is where reading its end leads.
  have hto : ∀ rest, rest <:+ line → c.to rest = Cursor.to ⟨(c.to line).before, line⟩ rest :=
    fun rest hrest => (Cursor.to_to hsuffix hrest).symm
  have hline : c.to line = ⟨(c.to line).before, line⟩ := rfl
  rw [hline]
  split
  · rfl
  · rename_i rest
    rw [hto rest ((List.suffix_cons _ _).trans (List.suffix_cons _ _)),
      Cursor.tokens_newline (by decide), Cursor.tokens_newline (by decide)]
    exact congrArg _ (Cursor.to_append _ ['\r', '\n'] rest)
  · rename_i d rest _
    rw [hto rest (List.suffix_cons _ _), Cursor.to_cons, Cursor.tokens_newline]
    simpa using hhead

def PgLexeme.tokens (escapes : Bool) : PgLexeme → List String
  | .word w => runTokens w
  | .string .escape _ _ => ["E"]
  | .body _ text =>
    statementBoundary :: Cursor.tokens false escapes { rest := text } ++ [statementBoundary]
  | .other c => boundary c
  | .string _ _ _ | .name | .comment => []

omit [Unicode] in
/-- The cases of the reading of one lexeme. -/
theorem pgNext_cases {P : PgLexeme → Prior → Cursor → Prop} {before : List Char}
    (hstring : b = '\'' → P (.string prior.opening before text) (some (prior.opening.rule escapes, false))
      (Cursor.to ⟨before, b :: text⟩ (closeQuote '\'' (prior.opening.rule escapes) text)))
    (hescape : ∀ inner, b = 'E' ∨ b = 'e' → text = '\'' :: inner →
      P (.string .escape (b :: before) inner) (some (true, false))
        (Cursor.to ⟨before, b :: text⟩ (closeQuote '\'' true inner)))
    (hname : b = '"' → P .name none (Cursor.to ⟨before, b :: text⟩ (closeQuote '"' false text)))
    (hline : ∀ inner, b = '-' → text = '-' :: inner →
      P .comment none (Cursor.to ⟨before, b :: text⟩ (inner.dropWhile (!pgNewline ·))))
    (hcomment : ∀ inner, b = '/' → text = '*' :: inner →
      P .comment none (Cursor.to ⟨before, b :: text⟩ ((closeComment 0 inner).getD [])))
    (hbody : ∀ tag inner, dollarOpening b text = some (tag, inner) →
      P (.body before ((Scan.cut tag inner).map Prod.fst |>.getD inner)) none
        (Cursor.to ⟨before, b :: text⟩ ((Scan.cut tag inner).map Prod.snd |>.getD [])))
    (hword : startsName b = true → P (.word ((b :: text).takeWhile identifierCharacter)) none
      (Cursor.to ⟨before, b :: text⟩ ((b :: text).dropWhile identifierCharacter)))
    (hother : b ≠ '\'' → b ≠ '"' → ¬ (b = '-' ∧ text.head? = some '-') →
      ¬ (b = '/' ∧ text.head? = some '*') → dollarOpening b text = none → startsName b = false →
      P (.other b) (prior.space b) (Cursor.to ⟨before, b :: text⟩ text)) :
    ∃ l prior' next, pgNext escapes prior ⟨before, b :: text⟩ = some (l, prior', next) ∧ P l prior' next := by
  unfold pgNext
  dsimp only
  by_cases hquote : b = '\''
  · exact ⟨_, _, _, if_pos hquote, hstring hquote⟩
  rw [if_neg hquote]
  by_cases hprefixed : ((b = 'E' || b = 'e') && text.head? = some '\'') = true
  · rw [if_pos hprefixed]
    simp only [Bool.and_eq_true, Bool.or_eq_true, decide_eq_true_eq] at hprefixed
    obtain ⟨inner, rfl⟩ := List.head?_eq_some_iff.1 hprefixed.2
    exact ⟨_, _, _, rfl, hescape inner hprefixed.1 rfl⟩
  rw [if_neg hprefixed]
  by_cases hdouble : b = '"'
  · exact ⟨_, _, _, if_pos hdouble, hname hdouble⟩
  rw [if_neg hdouble]
  by_cases hdash : (b = '-' && text.head? = some '-') = true
  · rw [if_pos hdash]
    simp only [Bool.and_eq_true, decide_eq_true_eq] at hdash
    obtain ⟨inner, rfl⟩ := List.head?_eq_some_iff.1 hdash.2
    exact ⟨_, _, _, rfl, hline inner hdash.1 rfl⟩
  rw [if_neg hdash]
  by_cases hopen : (b = '/' && text.head? = some '*') = true
  · rw [if_pos hopen]
    simp only [Bool.and_eq_true, decide_eq_true_eq] at hopen
    obtain ⟨inner, rfl⟩ := List.head?_eq_some_iff.1 hopen.2
    exact ⟨_, _, _, rfl, hcomment inner hopen.1 rfl⟩
  rw [if_neg hopen]
  cases htag : dollarOpening b text with
  | some opened =>
    obtain ⟨tag, inner⟩ := opened
    have hcut := hbody tag inner htag
    dsimp only
    cases hfound : Scan.cut tag inner <;> rw [hfound] at hcut <;> exact ⟨_, _, _, rfl, hcut⟩
  | none =>
    dsimp only
    by_cases hb : startsName b = true
    · exact ⟨_, _, _, if_pos hb, hword hb⟩
    · exact ⟨_, _, _, if_neg hb, hother hquote hdouble (by simpa using hdash) (by simpa using hopen) htag
        (by simpa using hb)⟩

theorem token_escape (hb : b = 'E' ∨ b = 'e') : token [b] = "E" := by
  rcases hb with rfl | rfl <;> simp [token, Go.toUpper, Go.ascii]

/-- The letter of an `E''` string is a word of its own to the lexer. -/
theorem Cursor.tokens_escapeString (hb : b = 'E' ∨ b = 'e') (before : List Char) (text : Text) :
    Cursor.tokens false lexer ⟨before, b :: '\'' :: text⟩ =
      "E" :: (Cursor.to ⟨before, b :: '\'' :: text⟩ (closeQuote '\'' (lexer ||
        Cursor.escapeStringPrefix ⟨b :: before, text⟩) text)).tokens false lexer := by
  have hword : asciiKeywordCharacter b = true := by
    rcases hb with rfl | rfl <;> decide
  have hquote : identifierCharacter '\'' = false := by decide
  have hE : Cursor.tokens false lexer ⟨before, [b] ++ '\'' :: text⟩ =
      token [b] :: Cursor.tokens false lexer ⟨b :: before, '\'' :: text⟩ :=
    Cursor.tokens_word hword (by simp) (by simp [hquote])
  have hto : ∀ rest, rest <:+ text → Cursor.to ⟨b :: before, '\'' :: text⟩ rest =
      Cursor.to ⟨before, b :: '\'' :: text⟩ rest := by
    intro rest hrest
    rw [← Cursor.to_cons]
    exact Cursor.to_to (List.suffix_cons _ _) (hrest.trans (List.suffix_cons _ _))
  rw [token_escape hb, Cursor.tokens_string, hto _ (closeQuote_suffix _ _ _)] at hE
  exact hE

theorem Cursor.tokens_blockComment (before : List Char) (text : Text) :
    Cursor.tokens false lexer ⟨before, '/' :: '*' :: text⟩ =
      (Cursor.to ⟨before, '/' :: '*' :: text⟩ ((closeComment 0 text).getD [])).tokens false lexer := by
  rw [Cursor.tokens_comment, Cursor.blockComment, if_neg (by simp), skipNestedBlockComment,
    skipNestedBlockComment_eq_closeComment]
  cases hclose : closeComment 0 text with
  | none => simp [Turn.emit, Cursor.to]
  | some rest => simp [Turn.emit]

/-- A body is cut out at its tag, or runs to the end of the text. -/
theorem Cursor.tokens_body {before : List Char} {tag inner : Text}
    (htag : dollarOpening b text = some (tag, inner))
    (hbefore : before.head?.any identifierCharacter = false) :
    Cursor.tokens false lexer ⟨before, b :: text⟩ =
      PgLexeme.tokens lexer (.body before ((Scan.cut tag inner).map Prod.fst |>.getD inner)) ++
        (Cursor.to ⟨before, b :: text⟩ ((Scan.cut tag inner).map Prod.snd |>.getD [])).tokens false lexer := by
  have hcursor : Cursor.dollarQuoteTag ⟨before, b :: text⟩ = some (tag, inner) := by
    rw [Cursor.dollarQuoteTag_eq_opening, if_neg (by simp [hbefore]), htag]
  rw [Cursor.tokens_dollarQuoted hcursor]
  cases hcut : Scan.cut tag inner <;> simp [Cursor.dollarQuoted, hcut, Turn.emit, PgLexeme.tokens]

theorem Cursor.tokens_name (hb : startsName b = true) (before : List Char) (text : Text) :
    Cursor.tokens false lexer ⟨before, b :: text⟩ =
      runTokens ((b :: text).takeWhile identifierCharacter) ++
        (Cursor.to ⟨before, b :: text⟩ ((b :: text).dropWhile identifierCharacter)).tokens false lexer := by
  obtain ⟨hsplit, hrun, hend⟩ := run_split (b :: text)
  have hhead : ((b :: text).takeWhile identifierCharacter).head? ≠ some '$' := by
    rw [List.takeWhile_cons]
    split
    · rintro ⟨⟩
      exact absurd hb (by decide)
    · simp
  generalize (b :: text).takeWhile identifierCharacter = w at hsplit hrun hhead ⊢
  generalize (b :: text).dropWhile identifierCharacter = rest at hsplit hend ⊢
  rw [← hsplit, Cursor.to_append, Cursor.tokens_run hrun hend fun _ h => absurd h hhead]

theorem Cursor.tokens_mark {before : List Char} (hquote : b ≠ '\'') (hdouble : b ≠ '"')
    (hdash : ¬ (b = '-' ∧ text.head? = some '-')) (hopen : ¬ (b = '/' ∧ text.head? = some '*'))
    (htag : dollarOpening b text = none) (hname : startsName b = false) :
    Cursor.tokens false lexer ⟨before, b :: text⟩ =
      boundary b ++ (Cursor.to ⟨before, b :: text⟩ text).tokens false lexer := by
  rw [Cursor.to_cons, Cursor.tokens_plain hquote hdouble (fun h => by cases h) ?_ ?_
    (fun hb hstar => hopen ⟨hb, hstar⟩) ?_]
  · unfold startsDashComment
    split
    · rename_i heq
      obtain ⟨rfl, rfl⟩ := List.cons.inj heq
      exact absurd ⟨rfl, rfl⟩ hdash
    · rfl
  · intro _
    rw [Cursor.dollarQuoteTag_eq_opening, htag, ite_self]
  · simp only [startsName, Bool.or_eq_false_iff] at hname
    exact hname.1

/-- One lexeme: the lexer makes its tokens and goes on behind it, if it is read in step. -/
theorem pgNext_tokens (before : List Char) (b : Char) (text : Text) :
    ∃ l prior' next, pgNext escapes prior ⟨before, b :: text⟩ = some (l, prior', next) ∧
      (l.InStep escapes lexer → Cursor.tokens false lexer ⟨before, b :: text⟩ =
        l.tokens lexer ++ next.tokens false lexer) := by
  refine pgNext_cases ?_ ?_ ?_ ?_ ?_ ?_ ?_ ?_
  · rintro rfl hstep
    have htokens : PgLexeme.tokens lexer (.string prior.opening before text) = [] := by
      unfold Prior.opening
      split <;> rfl
    rw [Cursor.tokens_string, htokens, List.nil_append, Bool.not_false, Bool.true_and]
    exact congrArg (fun rest => (Cursor.to ⟨before, '\'' :: text⟩ rest).tokens false lexer)
      hstep.symm
  · rintro inner hb rfl hstep
    rw [Cursor.tokens_escapeString hb]
    exact congrArg (fun rest => "E" :: (Cursor.to ⟨before, b :: '\'' :: inner⟩ rest).tokens
      false lexer) hstep.symm
  · rintro rfl -
    rw [Cursor.tokens_doubleQuoted, Bool.and_false]
    rfl
  · rintro inner rfl rfl -
    exact Cursor.tokens_lineComment before inner
  · rintro inner rfl rfl -
    exact Cursor.tokens_blockComment before inner
  · intro tag inner htag hstep
    exact Cursor.tokens_body htag hstep
  · intro hb _
    exact Cursor.tokens_name hb before text
  · intro hquote hdouble hdash hopen htag hb _
    exact Cursor.tokens_mark hquote hdouble hdash hopen htag hb

omit [Unicode] in
/-- The reading goes on at a suffix of the text behind the first character. -/
theorem pgNext_suffix (before : List Char) (b : Char) (text : Text) :
    ∃ l prior' next, pgNext escapes prior ⟨before, b :: text⟩ = some (l, prior', next) ∧
      next.rest <:+ text := by
  refine pgNext_cases ?_ ?_ ?_ ?_ ?_ ?_ ?_ ?_
  · exact fun _ => closeQuote_suffix _ _ _
  · rintro inner - rfl
    exact (closeQuote_suffix _ _ _).trans (List.suffix_cons _ inner)
  · exact fun _ => closeQuote_suffix _ _ _
  · rintro inner - rfl
    exact (List.dropWhile_suffix _).trans (List.suffix_cons _ inner)
  · rintro inner - rfl
    cases hclose : closeComment 0 inner with
    | none => exact List.nil_suffix
    | some rest => exact (closeComment_suffix hclose).trans (List.suffix_cons _ inner)
  · intro tag inner htag
    obtain ⟨heq, hne⟩ := dollarOpening_eq htag
    cases hcut : Scan.cut tag inner with
    | none => exact List.nil_suffix
    | some cut =>
      obtain ⟨d, tag, rfl⟩ := List.exists_cons_of_ne_nil hne
      rw [(List.cons.inj heq).2, Scan.cut_eq hcut]
      exact (List.suffix_append _ cut.2).trans (List.suffix_append tag _)
  · intro hb
    have hident : identifierCharacter b = true := by
      simp only [startsName, Bool.or_eq_true, decide_eq_true_eq] at hb
      rcases hb with hb | hb
      · exact identifierCharacter_of_keyword hb
      · simp [identifierCharacter, hb]
    rw [Cursor.to_rest, List.dropWhile_cons, if_pos hident]
    exact List.dropWhile_suffix _
  · exact fun _ _ _ _ _ _ => List.suffix_rfl

/-- The tokens of a text are those of its lexemes, as far as these are read in step. -/
theorem pgRead_tokens_take {fuel : Nat} (hfuel : c.rest.length < fuel)
    (k : Nat) (hstep : ∀ l ∈ (pgRead escapes fuel prior c).take k, l.InStep escapes lexer) :
    ∃ rest, c.tokens false lexer =
      ((pgRead escapes fuel prior c).take k).flatMap (PgLexeme.tokens lexer) ++ rest ∧
      ((pgRead escapes fuel prior c).length ≤ k → rest = []) := by
  induction fuel generalizing prior c k with
  | zero => omega
  | succ fuel ih =>
    obtain ⟨before, statement⟩ := c
    cases statement with
    | nil => exact ⟨[], by simp [pgRead, pgNext], fun _ => rfl⟩
    | cons b text =>
      obtain ⟨l, prior', next, hnext, htokens⟩ := @pgNext_tokens prior _ escapes lexer before b text
      have hread : pgRead escapes (fuel + 1) prior ⟨before, b :: text⟩ = l :: pgRead escapes fuel prior' next := by
        rw [pgRead, hnext]
      rw [hread] at hstep ⊢
      cases k with
      | zero => exact ⟨_, rfl, fun hlen => by simp at hlen⟩
      | succ k =>
        obtain ⟨_, _, _, hsame, hsuffix⟩ := @pgNext_suffix prior escapes before b text
        cases hnext.symm.trans hsame
        have hshort : next.rest.length < fuel :=
          hsuffix.length_le.trans_lt (Nat.lt_of_succ_lt_succ hfuel)
        obtain ⟨rest, heq, hend⟩ := ih hshort k fun m hm => hstep m (.tail _ hm)
        refine ⟨rest, ?_, fun hlen => hend (by simpa using hlen)⟩
        rw [htokens (hstep l (.head _)), heq]
        simp

theorem pgLexemes_tokens (hstep : ∀ l ∈ pgLexemes escapes text, l.InStep escapes lexer) :
    Cursor.tokens false lexer { rest := text } =
      (pgLexemes escapes text).flatMap (PgLexeme.tokens lexer) := by
  obtain ⟨rest, heq, hend⟩ := @pgRead_tokens_take none { rest := text } _ escapes lexer _
    (Nat.lt_succ_self _) (pgLexemes escapes text).length fun l hl => hstep l (List.mem_of_mem_take hl)
  rw [heq, hend (Nat.le_refl _), List.append_nil]
  exact congrArg _ (List.take_length)

/-- The tokens of a dollar-quoted body are among those of the text it is in. -/
theorem ReadsAsSQL.tokens_sublist {statement : Text}
    (hstep : ∀ text, ReadsAsSQL escapes statement text →
      ∀ l ∈ pgLexemes escapes text, l.InStep escapes lexer)
    (h : ReadsAsSQL escapes statement text) :
    (Cursor.tokens false lexer { rest := text }).Sublist
      (Cursor.tokens false lexer { rest := statement }) := by
  induction h with
  | whole => exact .refl _
  | @body text before body h hbody ih =>
    refine .trans ?_ ih
    rw [pgLexemes_tokens (hstep text h)]
    have hmem := List.sublist_flatten_of_mem
      (List.mem_map_of_mem (f := PgLexeme.tokens lexer) hbody)
    refine .trans ?_ hmem
    exact (List.sublist_append_left _ _).trans (List.sublist_cons_self _ _)

/-- No keyword of a PostgreSQL statement is hidden, where the lexemes are read in step.

For every statement and both settings of `standard_conforming_strings`: if the keyword lexer ends, in
one of its two readings, each segment of a string, and finds each dollar-quoted body, where the server
does, in the statement and in the bodies, then of the statement and of every body the words that begin as a keyword does
are, in upper case, a subsequence of the tokens; and so are all words, if none begins with another
character. -/
theorem postgres_words_visible {statement dialect : Text} {standardConformingStrings : Bool} (lexer : Bool)
    (hdialect : mysqlDialect dialect = false)
    (hstep : ∀ text, ReadsAsSQL (!standardConformingStrings) statement text →
      ∀ l ∈ pgLexemes (!standardConformingStrings) text, l.InStep (!standardConformingStrings) lexer)
    {text : Text} (htext : ReadsAsSQL (!standardConformingStrings) statement text) :
    (((pgWords standardConformingStrings text).filter startsAsKeyword).map token).Sublist
        (sqlKeywordTokens statement dialect) ∧
      ((∀ w ∈ pgWords standardConformingStrings text, startsAsKeyword w = true) →
        ((pgWords standardConformingStrings text).map token).Sublist
          (sqlKeywordTokens statement dialect)) := by
  have hall : (((pgWords standardConformingStrings text).filter startsAsKeyword).map token).Sublist
      (sqlKeywordTokens statement dialect) := by
    refine .trans ?_
      (sqlKeywordTokensWithEscapes_sublist statement dialect lexer)
    rw [sqlKeywordTokensWithEscapes, hdialect]
    refine .trans ?_ (htext.tokens_sublist hstep)
    rw [pgLexemes_tokens (hstep text htext)]
    refine keywords_sublist_tokens (fun l w h => ?_) _
    cases l <;> cases h
    rfl
  refine ⟨hall, fun hwords => ?_⟩
  rwa [List.filter_eq_self.2 hwords] at hall

end Tokens

def PgLexeme.body? : PgLexeme → Option Text
  | .body _ text => some text
  | _ => none

/-- A list that has the statement and the bodies of its texts has every text read as SQL. -/
theorem ReadsAsSQL.mem_of_closed {escapes : Bool} {statement : Text} {texts : List Text}
    (h : ReadsAsSQL escapes statement text) (hstatement : statement ∈ texts)
    (hclosed : ∀ t ∈ texts, ∀ b ∈ (pgLexemes escapes t).filterMap PgLexeme.body?, b ∈ texts) :
    text ∈ texts := by
  induction h with
  | whole => exact hstatement
  | body h hbody ih => exact hclosed _ ih _ (List.mem_filterMap.2 ⟨_, hbody, rfl⟩)

/-- A `DO` block and the words of its body. -/
theorem postgres_words_visible_block :
    letI := Go.asciiTables
    ((pgWords true " DROP TABLE t ".toList).map token).Sublist
      (sqlKeywordTokens "DO $$ DROP TABLE t $$; SELECT E'\\''".toList "postgres".toList) := by
  let _ := Go.asciiTables
  have hclosed : ∀ t ∈ ["DO $$ DROP TABLE t $$; SELECT E'\\''".toList, " DROP TABLE t ".toList],
      (∀ b ∈ (pgLexemes false t).filterMap PgLexeme.body?,
        b ∈ ["DO $$ DROP TABLE t $$; SELECT E'\\''".toList, " DROP TABLE t ".toList]) ∧
      ∀ l ∈ pgLexemes false t, l.InStep false false := by
    decide +kernel
  have hbody : .body " OD".toList " DROP TABLE t ".toList ∈
      pgLexemes false "DO $$ DROP TABLE t $$; SELECT E'\\''".toList := by
    decide +kernel
  refine (postgres_words_visible false (by decide +kernel) (fun text htext => ?_)
    (.body .whole hbody)).2 (by decide +kernel)
  exact (hclosed text (htext.mem_of_closed (by decide +kernel) fun t ht => (hclosed t ht).1)).2

/-- A server reads the word `w` in the statement and the keyword lexer does not, so that the
server's words are no subsequence of the tokens. -/
def postgresHidden [Unicode] (w statement : String) : Prop :=
  w.toList ∈ pgWords true statement.toList ∧
    w ∉ sqlKeywordTokens statement.toList "postgres".toList ∧
    ¬ ((pgWords true statement.toList).map token).Sublist
      (sqlKeywordTokens statement.toList "postgres".toList)

instance [Unicode] (w statement : String) : Decidable (postgresHidden w statement) :=
  inferInstanceAs (Decidable (_ ∧ _ ∧ _))

/-- A continued `E''` string with an escaped quote in its second segment; an `E''` string and a
dollar-quoted body directly behind a number; and a name that begins with a character outside
ASCII. -/
theorem postgres_words_hidden :
    letI := Go.asciiTables
    postgresHidden "DROP" "SELECT '\\', \"'\", E'a'\n'\\''; DROP TABLE t" ∧
      postgresHidden "DROP" "SELECT '\\', \"'\", 1E'\\''; DROP TABLE t" ∧
      postgresHidden "DROP" "SELECT 1$$'$$; DROP TABLE t" ∧
      postgresHidden "表A" "ALTER TABLE 表A" := by
  decide +kernel

end Ptah.DataPlane
