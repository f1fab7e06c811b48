import PtahOperator.DataPlane.SqlReading

/-!
# MySQL and MariaDB statements

The lexemes that a MySQL or MariaDB server reads in a statement, and when the keyword lexer sees all
of its words.

* `mysqlRead`: the server's reading. Strings take doubled quotes and, unless `NO_BACKSLASH_ESCAPES`
  is set, backslash escapes; backtick identifiers take doubled backticks only; a `#` or `-- `
  comment ends with its line; a comment ends at the first `*/`, and the content of `/*! */` and
  `/*M! */` is SQL, behind the digits of its version.
* `MysqlLexeme.InStep`: the keyword lexer ends the lexeme where the server does.
* `mysql_words_visible`: where one of the lexer's two readings has every lexeme in step, the words of
  the server are among the tokens, in their order.
-/

namespace Ptah.DataPlane

open Go (Text Unicode)

/-! ## The server's reading -/

/-- A lexeme, with the texts that decide where it ends. A name that begins with a digit is no
keyword: it is read with the numbers. -/
inductive MysqlLexeme where
  | word (w : Text)
  /-- A backtick identifier; the text behind its opening backtick. -/
  | identifier (text : Text)
  /-- A `#` or `-- ` comment; the text behind its opening. -/
  | lineComment (text : Text)
  /-- `/*!` or `/*M!`; the text behind it, and the text behind the `*/` that ends it. The lexemes of
  its content follow. -/
  | executable (text : Text) (behind : Option Text)
  /-- A string; its quote, and the text behind it. -/
  | string (quote : Char) (text : Text)
  /-- Another comment, and whether it is closed. -/
  | comment (content : Text) (closed : Bool)
  | number (digits : Text)
  | other (c : Char)
  deriving DecidableEq

/-- Two dashes in front of white space or a control character. -/
def mysqlDashes : Text → Bool
  | '-' :: '-' :: c :: _ => c ≤ ' ' || c = '\x7f'
  | _ => false

def behindLine (text : Text) : Text := (text.dropWhile (· ≠ '\n')).drop 1

/-- The text behind `/*!` and `/*M!`, from behind the `/*`. -/
def executableText : Text → Option Text
  | '!' :: text => some text
  | 'M' :: '!' :: text => some text
  | _ => none

/-- The lexeme in front of what is read behind it. -/
def MysqlLexeme.andThen (l : MysqlLexeme) (more : List MysqlLexeme × Text) :
    List MysqlLexeme × Text :=
  (l :: more.1, more.2)

/-- The lexemes of a text, and what is left of it. Inside an executable comment the reading stops in
front of the `*/` that ends it. Each lexeme takes a character at least, so `fuel` above the length of
the text does not run out. -/
def mysqlRead (escapes : Bool) : Nat → Bool → Text → List MysqlLexeme × Text
  | 0, _, text => ([], text)
  | _ + 1, _, [] => ([], [])
  | fuel + 1, inside, c :: rest =>
    let read := mysqlRead escapes fuel
    if inside && c = '*' && rest.head? = some '/' then ([], c :: rest)
    else if c = '\'' || c = '"' then
      (MysqlLexeme.string c rest).andThen (read inside (closeQuote c escapes rest))
    else if c = '`' then
      (MysqlLexeme.identifier rest).andThen (read inside (closeQuote c false rest))
    else if c = '#' then
      (MysqlLexeme.lineComment rest).andThen (read inside (behindLine rest))
    else if mysqlDashes (c :: rest) then
      (MysqlLexeme.lineComment (rest.drop 1)).andThen (read inside (behindLine (rest.drop 1)))
    else if c = '/' && rest.head? = some '*' then
      match executableText (rest.drop 1) with
      | some text =>
        let content := read true (text.dropWhile digit)
        match content.2 with
        | [] => ((.executable text none) :: content.1, [])
        | _ =>
          let more := read inside (content.2.drop 2)
          (.executable text (some (content.2.drop 2)) :: content.1 ++ more.1, more.2)
      | none =>
        match Scan.cut ['*', '/'] (rest.drop 1) with
        | some (content, behind) =>
          (MysqlLexeme.comment content true).andThen (read inside behind)
        | none => ([.comment (rest.drop 1) false], [])
    else if identifierCharacter c then
      let w := (c :: rest).takeWhile identifierCharacter
      (if digit c then MysqlLexeme.number w else .word w).andThen
        (read inside ((c :: rest).dropWhile identifierCharacter))
    else (MysqlLexeme.other c).andThen (read inside rest)

def mysqlLexemes (escapes : Bool) (statement : Text) : List MysqlLexeme :=
  (mysqlRead escapes (statement.length + 1) false statement).1

def MysqlLexeme.word? : MysqlLexeme → Option Text
  | .word w => some w
  | _ => none

/-- The unquoted words that a server reads in a statement, with `NO_BACKSLASH_ESCAPES` set or
not. -/
def mysqlWords (noBackslashEscapes : Bool) (statement : Text) : List Text :=
  (mysqlLexemes (!noBackslashEscapes) statement).filterMap MysqlLexeme.word?

/-- The keyword lexer ends the lexeme where the server does, with `escapes` the server's rule for strings and
`lexer` that of the lexer's reading: a string under both rules, a backtick identifier also with backslash
escapes, a line comment at the first line ending of any kind, an executable comment at the first `*/`. -/
def MysqlLexeme.InStep (escapes lexer : Bool) : MysqlLexeme → Prop
  | .string quote text => closeQuote quote lexer text = closeQuote quote escapes text
  | .identifier text => closeQuote '`' lexer text = closeQuote '`' false text
  | .lineComment text => skipSQLLineComment text = behindLine text
  | .executable text behind =>
    behind.isSome ∧ (Scan.cut ['*', '/'] text).map Prod.snd = behind
  | .word _ | .comment _ _ | .number _ | .other _ => True

instance MysqlLexeme.decidableInStep (escapes lexer : Bool) :
    (l : MysqlLexeme) → Decidable (l.InStep escapes lexer)
  | .string _ _ | .identifier _ | .lineComment _ => inferInstanceAs (Decidable (_ = _))
  | .executable _ _ => inferInstanceAs (Decidable (_ ∧ _))
  | .word _ | .comment _ _ | .number _ | .other _ => .isTrue trivial

/-! ## Contexts -/

theorem behindLine_suffix (text : Text) : behindLine text <:+ text :=
  (List.drop_suffix 1 _).trans (List.dropWhile_suffix _)

theorem behindLine_cons_suffix (c : Char) (text : Text) : behindLine (c :: text) <:+ text := by
  unfold behindLine
  rw [List.dropWhile_cons]
  split
  · exact behindLine_suffix text
  · exact List.suffix_rfl

variable {c : Char} {text rest mark : Text} {inside : Bool} {read : List MysqlLexeme × Text}

theorem skipSQLLineComment_cons (h : ¬ (c = '\r' ∧ text.head? = some '\n')) :
    skipSQLLineComment (c :: text) =
      if c = '\r' || c = '\n' then text else skipSQLLineComment text := by
  rw [skipSQLLineComment]
  rintro rest rfl rfl
  exact h ⟨rfl, rfl⟩

/-- A comment that ends in front of a context ends there without the context. -/
theorem skipSQLLineComment_append {context u v : Text}
    (h : skipSQLLineComment (u ++ context) = v ++ context) : skipSQLLineComment u = v := by
  fun_induction skipSQLLineComment u with
  | case1 =>
    have hlen := congrArg List.length h
    have := (skipSQLLineComment_suffix context).length_le
    rw [List.nil_append, List.length_append] at hlen
    exact (List.length_eq_zero_iff.1 (by omega)).symm
  | case2 rest => exact List.append_cancel_right h
  | case3 c rest hcr hc =>
    by_cases hsplit : c = '\r' ∧ (rest ++ context).head? = some '\n'
    · -- The line feed of the pair would be the context's: the comment ends behind it.
      obtain ⟨rfl, hlf⟩ := hsplit
      obtain ⟨tail, htail⟩ := List.head?_eq_some_iff.1 hlf
      cases rest with
      | cons d rest => exact absurd (by rw [(List.cons.inj htail).1]) (hcr rest rfl)
      | nil =>
        rw [List.cons_append, htail, skipSQLLineComment] at h
        have hlen := congrArg List.length h
        rw [List.length_append, ← List.nil_append context, htail, List.length_cons] at hlen
        omega
    · rw [List.cons_append, skipSQLLineComment_cons hsplit, if_pos hc] at h
      exact List.append_cancel_right h
  | case4 c rest hcr hc ih =>
    have hne : ¬ (c = '\r' ∧ (rest ++ context).head? = some '\n') := by
      rintro ⟨rfl, -⟩
      exact hc (by simp)
    rw [List.cons_append, skipSQLLineComment_cons hne, if_neg hc] at h
    exact ih h

section Tokens

variable [Unicode] {escapes lexer : Bool}

/-- What is read from a position on, where that is a matter of the text from there on. -/
theorem Turn.emit_rebase {go : Cursor → List String} (hgo : ∀ c c' : Cursor, c.rest = c'.rest → go c = go c')
    (t : Turn) (c : Cursor) : (t.rebase c).emit go = t.emit go := by
  cases t with
  | stop => rfl
  | skip next => exact hgo _ _ rfl
  | word w next => rw [rebase, emit, emit, hgo (c.to next.rest) next rfl]
  | boundary next => rw [rebase, emit, emit, hgo (c.to next.rest) next rfl]
  | body text next => rw [rebase, emit, emit, hgo (c.to next.rest) next rfl]
  | executable text next => rw [rebase, emit, emit, hgo (c.to next.rest) next rfl]

theorem Cursor.tokens_mysql (c : Cursor) :
    c.tokens true escapes = Cursor.tokens true escapes ⟨[], c.rest⟩ := by
  have hread : ∀ n (c c' : Cursor), c.rest = c'.rest →
      readTokens true escapes n c = readTokens true escapes n c' := by
    intro n
    induction n with
    | zero => exact fun _ _ _ => rfl
    | succ n ih =>
      rintro ⟨before, text⟩ ⟨before', _⟩ rfl
      have hturn := @Cursor.turn_rebase escapes true before text before' (fun h => by cases h)
        (fun h => by cases h)
      rw [readTokens, readTokens, hturn, Turn.emit_rebase ih]
  exact hread _ _ _ rfl

/-! ## The tokens of a MySQL text -/

/-- The tokens of a text as MySQL, under one escape rule. -/
def mysqlTokens (escapes : Bool) (text : Text) : List String :=
  Cursor.tokens true escapes { rest := text }

theorem Cursor.tokens_eq_mysqlTokens (c : Cursor) :
    c.tokens true escapes = mysqlTokens escapes c.rest :=
  c.tokens_mysql

theorem mysqlTokens_string (hc : c = '\'' ∨ c = '"') (text : Text) :
    mysqlTokens escapes (c :: text) = mysqlTokens escapes (closeQuote c escapes text) := by
  rw [mysqlTokens]
  rcases hc with rfl | rfl
  · rw [Cursor.tokens_string, Cursor.tokens_eq_mysqlTokens]
    simp
  · rw [Cursor.tokens_doubleQuoted, Cursor.tokens_eq_mysqlTokens]
    simp

theorem mysqlTokens_identifier (text : Text) :
    mysqlTokens escapes ('`' :: text) = mysqlTokens escapes (closeQuote '`' escapes text) := by
  rw [mysqlTokens, Cursor.tokens_skip rfl, Cursor.tokens_eq_mysqlTokens,
    Cursor.to_rest, skipSQLQuoted_eq_closeQuote]

theorem mysqlTokens_hash (text : Text) :
    mysqlTokens escapes ('#' :: text) = mysqlTokens escapes (skipSQLLineComment text) := by
  rw [mysqlTokens, Cursor.tokens_skip rfl, Cursor.tokens_eq_mysqlTokens, Cursor.to_rest]

theorem mysqlTokens_dashes (h : startsDashComment true ('-' :: '-' :: text) = true) :
    mysqlTokens escapes ('-' :: '-' :: text) = mysqlTokens escapes (skipSQLLineComment text) := by
  rw [mysqlTokens, Cursor.tokens_dashes h, Cursor.tokens_eq_mysqlTokens, Cursor.to_rest]

theorem mysqlTokens_comment {comment : Text} (h : Scan.cut ['*', '/'] text = some (comment, rest)) :
    mysqlTokens escapes ('/' :: '*' :: text) =
      ((mysqlExecutableComment true comment).map (mysqlTokens escapes)).getD [] ++
        mysqlTokens escapes rest := by
  rw [mysqlTokens, Cursor.tokens_comment]
  simp only [Cursor.blockComment, if_true, h]
  split
  · rename_i body hbody
    simp only [hbody, Turn.emit, Cursor.tokens_eq_mysqlTokens, Cursor.to_rest, Option.map_some,
      Option.getD_some]
  · rename_i hbody
    simp only [hbody, Turn.emit, Cursor.tokens_eq_mysqlTokens, Cursor.to_rest, Option.map_none,
      Option.getD_none, List.nil_append]

theorem mysqlTokens_openComment (h : Scan.cut ['*', '/'] text = none) :
    mysqlTokens escapes ('/' :: '*' :: text) = [] := by
  rw [mysqlTokens, Cursor.tokens_comment]
  simp [Cursor.blockComment, h, Turn.emit]

theorem mysqlTokens_run {w : Text} (hw : ∀ d ∈ w, identifierCharacter d = true)
    (hrest : rest.head?.any identifierCharacter = false) :
    mysqlTokens escapes (w ++ rest) = runTokens w ++ mysqlTokens escapes rest := by
  rw [mysqlTokens, Cursor.tokens_run hw hrest (fun h => by cases h), Cursor.tokens_eq_mysqlTokens]

theorem mysqlTokens_plain (hc : c ∉ ['\'', '"', '`', '#'])
    (hdash : startsDashComment true (c :: text) = false)
    (hopen : c = '/' → text.head? ≠ some '*') (hword : asciiKeywordCharacter c = false) :
    mysqlTokens escapes (c :: text) = boundary c ++ mysqlTokens escapes text := by
  simp only [List.mem_cons, List.not_mem_nil, or_false, not_or] at hc
  rw [mysqlTokens, Cursor.tokens_plain hc.1 hc.2.1 (fun _ => hc.2.2) hdash (fun h => by cases h)
    hopen hword, Cursor.tokens_eq_mysqlTokens]

/-- White space and digits in front of a text make no token. -/
theorem mysqlTokens_dropWhile {p : Char → Bool} (hp : ∀ c, p c = true → trimmed c = true ∨ digit c = true)
    (text : Text) : mysqlTokens escapes (text.dropWhile p) = mysqlTokens escapes text := by
  induction text with
  | nil => rfl
  | cons c text ih =>
    rw [List.dropWhile_cons]
    split
    · rename_i hc
      have hin : trimmed c = true ∨ digit c = true := hp c hc
      have hne : ∀ d : Char, trimmed d = false → digit d = false → c ≠ d := by
        rintro d ht hd rfl
        rw [ht, hd] at hin
        simp at hin
      have hword : asciiKeywordCharacter c = false := by
        rcases hin with ht | hd
        · simp only [trimmed, Bool.or_eq_true, decide_eq_true_eq] at ht
          rcases ht with ((rfl | rfl) | rfl) | rfl <;> decide
        · exact asciiKeywordCharacter_of_digit hd
      have hdash : startsDashComment true (c :: text) = false := by
        unfold startsDashComment
        split
        · rename_i heq
          exact absurd (List.cons.inj heq).1 (hne '-' (by decide) (by decide))
        · rfl
      rw [ih, mysqlTokens_plain ?_ hdash (fun h => absurd h (hne '/' (by decide) (by decide))) hword,
        boundary, if_neg (hne ';' (by decide) (by decide)), List.nil_append]
      simp [hne '\'' (by decide) (by decide), hne '"' (by decide) (by decide),
        hne '`' (by decide) (by decide), hne '#' (by decide) (by decide)]
    · rfl

/-! ## The words are seen -/

/-- The tokens that the lexer makes of a lexeme. It takes `/*m! */` for an executable comment, too. -/
def MysqlLexeme.tokens (escapes : Bool) : MysqlLexeme → List String
  | .word w | .number w => runTokens w
  | .comment content true =>
    ((mysqlExecutableComment true content).map (mysqlTokens escapes)).getD []
  | .other c => boundary c
  | .string _ _ | .identifier _ | .lineComment _ | .executable _ _ | .comment _ false => []

/-- The reading of a text stops at its end or, inside an executable comment, in front of a `*/`; and
the tokens of what it read are those of the lexemes. -/
structure Sees (escapes inside : Bool) (text : Text) (read : List MysqlLexeme × Text) : Prop where
  tokens : ∃ t, text = t ++ read.2 ∧
    mysqlTokens escapes t = read.1.flatMap (MysqlLexeme.tokens escapes)
  stops : read.2 = [] ∨ inside = true ∧ ∃ behind, read.2 = '*' :: '/' :: behind

/-- One lexeme: the lexer passes it and makes its tokens, whatever of the text behind it is read
on. -/
theorem Sees.cons {l : MysqlLexeme} {u next : Text} (h : Sees lexer inside next read)
    (htokens : ∀ t, next = t ++ read.2 →
      mysqlTokens lexer (u ++ t) = l.tokens lexer ++ mysqlTokens lexer t) :
    Sees lexer inside (u ++ next) (l.andThen read) := by
  obtain ⟨t, ht, heq⟩ := h.tokens
  refine ⟨⟨u ++ t, by rw [ht, List.append_assoc]; rfl, ?_⟩, h.stops⟩
  rw [htokens t ht, heq]
  rfl

/-- A lexeme without a token that the lexer skips. `skip` is what it does with the text behind the
lexeme's opening, `next` where the server goes on. -/
theorem Sees.skip {l : MysqlLexeme} {next : Text}
    (h : Sees lexer inside next read) (opening : Text)
    (skip : Text → Text) (hnone : l.tokens lexer = [])
    (hsuffix : next <:+ text) (hnext : skip text = next)
    (hlocal : ∀ u v context, skip (u ++ context) = v ++ context → skip u = v)
    (htokens : ∀ t, mysqlTokens lexer (opening ++ t) = mysqlTokens lexer (skip t)) :
    Sees lexer inside (opening ++ text) (l.andThen read) := by
  obtain ⟨u, rfl⟩ := hsuffix
  rw [← List.append_assoc]
  refine h.cons fun t ht => ?_
  rw [List.append_assoc, htokens, hnone, List.nil_append, hlocal (u ++ t) t read.2]
  rw [List.append_assoc, ← ht]
  exact hnext

theorem Sees.string (h : Sees lexer inside (closeQuote c escapes text) read) (hc : c = '\'' ∨ c = '"')
    (hin : (MysqlLexeme.string c text).InStep escapes lexer) :
    Sees lexer inside (c :: text) ((MysqlLexeme.string c text).andThen read) :=
  h.skip [c] (closeQuote c lexer) rfl (closeQuote_suffix c escapes text) hin
    (fun _ _ _ => closeQuote_append) (mysqlTokens_string hc)

theorem Sees.identifier (h : Sees lexer inside (closeQuote '`' false text) read)
    (hin : (MysqlLexeme.identifier text).InStep escapes lexer) :
    Sees lexer inside ('`' :: text) ((MysqlLexeme.identifier text).andThen read) :=
  h.skip ['`'] (closeQuote '`' lexer) rfl (closeQuote_suffix '`' false text) hin
    (fun _ _ _ => closeQuote_append) mysqlTokens_identifier

theorem Sees.hash (h : Sees lexer inside (behindLine text) read)
    (hin : (MysqlLexeme.lineComment text).InStep escapes lexer) :
    Sees lexer inside ('#' :: text) ((MysqlLexeme.lineComment text).andThen read) :=
  h.skip ['#'] skipSQLLineComment rfl (behindLine_suffix text) hin
    (fun _ _ _ => skipSQLLineComment_append) mysqlTokens_hash

theorem Sees.dashes (h : Sees lexer inside (behindLine (text.drop 1)) read)
    (hdash : mysqlDashes (c :: text) = true)
    (hin : (MysqlLexeme.lineComment (text.drop 1)).InStep escapes lexer) :
    Sees lexer inside (c :: text) ((MysqlLexeme.lineComment (text.drop 1)).andThen read) := by
  unfold mysqlDashes at hdash
  split at hdash
  · rename_i x text heq
    obtain ⟨rfl, rfl⟩ := List.cons.inj heq
    refine h.skip ['-', '-', x] (fun t => skipSQLLineComment (x :: t)) rfl (behindLine_cons_suffix x text) hin
      (fun u _ _ h => skipSQLLineComment_append h) fun t => ?_
    exact mysqlTokens_dashes (by simpa [startsDashComment] using hdash)
  · cases hdash

theorem Sees.run (h : Sees lexer inside ((c :: text).dropWhile identifierCharacter) read) :
    Sees lexer inside (c :: text)
      ((if digit c then MysqlLexeme.number ((c :: text).takeWhile identifierCharacter)
        else .word ((c :: text).takeWhile identifierCharacter)).andThen read) := by
  obtain ⟨hsplit, hrun, hend⟩ := run_split (c :: text)
  generalize (c :: text).takeWhile identifierCharacter = w at hsplit hrun ⊢
  conv => arg 3; rw [← hsplit]
  refine h.cons fun t ht => ?_
  have htokens : MysqlLexeme.tokens lexer (if digit c then .number w else .word w) =
      runTokens w := by
    split <;> rfl
  rw [htokens]
  refine mysqlTokens_run hrun ?_
  rw [ht] at hend
  cases t with
  | nil => rfl
  | cons d t => simpa using hend

omit [Unicode] in
theorem startsDashComment_append {t context : Text}
    (h : mysqlDashes (c :: (t ++ context)) = false) : startsDashComment true (c :: t) = false := by
  unfold startsDashComment
  split
  · rename_i rest heq
    cases heq
    simp only [if_true]
    split
    · rfl
    · exact h
  · rfl

theorem Sees.plain (h : Sees lexer inside text read) (hc : c ∉ ['\'', '"', '`', '#'])
    (hdash : mysqlDashes (c :: text) = false) (hopen : c = '/' → text.head? ≠ some '*')
    (hword : identifierCharacter c = false) :
    Sees lexer inside (c :: text) ((MysqlLexeme.other c).andThen read) := by
  refine h.cons (u := [c]) fun t ht => mysqlTokens_plain hc ?_ ?_ ?_
  · rw [ht] at hdash
    exact startsDashComment_append hdash
  · rintro rfl hstar
    obtain ⟨u, rfl⟩ := List.head?_eq_some_iff.1 hstar
    exact hopen rfl (by rw [ht]; rfl)
  · cases hkey : asciiKeywordCharacter c with
    | false => rfl
    | true => rw [identifierCharacter_of_keyword hkey] at hword; cases hword

theorem Sees.comment {comment behind : Text} (h : Sees lexer inside behind read)
    (hcut : Scan.cut ['*', '/'] text = some (comment, behind)) :
    Sees lexer inside ('/' :: '*' :: text) ((MysqlLexeme.comment comment true).andThen read) := by
  have htext := Scan.cut_eq hcut
  rw [show '/' :: '*' :: text = ('/' :: '*' :: (comment ++ ['*', '/'])) ++ behind by rw [htext]; rfl]
  refine h.cons fun t ht => ?_
  have hshort : Scan.cut ['*', '/'] (comment ++ ['*', '/'] ++ t ++ read.2) =
      some (comment, t ++ read.2) := by
    rw [List.append_assoc _ t, ← ht, ← htext, hcut]
  exact mysqlTokens_comment (Scan.cut_append hshort)

/-- The tokens of an executable comment's body are those of its content behind the version. -/
theorem mysqlTokens_executableBody {body : Text} (hmark : mark = ['!'] ∨ mark = ['M', '!']) :
    ((mysqlExecutableComment true (mark ++ body)).map (mysqlTokens lexer)).getD [] =
      mysqlTokens lexer body := by
  have htrim : mysqlTokens lexer (((body.dropWhile trimmed).dropWhile digit).dropWhile trimmed) =
      mysqlTokens lexer body := by
    rw [mysqlTokens_dropWhile fun _ => .inl, mysqlTokens_dropWhile fun _ => .inr,
      mysqlTokens_dropWhile fun _ => .inl]
  rcases hmark with rfl | rfl <;> exact htrim

omit [Unicode] in
theorem cut_mark {body : Text} (hmark : mark = ['!'] ∨ mark = ['M', '!'])
    (h : Scan.cut ['*', '/'] text = some (body, rest)) :
    Scan.cut ['*', '/'] (mark ++ text) = some (mark ++ body, rest) := by
  have hcons : ∀ c (text body), c ≠ '*' → Scan.cut ['*', '/'] text = some (body, rest) →
      Scan.cut ['*', '/'] (c :: text) = some (c :: body, rest) := by
    intro c text body hc h
    rw [Scan.cut_cons_later, h]
    · rfl
    · rw [List.cons_prefix_cons]
      exact fun hp => hc hp.1.symm
  rcases hmark with rfl | rfl
  · exact hcons _ _ _ (by decide) h
  · exact hcons _ _ _ (by decide) (hcons _ _ _ (by decide) h)

theorem Sees.executable {raw behind : Text} {ls : List MysqlLexeme}
    {more : List MysqlLexeme × Text} (hmark : mark = ['!'] ∨ mark = ['M', '!'])
    (hcontent : Sees lexer true (raw.dropWhile digit) (ls, '*' :: '/' :: behind))
    (hmore : Sees lexer inside behind more)
    (hin : (Scan.cut ['*', '/'] raw).map Prod.snd = some behind) :
    Sees lexer inside ('/' :: '*' :: (mark ++ raw))
      (.executable raw (some behind) :: ls ++ more.1, more.2) := by
  obtain ⟨⟨body, right⟩, hcut, hright⟩ := Option.map_eq_some_iff.1 hin
  obtain rfl : right = behind := hright
  obtain ⟨t1, ht1, heq1⟩ := hcontent.tokens
  obtain ⟨t2, ht2, heq2⟩ := hmore.tokens
  have hraw := Scan.cut_eq hcut
  -- Both readings end the content in front of the same `*/`.
  have hbody : body = raw.takeWhile digit ++ t1 := by
    have hsame : body ++ (['*', '/'] ++ right) =
        (raw.takeWhile digit ++ t1) ++ (['*', '/'] ++ right) := by
      rw [← List.append_assoc body, ← hraw, List.append_assoc]
      exact (List.takeWhile_append_dropWhile).symm.trans (by rw [ht1]; rfl)
    exact List.append_cancel_right hsame
  have htokens : mysqlTokens lexer body = mysqlTokens lexer t1 := by
    rw [← mysqlTokens_dropWhile (fun _ => .inr) body, hbody,
      List.dropWhile_append_of_pos fun _ => List.mem_takeWhile_imp,
      mysqlTokens_dropWhile fun _ => .inr]
  have hshort : Scan.cut ['*', '/'] (body ++ ['*', '/'] ++ t2 ++ more.2) =
      some (body, t2 ++ more.2) := by
    rw [List.append_assoc _ t2, ← ht2, ← hraw, hcut]
  refine ⟨⟨'/' :: '*' :: (mark ++ (body ++ ['*', '/'] ++ t2)), ?_, ?_⟩, hmore.stops⟩
  · rw [hraw, ht2]
    simp
  rw [mysqlTokens_comment (cut_mark hmark (Scan.cut_append hshort)),
    mysqlTokens_executableBody hmark, htokens, heq1, heq2, List.cons_append, List.flatMap_cons,
    List.flatMap_append]
  rfl

omit [Unicode] in
theorem executableText_eq {raw : Text} (h : executableText text = some raw) :
    ∃ mark, (mark = ['!'] ∨ mark = ['M', '!']) ∧ text = mark ++ raw := by
  unfold executableText at h
  split at h <;> cases h
  · exact ⟨_, .inl rfl, rfl⟩
  · exact ⟨_, .inr rfl, rfl⟩

/-- A comment: its content is read like the text behind it, if it is executable. -/
theorem Sees.blockComment {fuel : Nat} (hlen : text.length < fuel)
    (ih : ∀ {inside : Bool} {next : Text}, next <:+ text →
      (∀ l ∈ (mysqlRead escapes fuel inside next).1, l.InStep escapes lexer) →
      Sees lexer inside next (mysqlRead escapes fuel inside next))
    (hstep : ∀ l ∈ (mysqlRead escapes (fuel + 1) inside ('/' :: '*' :: text)).1, l.InStep escapes lexer) :
    Sees lexer inside ('/' :: '*' :: text) (mysqlRead escapes (fuel + 1) inside ('/' :: '*' :: text)) := by
  have hread : mysqlRead escapes (fuel + 1) inside ('/' :: '*' :: text) =
      match executableText text with
      | some raw =>
        let content := mysqlRead escapes fuel true (raw.dropWhile digit)
        match content.2 with
        | [] => (.executable raw none :: content.1, [])
        | _ =>
          let more := mysqlRead escapes fuel inside (content.2.drop 2)
          (.executable raw (some (content.2.drop 2)) :: content.1 ++ more.1, more.2)
      | none =>
        match Scan.cut ['*', '/'] text with
        | some (content, behind) =>
          (MysqlLexeme.comment content true).andThen (mysqlRead escapes fuel inside behind)
        | none => ([.comment text false], []) := by
    rw [mysqlRead]
    simp [mysqlDashes]
  rw [hread] at hstep ⊢
  cases hraw : executableText text with
  | some raw =>
    rw [hraw] at hstep
    obtain ⟨mark, hmark, rfl⟩ := executableText_eq hraw
    have hsuffix : raw.dropWhile digit <:+ mark ++ raw :=
      (List.dropWhile_suffix _).trans (List.suffix_append mark raw)
    have hcontent := @ih true _ hsuffix
    dsimp only at hstep ⊢
    generalize mysqlRead escapes fuel true (raw.dropWhile digit) = content at hstep hcontent ⊢
    obtain ⟨ls, stop⟩ := content
    cases stop with
    | nil =>
      have hopened : none.isSome = true := (hstep _ (.head _)).1
      cases hopened
    | cons d stop =>
      have hcontent := hcontent fun l hl => hstep l (.tail _ (List.mem_append_left _ hl))
      rcases hcontent.stops with hnil | ⟨-, behind, hstop⟩
      · cases hnil
      cases hstop
      obtain ⟨t, ht, -⟩ := hcontent.tokens
      have hbehind : behind <:+ raw.dropWhile digit := by
        rw [ht]
        exact ((List.suffix_cons _ _).trans (List.suffix_cons _ _)).trans (List.suffix_append t _)
      exact .executable hmark hcontent (ih (hbehind.trans hsuffix)
        fun l hl => hstep l (.tail _ (List.mem_append_right _ hl))) (hstep _ (.head _)).2
  | none =>
    rw [hraw] at hstep
    cases hcut : Scan.cut ['*', '/'] text with
    | some part =>
      obtain ⟨comment, behind⟩ := part
      rw [hcut] at hstep
      refine .comment (ih ?_ fun l hl => hstep l (.tail _ hl)) hcut
      rw [Scan.cut_eq hcut]
      exact List.suffix_append _ behind
    | none => exact ⟨⟨_, (List.append_nil _).symm, mysqlTokens_openComment hcut⟩, .inl rfl⟩

/-- The server's reading and the keyword lexer, in step from the first lexeme to the last. -/
theorem mysqlRead_sees {fuel : Nat} (hfuel : text.length < fuel)
    (hstep : ∀ l ∈ (mysqlRead escapes fuel inside text).1, l.InStep escapes lexer) :
    Sees lexer inside text (mysqlRead escapes fuel inside text) := by
  induction fuel generalizing inside text with
  | zero => omega
  | succ fuel ih =>
    cases text with
    | nil => exact ⟨⟨[], rfl, rfl⟩, .inl rfl⟩
    | cons c rest =>
      have hlen : rest.length < fuel := by simpa using hfuel
      have hnext : ∀ {inside : Bool} {next : Text}, next <:+ rest →
          (∀ l ∈ (mysqlRead escapes fuel inside next).1, l.InStep escapes lexer) →
          Sees lexer inside next (mysqlRead escapes fuel inside next) :=
        fun hsuffix => ih (hsuffix.length_le.trans_lt hlen)
      by_cases hcomment : c = '/' ∧ rest.head? = some '*'
      · obtain ⟨rfl, hstar⟩ := hcomment
        obtain ⟨text, rfl⟩ := List.head?_eq_some_iff.1 hstar
        exact .blockComment (by simp at hlen; omega) (fun h => hnext (h.trans (List.suffix_cons _ _))) hstep
      have htail {l : MysqlLexeme} {more : List MysqlLexeme × Text}
          (h : ∀ m ∈ (l.andThen more).1, m.InStep escapes lexer) : ∀ m ∈ more.1, m.InStep escapes lexer :=
        fun m hm => h m (.tail _ hm)
      unfold mysqlRead at hstep ⊢
      by_cases hend : (inside && c = '*' && rest.head? = some '/') = true
      · -- The `*/` that ends the executable comment.
        rw [if_pos hend]
        simp only [Bool.and_eq_true, decide_eq_true_eq] at hend
        obtain ⟨⟨rfl, rfl⟩, hslash⟩ := hend
        obtain ⟨behind, rfl⟩ := List.head?_eq_some_iff.1 hslash
        exact ⟨⟨[], rfl, rfl⟩, .inr ⟨rfl, behind, rfl⟩⟩
      rw [if_neg hend] at hstep ⊢
      by_cases hquote : (c = '\'' || c = '"') = true
      · rw [if_pos hquote] at hstep ⊢
        exact (hnext (closeQuote_suffix c escapes rest) (htail hstep)).string (by simpa using hquote)
          (hstep _ (.head _))
      rw [if_neg hquote] at hstep ⊢
      by_cases hback : c = '`'
      · rw [if_pos hback] at hstep ⊢
        subst hback
        exact (hnext (closeQuote_suffix '`' false rest) (htail hstep)).identifier (hstep _ (.head _))
      rw [if_neg hback] at hstep ⊢
      by_cases hhash : c = '#'
      · rw [if_pos hhash] at hstep ⊢
        subst hhash
        exact (hnext (behindLine_suffix rest) (htail hstep)).hash (hstep _ (.head _))
      rw [if_neg hhash] at hstep ⊢
      by_cases hdash : mysqlDashes (c :: rest) = true
      · rw [if_pos hdash] at hstep ⊢
        exact (hnext ((behindLine_suffix _).trans (List.drop_suffix 1 rest)) (htail hstep)).dashes hdash
          (hstep _ (.head _))
      rw [if_neg hdash, if_neg (by simpa using hcomment)] at hstep ⊢
      by_cases hname : identifierCharacter c = true
      · rw [if_pos hname] at hstep ⊢
        refine .run (hnext ?_ (htail hstep))
        rw [List.dropWhile_cons, if_pos hname]
        exact List.dropWhile_suffix _
      · rw [if_neg hname] at hstep ⊢
        simp only [Bool.or_eq_true, decide_eq_true_eq, not_or] at hquote
        exact (hnext List.suffix_rfl (htail hstep)).plain (by simp [hquote.1, hquote.2, hback, hhash])
          (by simpa using hdash) (fun h => (not_and.1 hcomment) h) (by simpa using hname)

theorem mysqlLexemes_tokens {statement : Text}
    (hstep : ∀ l ∈ mysqlLexemes escapes statement, l.InStep escapes lexer) :
    mysqlTokens lexer statement =
      (mysqlLexemes escapes statement).flatMap (MysqlLexeme.tokens lexer) := by
  have hsees := mysqlRead_sees (Nat.lt_succ_self statement.length) hstep
  obtain ⟨t, ht, heq⟩ := hsees.tokens
  have hend : (mysqlRead escapes (statement.length + 1) false statement).2 = [] := by
    rcases hsees.stops with hnil | ⟨hinside, -⟩
    · exact hnil
    · cases hinside
  rw [hend, List.append_nil] at ht
  rw [ht] at heq ⊢
  exact heq

/-- No keyword of a MySQL or MariaDB statement is hidden, where the lexemes are read in step.

For every statement and both settings of `NO_BACKSLASH_ESCAPES`: if the keyword lexer ends, in one of
its two readings, each string, backtick identifier, line comment and executable comment where the server
does, then the words that begin as a keyword does are, in upper case, a subsequence of the tokens; and
so are all words, if none begins with another character. -/
theorem mysql_words_visible {statement dialect : Text} {noBackslashEscapes : Bool} (lexer : Bool)
    (hdialect : mysqlDialect dialect = true)
    (hstep : ∀ l ∈ mysqlLexemes (!noBackslashEscapes) statement, l.InStep (!noBackslashEscapes) lexer) :
    (((mysqlWords noBackslashEscapes statement).filter startsAsKeyword).map token).Sublist
        (sqlKeywordTokens statement dialect) ∧
      ((∀ w ∈ mysqlWords noBackslashEscapes statement, startsAsKeyword w = true) →
        ((mysqlWords noBackslashEscapes statement).map token).Sublist
          (sqlKeywordTokens statement dialect)) := by
  have hall : (((mysqlWords noBackslashEscapes statement).filter startsAsKeyword).map token).Sublist
      (sqlKeywordTokens statement dialect) := by
    refine .trans ?_
      (sqlKeywordTokensWithEscapes_sublist statement dialect lexer)
    have htokens := mysqlLexemes_tokens hstep
    rw [mysqlTokens] at htokens
    rw [sqlKeywordTokensWithEscapes, hdialect, htokens]
    refine keywords_sublist_tokens (fun l w h => ?_) _
    cases l <;> cases h
    rfl
  refine ⟨hall, fun hwords => ?_⟩
  rwa [List.filter_eq_self.2 hwords] at hall

end Tokens

/-- A definer that ends in a backslash, which only the reading without escapes has in step. -/
theorem mysql_words_visible_view :
    letI := Go.asciiTables
    ((mysqlWords false "/*!50001 CREATE DEFINER=`a\\` VIEW v */ # x\n".toList).map token).Sublist
      (sqlKeywordTokens "/*!50001 CREATE DEFINER=`a\\` VIEW v */ # x\n".toList "mysql".toList) := by
  let _ := Go.asciiTables
  exact (mysql_words_visible false (by decide +kernel) (by decide +kernel)).2 (by decide +kernel)

/-- A server reads the word `w` in the statement and the keyword lexer does not, so that the
server's words are no subsequence of the tokens. -/
def mysqlHidden [Unicode] (w statement : String) : Prop :=
  w.toList ∈ mysqlWords false statement.toList ∧
    w ∉ sqlKeywordTokens statement.toList "mysql".toList ∧
    ¬ ((mysqlWords false statement.toList).map token).Sublist
      (sqlKeywordTokens statement.toList "mysql".toList)

instance [Unicode] (w statement : String) : Decidable (mysqlHidden w statement) :=
  inferInstanceAs (Decidable (_ ∧ _ ∧ _))

/-- A backtick identifier with a backslash in front of its closing backtick, behind a string that
only the reading with escapes ends correctly; a carriage return in a comment; a `*/` in a string of
an executable comment; and a name that begins with a character outside ASCII. -/
theorem mysql_words_hidden :
    letI := Go.asciiTables
    mysqlHidden "DROP" "SELECT 'it\\'s', `a\\`; DROP TABLE t" ∧
      mysqlHidden "DROP" "# it\r's\nDROP TABLE t" ∧
      mysqlHidden "DROP" "/*! SELECT '*/' */; DROP TABLE t" ∧
      mysqlHidden "表A" "ALTER TABLE 表A" := by
  decide +kernel

end Ptah.DataPlane
