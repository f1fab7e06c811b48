import PtahOperator.DataPlane.SqlTokens

/-!
# The lexer's tokens, lexeme by lexeme

What a server's lexer and `sqlKeywordTokens` have in common: the end of a quoted text, and the
tokens that the loop makes of each kind of lexeme.

* `closeQuote`: where a server ends a quoted text.
* `Cursor.turn_rebase`: how far a turn of the loop looks back.
* `Cursor.tokens_string`, `Cursor.tokens_run`, `Cursor.tokens_plain`: the loop passes a string, a run
  of identifier characters and any other character.
-/

namespace Ptah.DataPlane

open Go (Text Unicode)

variable {quote : Char} {escapes mysql : Bool} {before : List Char} {text rest : Text}

/-! ## Quoted texts -/

/-- A server's reading of a quoted text, from behind the opening quote: a doubled quote stands for
itself, a backslash escapes a character where `escapes` says so, and what is left is the text behind
the closing quote. -/
def closeQuote (quote : Char) (escapes : Bool) : Text → Text
  | [] => []
  | [_] => []
  | c :: d :: rest =>
    if c = '\\' && escapes then closeQuote quote escapes rest
    else if c = quote && d = quote then closeQuote quote escapes rest
    else if c = quote then d :: rest
    else closeQuote quote escapes (d :: rest)

theorem skipSQLQuoted_eq_closeQuote (quote : Char) (escapes : Bool) (text : Text) :
    skipSQLQuoted quote escapes text = closeQuote quote escapes text := by
  fun_induction closeQuote quote escapes text with
  | case1 => rfl
  | case2 c => rfl
  | case3 c d rest h ih =>
    rw [skipSQLQuoted, if_pos (by rwa [Bool.and_comm]), ih]
  | case4 c d rest h hd ih =>
    simp only [Bool.and_eq_true, decide_eq_true_eq] at hd
    rw [skipSQLQuoted, if_neg (by rwa [Bool.and_comm]), if_neg (by simp [hd.1]), if_pos hd.2, ih]
  | case5 d rest h hd =>
    simp only [decide_true, Bool.true_and, decide_eq_true_eq] at hd
    rw [skipSQLQuoted, if_neg (by rwa [Bool.and_comm]), if_neg (by simp), if_neg hd]
  | case6 c d rest h hd hc ih =>
    rw [skipSQLQuoted, if_neg (by rwa [Bool.and_comm]), if_pos hc, ih]

theorem closeQuote_suffix (quote : Char) (escapes : Bool) (text : Text) :
    closeQuote quote escapes text <:+ text := by
  rw [← skipSQLQuoted_eq_closeQuote]
  exact skipSQLQuoted_suffix quote escapes text

theorem closeQuote_cons_length (quote : Char) (escapes : Bool) (c : Char) (text : Text) :
    (closeQuote quote escapes (c :: text)).length ≤ text.length := by
  cases text with
  | nil => simp [closeQuote]
  | cons d rest =>
    have hrest := (closeQuote_suffix quote escapes rest).length_le
    have hnext := (closeQuote_suffix quote escapes (d :: rest)).length_le
    unfold closeQuote
    split
    · simp only [List.length_cons]
      omega
    split
    · simp only [List.length_cons]
      omega
    · split
      · exact Nat.le_refl _
      · exact hnext

theorem closeQuote_append {context u v : Text}
    (h : closeQuote quote escapes (u ++ context) = v ++ context) :
    closeQuote quote escapes u = v := by
  have hlen := congrArg List.length h
  rw [List.length_append] at hlen
  fun_induction closeQuote quote escapes u with
  | case1 =>
    have := (closeQuote_suffix quote escapes context).length_le
    rw [List.nil_append] at hlen
    exact (List.length_eq_zero_iff.1 (by omega)).symm
  | case2 c =>
    have := closeQuote_cons_length quote escapes c context
    rw [List.cons_append, List.nil_append] at hlen
    exact (List.length_eq_zero_iff.1 (by omega)).symm
  | case3 c d rest hc ih =>
    rw [List.cons_append, List.cons_append, closeQuote, if_pos hc] at h
    exact ih h (by rw [h, List.length_append])
  | case4 c d rest hc hd ih =>
    rw [List.cons_append, List.cons_append, closeQuote, if_neg hc, if_pos hd] at h
    exact ih h (by rw [h, List.length_append])
  | case5 d rest hc hd =>
    rw [List.cons_append, List.cons_append, closeQuote, if_neg hc, if_neg hd, if_pos rfl] at h
    exact List.append_cancel_right h
  | case6 c d rest hc hd hq ih =>
    rw [List.cons_append, List.cons_append, closeQuote, if_neg hc, if_neg hd, if_neg hq] at h
    exact ih h (by rw [List.cons_append, h, List.length_append])

/-! ## The tokens of a lexeme -/

theorem Cursor.to_append (before : List Char) (u rest : Text) :
    Cursor.to ⟨before, u ++ rest⟩ rest = ⟨u.reverse ++ before, rest⟩ := by
  simp [Cursor.to]

theorem Cursor.to_cons (before : List Char) (c : Char) (rest : Text) :
    Cursor.to ⟨before, c :: rest⟩ rest = ⟨c :: before, rest⟩ :=
  Cursor.to_append before [c] rest

theorem Cursor.to_to {c : Cursor} {line rest : Text} (hline : line <:+ c.rest)
    (hrest : rest <:+ line) : (c.to line).to rest = c.to rest := by
  obtain ⟨before, text⟩ := c
  obtain ⟨u, rfl⟩ := hline
  obtain ⟨v, rfl⟩ := hrest
  have hlong := Cursor.to_append before (u ++ v) rest
  rw [List.append_assoc] at hlong
  rw [Cursor.to_append, Cursor.to_append, hlong, List.reverse_append, List.append_assoc]

/-- The turn at another position with the same text from there on. -/
def Turn.rebase (c : Cursor) : Turn → Turn
  | .stop => .stop
  | .skip next => .skip (c.to next.rest)
  | .word w next => .word w (c.to next.rest)
  | .boundary next => .boundary (c.to next.rest)
  | .body text next => .body text (c.to next.rest)
  | .executable text next => .executable text (c.to next.rest)

theorem Cursor.dollarQuoted_rebase (c c' : Cursor) (tag text : Text) :
    c'.dollarQuoted tag text = (c.dollarQuoted tag text).rebase c' := by
  unfold Cursor.dollarQuoted
  cases Scan.cut tag text <;> rfl

theorem Cursor.blockComment_rebase {c c' : Cursor} (hrest : c'.rest = c.rest) (mysql : Bool) (text : Text) :
    c'.blockComment mysql text = (c.blockComment mysql text).rebase c' := by
  unfold Cursor.blockComment
  rw [hrest]
  cases mysql with
  | true =>
    simp only [if_true]
    split
    · split <;> rfl
    · rfl
  | false =>
    simp only [Bool.false_eq_true, if_false]
    split <;> rfl

/-- A turn looks back for two things only, and for neither in MySQL: whether a quote opens an escape
string, and whether a dollar sign opens a delimiter. -/
theorem Cursor.turn_rebase {before' : List Char}
    (hquote : mysql = false → text.head? = some '\'' →
      Cursor.escapeStringPrefix ⟨before', text⟩ = Cursor.escapeStringPrefix ⟨before, text⟩)
    (htag : mysql = false →
      Cursor.dollarQuoteTag ⟨before', text⟩ = Cursor.dollarQuoteTag ⟨before, text⟩) :
    Cursor.turn mysql escapes ⟨before', text⟩ =
      (Cursor.turn mysql escapes ⟨before, text⟩).rebase ⟨before', text⟩ := by
  cases text with
  | nil => rfl
  | cons b rest =>
    have htag : (if mysql then none else Cursor.dollarQuoteTag ⟨before', b :: rest⟩) =
        if mysql then none else Cursor.dollarQuoteTag ⟨before, b :: rest⟩ := by
      cases mysql with
      | true => rfl
      | false => exact htag rfl
    simp only [Cursor.turn, htag]
    by_cases hb : b = '\''
    · have hescapes : (!mysql && Cursor.escapeStringPrefix ⟨before', b :: rest⟩) =
          (!mysql && Cursor.escapeStringPrefix ⟨before, b :: rest⟩) := by
        cases mysql with
        | true => rfl
        | false => rw [hquote rfl (by rw [hb]; rfl)]
      simp only [if_pos hb, hescapes]
      rfl
    simp only [if_neg hb, apply_ite (Turn.rebase _)]
    cases (if mysql then none else Cursor.dollarQuoteTag ⟨before, b :: rest⟩) with
    | some quoted =>
      simp only [Cursor.dollarQuoted_rebase ⟨before, b :: rest⟩ ⟨before', b :: rest⟩]
      rfl
    | none =>
      simp only [@Cursor.blockComment_rebase ⟨before, b :: rest⟩ ⟨before', b :: rest⟩ rfl,
        apply_ite (Turn.rebase _)]
      rfl

variable [Unicode]

@[simp] theorem Cursor.tokens_nil : Cursor.tokens mysql escapes ⟨before, []⟩ = [] := rfl

theorem Cursor.tokens_skip {c next : Cursor} (h : c.turn mysql escapes = .skip next) :
    c.tokens mysql escapes = next.tokens mysql escapes := by
  rw [Cursor.tokens_eq, h, Turn.emit]

theorem Cursor.tokens_string : Cursor.tokens mysql escapes ⟨before, '\'' :: text⟩ =
      (Cursor.to ⟨before, '\'' :: text⟩ (closeQuote '\'' (escapes ||
        !mysql && Cursor.escapeStringPrefix ⟨before, '\'' :: text⟩) text)).tokens mysql escapes := by
  refine Cursor.tokens_skip ?_
  simp [Cursor.turn, skipSQLQuoted_eq_closeQuote]

theorem Cursor.tokens_doubleQuoted : Cursor.tokens mysql escapes ⟨before, '"' :: text⟩ =
      (Cursor.to ⟨before, '"' :: text⟩ (closeQuote '"' (escapes && mysql) text)).tokens
        mysql escapes := by
  refine Cursor.tokens_skip ?_
  simp [Cursor.turn, skipSQLQuoted_eq_closeQuote]

theorem Cursor.tokens_dashes (h : startsDashComment mysql ('-' :: '-' :: text) = true) :
    Cursor.tokens mysql escapes ⟨before, '-' :: '-' :: text⟩ =
      (Cursor.to ⟨before, '-' :: '-' :: text⟩ (skipSQLLineComment text)).tokens mysql escapes := by
  refine Cursor.tokens_skip ?_
  simp [Cursor.turn, h]

theorem Cursor.tokens_comment : Cursor.tokens mysql escapes ⟨before, '/' :: '*' :: text⟩ =
      (Cursor.blockComment ⟨before, '/' :: '*' :: text⟩ mysql text).emit
        (Cursor.tokens mysql escapes) := by
  rw [Cursor.tokens_eq]
  simp [Cursor.turn, startsDashComment, Cursor.dollarQuoteTag]

theorem Cursor.tokens_dollarQuoted {c : Cursor} {tag inner : Text}
    (h : c.dollarQuoteTag = some (tag, inner)) :
    c.tokens false escapes = (c.dollarQuoted tag inner).emit (Cursor.tokens false escapes) := by
  obtain ⟨before, rest⟩ := c
  obtain ⟨text, rfl⟩ : ∃ text, rest = '$' :: text := by
    unfold Cursor.dollarQuoteTag at h
    split at h
    · rename_i text heq
      exact ⟨text, heq⟩
    · cases h
  rw [Cursor.tokens_eq]
  simp [Cursor.turn, startsDashComment, h]

def boundary (c : Char) : List String := if c = ';' then [statementBoundary] else []

variable {c : Char} {w : Text}

/-- A character that opens nothing and begins no word. -/
theorem Cursor.tokens_plain (hquote : c ≠ '\'') (hdouble : c ≠ '"')
    (hmysql : mysql = true → c ≠ '`' ∧ c ≠ '#')
    (hdash : startsDashComment mysql (c :: text) = false)
    (hdollar : mysql = false → Cursor.dollarQuoteTag ⟨before, c :: text⟩ = none)
    (hopen : c = '/' → text.head? ≠ some '*') (hword : asciiKeywordCharacter c = false) :
    Cursor.tokens mysql escapes ⟨before, c :: text⟩ =
      boundary c ++ Cursor.tokens mysql escapes ⟨c :: before, text⟩ := by
  have hback : (decide (c = '`') && mysql) = false := by
    cases mysql with
    | false => simp
    | true => simp [(hmysql rfl).1]
  have hhash : (mysql && decide (c = '#')) = false := by
    cases mysql with
    | false => simp
    | true => simp [(hmysql rfl).2]
  have htag : (if mysql = true then none else Cursor.dollarQuoteTag ⟨before, c :: text⟩) = none := by
    cases mysql with
    | false => simpa using hdollar rfl
    | true => rfl
  have hstar : (decide (c = '/') && decide (text.head? = some '*')) = false := by
    by_cases hc : c = '/'
    · simp [hopen hc]
    · simp [hc]
  rw [Cursor.tokens_eq]
  by_cases hsemi : c = ';'
  · simp [Cursor.turn, boundary, hsemi, Turn.emit, Cursor.to_cons]
  · simp only [Cursor.turn, hquote, hdouble, hback, hsemi, hhash, hdash, htag, hstar, hword,
      if_false, Bool.false_eq_true, boundary, List.nil_append, Cursor.to_cons, Turn.emit]

/-! ## Runs of identifier characters -/

/-- The tokens of a run of identifier characters: the part from its first letter or underscore
on. -/
def runTokens (w : Text) : List String :=
  match w.dropWhile (!asciiKeywordCharacter ·) with
  | [] => []
  | c :: w => [token (c :: w)]

theorem runTokens_of_keyword (h : asciiKeywordCharacter c = true) :
    runTokens (c :: w) = [token (c :: w)] := by
  simp [runTokens, h]

theorem runTokens_cons (h : asciiKeywordCharacter c = false) :
    runTokens (c :: w) = runTokens w := by
  simp [runTokens, h]

/-- The word begins as a keyword does, with an ASCII letter or an underscore. -/
def startsAsKeyword (w : Text) : Bool := w.head?.any asciiKeywordCharacter

theorem runTokens_of_startsAsKeyword (h : startsAsKeyword w = true) : runTokens w = [token w] := by
  cases w with
  | nil => cases h
  | cons c w => exact runTokens_of_keyword (by simpa [startsAsKeyword] using h)

theorem keywords_sublist_tokens {α : Type} {word? : α → Option Text} {tokens : α → List String}
    (h : ∀ l w, word? l = some w → tokens l = runTokens w) (ls : List α) :
    (((ls.filterMap word?).filter startsAsKeyword).map token).Sublist (ls.flatMap tokens) := by
  induction ls with
  | nil => exact .refl _
  | cons l ls ih =>
    rw [List.flatMap_cons]
    cases hword : word? l with
    | none =>
      rw [List.filterMap_cons_none hword]
      exact ih.trans (List.sublist_append_right _ _)
    | some w =>
      rw [List.filterMap_cons_some hword, h l w hword]
      cases hkey : startsAsKeyword w with
      | false =>
        rw [List.filter_cons_of_neg (by simp [hkey])]
        exact ih.trans (List.sublist_append_right _ _)
      | true =>
        rw [List.filter_cons_of_pos hkey, runTokens_of_startsAsKeyword hkey]
        exact ih.cons_cons _

omit [Unicode] in
theorem takeWhile_run {p : Char → Bool} {rest : Text} (hw : ∀ c ∈ w, p c = true)
    (hrest : rest.head?.any p = false) :
    (w ++ rest).takeWhile p = w ∧ (w ++ rest).dropWhile p = rest := by
  rw [List.takeWhile_append_of_pos hw, List.dropWhile_append_of_pos hw]
  cases rest with
  | nil => simp
  | cons c rest =>
    have hc : p c = false := by simpa using hrest
    simp [hc]

omit [Unicode] in
/-- The run of identifier characters at the head of a text, and the text behind it. -/
theorem run_split (text : Text) :
    text.takeWhile identifierCharacter ++ text.dropWhile identifierCharacter = text ∧
      (∀ d ∈ text.takeWhile identifierCharacter, identifierCharacter d = true) ∧
      (text.dropWhile identifierCharacter).head?.any identifierCharacter = false := by
  refine ⟨List.takeWhile_append_dropWhile, fun d hd => List.mem_takeWhile_imp hd, ?_⟩
  have hhead := List.head?_dropWhile_not identifierCharacter text
  cases hdrop : text.dropWhile identifierCharacter with
  | nil => rfl
  | cons d rest => simpa [hdrop] using hhead

theorem Cursor.tokens_word {rest : Text} (hc : asciiKeywordCharacter c = true)
    (hw : ∀ d ∈ w, identifierCharacter d = true) (hrest : rest.head?.any identifierCharacter = false) :
    Cursor.tokens mysql escapes ⟨before, c :: w ++ rest⟩ =
      token (c :: w) :: Cursor.tokens mysql escapes ⟨(c :: w).reverse ++ before, rest⟩ := by
  have hall : ∀ d ∈ c :: w, identifierCharacter d = true := by
    intro d hd
    rcases hd with _ | ⟨_, hd⟩
    · exact identifierCharacter_of_keyword hc
    · exact hw d hd
  obtain ⟨htake, hdrop⟩ := takeWhile_run hall hrest
  have hne : ∀ d : Char, asciiKeywordCharacter d = false → c ≠ d := by
    rintro d hd rfl
    rw [hc] at hd
    cases hd
  have hdash : startsDashComment mysql (c :: (w ++ rest)) = false := by
    unfold startsDashComment
    split
    · rename_i heq
      exact absurd (List.cons.inj heq).1 (hne '-' (by decide))
    · rfl
  have htag : Cursor.dollarQuoteTag ⟨before, c :: (w ++ rest)⟩ = none := by
    unfold Cursor.dollarQuoteTag
    split
    · rename_i heq
      exact absurd (List.cons.inj heq).1 (hne '$' (by decide))
    · rfl
  rw [Cursor.tokens_eq]
  rw [List.cons_append] at htake hdrop ⊢
  simp only [Cursor.turn, hne '\'' (by decide), hne '"' (by decide), hne '`' (by decide),
    hne ';' (by decide), hne '#' (by decide), hne '/' (by decide), hdash, htag, hc, htake, hdrop,
    if_false, if_true, Bool.false_eq_true, decide_false, Bool.false_and, Bool.and_false, ite_self,
    Turn.emit]
  rw [← List.cons_append, Cursor.to_append]

/-- A run of identifier characters. A dollar sign at its head opens nothing in MySQL, nor behind
another identifier character. -/
theorem Cursor.tokens_run {rest : Text} (hw : ∀ d ∈ w, identifierCharacter d = true)
    (hrest : rest.head?.any identifierCharacter = false)
    (hdollar : mysql = false → w.head? = some '$' → before.head?.any identifierCharacter = true) :
    Cursor.tokens mysql escapes ⟨before, w ++ rest⟩ =
      runTokens w ++ Cursor.tokens mysql escapes ⟨w.reverse ++ before, rest⟩ := by
  induction w generalizing before with
  | nil => rfl
  | cons c w ih =>
    have hw' : ∀ d ∈ w, identifierCharacter d = true := fun d hd => hw d (List.mem_cons_of_mem c hd)
    have hc := hw c (.head _)
    cases hkey : asciiKeywordCharacter c with
    | true => rw [runTokens_of_keyword hkey, Cursor.tokens_word hkey hw' hrest]; rfl
    | false =>
      have hne : ∀ d : Char, identifierCharacter d = false → c ≠ d := by
        rintro d hd rfl
        rw [hc] at hd
        cases hd
      have hdash : startsDashComment mysql (c :: (w ++ rest)) = false := by
        unfold startsDashComment
        split
        · rename_i heq
          exact absurd (List.cons.inj heq).1 (hne '-' (by decide))
        · rfl
      have htag : mysql = false → Cursor.dollarQuoteTag ⟨before, c :: (w ++ rest)⟩ = none := by
        intro hm
        unfold Cursor.dollarQuoteTag
        split
        · rename_i heq
          rw [if_pos (hdollar hm (by rw [(List.cons.inj heq).1]; rfl))]
        · rfl
      rw [runTokens_cons hkey, List.cons_append, Cursor.tokens_plain (hne '\'' (by decide))
        (hne '"' (by decide)) (fun _ => ⟨hne '`' (by decide), hne '#' (by decide)⟩) hdash htag
        (fun h => absurd h (hne '/' (by decide))) hkey,
        boundary, if_neg (hne ';' (by decide)), List.nil_append,
        ih hw' fun _ _ => by simpa using hc]
      simp

end Ptah.DataPlane
