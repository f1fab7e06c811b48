import PtahOperator.DataPlane.MysqlReading

/-!
# Statements put together

What the keyword lexer makes of a statement that is put together from two texts
(`sqlKeywordTokensWithEscapes`).

* `endsOutside`: a reading of a text ends outside any quote, comment or dollar-quoted body.
* `Cursor.tokens_context`: such a text is read the same in front of a semicolon, and in front of a
  dollar sign that its last character does not take in.
* `Cursor.tokens_alike`: the lexer looks back at two characters only, and only for an escape string
  and for a dollar quote.
* `tokens_semicolon`, `tokens_dollarQuoted`: the tokens of the parts, with boundaries between them.
-/

namespace Ptah.DataPlane

open Go (Text Unicode)

/-! ## Where a reading ends -/

def quoteCloses (quote : Char) (escapes : Bool) : Text → Bool
  | [] => false
  | [c] => c = quote
  | c :: d :: rest =>
    if escapes && c = '\\' then quoteCloses quote escapes rest
    else if c ≠ quote then quoteCloses quote escapes (d :: rest)
    else if d = quote then quoteCloses quote escapes rest
    else true

def lineCloses (text : Text) : Bool := text.any fun c => c = '\r' || c = '\n'

/-- What the turn of the loop at a position opens is closed. -/
def Cursor.closes (mysql backslashEscapes : Bool) (c : Cursor) : Bool :=
  match c.rest with
  | [] => true
  | b :: rest =>
    if b = '\'' then
      quoteCloses '\'' (backslashEscapes || !mysql && c.escapeStringPrefix) rest
    else if b = '"' then quoteCloses '"' (backslashEscapes && mysql) rest
    else if b = '`' && mysql then quoteCloses '`' backslashEscapes rest
    else if b = ';' then true
    else if mysql && b = '#' then lineCloses rest
    else if startsDashComment mysql c.rest then lineCloses (rest.drop 1)
    else
      match if mysql then none else c.dollarQuoteTag with
      | some (tag, text) => (Scan.cut tag text).isSome
      | none =>
        if b = '/' && rest.head? = some '*' then
          if mysql then (Scan.cut ['*', '/'] (rest.drop 1)).isSome
          else (skipNestedBlockComment 0 c.rest).isSome
        else true

def Turn.next? : Turn → Option Cursor
  | .stop => none
  | .skip next | .word _ next | .boundary next | .body _ next | .executable _ next => some next

/-- Each turn of the loop closes what it opens. `fuel` bounds the turns. -/
def closesFrom (mysql backslashEscapes : Bool) : (fuel : Nat) → Cursor → Bool
  | 0, _ => false
  | fuel + 1, c =>
    c.closes mysql backslashEscapes &&
      match (c.turn mysql backslashEscapes).next? with
      | none => c.rest.isEmpty
      | some next => closesFrom mysql backslashEscapes fuel next

/-- The reading of a statement ends outside any quote, comment or dollar-quoted body. -/
def endsOutside (statement dialect : Text) (backslashEscapes : Bool) [Unicode] : Bool :=
  closesFrom (mysqlDialect dialect) backslashEscapes (statement.length + 1) { rest := statement }

/-! ## Texts in front of a context -/

variable {rest tag : Text} {first : Bool}

section Context

variable {mysql escapes : Bool} {k : Char} {text more : Text}

theorem skipSQLQuoted_context {quote : Char} (hquote : quote ≠ '\\') (hk : k ≠ quote)
    (h : quoteCloses quote escapes text = true) :
    skipSQLQuoted quote escapes (text ++ k :: more) =
      skipSQLQuoted quote escapes text ++ k :: more := by
  fun_induction quoteCloses quote escapes text with
  | case1 => cases h
  | case2 c =>
    obtain rfl : c = quote := by simpa using h
    simp [skipSQLQuoted, hquote, hk]
  | case3 c d rest hc ih =>
    rw [List.cons_append, List.cons_append, skipSQLQuoted, if_pos hc, ih h, skipSQLQuoted, if_pos hc]
  | case4 c d rest hc hq ih =>
    rw [List.cons_append, List.cons_append, skipSQLQuoted, if_neg hc, if_pos hq, ← List.cons_append,
      ih h, skipSQLQuoted, if_neg hc, if_pos hq]
  | case5 c rest hc hq ih =>
    rw [List.cons_append, List.cons_append, skipSQLQuoted, if_neg hc, if_neg hq, if_pos rfl, ih h,
      skipSQLQuoted, if_neg hc, if_neg hq, if_pos rfl]
  | case6 c d rest hc hq hd =>
    rw [List.cons_append, List.cons_append, skipSQLQuoted, if_neg hc, if_neg hq, if_neg hd,
      skipSQLQuoted, if_neg hc, if_neg hq, if_neg hd, List.cons_append]

theorem skipSQLLineComment_context (hk : k ≠ '\n') (h : lineCloses text = true) :
    skipSQLLineComment (text ++ k :: more) = skipSQLLineComment text ++ k :: more := by
  fun_induction skipSQLLineComment text with
  | case1 => cases h
  | case2 rest => rfl
  | case3 c rest hpair hc =>
    have hnext : ¬ (c = '\r' ∧ (rest ++ k :: more).head? = some '\n') := by
      rintro ⟨rfl, hhead⟩
      cases rest with
      | nil => exact hk (by simpa using hhead)
      | cons d rest =>
        obtain rfl : d = '\n' := by simpa using hhead
        exact hpair rest rfl rfl
    rw [List.cons_append, skipSQLLineComment_cons hnext, if_pos hc]
  | case4 c rest hpair hc ih =>
    have hnext : ¬ (c = '\r' ∧ (rest ++ k :: more).head? = some '\n') := by
      rintro ⟨rfl, _⟩
      exact hc (by simp)
    rw [lineCloses, List.any_cons, Bool.or_eq_true] at h
    rw [List.cons_append, skipSQLLineComment_cons hnext, if_neg hc]
    exact ih (h.resolve_left hc)

theorem skipNestedBlockComment_context {depth : Nat}
    (h : skipNestedBlockComment depth text = some rest) :
    skipNestedBlockComment depth (text ++ more) = some (rest ++ more) := by
  fun_induction skipNestedBlockComment depth text with
  | case1 => cases h
  | case2 depth inner ih => exact ih h
  | case3 depth inner hdepth =>
    cases h
    rw [List.cons_append, List.cons_append, skipNestedBlockComment, if_pos hdepth]
  | case4 depth inner hdepth ih =>
    rw [List.cons_append, List.cons_append, skipNestedBlockComment, if_neg hdepth, ih h]
  | case5 depth c inner hopen hclose ih =>
    cases inner with
    | nil => cases h
    | cons d inner =>
      rw [List.cons_append, skipNestedBlockComment, ih h]
      · rintro rest rfl hrest
        exact hopen inner rfl (by rw [(List.cons.inj hrest).1])
      · rintro rest rfl hrest
        exact hclose inner rfl (by rw [(List.cons.inj hrest).1])

theorem cut_context {found : Text × Text} (h : Scan.cut tag text = some found) :
    Scan.cut tag (text ++ more) = some (found.1, found.2 ++ more) := by
  obtain ⟨left, right⟩ := found
  have htext := Scan.cut_eq h
  rw [htext] at h
  rw [htext, List.append_assoc _ right]
  exact Scan.cut_left h (right ++ more)

/-- A semicolon, or a dollar sign behind a character that is no part of an identifier: the first
character of a context that the text in front of it does not take in. -/
def StandsApart (text : Text) (k : Char) : Prop :=
  k = ';' ∨ k = '$' ∧ text.getLast?.any identifierCharacter = false

theorem StandsApart.ne (h : StandsApart text k) {c : Char} (hsemi : c ≠ ';') (hdollar : c ≠ '$') :
    k ≠ c := by
  rcases h with rfl | ⟨rfl, _⟩
  · exact hsemi.symm
  · exact hdollar.symm

theorem StandsApart.suffix (h : StandsApart text k) (hrest : rest <:+ text)
    (hne : rest ≠ []) : StandsApart rest k := by
  obtain ⟨front, rfl⟩ := hrest
  rcases h with rfl | ⟨rfl, hlast⟩
  · exact .inl rfl
  · refine .inr ⟨rfl, ?_⟩
    rwa [List.getLast?_append_of_ne_nil _ hne] at hlast

/-- The identifier characters that a text ends with do not go on in the context. -/
theorem StandsApart.head_of_last (h : StandsApart text k) {c : Char} (hlast : text.getLast? = some c)
    (hc : identifierCharacter c = true) : identifierCharacter k = false := by
  rcases h with rfl | ⟨rfl, hapart⟩
  · decide
  · rw [hlast, Option.any_some, hc] at hapart
    cases hapart

theorem startsDashComment_context (h : StandsApart text k) (hne : text ≠ []) :
    startsDashComment mysql (text ++ k :: more) = startsDashComment mysql text := by
  have hdash : k ≠ '-' := h.ne (by decide) (by decide)
  have hnext : (decide (k ≤ ' ') || decide (k = '\x7f')) = false := by
    rcases h with rfl | ⟨rfl, _⟩ <;> decide
  cases text with
  | nil => exact absurd rfl hne
  | cons a rest =>
    cases rest with
    | nil => simp [startsDashComment, hdash]
    | cons b rest =>
      by_cases ha : a = '-'
      · by_cases hb : b = '-'
        · subst ha hb
          cases mysql with
          | false => rfl
          | true =>
            cases rest with
            | nil => simpa [startsDashComment] using hnext
            | cons d rest => rfl
        · simp [startsDashComment, hb]
      · simp [startsDashComment, ha]

theorem dollarTag_context {opening : Char} (hopening : identifierCharacter opening = true)
    (h : StandsApart (opening :: text) k) :
    dollarTag first (text ++ k :: more) =
      (dollarTag first text).map fun tag => (tag.1, tag.2 ++ k :: more) := by
  induction text generalizing first opening with
  | nil =>
    have hk := h.head_of_last rfl hopening
    have hsemi : k = ';' := by
      rcases h with rfl | ⟨rfl, _⟩
      · rfl
      · cases hk
    subst hsemi
    cases first <;> rfl
  | cons c text ih =>
    rw [List.cons_append, dollarTag, dollarTag]
    by_cases hdollar : c = '$'
    · rw [if_pos hdollar, if_pos hdollar]
      rfl
    rw [if_neg hdollar, if_neg hdollar]
    by_cases hc : (asciiKeywordCharacter c || decide (0x80 ≤ c.toNat) || digit c && !first) = true
    · rw [if_pos hc, if_pos hc]
      have hident : identifierCharacter c = true := by
        simp only [Bool.or_eq_true, Bool.and_eq_true] at hc
        simp only [identifierCharacter, Bool.or_eq_true]
        rcases hc with (hc | hc) | hc
        · exact .inl (.inl (.inl hc))
        · exact .inr hc
        · exact .inl (.inl (.inr hc.1))
      rw [ih hident (h.suffix (List.suffix_cons opening _) (List.cons_ne_nil c text))]
      simp only [Option.map_map]
      rfl
    · rw [if_neg hc, if_neg hc]
      rfl

theorem dollarQuoteTag_context {before : List Char} (h : StandsApart text k) (hne : text ≠ []) :
    Cursor.dollarQuoteTag ⟨before, text ++ k :: more⟩ =
      (Cursor.dollarQuoteTag ⟨before, text⟩).map fun tag => (tag.1, tag.2 ++ k :: more) := by
  cases text with
  | nil => exact absurd rfl hne
  | cons c text =>
    by_cases hc : c = '$'
    · subst hc
      simp only [Cursor.dollarQuoteTag, List.cons_append]
      by_cases hbefore : before.head?.any identifierCharacter = true
      · rw [if_pos hbefore, if_pos hbefore]
        rfl
      · rw [if_neg hbefore, if_neg hbefore, dollarTag_context (by decide) h]
        simp only [Option.map_map]
        rfl
    · simp [Cursor.dollarQuoteTag, hc]

/-- A run of identifier characters at the end of a text ends there. -/
theorem run_context (h : StandsApart text k) (hne : text ≠ []) :
    (text ++ k :: more).takeWhile identifierCharacter = text.takeWhile identifierCharacter ∧
      (text ++ k :: more).dropWhile identifierCharacter =
        text.dropWhile identifierCharacter ++ k :: more := by
  induction text with
  | nil => exact absurd rfl hne
  | cons c text ih =>
    by_cases hc : identifierCharacter c = true
    · cases text with
      | nil =>
        have hk := h.head_of_last rfl hc
        simp [hc, hk]
      | cons d text =>
        obtain ⟨htake, hdrop⟩ :=
          ih (h.suffix (List.suffix_cons c _) (List.cons_ne_nil d text)) (List.cons_ne_nil d text)
        rw [List.cons_append, List.takeWhile_cons_of_pos hc, List.takeWhile_cons_of_pos hc,
          List.dropWhile_cons_of_pos hc, List.dropWhile_cons_of_pos hc, htake, hdrop]
        exact ⟨rfl, rfl⟩
    · rw [List.cons_append, List.takeWhile_cons_of_neg hc, List.takeWhile_cons_of_neg hc,
        List.dropWhile_cons_of_neg hc, List.dropWhile_cons_of_neg hc]
      exact ⟨rfl, rfl⟩

end Context

/-! ## A turn in front of a context -/

section Turn

variable {mysql escapes : Bool} {k : Char} {before : List Char} {text more : Text}

def Cursor.extend (more : Text) (c : Cursor) : Cursor := ⟨c.before, c.rest ++ more⟩

/-- The turn with more text behind the position it goes on at. -/
def Turn.extend (more : Text) : Turn → Turn
  | .stop => .stop
  | .skip next => .skip (next.extend more)
  | .word w next => .word w (next.extend more)
  | .boundary next => .boundary (next.extend more)
  | .body text next => .body text (next.extend more)
  | .executable text next => .executable text (next.extend more)

theorem Cursor.to_extend (before : List Char) (text rest more : Text) :
    Cursor.to ⟨before, text ++ more⟩ (rest ++ more) = (Cursor.to ⟨before, text⟩ rest).extend more := by
  have hlen : (text ++ more).length - (rest ++ more).length = text.length - rest.length := by
    rw [List.length_append, List.length_append]
    omega
  simp only [Cursor.to, Cursor.extend, hlen]
  rw [List.take_append_of_le_length (Nat.sub_le _ _)]

theorem Turn.skip_context (before : List Char) (text rest more : Text) :
    Turn.skip (Cursor.to ⟨before, text ++ more⟩ (rest ++ more)) =
      (Turn.skip (Cursor.to ⟨before, text⟩ rest)).extend more :=
  congrArg Turn.skip (Cursor.to_extend before text rest more)

theorem Cursor.dollarQuoted_context {inner : Text} (h : (Scan.cut tag inner).isSome = true) :
    Cursor.dollarQuoted ⟨before, text ++ more⟩ tag (inner ++ more) =
      (Cursor.dollarQuoted ⟨before, text⟩ tag inner).extend more := by
  obtain ⟨cut, hcut⟩ := Option.isSome_iff_exists.1 h
  simp only [Cursor.dollarQuoted, cut_context hcut, hcut, Cursor.to_extend]
  rfl

theorem Cursor.blockComment_context {inner : Text}
    (h : (if mysql then (Scan.cut ['*', '/'] inner).isSome else (skipNestedBlockComment 0 text).isSome) = true) :
    Cursor.blockComment ⟨before, text ++ more⟩ mysql (inner ++ more) =
      (Cursor.blockComment ⟨before, text⟩ mysql inner).extend more := by
  cases mysql with
  | true =>
    obtain ⟨⟨comment, behind⟩, hcut⟩ := Option.isSome_iff_exists.1 h
    simp only [Cursor.blockComment, if_true, cut_context hcut, hcut, Cursor.to_extend]
    cases mysqlExecutableComment true comment <;> rfl
  | false =>
    obtain ⟨behind, hskip⟩ := Option.isSome_iff_exists.1 h
    simp only [Cursor.blockComment, Bool.false_eq_true, if_false, skipNestedBlockComment_context hskip, hskip,
      Cursor.to_extend]
    rfl

theorem startsDashComment_tail {b : Char} (h : startsDashComment mysql (b :: rest) = true) :
    ∃ tail, rest = '-' :: tail := by
  unfold startsDashComment at h
  split at h
  · rename_i tail heq
    exact ⟨tail, (List.cons.inj heq).2⟩
  · cases h

/-- The star that makes a slash a comment is not the context. -/
theorem head?_context {b : Char} (h : StandsApart (b :: rest) k) :
    (rest ++ k :: more).head? = some '*' ↔ rest.head? = some '*' := by
  cases rest with
  | nil => simp [h.ne (show '*' ≠ ';' by decide) (show '*' ≠ '$' by decide)]
  | cons d rest => rfl

/-- A turn that closes what it opens does the same in front of a context. The cases are those of the switch, in
its order. -/
theorem Cursor.turn_context (hne : text ≠ []) (hcloses : Cursor.closes mysql escapes ⟨before, text⟩ = true)
    (hk : StandsApart text k) :
    Cursor.turn mysql escapes ⟨before, text ++ k :: more⟩ =
      (Cursor.turn mysql escapes ⟨before, text⟩).extend (k :: more) := by
  have hdash := @startsDashComment_context mysql k text more hk hne
  have htag := @dollarQuoteTag_context k text more before hk hne
  obtain ⟨hword, hbehind⟩ := @run_context k text more hk hne
  cases text with
  | nil => exact absurd rfl hne
  | cons b rest =>
    have hskip behind := Turn.skip_context before (b :: rest) behind (k :: more)
    have hto behind := Cursor.to_extend before (b :: rest) behind (k :: more)
    have hlookback : Cursor.escapeStringPrefix ⟨before, b :: (rest ++ k :: more)⟩ =
        Cursor.escapeStringPrefix ⟨before, b :: rest⟩ := rfl
    have hquoted {quote : Char} {escapes : Bool} (hquote : quote ≠ '\\' ∧ quote ≠ ';' ∧ quote ≠ '$')
        (h : quoteCloses quote escapes rest = true) : skipSQLQuoted quote escapes (rest ++ k :: more) =
          skipSQLQuoted quote escapes rest ++ k :: more :=
      skipSQLQuoted_context hquote.1 (hk.ne hquote.2.1 hquote.2.2) h
    rw [List.cons_append] at *
    simp only [Cursor.closes, Cursor.turn, hlookback, hdash, htag] at hcloses ⊢
    by_cases hquote : b = '\''
    · simp only [if_pos hquote] at hcloses ⊢
      rw [hquoted (by decide) hcloses, hskip]
    simp only [if_neg hquote] at hcloses ⊢
    by_cases hdouble : b = '"'
    · simp only [if_pos hdouble] at hcloses ⊢
      rw [hquoted (by decide) hcloses, hskip]
    simp only [if_neg hdouble] at hcloses ⊢
    by_cases hback : (decide (b = '`') && mysql) = true
    · simp only [if_pos hback] at hcloses ⊢
      rw [hquoted (by decide) hcloses, hskip]
    simp only [if_neg hback] at hcloses ⊢
    by_cases hsemi : b = ';'
    · simp only [if_pos hsemi, hto]
      rfl
    simp only [if_neg hsemi] at hcloses ⊢
    by_cases hhash : (mysql && decide (b = '#')) = true
    · simp only [if_pos hhash] at hcloses ⊢
      rw [skipSQLLineComment_context (hk.ne (by decide) (by decide)) hcloses, hskip]
    simp only [if_neg hhash] at hcloses ⊢
    by_cases hdashes : startsDashComment mysql (b :: rest) = true
    · simp only [if_pos hdashes] at hcloses ⊢
      obtain ⟨tail, rfl⟩ := startsDashComment_tail hdashes
      simp only [List.cons_append, List.drop_succ_cons, List.drop_zero] at hcloses hskip ⊢
      rw [skipSQLLineComment_context (hk.ne (by decide) (by decide)) hcloses, hskip]
    simp only [if_neg hdashes] at hcloses ⊢
    cases hopens : if mysql = true then none else Cursor.dollarQuoteTag ⟨before, b :: rest⟩ with
    | some found =>
      cases mysql with
      | true => cases hopens
      | false =>
        simp only [Bool.false_eq_true, if_false] at hopens hcloses ⊢
        simp only [hopens, Option.map_some] at hcloses ⊢
        exact @Cursor.dollarQuoted_context found.1 before (b :: rest) (k :: more) found.2 hcloses
    | none =>
      have hopens' : (if mysql = true then none else
          (Cursor.dollarQuoteTag ⟨before, b :: rest⟩).map fun tag => (tag.1, tag.2 ++ k :: more)) =
            none := by
        cases mysql with
        | true => rfl
        | false => exact Option.map_eq_none_iff.2 hopens
      simp only [hopens, hopens', head?_context hk] at hcloses ⊢
      by_cases hblock : (decide (b = '/') && decide (rest.head? = some '*')) = true
      · simp only [if_pos hblock] at hcloses ⊢
        obtain ⟨inner, rfl⟩ := List.head?_eq_some_iff.1 (of_decide_eq_true (Bool.and_eq_true_iff.1 hblock).2)
        exact @Cursor.blockComment_context mysql before (b :: '*' :: inner) (k :: more) inner hcloses
      simp only [if_neg hblock]
      by_cases hkey : asciiKeywordCharacter b = true
      · simp only [if_pos hkey, hword, hbehind, hto]
        rfl
      · simp only [if_neg hkey, hskip]

/-- A turn goes on at a position of the same statement, further on. -/
def Turn.From (c : Cursor) : Turn → Prop
  | .stop => True
  | .skip next | .word _ next | .boundary next | .body _ next | .executable _ next =>
    ∃ rest, rest <:+ c.rest ∧ next = c.to rest

theorem Cursor.dollarQuoted_from {c : Cursor} {tag inner : Text}
    (htag : c.dollarQuoteTag = some (tag, inner)) : (c.dollarQuoted tag inner).From c := by
  have hinner : inner <:+ c.rest := ⟨tag, (Cursor.dollarQuoteTag_eq htag).1.symm⟩
  unfold Cursor.dollarQuoted
  split
  · rename_i body behind hcut
    refine ⟨behind, List.IsSuffix.trans ⟨body ++ tag, ?_⟩ hinner, rfl⟩
    rw [Scan.cut_eq hcut]
  · exact ⟨[], List.nil_suffix, rfl⟩

theorem Cursor.blockComment_from {c : Cursor} {mysql : Bool} {text : Text}
    (hopen : c.rest = '/' :: '*' :: text) : (c.blockComment mysql text).From c := by
  unfold Cursor.blockComment
  split
  · split
    · rename_i comment behind hcut
      have hsuffix : behind <:+ c.rest := by
        rw [hopen, Scan.cut_eq hcut]
        exact List.suffix_append ('/' :: '*' :: (comment ++ ['*', '/'])) behind
      split <;> exact ⟨behind, hsuffix, rfl⟩
    · trivial
  · split
    · rename_i behind hclose
      exact ⟨behind, skipNestedBlockComment_suffix hclose, rfl⟩
    · trivial

theorem Cursor.turn_from (mysql escapes : Bool) (c : Cursor) : (c.turn mysql escapes).From c := by
  cases hrest : c.rest with
  | nil =>
    unfold Cursor.turn
    rw [hrest]
    trivial
  | cons b rest =>
    have hbehind : ∀ next : Text, next <:+ rest → next <:+ c.rest := fun next hnext => by
      rw [hrest]
      exact hnext.trans (List.suffix_cons b rest)
    exact Cursor.turn_cases hrest (fun next hnext => ⟨next, hbehind next hnext, rfl⟩)
      ⟨rest, hbehind _ List.suffix_rfl, rfl⟩ (fun tag text htag => Cursor.dollarQuoted_from htag)
      (fun text hopen => Cursor.blockComment_from hopen)
      (fun _ => ⟨_, hbehind _ (List.dropWhile_suffix _), rfl⟩)

/-- Where a turn goes on, with the text it passed. -/
theorem Cursor.turn_next {c next : Cursor} (h : (c.turn mysql escapes).next? = some next) :
    ∃ passed, passed ≠ [] ∧ c.rest = passed ++ next.rest ∧ next.before = passed.reverse ++ c.before := by
  have hfrom := c.turn_from mysql escapes
  have hbelow := c.turn_below mysql escapes
  have hfound : (∃ rest, rest <:+ c.rest ∧ next = c.to rest) ∧ next.rest.length < c.rest.length := by
    cases hturn : c.turn mysql escapes with
    | stop =>
      rw [hturn] at h
      cases h
    | skip n | word w n | boundary n =>
      rw [hturn] at h hfrom hbelow
      cases h
      exact ⟨hfrom, hbelow⟩
    | body w n | executable w n =>
      rw [hturn] at h hfrom hbelow
      cases h
      exact ⟨hfrom, hbelow.2⟩
  obtain ⟨⟨rest, ⟨passed, hpassed⟩, rfl⟩, hshorter⟩ := hfound
  obtain ⟨before, text⟩ := c
  subst hpassed
  rw [Cursor.to_append] at hshorter ⊢
  refine ⟨passed, ?_, rfl, rfl⟩
  rintro rfl
  exact absurd hshorter (Nat.lt_irrefl _)

variable [Unicode]

/-- What a turn emits is what it emits by itself, and what is read where it goes on. -/
def Turn.own (go : Cursor → List String) : Turn → List String
  | .stop | .skip _ => []
  | .word w _ => [token w]
  | .boundary _ => [statementBoundary]
  | .body text _ => statementBoundary :: go { rest := text } ++ [statementBoundary]
  | .executable text _ => go { rest := text }

theorem Turn.emit_eq {t : Turn} {next : Cursor} (go : Cursor → List String) (h : t.next? = some next) :
    t.emit go = t.own go ++ go next := by
  cases t with
  | stop => cases h
  | skip n => cases h; rfl
  | word w n => cases h; rfl
  | boundary n => cases h; rfl
  | body text n => cases h; simp [Turn.emit, Turn.own]
  | executable text n => cases h; rfl

/-- A text whose reading closes all it opens, in front of a context that it does not take in. -/
theorem Cursor.tokens_context {fuel : Nat}
    (hcloses : closesFrom mysql escapes fuel ⟨before, text⟩ = true)
    (hk : text ≠ [] → StandsApart text k) :
    Cursor.tokens mysql escapes ⟨before, text ++ k :: more⟩ =
      Cursor.tokens mysql escapes ⟨before, text⟩ ++
        Cursor.tokens mysql escapes ⟨text.reverse ++ before, k :: more⟩ := by
  induction fuel generalizing before text with
  | zero => cases hcloses
  | succ fuel ih =>
    by_cases hne : text = []
    · subst hne
      rfl
    rw [closesFrom, Bool.and_eq_true] at hcloses
    cases hnext : (Cursor.turn mysql escapes ⟨before, text⟩).next? with
    | none =>
      simp only [hnext] at hcloses
      exact absurd (List.isEmpty_iff.1 hcloses.2) hne
    | some next =>
      obtain ⟨before', rest⟩ := next
      obtain ⟨passed, hpassed, heq, hbefore⟩ := Cursor.turn_next hnext
      dsimp only at heq hbefore
      simp only [hnext] at hcloses
      have hturn := @Cursor.turn_context mysql escapes k before text more hne hcloses.1 (hk hne)
      have hnext' : (Cursor.turn mysql escapes ⟨before, text ++ k :: more⟩).next? =
          some ⟨before', rest ++ k :: more⟩ := by
        rw [hturn]
        cases ht : Cursor.turn mysql escapes ⟨before, text⟩ <;> rw [ht] at hnext <;> cases hnext <;> rfl
      have hown : (Cursor.turn mysql escapes ⟨before, text ++ k :: more⟩).own
          (Cursor.tokens mysql escapes) =
            (Cursor.turn mysql escapes ⟨before, text⟩).own (Cursor.tokens mysql escapes) := by
        rw [hturn]
        cases Cursor.turn mysql escapes ⟨before, text⟩ <;> rfl
      have hrest := ih hcloses.2 ((hk hne).suffix ⟨passed, heq.symm⟩)
      rw [Cursor.tokens_eq mysql escapes ⟨before, text ++ k :: more⟩, Turn.emit_eq _ hnext', hown, hrest,
        Cursor.tokens_eq mysql escapes ⟨before, text⟩, Turn.emit_eq _ hnext, hbefore, heq]
      simp only [List.reverse_append, List.append_assoc]

end Turn

/-! ## Looking back -/

section Alike

variable {mysql escapes : Bool} {before before' : List Char} {text : Text}

/-- The lexer cannot tell the two texts in front of a position apart: neither where it decides on an
escape string, at this position or the next one, nor where it decides on a dollar quote. -/
structure Alike (before before' : List Char) (text : Text) : Prop where
  quote : text.head? = some '\'' →
    Cursor.escapeStringPrefix ⟨before, text⟩ = Cursor.escapeStringPrefix ⟨before', text⟩
  tag : Cursor.dollarQuoteTag ⟨before, text⟩ = Cursor.dollarQuoteTag ⟨before', text⟩
  next : ∀ c rest, text = c :: '\'' :: rest →
    Cursor.escapeStringPrefix ⟨c :: before, '\'' :: rest⟩ =
      Cursor.escapeStringPrefix ⟨c :: before', '\'' :: rest⟩

theorem Alike.behind {passed : Text} (h : Alike before before' (passed ++ rest))
    (hne : passed ≠ []) : Alike (passed.reverse ++ before) (passed.reverse ++ before') rest := by
  obtain ⟨front, c, rfl⟩ := (List.eq_nil_or_concat' passed).resolve_left hne
  rw [List.reverse_append, List.reverse_singleton, List.singleton_append, List.cons_append]
  refine ⟨fun hquote => ?_, rfl, fun d rest hrest => rfl⟩
  obtain ⟨rest, rfl⟩ := List.head?_eq_some_iff.1 hquote
  rcases List.eq_nil_or_concat' front with rfl | ⟨front, d, rfl⟩
  · exact h.next c rest rfl
  · rw [List.reverse_append, List.reverse_singleton]
    rfl

variable [Unicode]

theorem Cursor.tokens_alike (h : Alike before before' text) :
    Cursor.tokens mysql escapes ⟨before, text⟩ = Cursor.tokens mysql escapes ⟨before', text⟩ := by
  induction hlen : text.length using Nat.strongRecOn generalizing before before' text with
  | ind n ih =>
    rw [Cursor.tokens_eq mysql escapes ⟨before, text⟩, Cursor.tokens_eq mysql escapes ⟨before', text⟩,
      @Cursor.turn_rebase escapes mysql before text before' (fun _ hq => (h.quote hq).symm)
        fun _ => h.tag.symm]
    cases hnext : (Cursor.turn mysql escapes ⟨before, text⟩).next? with
    | none =>
      cases ht : Cursor.turn mysql escapes ⟨before, text⟩ with
      | stop => rfl
      | skip | word | boundary | body | executable =>
        rw [ht] at hnext
        cases hnext
    | some next =>
      obtain ⟨passed, hne, heq, hbefore⟩ := Cursor.turn_next hnext
      obtain ⟨_, rest⟩ := next
      dsimp only at heq hbefore
      subst heq hbefore
      have hnext' : ((Cursor.turn mysql escapes ⟨before, passed ++ rest⟩).rebase
          ⟨before', passed ++ rest⟩).next? = some ⟨passed.reverse ++ before', rest⟩ := by
        rw [← Cursor.to_append]
        cases ht : Cursor.turn mysql escapes ⟨before, passed ++ rest⟩ <;> rw [ht] at hnext <;>
          cases hnext <;> rfl
      have hown : ((Cursor.turn mysql escapes ⟨before, passed ++ rest⟩).rebase
          ⟨before', passed ++ rest⟩).own (Cursor.tokens mysql escapes) =
            (Cursor.turn mysql escapes ⟨before, passed ++ rest⟩).own (Cursor.tokens mysql escapes) := by
        cases Cursor.turn mysql escapes ⟨before, passed ++ rest⟩ <;> rfl
      have hshorter : rest.length < n := by
        have := List.length_pos_iff.2 hne
        rw [← hlen, List.length_append]
        omega
      rw [Turn.emit_eq _ hnext, Turn.emit_eq _ hnext', hown, ih rest.length hshorter (h.behind hne) rfl]

end Alike

/-! ## Texts put together -/

theorem dollarTag_more {text : Text} (h : dollarTag first text = some (tag, rest))
    (more : Text) : dollarTag first (text ++ more) = some (tag, rest ++ more) := by
  induction text generalizing first tag with
  | nil => cases h
  | cons c text ih =>
    rw [List.cons_append]
    unfold dollarTag at h ⊢
    split at h
    · rename_i hc
      cases h
      rw [if_pos hc]
    rename_i hc
    rw [if_neg hc]
    split at h
    · rename_i hname
      obtain ⟨found, hfound, heq⟩ := Option.map_eq_some_iff.1 h
      cases heq
      rw [if_pos hname, ih hfound]
      rfl
    · cases h

/-- A delimiter opens a body behind any character that is no part of an identifier. -/
theorem dollarQuoteTag_more (htag : Cursor.dollarQuoteTag ⟨[], tag⟩ = some (tag, []))
    {before : List Char} (hbefore : before.head?.any identifierCharacter = false) (more : Text) :
    Cursor.dollarQuoteTag ⟨before, tag ++ more⟩ = some (tag, more) := by
  cases tag with
  | nil => cases htag
  | cons c tag =>
    by_cases hc : c = '$'
    · subst hc
      obtain ⟨found, hfound, heq⟩ := Option.map_eq_some_iff.1 htag
      obtain ⟨hname, hrest⟩ := Prod.mk.inj heq
      have hmore : dollarTag true (tag ++ more) = some (found.1, found.2 ++ more) :=
        dollarTag_more hfound more
      simp only [Cursor.dollarQuoteTag, List.cons_append, hbefore, Bool.false_eq_true, if_false, hmore,
        Option.map_some, hname, hrest, List.nil_append]
    · simp [Cursor.dollarQuoteTag, hc] at htag

theorem dollarTag_last {text : Text}
    (h : dollarTag first text = some (tag, rest)) : ∃ front, tag = front ++ ['$'] := by
  induction text generalizing first tag with
  | nil => cases h
  | cons c text ih =>
    unfold dollarTag at h
    split at h
    · cases h
      exact ⟨[], rfl⟩
    split at h
    · obtain ⟨found, hfound, heq⟩ := Option.map_eq_some_iff.1 h
      cases heq
      obtain ⟨front, hfront⟩ := ih hfound
      exact ⟨c :: front, by rw [hfront]; rfl⟩
    · cases h

/-- A delimiter begins and ends with a dollar sign. -/
theorem dollarQuoteTag_self (h : Cursor.dollarQuoteTag ⟨[], tag⟩ = some (tag, [])) :
    ∃ name, (∃ front, '$' :: name = front ++ ['$']) ∧ tag = '$' :: name := by
  cases tag with
  | nil => cases h
  | cons c tag =>
    by_cases hc : c = '$'
    · subst hc
      obtain ⟨found, hfound, heq⟩ := Option.map_eq_some_iff.1 h
      obtain ⟨front, hfront⟩ := dollarTag_last hfound
      refine ⟨tag, ⟨'$' :: front, ?_⟩, rfl⟩
      rw [← (Prod.mk.inj heq).1, hfront]
      rfl
    · simp [Cursor.dollarQuoteTag, hc] at h

section Together

variable [Unicode] {statement dialect more : Text} {escapes : Bool}

theorem tokens_semicolon (h : endsOutside statement dialect escapes = true) (more : Text) :
    sqlKeywordTokensWithEscapes (statement ++ ';' :: more) dialect escapes =
      sqlKeywordTokensWithEscapes statement dialect escapes ++
        statementBoundary :: sqlKeywordTokensWithEscapes more dialect escapes := by
  have halike : Alike (';' :: (statement.reverse ++ [])) [] more := by
    refine ⟨fun _ => rfl, ?_, fun c rest _ => rfl⟩
    rfl
  have hboundary : ∀ before : List Char,
      Cursor.tokens (mysqlDialect dialect) escapes ⟨before, ';' :: more⟩ =
        statementBoundary :: Cursor.tokens (mysqlDialect dialect) escapes ⟨';' :: before, more⟩ := by
    intro before
    rw [Cursor.tokens_eq, ← Cursor.to_cons]
    rfl
  rw [sqlKeywordTokensWithEscapes, Cursor.tokens_context h fun _ => .inl rfl, hboundary,
    Cursor.tokens_alike halike]
  rfl

/-- The reading of a dollar-quoted body between two texts. `tag` is the delimiter with its dollar signs,
and its first occurrence behind the opening one is the closing one. The text behind the body must not
go on with a dollar quote or an escape string: the lexer takes the closing dollar sign for a part of a
word. -/
theorem tokens_dollarQuoted (hdialect : mysqlDialect dialect = false)
    (h : endsOutside statement dialect escapes = true)
    (hlast : statement.getLast?.any identifierCharacter = false) {body post : Text}
    (htag : Cursor.dollarQuoteTag ⟨[], tag⟩ = some (tag, []))
    (hbody : Scan.cut tag (body ++ tag) = some (body, []))
    (hdollar : Cursor.dollarQuoteTag ⟨[], post⟩ = none)
    (hescape : ∀ e rest, post = e :: '\'' :: rest → e ≠ 'E' ∧ e ≠ 'e') :
    sqlKeywordTokensWithEscapes (statement ++ (tag ++ body ++ tag ++ post)) dialect escapes =
      sqlKeywordTokensWithEscapes statement dialect escapes ++
        statementBoundary :: sqlKeywordTokensWithEscapes body dialect escapes ++
        statementBoundary :: sqlKeywordTokensWithEscapes post dialect escapes := by
  obtain ⟨name, ⟨front, hfront⟩, rfl⟩ := dollarQuoteTag_self htag
  have hcut : Scan.cut ('$' :: name) (body ++ '$' :: name ++ post) = some (body, post) :=
    cut_context hbody
  have hopen : Cursor.dollarQuoteTag ⟨statement.reverse ++ [], '$' :: (name ++ (body ++ '$' :: name ++ post))⟩ =
      some ('$' :: name, body ++ '$' :: name ++ post) :=
    dollarQuoteTag_more htag (by rwa [List.append_nil, List.head?_reverse]) _
  -- what the lexer has behind it where it goes on: the closing dollar sign
  have hto : Cursor.to ⟨statement.reverse ++ [], '$' :: (name ++ (body ++ '$' :: name ++ post))⟩ post =
      ⟨'$' :: (front.reverse ++ (('$' :: name ++ body).reverse ++ (statement.reverse ++ []))), post⟩ := by
    have htext : '$' :: (name ++ (body ++ '$' :: name ++ post)) =
        ('$' :: name ++ body ++ '$' :: name) ++ post := by simp
    rw [htext, Cursor.to_append, List.reverse_append, hfront]
    simp
  have halike : Alike
      ('$' :: (front.reverse ++ (('$' :: name ++ body).reverse ++ (statement.reverse ++ [])))) [] post := by
    refine ⟨fun _ => rfl, ?_, fun e rest hpost => ?_⟩
    · rw [hdollar]
      unfold Cursor.dollarQuoteTag
      split <;> rfl
    · obtain ⟨hE, he⟩ := hescape e rest hpost
      simp [Cursor.escapeStringPrefix, hE, he]
  have hstatement : statement ++ ('$' :: name ++ body ++ '$' :: name ++ post) =
      statement ++ '$' :: (name ++ (body ++ '$' :: name ++ post)) := by simp
  rw [sqlKeywordTokensWithEscapes, hstatement, Cursor.tokens_context h fun _ => .inr ⟨rfl, hlast⟩,
    hdialect, Cursor.tokens_dollarQuoted hopen, Cursor.dollarQuoted, hcut]
  dsimp only
  rw [hto, Turn.emit, Cursor.tokens_alike halike]
  simp only [sqlKeywordTokensWithEscapes, hdialect, List.append_assoc]

end Together

end Ptah.DataPlane
