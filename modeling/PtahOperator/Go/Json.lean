import PtahOperator.Go.Bytes

/-!
# Texts in JSON

How `encoding/json` writes a string: a character at a time, with escapes, and with the replacement
character in the place of a byte that begins no character.

* `runes`: the characters of a text in UTF-8, and the bytes that begin none.
* `quote`: the string literal of a text.
* `toValid`: what is read back from it.
* `infix_escape`: a pattern of bytes that are written as they are occurs in the literal exactly if it
  occurs in the text.
-/

namespace Go

/-! ## Characters -/

def continues (c : UInt8) : Bool := 0x80 ≤ c && c ≤ 0xbf

/-- How many bytes the character at the front of a text takes, and 0 if none begins there
(`utf8.DecodeRune`). -/
def runeWidth : Bytes → Nat
  | [] => 0
  | a :: rest =>
    if a < 0x80 then 1
    else match rest with
    | [] => 0
    | b :: rest =>
      if 0xc2 ≤ a && a ≤ 0xdf && continues b then 2
      else match rest with
      | [] => 0
      | c :: rest =>
        if (a = 0xe0 && 0xa0 ≤ b && b ≤ 0xbf || a = 0xed && 0x80 ≤ b && b ≤ 0x9f ||
            0xe1 ≤ a && a ≤ 0xef && a ≠ 0xed && continues b) && continues c then 3
        else match rest with
        | [] => 0
        | d :: _ =>
          if (a = 0xf0 && 0x90 ≤ b && b ≤ 0xbf || a = 0xf4 && 0x80 ≤ b && b ≤ 0x8f ||
              0xf1 ≤ a && a ≤ 0xf3 && continues b) && continues c && continues d then 4
          else 0

/-- A character of a text, or a byte that begins none. -/
structure Rune where
  valid : Bool
  text : Bytes
  deriving DecidableEq

/-- The characters of a text. `fuel` bounds them. -/
def runesFrom : (fuel : Nat) → Bytes → List Rune
  | 0, _ => []
  | _ + 1, [] => []
  | fuel + 1, c :: rest =>
    match runeWidth (c :: rest) with
    | 0 => ⟨false, [c]⟩ :: runesFrom fuel rest
    | width + 1 => ⟨true, c :: rest.take width⟩ :: runesFrom fuel (rest.drop width)

def runes (text : Bytes) : List Rune := runesFrom text.length text

/-- A text has no byte outside a character (`utf8.Valid`). -/
def validText (text : Bytes) : Bool := (runes text).all (·.valid)

/-- The replacement character U+FFFD. -/
def replacement : Bytes := [0xef, 0xbf, 0xbd]

/-- A text with the replacement character for each byte outside a character. -/
def toValid (text : Bytes) : Bytes :=
  (runes text).flatMap fun rune => if rune.valid then rune.text else replacement

/-! ## Literals -/

/-- How a byte of ASCII is written. -/
def escapeByte (escapeHTML : Bool) (c : UInt8) : Bytes :=
  if c = 0x22 || c = 0x5c then [0x5c, c]
  else if c = 0x08 then bytes "\\b"
  else if c = 0x0c then bytes "\\f"
  else if c = 0x0a then bytes "\\n"
  else if c = 0x0d then bytes "\\r"
  else if c = 0x09 then bytes "\\t"
  else if c < 0x20 || escapeHTML && (c = 0x3c || c = 0x3e || c = 0x26) then
    bytes "\\u00" ++ hexEncode [c]
  else [c]

/-- How a character is written. The separators U+2028 and U+2029 are escaped, too, and the replacement
character is written as it is. -/
def escapeRune (escapeHTML : Bool) (rune : Rune) : Bytes :=
  if !rune.valid then replacement
  else if rune.text = [0xe2, 0x80, 0xa8] then bytes "\\u2028"
  else if rune.text = [0xe2, 0x80, 0xa9] then bytes "\\u2029"
  else match rune.text with
  | [c] => escapeByte escapeHTML c
  | text => text

def escape (escapeHTML : Bool) (text : Bytes) : Bytes := (runes text).flatMap (escapeRune escapeHTML)

def quote (escapeHTML : Bool) (text : Bytes) : Bytes := 0x22 :: escape escapeHTML text ++ [0x22]

/-! ## What the characters are -/

/-- A character is one byte of ASCII or some bytes outside it; so is a byte that begins none. -/
def Rune.WellFormed (rune : Rune) : Prop :=
  (rune.valid = true ∧ ∃ c, c < 0x80 ∧ rune.text = [c]) ∨
    (rune.text ≠ [] ∧ (∀ c ∈ rune.text, 0x80 ≤ c) ∧ (rune.valid = false ↔ rune.text.length = 1))

theorem runeWidth_wellFormed {c : UInt8} {rest : Bytes} {width : Nat}
    (h : runeWidth (c :: rest) = width + 1) :
    width ≤ rest.length ∧ Rune.WellFormed ⟨true, c :: rest.take width⟩ := by
  unfold runeWidth at h
  dsimp only at h
  split at h
  · rename_i hc
    obtain rfl : width = 0 := by omega
    exact ⟨Nat.zero_le _, .inl ⟨rfl, c, hc, rfl⟩⟩
  rename_i hc
  have hhigh : 0x80 ≤ c := UInt8.not_lt.1 hc
  split at h
  · cases h
  rename_i b rest
  split at h
  · rename_i hb
    obtain rfl : width = 1 := by omega
    simp only [continues, Bool.and_eq_true, decide_eq_true_eq] at hb
    exact ⟨by simp, .inr ⟨by simp, by simp [hhigh, hb.2.1], by simp⟩⟩
  split at h
  · cases h
  rename_i d rest
  split at h
  · rename_i hb
    obtain rfl : width = 2 := by omega
    simp only [continues, Bool.and_eq_true, Bool.or_eq_true, decide_eq_true_eq,
      UInt8.le_iff_toNat_le, UInt8.reduceToNat] at hb
    have hb' : 0x80 ≤ b := UInt8.le_iff_toNat_le.2 (show 0x80 ≤ b.toNat by omega)
    have hd' : 0x80 ≤ d := UInt8.le_iff_toNat_le.2 (show 0x80 ≤ d.toNat by omega)
    exact ⟨by simp, .inr ⟨by simp, by simp [hhigh, hb', hd'], by simp⟩⟩
  split at h
  · cases h
  rename_i e rest
  split at h
  · rename_i hb
    obtain rfl : width = 3 := by omega
    simp only [continues, Bool.and_eq_true, Bool.or_eq_true, decide_eq_true_eq,
      UInt8.le_iff_toNat_le, UInt8.reduceToNat] at hb
    have hb' : 0x80 ≤ b := UInt8.le_iff_toNat_le.2 (show 0x80 ≤ b.toNat by omega)
    have hd' : 0x80 ≤ d := UInt8.le_iff_toNat_le.2 (show 0x80 ≤ d.toNat by omega)
    have he' : 0x80 ≤ e := UInt8.le_iff_toNat_le.2 (show 0x80 ≤ e.toNat by omega)
    exact ⟨by simp, .inr ⟨by simp, by simp [hhigh, hb', hd', he'], by simp⟩⟩
  · cases h

theorem runeWidth_ascii {c : UInt8} (h : c < 0x80) (rest : Bytes) : runeWidth (c :: rest) = 1 := by
  unfold runeWidth
  dsimp only
  rw [if_pos h]

variable {text pattern : Bytes} {rune : Rune} {escapeHTML : Bool}

/-- The characters of a text are well formed, and make it up. -/
theorem runesFrom_wellFormed {fuel : Nat} (h : text.length ≤ fuel) :
    (∀ rune ∈ runesFrom fuel text, rune.WellFormed) ∧
      (runesFrom fuel text).flatMap (·.text) = text := by
  induction fuel generalizing text with
  | zero =>
    obtain rfl := List.eq_nil_of_length_eq_zero (Nat.le_zero.1 h)
    exact ⟨nofun, rfl⟩
  | succ fuel ih =>
    cases text with
    | nil => exact ⟨nofun, rfl⟩
    | cons c rest =>
      rw [List.length_cons] at h
      rw [runesFrom]
      cases hwidth : runeWidth (c :: rest) with
      | zero =>
        obtain ⟨hall, hjoin⟩ := @ih rest (by omega)
        have hhigh : 0x80 ≤ c := by
          rw [← UInt8.not_lt]
          intro hc
          rw [runeWidth_ascii hc] at hwidth
          cases hwidth
        refine ⟨fun rune hr => ?_, by rw [List.flatMap_cons, hjoin]; rfl⟩
        rcases hr with _ | ⟨_, hr⟩
        · exact .inr ⟨List.cons_ne_nil _ _, by simp [hhigh], by simp⟩
        · exact hall rune hr
      | succ width =>
        obtain ⟨hall, hjoin⟩ := @ih (rest.drop width) (by rw [List.length_drop]; omega)
        refine ⟨fun rune hr => ?_, ?_⟩
        · rcases hr with _ | ⟨_, hr⟩
          · exact (runeWidth_wellFormed hwidth).2
          · exact hall rune hr
        · rw [List.flatMap_cons, hjoin, List.cons_append, List.take_append_drop]

theorem runes_wellFormed (h : rune ∈ runes text) : rune.WellFormed :=
  (runesFrom_wellFormed (Nat.le_refl _)).1 rune h

theorem runes_flatMap (text : Bytes) : (runes text).flatMap (·.text) = text :=
  (runesFrom_wellFormed (Nat.le_refl _)).2

/-! ## Valid texts -/

theorem runes_ascii (h : ∀ c ∈ text, c < 0x80) : runes text = text.map fun c => ⟨true, [c]⟩ := by
  have hfuel : ∀ fuel text, text.length ≤ fuel → (∀ c ∈ text, c < 0x80) →
      runesFrom fuel text = text.map fun c => ⟨true, [c]⟩ := by
    intro fuel
    induction fuel with
    | zero =>
      intro text hlength _
      rw [List.eq_nil_of_length_eq_zero (Nat.le_zero.1 hlength)]
      rfl
    | succ fuel ih =>
      intro text hlength h
      cases text with
      | nil => rfl
      | cons c rest =>
        rw [runesFrom, runeWidth_ascii (h c (.head _))]
        exact congrArg _ (ih rest (Nat.le_of_succ_le_succ hlength) fun d hd => h d (.tail _ hd))
  exact hfuel _ text (Nat.le_refl _) h

theorem validText_ascii (h : ∀ c ∈ text, c < 0x80) : validText text = true := by
  rw [validText, runes_ascii h, List.all_map]
  exact List.all_eq_true.2 fun _ _ => rfl

theorem toValid_eq_iff (text : Bytes) : toValid text = text ↔ validText text = true := by
  have hlists : ∀ rs : List Rune, (∀ r ∈ rs, r.WellFormed) → (rs.flatMap (·.text)).length ≤
          (rs.flatMap fun r => if r.valid then r.text else replacement).length ∧
        (rs.all (·.valid) = false → (rs.flatMap (·.text)).length <
          (rs.flatMap fun r => if r.valid then r.text else replacement).length) ∧
        (rs.all (·.valid) = true →
          (rs.flatMap fun r => if r.valid then r.text else replacement) = rs.flatMap (·.text)) := by
    intro rs hrs
    induction rs with
    | nil => exact ⟨Nat.le_refl _, nofun, fun _ => rfl⟩
    | cons r rs ih =>
      obtain ⟨hle, hlt, heq⟩ := ih fun r hr => hrs r (.tail _ hr)
      simp only [List.flatMap_cons, List.length_append, List.all_cons]
      cases hvalid : r.valid with
      | true =>
        refine ⟨by simpa using hle, (by simpa using hlt), fun h => ?_⟩
        rw [heq h]
        rfl
      | false =>
        have hone : r.text.length = 1 := by
          rcases hrs r (.head _) with ⟨h, -⟩ | ⟨-, -, h⟩
          · rw [hvalid] at h
            cases h
          · exact h.1 hvalid
        have hthree : replacement.length = 3 := rfl
        refine ⟨?_, fun _ => ?_, nofun⟩ <;> simp only [Bool.false_eq_true, if_false] <;> omega
  obtain ⟨-, hlt, heq⟩ := hlists (runes text) fun r => runes_wellFormed
  rw [runes_flatMap] at hlt heq
  constructor
  · intro h
    by_contra hnot
    have := hlt (Bool.eq_false_of_not_eq_true hnot)
    change text.length < (toValid text).length at this
    rw [h] at this
    omega
  · exact heq

/-! ## What a literal holds -/

theorem escapeRune_ascii (escapeHTML : Bool) {c : UInt8} (hvalid : rune.valid = true)
    (htext : rune.text = [c]) : escapeRune escapeHTML rune = escapeByte escapeHTML c := by
  rw [escapeRune, hvalid, htext, if_neg (by decide), if_neg (by simp), if_neg (by simp)]

/-- A byte that an escape may hold. -/
def escapeLetter (c : UInt8) : Bool :=
  c = 0x5c || c = 0x22 || isDigit c || 0x61 ≤ c && c ≤ 0x7a

theorem escapeLetter_hexDigit {n : Nat} (h : n < 16) : escapeLetter (hexDigit n) = true := by
  have hall : ∀ n : Fin 16, escapeLetter (hexDigit n) = true := by decide
  exact hall ⟨n, h⟩

theorem escapeByte_cases (escapeHTML : Bool) (c : UInt8) :
    escapeByte escapeHTML c = [c] ∨ (∃ rest, escapeByte escapeHTML c = 0x5c :: rest) ∧
      ∀ x ∈ escapeByte escapeHTML c, escapeLetter x = true := by
  unfold escapeByte
  split
  · rename_i hc
    simp only [Bool.or_eq_true, decide_eq_true_eq] at hc
    exact .inr ⟨⟨_, rfl⟩, by rcases hc with rfl | rfl <;> decide⟩
  iterate 5 (split; · exact .inr ⟨⟨_, rfl⟩, by decide⟩)
  split
  · refine .inr ⟨⟨_, rfl⟩, fun x hx => ?_⟩
    rcases List.mem_append.1 hx with hx | hx
    · have hall : ∀ x ∈ bytes "\\u00", escapeLetter x = true := by decide
      exact hall x hx
    have hlt : c.toNat < 256 := c.toNat_lt
    simp only [hexEncode, List.flatMap_cons, List.flatMap_nil, List.append_nil, List.mem_cons,
      List.not_mem_nil, or_false] at hx
    rcases hx with rfl | rfl
    · exact escapeLetter_hexDigit (by omega)
    · exact escapeLetter_hexDigit (by omega)
  · exact .inl rfl

/-- The byte stands for itself in a literal. -/
def Unescaped (escapeHTML : Bool) (c : UInt8) : Prop := c < 0x80 ∧ escapeByte escapeHTML c = [c]

theorem escape_of_unescaped (h : ∀ c ∈ text, Unescaped escapeHTML c) : escape escapeHTML text = text := by
  rw [escape, runes_ascii fun c hc => (h c hc).1, List.flatMap_map]
  refine (List.flatMap_congr fun c hc => ?_).trans (List.flatMap_singleton' text)
  rw [escapeRune_ascii escapeHTML rfl rfl, (h c hc).2]

/-- A character outside ASCII, or a byte that begins none, is one of two escapes or bytes outside ASCII. -/
theorem escapeRune_high (escapeHTML : Bool) (hne : rune.text ≠ []) (hall : ∀ c ∈ rune.text, 0x80 ≤ c)
    (hlength : rune.valid = false ↔ rune.text.length = 1) :
    escapeRune escapeHTML rune = bytes "\\u2028" ∨ escapeRune escapeHTML rune = bytes "\\u2029" ∨
      escapeRune escapeHTML rune ≠ [] ∧ ∀ x ∈ escapeRune escapeHTML rune, 0x80 ≤ x := by
  unfold escapeRune
  split_ifs with hvalid hline hparagraph
  · exact .inr (.inr ⟨nofun, by decide⟩)
  · exact .inl rfl
  · exact .inr (.inl rfl)
  split
  · rename_i c hc
    exact absurd (hlength.2 (by rw [hc]; rfl)) (by simpa using hvalid)
  · exact .inr (.inr ⟨hne, hall⟩)

/-- A character is an unescaped byte, or it is written with other bytes only. -/
theorem escapeRune_cases (escapeHTML : Bool) (h : rune.WellFormed) :
    (∃ c, rune.text = [c] ∧ escapeRune escapeHTML rune = [c]) ∨
      (∃ x xs, escapeRune escapeHTML rune = x :: xs ∧ ¬ Unescaped escapeHTML x) ∧
        (∃ x xs, rune.text = x :: xs ∧ ¬ Unescaped escapeHTML x) ∧
        (∀ x ∈ escapeRune escapeHTML rune, 0x80 ≤ x ∨ escapeLetter x = true) ∧
        ∀ x ∈ rune.text, ¬ Unescaped escapeHTML x := by
  have hslash : ¬ Unescaped escapeHTML 0x5c := fun h => by
    have := h.2
    cases escapeHTML <;> exact absurd this (by decide)
  have hhigh : ∀ x : UInt8, 0x80 ≤ x → ¬ Unescaped escapeHTML x := fun x hx hun =>
    absurd hun.1 (UInt8.not_lt.2 hx)
  rcases h with ⟨hvalid, c, hc, htext⟩ | ⟨hne, hall, hlength⟩
  · have hrune := escapeRune_ascii escapeHTML hvalid htext
    rcases escapeByte_cases escapeHTML c with heq | ⟨⟨rest, heq⟩, hletters⟩
    · exact .inl ⟨c, htext, hrune.trans heq⟩
    have hun : ¬ Unescaped escapeHTML c := by
      intro hun
      rw [hun.2] at heq
      exact hslash ((List.cons.inj heq).1 ▸ hun)
    refine .inr ⟨⟨_, _, hrune.trans heq, hslash⟩, ⟨c, [], htext, hun⟩, ?_, ?_⟩
    · exact fun x hx => .inr (hletters x (hrune ▸ hx))
    intro x hx
    rw [htext] at hx
    exact List.mem_singleton.1 hx ▸ hun
  · obtain ⟨x, xs, htext⟩ := List.exists_cons_of_ne_nil hne
    have hparts : (∃ x xs, escapeRune escapeHTML rune = x :: xs ∧ ¬ Unescaped escapeHTML x) ∧
        ∀ x ∈ escapeRune escapeHTML rune, 0x80 ≤ x ∨ escapeLetter x = true := by
      rcases escapeRune_high escapeHTML hne hall hlength with h | h | ⟨hne, h⟩
      · exact h ▸ ⟨⟨_, _, rfl, hslash⟩, by decide⟩
      · exact h ▸ ⟨⟨_, _, rfl, hslash⟩, by decide⟩
      · obtain ⟨y, ys, heq⟩ := List.exists_cons_of_ne_nil hne
        exact ⟨⟨y, ys, heq, hhigh y (h y (heq ▸ List.mem_cons_self))⟩, fun x hx => .inl (h x hx)⟩
    exact .inr ⟨hparts.1, ⟨x, xs, htext, hhigh x (hall x (htext ▸ List.mem_cons_self))⟩, hparts.2,
      fun x hx => hhigh x (hall x hx)⟩

/-- A pattern of unescaped bytes stands at the front of a literal exactly if it stands at the front of
the text. -/
theorem prefix_escapeRunes {rs : List Rune}
    (hpattern : ∀ c ∈ pattern, Unescaped escapeHTML c) (hrs : ∀ r ∈ rs, r.WellFormed) :
    pattern <+: rs.flatMap (escapeRune escapeHTML) ↔ pattern <+: rs.flatMap (·.text) := by
  induction pattern generalizing rs with
  | nil => simp
  | cons p pattern ih =>
    cases rs with
    | nil => simp
    | cons r rs =>
      have hrest : ∀ r ∈ rs, r.WellFormed := fun r hr => hrs r (.tail _ hr)
      rw [List.flatMap_cons, List.flatMap_cons]
      rcases escapeRune_cases escapeHTML (hrs r (.head _)) with
        ⟨c, htext, hescape⟩ | ⟨⟨x, xs, hescape, hx⟩, ⟨y, ys, htext, hy⟩, -, -⟩
      · rw [htext, hescape, List.cons_append, List.cons_append, List.cons_prefix_cons,
          List.cons_prefix_cons]
        exact and_congr_right fun _ => ih (fun c hc => hpattern c (.tail _ hc)) hrest
      have hp := hpattern p (.head _)
      rw [htext, hescape, List.cons_append, List.cons_append, List.cons_prefix_cons,
        List.cons_prefix_cons]
      constructor
      · rintro ⟨rfl, -⟩
        exact absurd hp hx
      · rintro ⟨rfl, -⟩
        exact absurd hp hy

/-- A pattern begins behind a text without its first byte. -/
theorem infix_append_of_notMem {p : UInt8} {front : Bytes} (h : p ∉ front) :
    p :: pattern <:+: front ++ text ↔ p :: pattern <:+: text := by
  induction front with
  | nil => rfl
  | cons c front ih =>
    obtain ⟨hc, hfront⟩ := not_or.1 (List.mem_cons.not.1 h)
    rw [List.cons_append, List.infix_cons_iff, List.cons_prefix_cons, ih hfront]
    exact or_iff_right fun hp => hc hp.1

/-- A pattern of unescaped bytes, of which the first is in no escape, occurs in a literal exactly if it
occurs in the text. -/
theorem infix_escape {p : UInt8}
    (hpattern : ∀ c ∈ p :: pattern, Unescaped escapeHTML c) (hp : escapeLetter p = false)
    (text : Bytes) : p :: pattern <:+: escape escapeHTML text ↔ p :: pattern <:+: text := by
  have hlists : ∀ rs : List Rune, (∀ r ∈ rs, r.WellFormed) →
      (p :: pattern <:+: rs.flatMap (escapeRune escapeHTML) ↔
        p :: pattern <:+: rs.flatMap (·.text)) := by
    intro rs hrs
    induction rs with
    | nil => rfl
    | cons r rs ih =>
      have hrest : ∀ r ∈ rs, r.WellFormed := fun r hr => hrs r (.tail _ hr)
      have hfront := @prefix_escapeRunes _ _ (r :: rs) hpattern hrs
      rw [List.flatMap_cons, List.flatMap_cons] at hfront ⊢
      rcases escapeRune_cases escapeHTML (hrs r (.head _)) with
        ⟨c, htext, hescape⟩ | ⟨-, -, hletters, hun⟩
      · rw [htext, hescape] at hfront ⊢
        rw [List.cons_append, List.cons_append, List.infix_cons_iff, List.infix_cons_iff]
        exact or_congr hfront (ih hrest)
      have hpun := hpattern p (.head _)
      have hnotEscape : p ∉ escapeRune escapeHTML r := by
        intro hmem
        rcases hletters p hmem with h | h
        · exact absurd hpun.1 (UInt8.not_lt.2 h)
        · rw [hp] at h
          cases h
      rw [infix_append_of_notMem hnotEscape, infix_append_of_notMem fun hmem => hun p hmem hpun,
        ih hrest]
  have := hlists (runes text) fun r => runes_wellFormed
  rwa [runes_flatMap] at this

theorem le_of_escapeByte_eq {c : UInt8} (h : escapeByte escapeHTML c = [c]) : 0x20 ≤ c := by
  by_contra hle
  have hlen : (escapeByte escapeHTML c).length = 1 := by rw [h]; rfl
  unfold escapeByte at hlen
  split at hlen
  · cases hlen
  iterate 5 (split at hlen; · exact absurd hlen (by decide))
  rw [if_pos (by simp [UInt8.not_le.1 hle]), List.length_append, length_hexEncode] at hlen
  cases hlen

theorem le_of_escapeLetter {c : UInt8} (h : escapeLetter c = true) : 0x20 ≤ c := by
  simp only [escapeLetter, isDigit, Bool.or_eq_true, Bool.and_eq_true, decide_eq_true_eq,
    UInt8.le_iff_toNat_le, UInt8.reduceToNat] at h
  rcases h with ((rfl | rfl) | h) | h
  · decide
  · decide
  · exact Nat.le_trans (by decide) h.1
  · exact Nat.le_trans (by decide) h.1

theorem le_of_mem_escape {c : UInt8} (h : c ∈ escape escapeHTML text) : 0x20 ≤ c := by
  obtain ⟨rune, hrune, hc⟩ := List.mem_flatMap.1 h
  have hwf := runes_wellFormed hrune
  rcases escapeRune_cases escapeHTML hwf with ⟨d, htext, hescape⟩ | ⟨-, -, hletters, -⟩
  · rw [hescape] at hc
    obtain rfl := List.mem_singleton.1 hc
    rcases hwf with ⟨hvalid, e, -, he⟩ | ⟨-, hall, -⟩
    · rw [escapeRune_ascii escapeHTML hvalid htext] at hescape
      exact le_of_escapeByte_eq hescape
    · have hhigh : 0x80 ≤ c := hall c (by simp [htext])
      exact Nat.le_trans (by decide) hhigh
  · rcases hletters c hc with hhigh | hletter
    · exact Nat.le_trans (by decide) hhigh
    · exact le_of_escapeLetter hletter

end Go
