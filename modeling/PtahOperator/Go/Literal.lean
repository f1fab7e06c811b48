import PtahOperator.Go.Json

/-!
# Reading a JSON literal back

A reader of the literals that `encoding/json` writes. Every text is read back, with the replacement
character for each byte outside a character, whatever follows (`readLiteral_escape`).
-/

namespace Go

def letterByte (letter : UInt8) : Option UInt8 :=
  List.lookup letter [(0x22, 0x22), (0x5c, 0x5c), (0x62, 0x08), (0x66, 0x0c), (0x6e, 0x0a), (0x72, 0x0d),
    (0x74, 0x09)]

/-- The text of an escape of four digits, among those that are written. -/
def digitsText : Option Bytes → Option Bytes
  | some [0, low] => some [low]
  | some [0x20, 0x28] => some [0xe2, 0x80, 0xa8]
  | some [0x20, 0x29] => some [0xe2, 0x80, 0xa9]
  | _ => none

/-- The text of a literal behind its opening quote, and what follows the closing one. -/
def readLiteral : Bytes → Option (Bytes × Bytes)
  | [] => none
  | c :: rest =>
    if c = 0x22 then some ([], rest)
    else if c ≠ 0x5c then (readLiteral rest).map fun read => (c :: read.1, read.2)
    else match rest with
    | [] => none
    | letter :: rest =>
      if letter ≠ 0x75 then do
        let byte ← letterByte letter
        (readLiteral rest).map fun read => (byte :: read.1, read.2)
      else match rest with
      | p :: q :: r :: s :: rest => do
        let text ← digitsText (hexDecode [p, q, r, s])
        (readLiteral rest).map fun read => (text ++ read.1, read.2)
      | _ => none

section

variable {escapeHTML : Bool} {text rest : Bytes}

theorem readLiteral_plain {c : UInt8} (hquote : c ≠ 0x22) (hslash : c ≠ 0x5c) (rest : Bytes) :
    readLiteral (c :: rest) = (readLiteral rest).map fun read => ([c] ++ read.1, read.2) := by
  rw [readLiteral.eq_def]
  simp only [if_neg hquote, if_pos hslash, List.singleton_append]

theorem readLiteral_high (h : ∀ c ∈ text, (0x80 : UInt8) ≤ c) (rest : Bytes) :
    readLiteral (text ++ rest) = (readLiteral rest).map fun read => (text ++ read.1, read.2) := by
  induction text with
  | nil => simp
  | cons c text ih =>
    have hc := h c (.head _)
    rw [List.cons_append, readLiteral_plain (by rintro rfl; exact absurd hc (by decide))
      (by rintro rfl; exact absurd hc (by decide)), ih fun d hd => h d (.tail _ hd),
      Option.map_map]
    rfl

theorem readLiteral_digits (high low : UInt8) (rest : Bytes) :
    readLiteral (bytes "\\u" ++ hexEncode [high, low] ++ rest) = (digitsText (some [high, low])).bind fun text =>
      (readLiteral rest).map fun read => (text ++ read.1, read.2) := by
  have hdigits := hexDecode_hexEncode [high, low]
  rw [← hdigits, readLiteral.eq_def]
  rfl

theorem readLiteral_letter {letter c : UInt8} (hletter : letter ≠ 0x75) (h : letterByte letter = some c)
    (rest : Bytes) : readLiteral (0x5c :: letter :: rest) =
      (readLiteral rest).map fun read => ([c] ++ read.1, read.2) := by
  rw [readLiteral.eq_def]
  simp [hletter, h]

theorem readLiteral_escapeByte (escapeHTML : Bool) (c : UInt8) (rest : Bytes) :
    readLiteral (escapeByte escapeHTML c ++ rest) =
      (readLiteral rest).map fun read => ([c] ++ read.1, read.2) := by
  unfold escapeByte
  split
  · rename_i h
    simp only [Bool.or_eq_true, decide_eq_true_eq] at h
    rcases h with rfl | rfl <;> exact readLiteral_letter (by decide) rfl rest
  rename_i hplain
  simp only [Bool.or_eq_true, decide_eq_true_eq, not_or] at hplain
  split_ifs with h h h h h h
  · exact h ▸ readLiteral_letter (by decide) rfl rest
  · exact h ▸ readLiteral_letter (by decide) rfl rest
  · exact h ▸ readLiteral_letter (by decide) rfl rest
  · exact h ▸ readLiteral_letter (by decide) rfl rest
  · exact h ▸ readLiteral_letter (by decide) rfl rest
  · exact readLiteral_digits 0 c rest
  · exact readLiteral_plain hplain.1 hplain.2 rest

theorem readLiteral_escapeRune (escapeHTML : Bool) {rune : Rune} (h : rune.WellFormed) (rest : Bytes) :
    readLiteral (escapeRune escapeHTML rune ++ rest) = (readLiteral rest).map fun read =>
      ((if rune.valid then rune.text else replacement) ++ read.1, read.2) := by
  rcases h with ⟨hvalid, c, -, htext⟩ | ⟨hne, hall, hlength⟩
  · rw [escapeRune_ascii escapeHTML hvalid htext, hvalid, htext]
    exact readLiteral_escapeByte escapeHTML c rest
  unfold escapeRune
  cases hvalid : rune.valid with
  | false => exact @readLiteral_high replacement (by decide) rest
  | true =>
    simp only [Bool.not_true, Bool.false_eq_true, if_false, if_true]
    split_ifs with hline hparagraph
    · rw [hline]
      exact readLiteral_digits 0x20 0x28 rest
    · rw [hparagraph]
      exact readLiteral_digits 0x20 0x29 rest
    split
    · rename_i c hc
      rw [hlength.2 (by rw [hc]; rfl)] at hvalid
      cases hvalid
    · exact readLiteral_high hall rest

theorem readLiteral_escape (escapeHTML : Bool) (text rest : Bytes) :
    readLiteral (escape escapeHTML text ++ 0x22 :: rest) = some (toValid text, rest) := by
  have hlists : ∀ rs : List Rune, (∀ r ∈ rs, r.WellFormed) →
      readLiteral (rs.flatMap (escapeRune escapeHTML) ++ 0x22 :: rest) =
        some (rs.flatMap fun r => if r.valid then r.text else replacement, rest) := by
    intro rs
    induction rs with
    | nil => exact fun _ => readLiteral.eq_def (0x22 :: rest)
    | cons r rs ih =>
      intro hrs
      rw [List.flatMap_cons, List.append_assoc, readLiteral_escapeRune escapeHTML (hrs r (.head _)),
        ih fun r hr => hrs r (.tail _ hr)]
      rfl
  exact hlists _ fun r hr => runes_wellFormed hr

end

end Go
