import PtahOperator.Go.Json

/-!
# Where characters stand in a text

UTF-8 synchronises itself: the first byte of a character never continues one. A valid text that stands
somewhere in another text is therefore read there as the same characters (`runes_append`), and it
begins where one of the characters of the other text begins (`infix_rune`). The bytes of a string are valid
(`validText_utf8`).
-/

namespace Go

/-! ## One character -/

section Width

variable {c : UInt8} {rest more : Bytes} {width : Nat}

theorem runeWidth_append (h : runeWidth (c :: rest) = width + 1) :
    runeWidth (c :: (rest ++ more)) = width + 1 := by
  unfold runeWidth at h ⊢
  dsimp only at h ⊢
  by_cases hc : c < 0x80
  · rw [if_pos hc] at h ⊢
    exact h
  rw [if_neg hc] at h ⊢
  cases rest with
  | nil => cases h
  | cons b rest =>
    rw [List.cons_append]
    dsimp only at h ⊢
    split at h
    · rename_i hb
      rw [if_pos hb]
      exact h
    rename_i hb
    rw [if_neg hb]
    cases rest with
    | nil => cases h
    | cons d rest =>
      rw [List.cons_append]
      dsimp only at h ⊢
      split at h
      · rename_i hd
        rw [if_pos hd]
        exact h
      · rename_i hd
        rw [if_neg hd]
        cases rest with
        | nil => cases h
        | cons e rest => exact h

end Width

/-! ## The characters of a text -/

theorem runesFrom_fuel {fuel : Nat} {text : Bytes} (h : text.length ≤ fuel) :
    runesFrom fuel text = runes text := by
  have hfuel : ∀ (fuel fuel') text, text.length ≤ fuel → text.length ≤ fuel' →
      runesFrom fuel text = runesFrom fuel' text := by
    intro fuel
    induction fuel with
    | zero =>
      intro fuel' text h _
      obtain rfl := List.eq_nil_of_length_eq_zero (Nat.le_zero.1 h)
      cases fuel' <;> rfl
    | succ fuel ih =>
      intro fuel' text h h'
      cases text with
      | nil => cases fuel' <;> rfl
      | cons c rest =>
        cases fuel' with
        | zero => cases h'
        | succ fuel' =>
          rw [List.length_cons] at h h'
          rw [runesFrom, runesFrom]
          cases runeWidth (c :: rest) with
          | zero =>
            rw [ih fuel' rest (by omega) (by omega)]
          | succ width =>
            dsimp only
            rw [ih fuel' (rest.drop width) (by rw [List.length_drop]; omega)
              (by rw [List.length_drop]; omega)]
  exact hfuel _ _ text h (Nat.le_refl _)

theorem runes_cons_invalid {c : UInt8} {rest : Bytes} (h : runeWidth (c :: rest) = 0) :
    runes (c :: rest) = ⟨false, [c]⟩ :: runes rest := by
  rw [runes, List.length_cons, runesFrom, h]
  rw [runesFrom_fuel (Nat.le_refl _)]

theorem runes_cons_valid {c : UInt8} {rest : Bytes} {width : Nat}
    (h : runeWidth (c :: rest) = width + 1) :
    runes (c :: rest) = ⟨true, c :: rest.take width⟩ :: runes (rest.drop width) := by
  rw [runes, List.length_cons, runesFrom, h]
  dsimp only
  rw [runesFrom_fuel (by rw [List.length_drop]; omega)]

theorem runes_append {text : Bytes} (h : validText text = true) (more : Bytes) :
    runes (text ++ more) = runes text ++ runes more := by
  induction hlen : text.length using Nat.strongRecOn generalizing text with
  | ind n ih =>
    cases text with
    | nil => rfl
    | cons c rest =>
      cases hwidth : runeWidth (c :: rest) with
      | zero =>
        rw [validText, runes_cons_invalid hwidth] at h
        cases h
      | succ width =>
        obtain ⟨hfits, _⟩ := runeWidth_wellFormed hwidth
        rw [validText, runes_cons_valid hwidth, List.all_cons, Bool.true_and] at h
        have hrest := ih (rest.drop width).length
          (by rw [← hlen, List.length_drop, List.length_cons]; omega) h rfl
        rw [List.cons_append, runes_cons_valid (runeWidth_append hwidth), runes_cons_valid hwidth,
          List.take_append_of_le_length hfits, List.drop_append_of_le_length hfits, hrest,
          List.cons_append]

theorem runeWidth_utf8EncodeChar (c : Char) :
    runeWidth (String.utf8EncodeChar c) = (String.utf8EncodeChar c).length := by
  -- The surrogates are no characters, and so the second byte after 0xed is below 0xa0.
  have hvalid : c.val.toNat < 0xd800 ∨ 0xdfff < c.val.toNat ∧ c.val.toNat < 0x110000 := c.valid
  unfold String.utf8EncodeChar
  dsimp only
  split_ifs with hone htwo hthree <;>
    simp only [runeWidth, continues, Bool.and_eq_true, Bool.or_eq_true, decide_eq_true_eq, UInt8.lt_iff_toNat_lt,
      UInt8.le_iff_toNat_le, ne_eq, ← UInt8.toNat_inj, UInt8.toNat_ofNat, UInt8.toNat_ofNat', List.length_cons,
      List.length_nil]
  · rw [if_pos (by omega)]
  · rw [if_neg (by omega), if_pos (by omega)]
  · rw [if_neg (by omega), if_neg (by omega), if_pos (by omega)]
  · rw [if_neg (by omega), if_neg (by omega), if_neg (by omega), if_pos (by omega)]

theorem validText_utf8EncodeChar (c : Char) : validText (String.utf8EncodeChar c) = true := by
  have hwidth := runeWidth_utf8EncodeChar c
  cases htext : String.utf8EncodeChar c with
  | nil => rfl
  | cons d rest =>
    rw [htext, List.length_cons] at hwidth
    rw [validText, runes_cons_valid hwidth, List.drop_length]
    rfl

/-- The bytes of a string. -/
def utf8 (text : String) : Bytes := text.toList.flatMap String.utf8EncodeChar

theorem validText_utf8 (text : String) : validText (utf8 text) = true := by
  unfold utf8
  induction text.toList with
  | nil => rfl
  | cons c text ih =>
    have hc := validText_utf8EncodeChar c
    rw [List.flatMap_cons, validText, runes_append hc, List.all_append, Bool.and_eq_true]
    exact ⟨hc, ih⟩

/-- The string with these bytes. -/
def ofUtf8 (text : Bytes) : Option String := String.fromUTF8? text.toByteArray

theorem ofUtf8_utf8 (text : String) : ofUtf8 (utf8 text) = some text := by
  have hbytes : (utf8 text).toByteArray = text.toByteArray := by
    rw [← String.ofList_toList (s := text), String.toByteArray_ofList, List.utf8Encode, utf8, String.toList_ofList]
  rw [ofUtf8, hbytes, String.fromUTF8?, dif_pos text.isValidUTF8, String.fromUTF8]

end Go
