import Mathlib.Logic.Function.Basic

/-!
# Cells that are taken down in an order

A cell is changed only after every cell before it was cleared, and a cleared cell stays so. In every
state from there on, a cell that has changed has only cleared cells before it.
-/

namespace Conc

variable {K V : Type} {before : K → K → Prop} {start now next : K → Option V}

/-- Every cell before one that has changed since `start` is cleared. -/
def Ordered (before : K → K → Prop) (start now : K → Option V) : Prop :=
  ∀ x y, before x y → now y ≠ start y → now x = none

namespace Ordered

theorem refl : Ordered before start start := fun _ _ _ h => absurd rfl h

theorem change (h : Ordered before start now) {k : K} (hpresent : now k ≠ none)
    (hfirst : ∀ x, before x k → now x = none) (hrest : ∀ x, x ≠ k → next x = now x) :
    Ordered before start next := by
  intro x y hxy hy
  by_cases hyk : y = k
  · subst hyk
    have hx := hfirst x hxy
    have hne : x ≠ y := by
      rintro rfl
      exact hpresent hx
    rw [hrest x hne, hx]
  · rw [hrest y hyk] at hy
    have hx := h x y hxy hy
    have hne : x ≠ k := by
      rintro rfl
      exact hpresent hx
    rw [hrest x hne, hx]

theorem frame (h : Ordered before start now)
    (hsame : ∀ x y, before x y → next x = now x ∧ next y = now y) : Ordered before start next := by
  intro x y hxy hy
  obtain ⟨hx', hy'⟩ := hsame x y hxy
  rw [hy'] at hy
  rw [hx', h x y hxy hy]

end Ordered

end Conc
