import Mathlib.Algebra.Ring.Nat
import Mathlib.Data.List.Basic

/-!
# Searching a text for a pattern

Texts are lists of characters of an arbitrary type.

* `cut`: the text in front of the first occurrence of a pattern and the text behind it.
* `cut_eq`: a found occurrence splits the text.
* `cut_append`: a cut that leaves a context behind it does not depend on that context.
* `append_cons_inj_front`, `append_cons_inj_back`: where a separator splits a text.
-/

namespace Scan

variable {α : Type} [DecidableEq α] {pattern text context left right : List α}

/-- The text in front of the first `pattern` and the text behind it. -/
def cut (pattern : List α) : List α → Option (List α × List α)
  | [] => if pattern = [] then some ([], []) else none
  | c :: text =>
    if pattern.isPrefixOf (c :: text) then some ([], (c :: text).drop pattern.length)
    else (cut pattern text).map fun found => (c :: found.1, found.2)

theorem cut_here (h : pattern <+: text) :
    cut pattern text = some ([], text.drop pattern.length) := by
  cases text with
  | nil => simp [cut, List.prefix_nil.1 h]
  | cons c text => rw [cut, if_pos <| List.isPrefixOf_iff_prefix.2 h]

theorem cut_cons_later {c : α} (h : ¬ pattern <+: c :: text) :
    cut pattern (c :: text) = (cut pattern text).map fun found => (c :: found.1, found.2) := by
  rw [cut, if_neg (fun hp => h (List.isPrefixOf_iff_prefix.1 hp))]

theorem cut_eq (h : cut pattern text = some (left, right)) : text = left ++ pattern ++ right := by
  induction text generalizing left with
  | nil =>
    by_cases hp : pattern = []
    · simp only [cut, hp, if_true, Option.some.injEq, Prod.mk.injEq] at h
      simp [← h.1, ← h.2, hp]
    · simp [cut, hp] at h
  | cons c text ih =>
    by_cases hp : pattern <+: c :: text
    · rw [cut_here hp] at h
      obtain ⟨rfl, rfl⟩ := Prod.mk.inj (Option.some.inj h)
      rw [List.nil_append, List.prefix_iff_eq_append.1 hp]
    · rw [cut_cons_later hp] at h
      obtain ⟨found, hfound, heq⟩ := Option.map_eq_some_iff.1 h
      obtain ⟨rfl, rfl⟩ := Prod.mk.inj heq
      simp [← ih hfound]

theorem cut_length_lt (hp : pattern ≠ []) (h : cut pattern text = some (left, right)) :
    left.length < text.length ∧ right.length < text.length := by
  have hlen := List.length_pos_iff.2 hp
  rw [cut_eq h]
  simp only [List.length_append]
  omega

/-- A pattern that the text in front of it does not complete is found where it stands. -/
theorem cut_left (h : cut pattern (left ++ pattern ++ right) = some (left, right))
    (context : List α) :
    cut pattern (left ++ pattern ++ context) = some (left, context) := by
  induction left with
  | nil =>
    rw [List.nil_append, cut_here (List.prefix_append _ _), List.drop_left]
  | cons c left ih =>
    have hnot : ¬ pattern <+: c :: (left ++ pattern ++ right) := by
      intro hp
      rw [List.cons_append, List.cons_append, cut_here hp] at h
      cases h
    -- The occurrence would lie inside the text up to the end of the pattern, with any context.
    have hnot' : ¬ pattern <+: c :: (left ++ pattern ++ context) := by
      intro hp
      refine hnot ?_
      rw [← List.cons_append] at hp ⊢
      refine (List.prefix_of_prefix_length_le hp (List.prefix_append _ _) ?_).trans
        (List.prefix_append _ _)
      simp only [List.length_cons, List.length_append]
      omega
    simp only [List.cons_append] at h ⊢
    rw [cut_cons_later hnot] at h
    obtain ⟨found, hfound, heq⟩ := Option.map_eq_some_iff.1 h
    obtain ⟨hcons, rfl⟩ := Prod.mk.inj heq
    obtain rfl := (List.cons.inj hcons).2
    rw [cut_cons_later hnot', ih hfound]
    rfl

/-- A cut that leaves a context behind it does not depend on that context. -/
theorem cut_append (h : cut pattern (text ++ context) = some (left, right ++ context)) :
    cut pattern text = some (left, right) := by
  have heq := cut_eq h
  rw [← List.append_assoc] at heq
  obtain rfl := List.append_cancel_right heq
  rw [List.append_assoc] at h
  exact cut_left h right

/-! ## Separators -/

section Separators

variable {α : Type} {c : α} {a b x y : List α}

/-- A separator that neither front contains splits a text in one way. -/
theorem append_cons_inj_front (ha : c ∉ a) (hb : c ∉ b) (h : a ++ c :: x = b ++ c :: y) :
    a = b ∧ x = y := by
  rcases List.append_eq_append_iff.1 h with ⟨front, rfl, hrest⟩ | ⟨front, rfl, hrest⟩
  · cases front with
    | nil => exact ⟨(List.append_nil _).symm, (List.cons.inj hrest).2⟩
    | cons d front =>
      cases (List.cons.inj hrest).1
      exact absurd (List.mem_append_right _ (.head _)) hb
  · cases front with
    | nil => exact ⟨List.append_nil _, (List.cons.inj hrest).2.symm⟩
    | cons d front =>
      cases (List.cons.inj hrest).1
      exact absurd (List.mem_append_right _ (.head _)) ha

theorem append_cons_inj_back (hx : c ∉ x) (hy : c ∉ y) (h : a ++ c :: x = b ++ c :: y) :
    a = b ∧ x = y := by
  have hreverse : x.reverse ++ c :: a.reverse = y.reverse ++ c :: b.reverse := by
    simpa using congrArg List.reverse h
  obtain ⟨hback, hfront⟩ := append_cons_inj_front (by simpa using hx) (by simpa using hy) hreverse
  exact ⟨List.reverse_injective hfront, List.reverse_injective hback⟩

end Separators

end Scan
