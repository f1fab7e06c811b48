import PtahOperator.Scan.Lines

/-!
# Positions of a pattern

Where a pattern stands in a text, as a position, and the search for it in a window of the text.

- **`index`**: the position of the first occurrence.
- **`Occurs`**: the pattern stands at a position, in front of a limit.
- **`seek`**: the first occurrence from a position on, in front of a limit. It is the least one
  (`seek_eq_some`), so that a search that goes on from an occurrence finds what a search from any
  position in between finds (`seek_of_le`).
-/

namespace Scan

variable {α : Type} {pattern text : List α} {limit start i j : Nat}

/-- `pattern` stands at the position, and ends in front of `limit`. -/
def Occurs (pattern text : List α) (limit position : Nat) : Prop :=
  pattern <+: text.drop position ∧ position + pattern.length ≤ limit

/-- A pattern in the window in front of `limit`. -/
theorem prefix_window (hne : pattern ≠ []) :
    pattern <+: (text.take limit).drop i ↔ Occurs pattern text limit i := by
  have hlen := List.length_pos_iff.2 hne
  rw [List.drop_take]
  constructor
  · intro h
    have hle := h.length_le
    rw [List.length_take] at hle
    exact ⟨h.trans (List.take_prefix _ _), by omega⟩
  · rintro ⟨h, hfits⟩
    exact List.prefix_take_iff.2 ⟨h, by omega⟩

variable [DecidableEq α]

/-- The position of the first `pattern`. -/
def index (pattern text : List α) : Option Nat := (cut pattern text).map (·.1.length)

theorem index_eq_some (hne : pattern ≠ []) (h : index pattern text = some i) :
    pattern <+: text.drop i ∧ ∀ j < i, ¬ pattern <+: text.drop j := by
  induction text generalizing i with
  | nil => simp [index, cut, hne] at h
  | cons c text ih =>
    by_cases hp : pattern <+: c :: text
    · simp only [index, cut_here hp, Option.map_some, List.length_nil, Option.some.injEq] at h
      subst h
      exact ⟨hp, fun j hj => absurd hj (Nat.not_lt_zero j)⟩
    simp only [index, cut_cons_later hp, Option.map_map, Option.map_eq_some_iff] at h
    obtain ⟨found, hfound, rfl⟩ := h
    obtain ⟨hat, hbefore⟩ := ih (by rw [index, hfound]; rfl)
    refine ⟨hat, fun j hj => ?_⟩
    cases j with
    | zero => exact hp
    | succ j => exact hbefore j (Nat.lt_of_succ_lt_succ hj)

theorem index_eq_none (h : index pattern text = none) (j : Nat) : ¬ pattern <+: text.drop j := by
  rw [index, Option.map_eq_none_iff, cut_none_iff] at h
  exact fun hp => h (hp.isInfix.trans (List.drop_suffix j text).isInfix)

/-- The first `pattern` from `start` on that ends in front of `limit`. -/
def seek (pattern text : List α) (limit start : Nat) : Option Nat :=
  (index pattern ((text.take limit).drop start)).map (start + ·)

theorem seek_eq_some (hne : pattern ≠ []) : seek pattern text limit start = some i ↔
    start ≤ i ∧ Occurs pattern text limit i ∧ ∀ j, start ≤ j → j < i →
      ¬ Occurs pattern text limit j := by
  have hoccurs : ∀ k, pattern <+: ((text.take limit).drop start).drop k ↔
      Occurs pattern text limit (start + k) := fun k => by
    rw [List.drop_drop, prefix_window hne]
  constructor
  · intro h
    obtain ⟨k, hk, rfl⟩ := Option.map_eq_some_iff.1 h
    obtain ⟨hat, hbefore⟩ := index_eq_some hne hk
    refine ⟨Nat.le_add_right _ _, (hoccurs k).1 hat, fun j hj hlt hocc => ?_⟩
    obtain ⟨d, rfl⟩ := Nat.exists_eq_add_of_le hj
    exact hbefore d (by omega) ((hoccurs d).2 hocc)
  · rintro ⟨hle, hat, hbefore⟩
    obtain ⟨d, rfl⟩ := Nat.exists_eq_add_of_le hle
    cases hk : index pattern ((text.take limit).drop start) with
    | none => exact absurd ((hoccurs d).2 hat) (index_eq_none hk d)
    | some k =>
      obtain ⟨hat', hbefore'⟩ := index_eq_some hne hk
      have hkd : k = d := by
        rcases Nat.lt_trichotomy k d with hlt | heq | hgt
        · exact absurd ((hoccurs k).1 hat') (hbefore (start + k) (by omega) (by omega))
        · exact heq
        · exact absurd ((hoccurs d).2 hat) (hbefore' d hgt)
      rw [seek, hk, hkd]
      rfl

theorem seek_eq_none (hne : pattern ≠ []) : seek pattern text limit start = none ↔
    ∀ j, start ≤ j → ¬ Occurs pattern text limit j := by
  constructor
  · intro h j hj hocc
    rw [seek, Option.map_eq_none_iff] at h
    obtain ⟨d, rfl⟩ := Nat.exists_eq_add_of_le hj
    refine index_eq_none h d ?_
    rw [List.drop_drop, prefix_window hne]
    exact hocc
  · intro h
    cases hn : seek pattern text limit start with
    | none => rfl
    | some i =>
      obtain ⟨hle, hocc, _⟩ := (seek_eq_some hne).1 hn
      exact absurd hocc (h i hle)

/-- The search from a position that no occurrence stands in front of. -/
theorem seek_of_le (hne : pattern ≠ []) (hle : start ≤ j)
    (hnone : ∀ k, start ≤ k → k < j → ¬ Occurs pattern text limit k) :
    seek pattern text limit start = seek pattern text limit j := by
  cases hn : seek pattern text limit j with
  | none =>
    rw [seek_eq_none hne] at hn ⊢
    intro k hk hocc
    rcases Nat.lt_or_ge k j with hlt | hge
    · exact hnone k hk hlt hocc
    · exact hn k hge hocc
  | some i =>
    obtain ⟨hji, hocc, hbefore⟩ := (seek_eq_some hne).1 hn
    refine (seek_eq_some hne).2 ⟨Nat.le_trans hle hji, hocc, fun k hk hlt => ?_⟩
    rcases Nat.lt_or_ge k j with hkj | hkj
    · exact hnone k hk hkj
    · exact hbefore k hkj hlt

/-- The first occurrence says whether there is one that begins in front of `bound`. -/
theorem seek_any_lt (hne : pattern ≠ []) (bound : Nat) :
    (seek pattern text limit start).any (· < bound) = true ↔
      ∃ i, start ≤ i ∧ i < bound ∧ Occurs pattern text limit i := by
  cases hn : seek pattern text limit start with
  | none =>
    rw [seek_eq_none hne] at hn
    constructor
    · intro h
      cases h
    · rintro ⟨i, hle, _, hocc⟩
      exact absurd hocc (hn i hle)
  | some i =>
    obtain ⟨hle, hocc, hbefore⟩ := (seek_eq_some hne).1 hn
    simp only [Option.any_some, decide_eq_true_eq]
    constructor
    · exact fun hlt => ⟨i, hle, hlt, hocc⟩
    rintro ⟨k, hk, hlt, hocc'⟩
    by_contra hnot
    exact hbefore k hk (by omega) hocc'

/-- The same, with the distance from where the search began. -/
theorem seek_any_sub_lt (hne : pattern ≠ []) (bound : Nat) :
    (seek pattern text limit start).any (· - start < bound) = true ↔
      ∃ i, start ≤ i ∧ i < start + bound ∧ Occurs pattern text limit i := by
  rw [← seek_any_lt hne]
  cases hn : seek pattern text limit start with
  | none => rfl
  | some i =>
    obtain ⟨hle, _, _⟩ := (seek_eq_some hne).1 hn
    simp only [Option.any_some, decide_eq_true_eq]
    omega

end Scan
