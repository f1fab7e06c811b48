import Mathlib.Data.List.Sort

/-!
# Texts in dictionary order

Texts over an ordered alphabet, and lists of values sorted by a text of theirs.

* `prefix_of_between`: a text between a prefix of a text and that text has the prefix too.
* `sortOn`: a list sorted by a text, which for different texts depends on the elements only.
-/

namespace Scan

variable {α : Type} [LT α] [LE α] [Std.IsLinearOrder α] [Std.LawfulOrderLT α]

theorem prefix_of_between {p q r : List α} (hpq : p ≤ q) (hqr : q ≤ r) (hpr : p <+: r) : p <+: q := by
  induction p generalizing q r with
  | nil => exact List.nil_prefix
  | cons a p ih =>
    obtain ⟨rest, rfl⟩ := hpr
    cases q with
    | nil => exact absurd (List.nil_lt_cons a p) (List.not_lt.2 hpq)
    | cons b q =>
      have hfirst := List.cons_le_cons_iff.1 hpq
      have hlast := List.cons_le_cons_iff.1 hqr
      rcases hfirst with hab | ⟨rfl, hfirst⟩
      · rcases hlast with hba | ⟨rfl, -⟩
        · exact absurd hba (Std.not_gt_of_lt hab)
        · exact absurd hab (Std.lt_irrefl)
      · rcases hlast with haa | ⟨-, hlast⟩
        · exact absurd haa (Std.lt_irrefl)
        · rw [List.prefix_cons_inj]
          exact ih hfirst hlast <| List.prefix_append p rest

section Keys

variable [DecidableEq α] [DecidableLT α] {β : Type} (key : β → List α)

def KeyLE (a b : β) : Prop := key a ≤ key b

instance : DecidableRel (KeyLE key) := fun a b => inferInstanceAs (Decidable (key a ≤ key b))

instance : Std.Total (KeyLE key) := ⟨fun a b => List.le_total (key a) (key b)⟩

instance : IsTrans β (KeyLE key) := ⟨fun _ _ _ h h' => List.le_trans h h'⟩

def sortOn (l : List β) : List β := l.insertionSort (KeyLE key)

variable {key} {l l' : List β}

omit [LE α] [Std.IsLinearOrder α] [Std.LawfulOrderLT α] in
theorem perm_sortOn : (sortOn key l).Perm l := List.perm_insertionSort _ l

theorem sorted_sortOn : (sortOn key l).Pairwise (KeyLE key) := List.pairwise_insertionSort _ l

omit [LE α] [Std.IsLinearOrder α] [Std.LawfulOrderLT α] in
theorem nodup_sortOn : ((sortOn key l).map key).Nodup ↔ (l.map key).Nodup :=
  (perm_sortOn.map key).nodup_iff

theorem eq_sortOn (hsorted : l'.Pairwise (KeyLE key)) (hperm : l'.Perm l) (hkeys : (l.map key).Nodup) :
    l' = sortOn key l := by
  refine @List.Perm.eq_of_pairwise _ (KeyLE key) _ _ (fun a b ha hb hab hba => ?_) hsorted sorted_sortOn
    (hperm.trans perm_sortOn.symm)
  exact List.inj_on_of_nodup_map hkeys (hperm.mem_iff.1 ha) (perm_sortOn.mem_iff.1 hb)
    (List.le_antisymm hab hba)

theorem sortOn_eq_of_perm (h : l.Perm l') (hkeys : (l'.map key).Nodup) : sortOn key l = sortOn key l' :=
  eq_sortOn sorted_sortOn (perm_sortOn.trans h) hkeys

theorem sorted_lt_sortOn (hkeys : (l.map key).Nodup) : ((sortOn key l).map key).Pairwise (· < ·) := by
  refine .imp₂ (fun a b hle hne => ?_) (List.pairwise_map.2 sorted_sortOn)
    (nodup_sortOn.2 hkeys)
  rcases List.le_iff_lt_or_eq.1 hle with hlt | heq
  · exact hlt
  · exact absurd heq hne

end Keys

end Scan
