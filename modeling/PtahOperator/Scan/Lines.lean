import PtahOperator.Scan.Cut

/-!
# Texts made of lines

A separator ends each line. A pattern without the separator lies inside one line, so that a search
goes line by line.

* `unlines`: the text of complete lines.
* `cut_unlines`: a search passes lines that do not hold the pattern.
-/

namespace Scan

variable {α : Type} [DecidableEq α] {sep : α} {pattern text line rest p a b : List α}
  {ls : List (List α)}

/-- The text of complete lines, each with the separator that ends it. -/
def unlines (sep : α) (ls : List (List α)) : List α := ls.flatMap (· ++ [sep])

omit [DecidableEq α] in
theorem unlines_cons (sep : α) (line : List α) (ls : List (List α)) :
    unlines sep (line :: ls) = line ++ sep :: unlines sep ls := by
  simp [unlines]

omit [DecidableEq α] in
theorem unlines_append (sep : α) (ls ms : List (List α)) :
    unlines sep (ls ++ ms) = unlines sep ls ++ unlines sep ms :=
  List.flatMap_append

omit [DecidableEq α] in
theorem length_unlines (sep : α) (ls : List (List α)) :
    (unlines sep ls).length = (ls.map fun line => line.length + 1).sum := by
  simp [unlines, List.length_flatMap]

omit [DecidableEq α] in
theorem unlines_eq_intercalate (hne : ls ≠ []) : unlines sep ls = [sep].intercalate ls ++ [sep] := by
  induction ls with
  | nil => exact absurd rfl hne
  | cons line ls ih =>
    rw [unlines_cons]
    cases ls with
    | nil => simp [unlines]
    | cons next ls =>
      rw [ih (List.cons_ne_nil _ _), List.intercalate_cons_cons]
      simp

theorem splitOn_unlines (h : ∀ line ∈ ls, sep ∉ line) (hne : ls ≠ []) :
    (unlines sep ls).getLast? = some sep ∧ (unlines sep ls).dropLast.splitOn sep = ls := by
  rw [unlines_eq_intercalate hne, List.getLast?_concat, List.dropLast_concat]
  exact ⟨rfl, List.splitOn_intercalate sep h hne⟩

omit [DecidableEq α] in
theorem prefix_append_cases (h : p <+: a ++ b) : p <+: a ∨ ∃ q, q <+: b ∧ p = a ++ q := by
  rcases List.prefix_or_prefix_of_prefix h (List.prefix_append a b) with hp | ⟨q, rfl⟩
  · exact .inl hp
  · exact .inr ⟨q, (List.prefix_append_right_inj a).1 h, rfl⟩

omit [DecidableEq α] in
/-- A text without the separator at the front of a line and what follows it lies in the line. -/
theorem prefix_line (h : p <+: line ++ sep :: rest) (hs : sep ∉ p) : p <+: line := by
  rcases prefix_append_cases h with hp | ⟨q, hq, rfl⟩
  · exact hp
  cases q with
  | nil => exact (List.append_nil line).symm ▸ List.prefix_rfl
  | cons c q =>
    rw [List.cons_prefix_cons] at hq
    exact absurd (List.mem_append_right _ (hq.1 ▸ List.mem_cons_self)) hs

theorem cut_none_iff : cut pattern text = none ↔ ¬ pattern <:+: text := by
  induction text with
  | nil => simp [cut, List.infix_nil]
  | cons c text ih =>
    rw [List.infix_cons_iff, not_or, ← ih]
    by_cases hp : pattern <+: c :: text
    · simp [cut_here hp, hp]
    · simp [cut_cons_later hp, hp]

theorem cut_pass {c : α} (hc : c ∉ a) : cut (c :: pattern) (a ++ b) =
    (cut (c :: pattern) b).map fun found => (a ++ found.1, found.2) := by
  induction a with
  | nil => simp
  | cons d a ih =>
    obtain ⟨hd, ha⟩ := not_or.1 (List.mem_cons.not.1 hc)
    have hnot : ¬ c :: pattern <+: d :: (a ++ b) := fun hp => hd (List.cons_prefix_cons.1 hp).1
    rw [List.cons_append, cut_cons_later hnot, ih ha, Option.map_map]
    rfl

/-- What a search finds first in a text, it finds in each rest of the text that holds it. -/
theorem cut_rest {left behind : List α} (h : cut pattern (a ++ b) = some (left, behind))
    (hlen : pattern.length + behind.length ≤ b.length) :
    ∃ left', cut pattern b = some (left', behind) := by
  induction a generalizing left with
  | nil => exact ⟨left, h⟩
  | cons d a ih =>
    by_cases hp : pattern <+: d :: (a ++ b)
    · rw [List.cons_append, cut_here hp] at h
      obtain ⟨-, rfl⟩ := Prod.mk.inj (Option.some.inj h)
      simp only [List.length_drop, List.length_cons, List.length_append] at hlen
      have := hp.length_le
      omega
    · rw [List.cons_append, cut_cons_later hp] at h
      obtain ⟨found, hfound, heq⟩ := Option.map_eq_some_iff.1 h
      obtain ⟨-, rfl⟩ := Prod.mk.inj heq
      exact ih hfound

omit [DecidableEq α] in
/-- A pattern that begins only once in itself does not begin in a text that does not hold it, if its
first symbol or nothing follows. -/
theorem not_prefix_front {c d : α} (hc : c ∉ pattern) (ha : ¬ c :: pattern <:+: d :: a)
    (hb : ∀ e, b.head? = some e → e = c) : ¬ c :: pattern <+: d :: (a ++ b) := by
  intro hp
  rcases prefix_append_cases (show c :: pattern <+: (d :: a) ++ b from hp) with hin | ⟨q, hq, heq⟩
  · exact ha hin.isInfix
  cases q with
  | nil =>
    rw [List.append_nil] at heq
    exact ha (heq ▸ List.infix_rfl)
  | cons e q =>
    obtain ⟨t, ht⟩ := hq
    have he : e = c := hb e (by rw [← ht]; rfl)
    have hmem : c ∈ a ++ e :: q := he ▸ List.mem_append_right _ (.head _)
    exact hc ((List.cons.inj heq).2 ▸ hmem)

/-- Such a pattern is found behind a text that does not hold it. -/
theorem cut_first {c : α} (hc : c ∉ pattern) (ha : ¬ c :: pattern <:+: a) :
    cut (c :: pattern) (a ++ (c :: pattern ++ b)) = some (a, b) := by
  induction a with
  | nil =>
    rw [List.nil_append, cut_here (List.prefix_append _ _), List.drop_left]
  | cons d a ih =>
    have hnot : ¬ c :: pattern <+: d :: (a ++ (c :: pattern ++ b)) :=
      not_prefix_front hc ha fun e he => (Option.some.inj he).symm
    rw [List.infix_cons_iff, not_or] at ha
    rw [List.cons_append, cut_cons_later hnot, ih ha.2]
    rfl

omit [DecidableEq α] in
/-- Nor does a part of it complete one. -/
theorem not_infix_part {c : α} (hc : c ∉ pattern) (ha : ¬ c :: pattern <:+: a)
    (hp : p <+: c :: pattern) (hne : p ≠ c :: pattern) : ¬ c :: pattern <:+: a ++ p := by
  have hhead : ∀ e, p.head? = some e → e = c := by
    intro e he
    cases p with
    | nil => cases he
    | cons d p => exact (Option.some.inj he).symm.trans (List.cons_prefix_cons.1 hp).1
  induction a with
  | nil => exact fun h => hne (hp.eq_of_length_le h.length_le)
  | cons d a ih =>
    have hnot := not_prefix_front hc ha hhead
    rw [List.infix_cons_iff, not_or] at ha
    rw [List.cons_append, List.infix_cons_iff, not_or]
    exact ⟨hnot, ih ha.2⟩

/-- Each occurrence of such a pattern is the first one or stands behind it. -/
theorem cut_next {c : α} {left behind : List α} (hc : c ∉ pattern)
    (h : cut (c :: pattern) text = some (left, behind)) (hs : c :: (pattern ++ b) <:+ text) :
    b = behind ∨ c :: (pattern ++ b) <:+ behind := by
  induction text generalizing left with
  | nil => cases List.suffix_nil.1 hs
  | cons d text ih =>
    by_cases hp : c :: pattern <+: d :: text
    · rw [cut_here hp] at h
      obtain ⟨-, rfl⟩ := Prod.mk.inj (Option.some.inj h)
      obtain ⟨behind, hbehind⟩ := hp
      rw [← hbehind, List.drop_left]
      rw [← hbehind, List.cons_append] at hs
      rcases List.suffix_cons_iff.1 hs with heq | hs
      · exact .inl (List.append_cancel_left (List.cons.inj heq).2)
      right
      rcases Nat.le_total (c :: (pattern ++ b)).length behind.length with hle | hle
      · exact List.suffix_of_suffix_length_le hs (List.suffix_append _ _) hle
      obtain ⟨u, hu⟩ := List.suffix_of_suffix_length_le (List.suffix_append _ _) hs hle
      cases u with
      | nil => exact hu ▸ List.suffix_rfl
      | cons e u =>
        obtain rfl := (List.cons.inj hu).1
        obtain ⟨v, hv⟩ := hs
        rw [← hu, ← List.append_assoc] at hv
        have hmem : e ∈ pattern :=
          (List.append_cancel_right hv) ▸ List.mem_append_right v (.head _)
        exact absurd hmem hc
    · rw [cut_cons_later hp] at h
      obtain ⟨found, hfound, heq⟩ := Option.map_eq_some_iff.1 h
      obtain ⟨-, rfl⟩ := Prod.mk.inj heq
      rcases List.suffix_cons_iff.1 hs with heq | hs
      · exact absurd ⟨b, heq⟩ hp
      · exact ih hfound hs

theorem sep_notMem_of_cut (h : cut [sep] text = some (line, rest)) : sep ∉ line := by
  induction text generalizing line with
  | nil => cases h
  | cons c text ih =>
    by_cases hp : [sep] <+: c :: text
    · rw [cut_here hp] at h
      obtain ⟨rfl, -⟩ := Prod.mk.inj (Option.some.inj h)
      exact nofun
    rw [cut_cons_later hp] at h
    obtain ⟨found, hfound, heq⟩ := Option.map_eq_some_iff.1 h
    obtain ⟨rfl, rfl⟩ := Prod.mk.inj heq
    intro hmem
    rcases hmem with _ | ⟨_, hmem⟩
    · exact hp (List.prefix_append [sep] text)
    · exact ih hfound hmem

theorem cut_sep (h : sep ∉ line) : cut [sep] (line ++ sep :: rest) = some (line, rest) := by
  induction line with
  | nil =>
    have hhead : [sep] <+: sep :: rest := List.prefix_append [sep] rest
    rw [List.nil_append, cut_here hhead]
    rfl
  | cons c line ih =>
    obtain ⟨hc, hline⟩ := not_or.1 (List.mem_cons.not.1 h)
    rw [List.cons_append, cut_cons_later, ih hline]
    · rfl
    · rw [List.cons_prefix_cons]
      exact fun hp => hc hp.1

theorem cut_line (hs : sep ∉ pattern) (hne : pattern ≠ []) (h : ¬ pattern <:+: line) :
    cut pattern (line ++ sep :: rest) =
      (cut pattern rest).map fun found => (line ++ sep :: found.1, found.2) := by
  induction line with
  | nil =>
    have hnot : ¬ pattern <+: sep :: rest := fun hp =>
      hne (List.prefix_nil.1 (@prefix_line _ sep [] rest pattern hp hs))
    rw [List.nil_append, cut_cons_later hnot]
    rfl
  | cons c line ih =>
    rw [List.infix_cons_iff, not_or] at h
    have hnot : ¬ pattern <+: c :: (line ++ sep :: rest) := fun hp =>
      h.1 (@prefix_line _ sep (c :: line) rest pattern hp hs)
    rw [List.cons_append, cut_cons_later hnot, ih h.2, Option.map_map]
    rfl

/-- A pattern without the separator lies in front of it or behind it. -/
theorem infix_line_iff (hs : sep ∉ pattern) (hne : pattern ≠ []) :
    pattern <:+: line ++ sep :: rest ↔ pattern <:+: line ∨ pattern <:+: rest := by
  by_cases h : pattern <:+: line
  · simp only [h, true_or, iff_true]
    exact h.trans (List.prefix_append _ _).isInfix
  · simp only [h, false_or]
    rw [← not_iff_not, ← cut_none_iff, ← cut_none_iff, cut_line hs hne h, Option.map_eq_none_iff]

theorem cut_unlines (hs : sep ∉ pattern) (hne : pattern ≠ [])
    (h : ∀ line ∈ ls, ¬ pattern <:+: line) :
    cut pattern (unlines sep ls ++ rest) =
      (cut pattern rest).map fun found => (unlines sep ls ++ found.1, found.2) := by
  induction ls with
  | nil => simp [unlines]
  | cons line ls ih =>
    rw [unlines_cons, List.append_assoc, List.cons_append, cut_line hs hne (h line (.head _)),
      ih fun l hl => h l (.tail _ hl), Option.map_map]
    simp [Function.comp_def]

omit [DecidableEq α] in
/-- A pattern without the separator that occurs in lines and a rest lies in one line, or in the
rest. -/
theorem occurs_unlines (hs : sep ∉ pattern) (hne : pattern ≠ [])
    (h : unlines sep ls ++ rest = a ++ (pattern ++ b)) :
    (∃ line ∈ ls, ∃ u v w, line = u ++ (pattern ++ v) ∧ b = v ++ sep :: w) ∨ pattern <:+: rest := by
  induction ls generalizing a with
  | nil => exact .inr ⟨a, b, by rw [List.append_assoc]; exact h.symm⟩
  | cons line ls ih =>
    rw [unlines_cons, List.append_assoc, List.cons_append] at h
    rcases List.append_eq_append_iff.1 h with ⟨c, rfl, hc⟩ | ⟨c, rfl, hc⟩
    · cases c with
      | nil =>
        have hhead : pattern <+: [] ++ sep :: (unlines sep ls ++ rest) := ⟨b, hc.symm⟩
        exact absurd (List.prefix_nil.1 (prefix_line hhead hs)) hne
      | cons d c =>
        rcases ih (List.cons.inj hc).2 with ⟨l, hl, hlines⟩ | hrest
        · exact .inl ⟨l, .tail _ hl, hlines⟩
        · exact .inr hrest
    · obtain ⟨v, rfl⟩ := prefix_line ⟨b, hc⟩ hs
      rw [List.append_assoc, List.append_cancel_left_eq] at hc
      exact .inl ⟨_, .head _, a, v, _, rfl, hc⟩

omit [DecidableEq α] in
/-- A text at the front of lines and a rest ends inside a line, or in the rest. -/
theorem prefix_unlines (h : p <+: unlines sep ls ++ rest) :
    ∃ ms part, ms <+: ls ∧ ((∃ line ∈ ls, part <+: line) ∨ ms = ls ∧ part <+: rest) ∧
      p = unlines sep ms ++ part := by
  induction ls generalizing p with
  | nil => exact ⟨[], p, List.nil_prefix, .inr ⟨rfl, h⟩, rfl⟩
  | cons line ls ih =>
    rw [unlines_cons, List.append_assoc, List.cons_append] at h
    rcases prefix_append_cases h with hp | ⟨q, hq, rfl⟩
    · exact ⟨[], p, List.nil_prefix, .inl ⟨line, by simp, hp⟩, rfl⟩
    cases q with
    | nil =>
      exact ⟨[], line, List.nil_prefix, .inl ⟨line, by simp, List.prefix_rfl⟩, List.append_nil line⟩
    | cons c q =>
      obtain ⟨rfl, hq⟩ := List.cons_prefix_cons.1 hq
      obtain ⟨ms, part, hms, hpart, rfl⟩ := ih hq
      refine ⟨line :: ms, part, List.cons_prefix_cons.2 ⟨rfl, hms⟩, ?_, ?_⟩
      · rcases hpart with ⟨l, hl, hpart⟩ | ⟨rfl, hpart⟩
        · exact .inl ⟨l, .tail _ hl, hpart⟩
        · exact .inr ⟨rfl, hpart⟩
      · rw [unlines_cons, List.append_assoc, List.cons_append]

omit [DecidableEq α] in
/-- A pattern behind a separator stands at the front of a line. -/
theorem line_of_occurs (hs : sep ∉ pattern) (hls : ∀ line ∈ ls, sep ∉ line) (hrest : sep ∉ rest)
    (h : sep :: pattern <:+: unlines sep ls ++ rest) : ∃ line ∈ ls ++ [rest], pattern <+: line := by
  induction ls with
  | nil => exact absurd (h.subset (.head _)) hrest
  | cons line ls ih =>
    obtain ⟨a, b, hab⟩ := h
    rw [unlines_cons, List.append_assoc, List.append_assoc, List.cons_append, List.cons_append] at hab
    have hnext : ∀ b, pattern ++ b = unlines sep ls ++ rest →
        ∃ line' ∈ line :: ls ++ [rest], pattern <+: line' := by
      intro b hb
      cases ls with
      | nil => exact ⟨rest, by simp, b, hb⟩
      | cons l ls =>
        rw [unlines_cons, List.append_assoc, List.cons_append] at hb
        exact ⟨l, by simp, prefix_line ⟨b, hb⟩ hs⟩
    rcases List.append_eq_append_iff.1 hab with ⟨c, rfl, hc⟩ | ⟨c, rfl, hc⟩
    · cases c with
      | nil => exact hnext b (List.cons.inj hc).2
      | cons d c =>
        obtain ⟨rfl, -⟩ := List.cons.inj hc
        exact absurd (List.mem_append_right _ (.head _)) (hls _ (.head _))
    · cases c with
      | nil => exact hnext b (List.cons.inj hc).2.symm
      | cons d c =>
        have hlater : sep :: pattern <:+: unlines sep ls ++ rest :=
          ⟨c, b, by rw [List.append_assoc]; exact (List.cons.inj hc).2.symm⟩
        obtain ⟨l, hl, hp⟩ := ih (fun l hl => hls l (.tail _ hl)) hlater
        exact ⟨l, .tail _ hl, hp⟩

end Scan
