import Mathlib.Data.List.Infix

/-!
# The versions of a stored object

A server stores an object version by version, and a compare-and-swap names the version it
replaces. A `History` is the list of these versions, oldest first, where `none` is a deletion; it
only grows at its end. `Grown legal h` says that each entry was legal over the entries before it:
an invariant of this form is kept by every append of a legal entry, and what it says of a whole
history is read off the histories before each version.

`Logged legal log` says the same of a log that grows at its front.
-/

namespace Conc

variable {α : Type} {h h' : List (Option α)} {n : Nat} {x : α}

/-- The versions of an object, oldest first. -/
abbrev History (α : Type) := List (Option α)

namespace History

/-- Version `n` is `x`. -/
def Stored (h : History α) (n : Nat) (x : α) : Prop := h[n]? = some (some x)

/-- The object as it stands: its last version, unless that is a deletion. -/
def current (h : History α) : Option α := h.getLast?.join

theorem current_eq_some : current h = some x ↔ ∃ n, h.length = n + 1 ∧ Stored h n x := by
  rw [current, Option.join_eq_some_iff, List.getLast?_eq_getElem?]
  constructor
  · intro hx
    cases hl : h.length with
    | zero => simp [List.length_eq_zero_iff.1 hl] at hx
    | succ n => exact ⟨n, rfl, by simpa [Stored, hl] using hx⟩
  · rintro ⟨n, hl, hx⟩
    simpa [hl, Stored] using hx

theorem Stored.lt (hx : Stored h n x) : n < h.length := by
  by_contra hn
  rw [Stored, List.getElem?_eq_none (by omega)] at hx
  cases hx

theorem Stored.mono (hx : Stored h n x) (hp : h <+: h') : Stored h' n x := by
  obtain ⟨t, rfl⟩ := hp
  rw [Stored, List.getElem?_append_left hx.lt]
  exact hx

theorem Stored.unique {y : α} (hx : Stored h n x) (hy : Stored h n y) : x = y := by
  rw [Stored] at hx hy
  rw [hx] at hy
  cases hy
  rfl

theorem stored_append {e : Option α} :
    Stored (h ++ [e]) n x ↔ Stored h n x ∨ (n = h.length ∧ e = some x) := by
  rcases Nat.lt_trichotomy n h.length with hn | rfl | hn
  · simp [Stored, List.getElem?_append_left hn, hn.ne]
  · simp [Stored]
  have hlong : (h ++ [e])[n]? = none := List.getElem?_eq_none (by simp; omega)
  have hshort : h[n]? = none := List.getElem?_eq_none (by omega)
  simp [Stored, hlong, hshort, hn.ne']

/-- Each entry was legal over the entries before it. -/
def Grown (legal : History α → Option α → Prop) (h : History α) : Prop :=
  ∀ n e, h[n]? = some e → legal (h.take n) e

theorem Grown.nil {legal : History α → Option α → Prop} : Grown legal [] := by
  intro n e he
  simp at he

theorem Grown.append {legal : History α → Option α → Prop} {e : Option α} (hg : Grown legal h)
    (he : legal h e) : Grown legal (h ++ [e]) := by
  intro n e' hn
  rcases Nat.lt_or_ge n h.length with hlt | hge
  · rw [List.getElem?_append_left hlt] at hn
    rw [List.take_append_of_le_length (by omega)]
    exact hg n e' hn
  have hlen : n = h.length := by
    by_contra hne
    rw [List.getElem?_eq_none (by simp; omega)] at hn
    cases hn
  subst hlen
  simp only [List.getElem?_concat_length, Option.some.injEq] at hn
  subst hn
  simpa using he

theorem stored_take {m : Nat} : Stored (h.take m) n x ↔ n < m ∧ Stored h n x := by
  by_cases hn : n < m
  · simp [Stored, hn]
  · rw [Stored, List.getElem?_take, if_neg hn]
    simp [hn]

theorem current_take (hn : n < h.length) :
    current (h.take n) = some x ↔ ∃ m, n = m + 1 ∧ Stored h m x := by
  rw [current_eq_some]
  constructor
  · rintro ⟨m, hm, hx⟩
    rw [List.length_take, min_eq_left (by omega)] at hm
    exact ⟨m, hm, (stored_take.1 hx).2⟩
  · rintro ⟨m, rfl, hx⟩
    exact ⟨m, by rw [List.length_take, min_eq_left (by omega)], stored_take.2 ⟨by omega, hx⟩⟩

end History

/-! ## Logs, newest first -/

section Logged

variable {β : Type} {legal : List β → β → Prop} {log older : List β} {e : β}

/-- Each entry of a log was legal over the older ones. -/
def Logged (legal : List β → β → Prop) (log : List β) : Prop :=
  ∀ older e, e :: older <:+ log → legal older e

theorem Logged.nil : Logged legal [] := by
  intro older e he
  simp at he

theorem Logged.cons (h : Logged legal log) (he : legal log e) : Logged legal (e :: log) := by
  intro older e' hs
  rcases List.suffix_cons_iff.1 hs with heq | hs
  · cases heq
    exact he
  · exact h older e' hs

end Logged

end Conc
