import Mathlib.Logic.Function.Basic

/-!
# Programs that call a server, and their rely/guarantee logic

A program is a tree of requests: it stops with a result (`Prog.ret`), or sends one request and
goes on with the answer (`Prog.call`). What a request does to the world is a relation
(`Server.serve`), so one request can have many answers: a lost answer, a conflict, a failure.

- **`Prog I α`** is a monad over the interface `I`.
- **`Discipline`**: an invariant of the world, and for each thread the changes of the world it
  tolerates between two of its requests (`rely`).
- **`Safe S D t p Q w`**: from the world `w`, each request of `p` keeps the invariant and does to
  the world only what every other thread tolerates, and a result satisfies `Q`. The program may
  stop before any request, so what `Safe` says of a prefix it says of a crash there.
-/

namespace Conc

/-- An interface: its requests, and the answers of each of them. -/
structure Iface where
  Req : Type
  Ans : Req → Type

/-- A program over the interface `I` with results in `α`. -/
inductive Prog (I : Iface) (α : Type) where
  /-- The program stops with the result `a`. -/
  | ret (a : α)
  /-- The program sends `r` and goes on with the answer. -/
  | call (r : I.Req) (k : I.Ans r → Prog I α)

variable {I : Iface} {α β : Type}

namespace Prog

/-- `p`, and then `f` on its result. -/
def bind : Prog I α → (α → Prog I β) → Prog I β
  | ret a, f => f a
  | call r k, f => call r fun x => (k x).bind f

instance : Monad (Prog I) where
  pure := ret
  bind := bind

@[simp] theorem call_bind (r : I.Req) (k : I.Ans r → Prog I α) (f : α → Prog I β) :
    call r k >>= f = call r fun x => k x >>= f := rfl

/-- One request. -/
def req (r : I.Req) : Prog I (I.Ans r) := call r ret

end Prog

/-! ## The logic -/

/-- What the requests of each thread do: `serve t w r a w'` when the request `r` of thread `t` in
the world `w` may be answered by `a`, and leaves the world `w'`. -/
structure Server (I : Iface) (Tid W : Type) where
  serve : Tid → W → (r : I.Req) → I.Ans r → W → Prop

/-- An invariant, and what each thread tolerates between two of its requests. -/
structure Discipline (Tid W : Type) where
  inv : W → Prop
  rely : Tid → W → W → Prop
  refl : ∀ t w, rely t w w
  trans : ∀ {t w₁ w₂ w₃}, rely t w₁ w₂ → rely t w₂ w₃ → rely t w₁ w₃

variable {Tid W : Type} {S : Server I Tid W} {D : Discipline Tid W} {t : Tid}

/-- Thread `t` may take the world from `w` to `w'`: the invariant holds after it, and every other
thread tolerates it. -/
def Discipline.Guar (D : Discipline Tid W) (t : Tid) (w w' : W) : Prop :=
  D.inv w' ∧ ∀ u, u ≠ t → D.rely u w w'

/-- From `w`, each request of `p` in thread `t` keeps the discipline `D`, and a result
satisfies `Q`. -/
def Safe (S : Server I Tid W) (D : Discipline Tid W) (t : Tid) :
    Prog I α → (α → W → Prop) → W → Prop
  | .ret a, Q, w => ∀ w', D.inv w' → D.rely t w w' → Q a w'
  | .call r k, Q, w => ∀ w₁, D.inv w₁ → D.rely t w w₁ → ∀ a w₂, S.serve t w₁ r a w₂ →
      D.Guar t w₁ w₂ ∧ Safe S D t (k a) Q w₂

namespace Safe

variable {p : Prog I α} {Q Q' : α → W → Prop} {w w' : W}

/-- What other threads do between two requests does not matter. -/
theorem mono (h : Safe S D t p Q w) (hr : D.rely t w w') : Safe S D t p Q w' := by
  cases p with
  | ret a => exact fun w1 hi h1 => h w1 hi (D.trans hr h1)
  | call r k => exact fun w1 hi h1 => h w1 hi (D.trans hr h1)

theorem conseq (h : Safe S D t p Q w) (hq : ∀ a w', D.inv w' → Q a w' → Q' a w') :
    Safe S D t p Q' w := by
  induction p generalizing w with
  | ret a => exact fun w1 hi h1 => hq a w1 hi (h w1 hi h1)
  | call r k ih =>
    intro w1 hi h1 a w2 hs
    exact ⟨(h w1 hi h1 a w2 hs).1, ih a (h w1 hi h1 a w2 hs).2⟩

theorem ret {a : α} (h : ∀ w', D.inv w' → D.rely t w w' → Q a w') : Safe S D t (.ret a) Q w := h

theorem result {a : α} (h : Safe S D t (.ret a) Q w) (hi : D.inv w) : Q a w :=
  h w hi (D.refl t w)

theorem bind {f : α → Prog I β} {R : β → W → Prop} (h : Safe S D t p Q w)
    (hf : ∀ a w', D.inv w' → Q a w' → Safe S D t (f a) R w') :
    Safe S D t (p >>= f) R w := by
  induction p generalizing w with
  | ret a =>
    -- The first request of `f a` waits for its own moment: take the world of that moment.
    have hret : ∀ w1, D.inv w1 → D.rely t w w1 → Safe S D t (f a) R w1 :=
      fun w1 hi h1 => hf a w1 hi (h w1 hi h1)
    show Safe S D t (f a) R w
    cases hfa : f a with
    | ret b => exact fun w1 hi h1 => (hfa ▸ hret w1 hi h1).result hi
    | call r k =>
      intro w1 hi h1
      have hk := hret w1 hi h1
      rw [hfa] at hk
      exact hk w1 hi (D.refl t w1)
  | call r k ih =>
    intro w1 hi h1 a w2 hs
    exact ⟨(h w1 hi h1 a w2 hs).1, ih a (h w1 hi h1 a w2 hs).2⟩

/-- What every thread's steps keep, this one's included, still holds of a result. -/
theorem frame {P : W → Prop} {u : Tid} (hu : u ≠ t) (hP : ∀ u w w', D.rely u w w' → P w → P w')
    (h : Safe S D t p Q w) (hw : P w) : Safe S D t p (fun a w' => Q a w' ∧ P w') w := by
  induction p generalizing w with
  | ret a => exact fun w1 hi h1 => ⟨h w1 hi h1, hP t w w1 h1 hw⟩
  | call r k ih =>
    intro w1 hi h1 a w2 hs
    obtain ⟨hguar, hsafe⟩ := h w1 hi h1 a w2 hs
    exact ⟨hguar, ih a hsafe (hP u w1 w2 (hguar.2 u hu) (hP t w w1 h1 hw))⟩

theorem map {g : α → β} {R : β → W → Prop} (h : Safe S D t p (fun a w' => R (g a) w') w) :
    Safe S D t (p >>= fun a => .ret (g a)) R w := by
  induction p generalizing w with
  | ret a => exact h
  | call r k ih =>
    intro w1 hi h1 a w2 hs
    exact ⟨(h w1 hi h1 a w2 hs).1, ih a (h w1 hi h1 a w2 hs).2⟩

/-- One request and then `f`: the rule used to walk a program. -/
theorem req {r : I.Req} {f : I.Ans r → Prog I β} {R : β → W → Prop}
    (h : ∀ w1, D.inv w1 → D.rely t w w1 → ∀ a w2, S.serve t w1 r a w2 →
      D.Guar t w1 w2 ∧ Safe S D t (f a) R w2) :
    Safe S D t (Prog.req r >>= f) R w := h

end Safe

end Conc
