import PtahOperator.Conc.Prog

/-!
# Programs that can fail

A `Proc` is a program that ends with a result or with an error, and an error ends every program it
is a part of. `SafeProc` is `Safe` with a postcondition on results only: what a failed program left
behind is what its requests did, and the invariant says all there is to say about that.

`Proc.Yields` is the other direction: a result the program can come to.
-/

namespace Conc

variable {I : Iface} {ε α β : Type}

/-- A program over `I` that ends with a result in `α` or an error in `ε`. -/
abbrev Proc (I : Iface) (ε α : Type) := ExceptT ε (Prog I) α

namespace Proc

/-- One request. -/
def req (r : I.Req) : Proc I ε (I.Ans r) := ExceptT.mk (.call r fun a => .ret (.ok a))

/-- `p`, whose error is a result. -/
def attempt (p : Proc I ε α) : Proc I ε (Except ε α) := ExceptT.mk (p.run >>= fun r => .ret (.ok r))

/-- The result or the error of a computed value. -/
def ofExcept (r : Except ε α) : Proc I ε α := ExceptT.mk (.ret r)

end Proc

variable {Tid W : Type} {S : Server I Tid W} {D : Discipline Tid W} {t : Tid}

/-- From `w`, each request of `p` in thread `t` keeps the discipline `D`, and a result
satisfies `Q`. -/
def SafeProc (S : Server I Tid W) (D : Discipline Tid W) (t : Tid) (p : Proc I ε α)
    (Q : α → W → Prop) (w : W) : Prop :=
  Safe S D t p.run (fun r w' => ∀ a, r = .ok a → Q a w') w

namespace SafeProc

variable {p : Proc I ε α} {Q Q' : α → W → Prop} {w w' : W}

theorem conseq (h : SafeProc S D t p Q w) (hq : ∀ a w', D.inv w' → Q a w' → Q' a w') :
    SafeProc S D t p Q' w :=
  Safe.conseq h fun _ w' hi hr a ha => hq a w' hi (hr a ha)

theorem forget (h : SafeProc S D t p Q w) : SafeProc S D t p (fun _ _ => True) w :=
  h.conseq fun _ _ _ _ => trivial

theorem pure {a : α} (h : ∀ w', D.inv w' → D.rely t w w' → Q a w') :
    SafeProc S D t (Pure.pure a : Proc I ε α) Q w := by
  intro w' hi hr b hb
  cases hb
  exact h w' hi hr

theorem done {a : α} : SafeProc S D t (Pure.pure a : Proc I ε α) (fun _ _ => True) w :=
  pure fun _ _ _ => trivial

theorem throw {e : ε} : SafeProc S D t (MonadExcept.throw e : Proc I ε α) Q w := by
  intro w' _ _ b hb
  cases hb

theorem bind {f : α → Proc I ε β} {R : β → W → Prop} (h : SafeProc S D t p Q w)
    (hf : ∀ a w', D.inv w' → Q a w' → SafeProc S D t (f a) R w') :
    SafeProc S D t (p >>= f) R w := by
  refine Safe.bind h fun r w' hi hr => ?_
  cases r with
  | ok a => exact hf a w' hi (hr a rfl)
  | error e => exact throw

theorem ends {b : β} (h : SafeProc S D t p Q w) :
    SafeProc S D t (p >>= fun _ => Pure.pure b) (fun _ _ => True) w :=
  h.bind fun _ _ _ _ => done

/-- What every thread's steps keep, this one's included, still holds of a result. -/
theorem frame {P : W → Prop} {u : Tid} (hu : u ≠ t) (hP : ∀ u w w', D.rely u w w' → P w → P w')
    (h : SafeProc S D t p Q w) (hw : P w) : SafeProc S D t p (fun a w' => Q a w' ∧ P w') w :=
  Safe.conseq (.frame hu hP h hw) fun _ _ _ hr a ha => ⟨hr.1 a ha, hr.2⟩

theorem ofExcept {r : Except ε α} (h : ∀ a, r = .ok a → ∀ w', D.inv w' → D.rely t w w' → Q a w') :
    SafeProc S D t (Proc.ofExcept r) Q w :=
  fun w' hi hr a ha => h a ha w' hi hr

theorem attempt (h : SafeProc S D t p Q w) :
    SafeProc S D t p.attempt (fun r w' => ∀ a, r = .ok a → Q a w') w := by
  refine .map (.conseq h fun r w' _ hr => ?_)
  intro r' hr' a ha
  cases hr'
  exact hr a ha

/-- One request and then `f`: the rule used to walk a program. -/
theorem req {r : I.Req} {f : I.Ans r → Proc I ε β} {R : β → W → Prop}
    (h : ∀ w1, D.inv w1 → D.rely t w w1 → ∀ a w2, S.serve t w1 r a w2 →
      D.Guar t w1 w2 ∧ SafeProc S D t (f a) R w2) :
    SafeProc S D t (Proc.req r >>= f) R w := h

end SafeProc

/-! ## Executions -/

/-- From `w`, thread `t` can run `p` to the result `a` and leave `w'`, with nobody else between its
requests. -/
inductive Prog.Ends (S : Server I Tid W) (t : Tid) : Prog I α → W → α → W → Prop where
  | ret {a : α} {w : W} : Ends S t (.ret a) w a w
  | call {r : I.Req} {k : I.Ans r → Prog I α} {x : I.Ans r} {a : α} {w w₁ w' : W}
      (hs : S.serve t w r x w₁) (h : Ends S t (k x) w₁ a w') : Ends S t (.call r k) w a w'

theorem Prog.ends_bind {p : Prog I α} {f : α → Prog I β} {w w' : W} {b : β} :
    Ends S t (p >>= f) w b w' ↔ ∃ a w1, Ends S t p w a w1 ∧ Ends S t (f a) w1 b w' := by
  induction p generalizing w with
  | ret a =>
    constructor
    · exact fun h => ⟨a, w, .ret, h⟩
    rintro ⟨a', w1, h1, h2⟩
    cases h1
    exact h2
  | call r k ih =>
    constructor
    · intro h
      cases h with
      | call hs h =>
        obtain ⟨a, w1, h1, h2⟩ := (ih _).1 h
        exact ⟨a, w1, .call hs h1, h2⟩
    · rintro ⟨a, w1, h1, h2⟩
      cases h1 with
      | call hs h => exact .call hs ((ih _).2 ⟨a, w1, h, h2⟩)

/-- Requests that leave the world alone leave it as it was. -/
theorem Prog.Ends.stays (hserve : ∀ w r x w', S.serve t w r x w' → w' = w) {p : Prog I α} {w w' : W}
    {a : α} (h : Ends S t p w a w') : w' = w := by
  induction h with
  | ret => rfl
  | call hs _ ih => rw [ih, hserve _ _ _ _ hs]

/-- From `w`, thread `t` can run `p` to the result `a` and leave `w'`. -/
def Proc.Yields (S : Server I Tid W) (t : Tid) (p : Proc I ε α) (w : W) (a : α) (w' : W) : Prop :=
  Prog.Ends S t p.run w (.ok a) w'

namespace Proc

variable {w w' : W} {a a' : α} {b : β}

@[simp] theorem yields_pure : Yields S t (pure a' : Proc I ε α) w a w' ↔ a' = a ∧ w' = w := by
  constructor
  · intro h
    cases h
    exact ⟨rfl, rfl⟩
  · rintro ⟨rfl, rfl⟩
    exact .ret

@[simp] theorem yields_throw {e : ε} : ¬ Yields S t (MonadExcept.throw e : Proc I ε α) w a w' := by
  intro h
  cases h

theorem yields_bind {p : Proc I ε α} {f : α → Proc I ε β} :
    Yields S t (p >>= f) w b w' ↔ ∃ a w1, Yields S t p w a w1 ∧ Yields S t (f a) w1 b w' := by
  refine Iff.trans (Prog.ends_bind) ?_
  constructor
  · rintro ⟨r, w1, h1, h2⟩
    cases r with
    | ok a => exact ⟨a, w1, h1, h2⟩
    | error e => cases h2
  · rintro ⟨a, w1, h1, h2⟩
    exact ⟨.ok a, w1, h1, h2⟩

theorem yields_req {r : I.Req} {x : I.Ans r} :
    Yields S t (req r : Proc I ε (I.Ans r)) w x w' ↔ S.serve t w r x w' := by
  constructor
  · intro h
    cases h with
    | call hs h =>
      cases h
      exact hs
  · exact fun hs => .call hs .ret

theorem yields_ofExcept {r : Except ε α} :
    Yields S t (ofExcept r : Proc I ε α) w a w' ↔ r = .ok a ∧ w' = w := by
  constructor
  · intro h
    cases h
    exact ⟨rfl, rfl⟩
  · rintro ⟨rfl, rfl⟩
    exact .ret

end Proc

end Conc
