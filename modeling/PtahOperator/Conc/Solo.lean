import PtahOperator.Conc.Prog

/-!
# One program at a time

A `Solo` system runs the same program again and again, one run at a time. The running program can
be stopped between any two of its requests: the next run starts in the world it left. `enter` is
what the start of a run changes, `ready` when one may start, and `env` are the changes of the world
that no run makes.

- **`Reach.ok`**: the invariant holds in every reached world.
- **`Prog.script`** runs a program on a list of choices, one for each request, and stops where the
  list ends or a choice does not fit. A scripted run is a run (`Reach.script`).
-/

namespace Conc

variable {I : Iface} {W Res : Type}

/-- The world, and the rest of the program that runs. -/
structure Solo (I : Iface) (W Res : Type) where
  world : W
  running : Option (Prog I Res)

namespace Solo

variable {S : Server I Unit W} {D : Discipline Unit W} {enter : W → W} {ready : W → Prop}
  {code : Prog I Res} {env : W → W → Prop} {init : W → Prop} {σ σ' : Solo I W Res}

inductive Step (S : Server I Unit W) (enter : W → W) (ready : W → Prop) (code : Prog I Res)
    (env : W → W → Prop) : Solo I W Res → Solo I W Res → Prop where
  /-- A run starts; what ran before has stopped. -/
  | start {σ : Solo I W Res} (h : ready σ.world) :
      Step S enter ready code env σ ⟨enter σ.world, some code⟩
  /-- The running program sends its next request. -/
  | call {σ : Solo I W Res} {r : I.Req} {k : I.Ans r → Prog I Res} {a : I.Ans r} {w : W}
      (hr : σ.running = some (.call r k)) (hs : S.serve () σ.world r a w) :
      Step S enter ready code env σ ⟨w, some (k a)⟩
  /-- The world changes on its own. -/
  | env {σ : Solo I W Res} {w : W} (h : env σ.world w) :
      Step S enter ready code env σ { σ with world := w }

/-- The states that runs from `init` reach. -/
inductive Reach (S : Server I Unit W) (enter : W → W) (ready : W → Prop) (code : Prog I Res)
    (env : W → W → Prop) (init : W → Prop) : Solo I W Res → Prop where
  | init {w : W} (h : init w) : Reach S enter ready code env init ⟨w, none⟩
  | step {σ σ' : Solo I W Res} (h : Reach S enter ready code env init σ)
      (hs : Step S enter ready code env σ σ') : Reach S enter ready code env init σ'

/-- Soundness: in every reached state the invariant holds, and what is left of the running program
is safe. -/
theorem Reach.ok (hinit : ∀ w, init w → D.inv w) (henter : ∀ w, D.inv w → ready w → D.inv (enter w))
    (hcode : ∀ w, D.inv w → ready w → Safe S D () code (fun _ _ => True) (enter w))
    (henv : ∀ w w', D.inv w → env w w' → D.inv w' ∧ D.rely () w w')
    (h : Reach S enter ready code env init σ) :
    D.inv σ.world ∧ ∀ p, σ.running = some p → Safe S D () p (fun _ _ => True) σ.world := by
  induction h with
  | init hw => exact ⟨hinit _ hw, fun p hp => by cases hp⟩
  | step _ hs ih =>
    obtain ⟨hi, hrun⟩ := ih
    cases hs with
    | start hready =>
      refine ⟨henter _ hi hready, fun p hp => ?_⟩
      cases hp
      exact hcode _ hi hready
    | call hr hserve =>
      obtain ⟨hguar, hsafe⟩ := hrun _ hr _ hi (D.refl () _) _ _ hserve
      refine ⟨hguar.1, fun p hp => ?_⟩
      cases hp
      exact hsafe
    | env he =>
      obtain ⟨hi', hrely⟩ := henv _ _ hi he
      exact ⟨hi', fun p hp => (hrun p hp).mono hrely⟩

end Solo

/-! ## Scripted runs -/

/-- `p` run from `w` on the choices of a script: the rest of the program, and the world. -/
def Prog.script {C : Type} (handle : C → W → (r : I.Req) → Option (I.Ans r × W)) :
    List C → Prog I Res → W → Prog I Res × W
  | [], p, w => (p, w)
  | _ :: _, .ret a, w => (.ret a, w)
  | c :: cs, .call r k, w =>
    match handle c w r with
    | none => (.call r k, w)
    | some (a, w') => (k a).script handle cs w'

namespace Solo

variable {S : Server I Unit W} {enter : W → W} {ready : W → Prop} {code : Prog I Res}
  {env : W → W → Prop} {init : W → Prop} {σ : Solo I W Res}

theorem Reach.script_running {C : Type} {handle : C → W → (r : I.Req) → Option (I.Ans r × W)}
    (hserve : ∀ c w r a w', handle c w r = some (a, w') → S.serve () w r a w') (cs : List C)
    {p : Prog I Res} (h : Reach S enter ready code env init σ) (hp : σ.running = some p) :
    Reach S enter ready code env init
      ⟨(p.script handle cs σ.world).2, some (p.script handle cs σ.world).1⟩ := by
  obtain ⟨w, running⟩ := σ
  cases hp
  induction cs generalizing w p with
  | nil => exact h
  | cons c cs ih =>
    cases p with
    | ret a => exact h
    | call r k =>
      simp only [Prog.script]
      cases hc : handle c w r with
      | none => exact h
      | some r' => exact ih r'.2 (h.step (.call rfl (hserve c w r r'.1 r'.2 hc)))

theorem Reach.script {C : Type} {handle : C → W → (r : I.Req) → Option (I.Ans r × W)}
    (hserve : ∀ c w r a w', handle c w r = some (a, w') → S.serve () w r a w') (cs : List C)
    (h : Reach S enter ready code env init σ) (hready : ready σ.world) :
    Reach S enter ready code env init ⟨(code.script handle cs (enter σ.world)).2,
        some (code.script handle cs (enter σ.world)).1⟩ :=
  (h.step (.start hready)).script_running hserve cs rfl

end Solo

end Conc
