import PtahOperator.Conc.Proc

/-!
# Many threads

A `Pool` runs any number of threads, each with its own program, in any interleaving of their
requests. A thread that stops for good is one that takes no further step, and `env` are the changes
of the world that no program makes. `Reach.ok` is the soundness of `Safe` for the runs of a pool.
-/

namespace Conc

variable {I : Iface} {Tid W Task Res : Type} {S : Server I Tid W} {D : Discipline Tid W}

/-- The world, and the task and the rest of the program of each thread that was started. -/
structure Pool (I : Iface) (Tid W Task Res : Type) where
  world : W
  thread : Tid → Option (Task × Prog I Res)

namespace Pool

variable [DecidableEq Tid] {code : Task → Prog I Res} {env : W → W → Prop}

/-- One step of a pool. A thread identifier is used once. -/
inductive Step (S : Server I Tid W) (code : Task → Prog I Res) (env : W → W → Prop) :
    Pool I Tid W Task Res → Pool I Tid W Task Res → Prop where
  | start {σ : Pool I Tid W Task Res} (t : Tid) (task : Task) (h : σ.thread t = none) :
      Step S code env σ { σ with thread := Function.update σ.thread t (some (task, code task)) }
  /-- A thread sends its next request. -/
  | call {σ : Pool I Tid W Task Res} {t : Tid} {task : Task} {r : I.Req}
      {k : I.Ans r → Prog I Res} {a : I.Ans r} {w : W}
      (ht : σ.thread t = some (task, .call r k)) (hs : S.serve t σ.world r a w) :
      Step S code env σ { world := w, thread := Function.update σ.thread t (some (task, k a)) }
  /-- The world changes on its own. -/
  | env {σ : Pool I Tid W Task Res} {w : W} (h : env σ.world w) :
      Step S code env σ { σ with world := w }

/-- The pools that runs from `init` reach: no thread has started in `init`. -/
inductive Reach (S : Server I Tid W) (code : Task → Prog I Res) (env : W → W → Prop)
    (init : W → Prop) : Pool I Tid W Task Res → Prop where
  | init {w : W} (h : init w) : Reach S code env init ⟨w, fun _ => none⟩
  | step {σ σ' : Pool I Tid W Task Res} (h : Reach S code env init σ)
      (hs : Step S code env σ σ') : Reach S code env init σ'

/-- The invariant holds, and what is left of each thread's program is safe. -/
def Ok (S : Server I Tid W) (D : Discipline Tid W) (Q : Task → Tid → Res → W → Prop)
    (σ : Pool I Tid W Task Res) : Prop :=
  D.inv σ.world ∧ ∀ t task p, σ.thread t = some (task, p) → Safe S D t p (Q task t) σ.world

variable {Q : Task → Tid → Res → W → Prop} {σ σ' : Pool I Tid W Task Res}

/-- One step keeps every thread safe: the step is safe for its own thread, and the other threads
tolerate it. -/
theorem Ok.step (hcode : ∀ task t w, D.inv w → Safe S D t (code task) (Q task t) w)
    (henv : ∀ w w', D.inv w → env w w' → D.inv w' ∧ ∀ t, D.rely t w w')
    (hok : Ok S D Q σ) (hs : Step S code env σ σ') : Ok S D Q σ' := by
  obtain ⟨hi, hth⟩ := hok
  cases hs with
  | start t task hnone =>
    refine ⟨hi, fun u task' p hu => ?_⟩
    by_cases hut : u = t
    · subst hut
      simp only [Function.update_self, Option.some.injEq, Prod.mk.injEq] at hu
      obtain ⟨rfl, rfl⟩ := hu
      exact hcode task u σ.world hi
    · simp only [Function.update_of_ne hut] at hu
      exact hth u task' p hu
  | @call t task r k a w ht hserve =>
    obtain ⟨hguar, hsafe⟩ := hth t task _ ht σ.world hi (D.refl t _) a w hserve
    refine ⟨hguar.1, fun u task' p hu => ?_⟩
    by_cases hut : u = t
    · subst hut
      simp only [Function.update_self, Option.some.injEq, Prod.mk.injEq] at hu
      obtain ⟨rfl, rfl⟩ := hu
      exact hsafe
    · simp only [Function.update_of_ne hut] at hu
      exact (hth u task' p hu).mono (hguar.2 u hut)
  | @env w he =>
    obtain ⟨hi', hrely⟩ := henv σ.world w hi he
    exact ⟨hi', fun u task' p hu => (hth u task' p hu).mono (hrely u)⟩

/-- Soundness: in every reached pool the invariant holds and every thread is safe. -/
theorem Reach.ok {init : W → Prop} (hinit : ∀ w, init w → D.inv w)
    (hcode : ∀ task t w, D.inv w → Safe S D t (code task) (Q task t) w)
    (henv : ∀ w w', D.inv w → env w w' → D.inv w' ∧ ∀ t, D.rely t w w')
    (h : Reach S code env init σ) : Ok S D Q σ := by
  induction h with
  | init hw => exact ⟨hinit _ hw, fun t task p ht => by cases ht⟩
  | step _ hs ih => exact ih.step hcode henv hs

omit [DecidableEq Tid] in
theorem Ok.returned (hok : Ok S D Q σ) {t : Tid} {task : Task} {a : Res}
    (ht : σ.thread t = some (task, .ret a)) : Q task t a σ.world :=
  (hok.2 t task _ ht).result hok.1

/-! ### Whole calls

A handler chooses one answer of the server to each request. It runs a program to its end, and a
call that runs so without interruption is a run of the pool. -/

end Pool

/-- `p` run to its end from `w`, every request answered by `handle`. -/
def Prog.exec (handle : W → (r : I.Req) → I.Ans r × W) : Prog I Res → W → Res × W
  | .ret a, w => (a, w)
  | .call r k, w => (k (handle w r).1).exec handle (handle w r).2

theorem Prog.exec_bind {handle : W → (r : I.Req) → I.Ans r × W} {α β : Type} (p : Prog I α) (f : α → Prog I β)
    (w : W) :
    (p >>= f).exec handle w = (f (p.exec handle w).1).exec handle (p.exec handle w).2 := by
  induction p generalizing w with
  | ret a => rfl
  | call r k ih => exact ih _ _

/-- A handler that answers as the server does runs a program as the server can. -/
theorem Prog.ends_exec {handle : W → (r : I.Req) → I.Ans r × W} {t : Tid}
    (hserve : ∀ w r, S.serve t w r (handle w r).1 (handle w r).2) (p : Prog I Res) (w : W) :
    Ends S t p w (p.exec handle w).1 (p.exec handle w).2 := by
  induction p generalizing w with
  | ret a => exact .ret
  | call r k ih => exact .call (hserve w r) (ih _ _)

namespace Pool

variable [DecidableEq Tid] {code : Task → Prog I Res} {env : W → W → Prop} {init : W → Prop}
  {σ : Pool I Tid W Task Res}

/-- The pool after thread `t` ran `task` to its end. -/
def runTask (handle : W → (r : I.Req) → I.Ans r × W) (code : Task → Prog I Res)
    (σ : Pool I Tid W Task Res) (t : Tid) (task : Task) : Pool I Tid W Task Res :=
  let done := (code task).exec handle σ.world
  { world := done.2, thread := Function.update σ.thread t (some (task, .ret done.1)) }

/-- The task of a thread that returned, and its result. -/
def returned (σ : Pool I Tid W Task Res) (t : Tid) : Option (Task × Res) :=
  match σ.thread t with
  | some (task, .ret a) => some (task, a)
  | _ => none

omit [DecidableEq Tid] in
theorem thread_of_returned {t : Tid} {task : Task} {a : Res} (h : σ.returned t = some (task, a)) :
    σ.thread t = some (task, .ret a) := by
  unfold returned at h
  split at h
  · cases h
    assumption
  · cases h

theorem Reach.exec {handle : W → (r : I.Req) → I.Ans r × W} {t : Tid} {task : Task}
    (hserve : ∀ w r, S.serve t w r (handle w r).1 (handle w r).2) (p : Prog I Res)
    (h : Reach S code env init σ) (ht : σ.thread t = some (task, p)) :
    Reach S code env init
      { world := (p.exec handle σ.world).2
        thread := Function.update σ.thread t (some (task, .ret (p.exec handle σ.world).1)) } := by
  induction p generalizing σ with
  | ret a =>
    have hsame : Function.update σ.thread t (some (task, .ret a)) = σ.thread :=
      Function.update_eq_self_iff.2 ht.symm
    simpa only [Prog.exec, hsame] using h
  | call r k ih =>
    have hstep := h.step (.call ht (hserve σ.world r))
    simpa only [Prog.exec, Function.update_idem] using ih _ hstep (Function.update_self ..)

theorem Reach.runTask {handle : W → (r : I.Req) → I.Ans r × W} {t : Tid}
    (hserve : ∀ w r, S.serve t w r (handle w r).1 (handle w r).2) (task : Task)
    (h : Reach S code env init σ) (ht : σ.thread t = none) :
    Reach S code env init (σ.runTask handle code t task) := by
  have hstart := h.step (.start t task ht)
  have hdone := hstart.exec hserve (code task) (Function.update_self ..)
  simpa only [Pool.runTask, Function.update_idem] using hdone

end Pool

end Conc
