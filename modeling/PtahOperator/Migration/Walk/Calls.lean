import PtahOperator.Migration.Invariant.Approval

/-!
# The calls of a pass

A pass runs under the discipline `D`: the world is one the system reaches, and between two calls it
changes by silent steps only. What a call tells the pass holds of some world in between (`Read`),
so the facts a pass goes on with are those that silent steps keep.

- **`StoreKept`**: what a step leaves of the Jobs and Pods of a claim. A Job that is terminal, gone
  or quiet stays so.
- **`Kept`**: the same, with the log and the drawn IDs.
- **`World.Found`, `World.Unfound`**: what the read of a claim's name says of its Jobs.
-/

namespace Ptah.Migration

open Conc Lifecycle Relation

/-- The discipline of a pass. -/
def D (md : Mode) : Discipline Unit World where
  inv := Reach md
  rely _ := Still md
  refl _ _ := ⟨.refl, rfl⟩
  trans h₁ h₂ := ⟨h₁.1.trans h₂.1, h₂.2.trans h₁.2⟩

variable {md : Mode} {w w' w'' : World} {id name uid : String}

theorem Still.refl (w : World) : Still md w w := ⟨.refl, rfl⟩

theorem Still.trans (h1 : Still md w w') (h2 : Still md w' w'') : Still md w w'' :=
  ⟨h1.1.trans h2.1, h2.2.trans h1.2⟩

theorem Reach.drift (h : Reach md w) (hd : Drift md w w') : Reach md w' := by
  induction hd with
  | refl => exact h
  | tail _ hs ih => exact ih.step (.silent hs)

theorem Still.draw (hnew : id ∉ w.ids) : Still md w { w with ids := id :: w.ids } :=
  ⟨.single (.draw id hnew), rfl⟩

/-! ## Jobs and Pods -/

namespace World

variable (w : World) (uid : String)

def Stored : Prop := ∃ j ∈ w.everJobs, j.uid = uid

def Finished : Prop := ∀ k ∈ w.jobs, k.uid = uid → k.terminal = true

def Gone : Prop := ∀ k ∈ w.jobs, k.uid ≠ uid

/-- The read of `name` found `job`, for the claim `id`. -/
structure Found (id name : String) (job : Job) : Prop where
  stored : ∃ stored ∈ w.everJobs, job.Was stored
  named : job.name = name
  done : job.terminal = true → w.Finished job.uid
  others : ∀ j ∈ w.jobsOf id, j.name = name → j.uid ≠ job.uid → w.Gone j.uid

/-- The read of `name` found nothing, for the claim `id`. -/
def Unfound (id name : String) : Prop := ∀ j ∈ w.jobsOf id, j.name = name → w.Gone j.uid

end World

/-- What a step leaves of the Jobs and Pods. -/
structure StoreKept (w w' : World) : Prop where
  jobsOf : ∀ id, w'.jobsOf id = w.jobsOf id
  ever : ∀ j ∈ w.everJobs, j ∈ w'.everJobs
  finished : ∀ uid, w.Stored uid → w.Finished uid → w'.Finished uid
  gone : ∀ uid, w.Stored uid → w.Gone uid → w'.Gone uid
  quiet : ∀ uid, w.Stored uid → w.JobQuiet uid → w'.JobQuiet uid

namespace StoreKept

theorem same (hjobs : w'.jobs = w.jobs) (hever : w'.everJobs = w.everJobs)
    (hpods : w'.pods = w.pods) : StoreKept w w' where
  jobsOf id := by rw [World.jobsOf, hever, World.jobsOf]
  ever _ h := hever ▸ h
  finished uid _ h := by rwa [World.Finished, hjobs]
  gone uid _ h := by rwa [World.Gone, hjobs]
  quiet uid _ h := by rwa [World.JobQuiet, hjobs, hpods]

theorem stored (h : StoreKept w w') (hs : w.Stored uid) : w'.Stored uid := by
  obtain ⟨j, hj, hu⟩ := hs
  exact ⟨j, h.ever j hj, hu⟩

theorem trans (h1 : StoreKept w w') (h2 : StoreKept w' w'') : StoreKept w w'' where
  jobsOf id := (h2.jobsOf id).trans (h1.jobsOf id)
  ever j hj := h2.ever j (h1.ever j hj)
  finished uid hs h := h2.finished uid (h1.stored hs) (h1.finished uid hs h)
  gone uid hs h := h2.gone uid (h1.stored hs) (h1.gone uid hs h)
  quiet uid hs h := h2.quiet uid (h1.stored hs) (h1.quiet uid hs h)

end StoreKept

theorem World.stored_of_jobsOf {j : Job} (h : j ∈ w.jobsOf id) : w.Stored j.uid :=
  ⟨j, (List.mem_filter.1 h).1, rfl⟩

namespace StoreKept

variable (h : StoreKept w w')
include h

theorem retirable {op : Operation} (hr : w.Retirable op) : w'.Retirable op := by
  rcases hr with hq | ⟨hu, j, hj, hlost⟩
  · refine .inl fun j hj => ?_
    rw [h.jobsOf] at hj
    exact h.quiet j.uid (World.stored_of_jobsOf hj) (hq j hj)
  · refine .inr ⟨hu, j, by rwa [h.jobsOf], h.gone j.uid (World.stored_of_jobsOf hj) hlost⟩

theorem found {job : Job} (hf : w.Found id name job) : w'.Found id name job := by
  obtain ⟨⟨stored, hs, hw⟩, hname, hdone, hothers⟩ := hf
  refine ⟨⟨stored, h.ever stored hs, hw⟩, hname, fun ht => ?_, fun j hj hn hu => ?_⟩
  · exact h.finished job.uid ⟨stored, hs, by rw [hw]⟩ (hdone ht)
  · rw [h.jobsOf] at hj
    exact h.gone j.uid (World.stored_of_jobsOf hj) (hothers j hj hn hu)

theorem unfound (hf : w.Unfound id name) : w'.Unfound id name := by
  intro j hj hn
  rw [h.jobsOf] at hj
  exact h.gone j.uid (World.stored_of_jobsOf hj) (hf j hj hn)

end StoreKept

theorem Env.storeKept {restores : Bool} (h : Env restores w w') : StoreKept w w' := by
  cases h with
  | foreignJob job howned hname huid =>
    -- The new Job has a UID no Job had.
    have hnot {uid : String} (hs : w.Stored uid) : job.uid ≠ uid := by
      obtain ⟨j, hj, rfl⟩ := hs
      exact (huid.2.1 j hj).symm
    refine ⟨fun id => ?_, fun _ => List.mem_cons_of_mem _, ?_, ?_, ?_⟩
    · rw [World.jobsOf, World.addJob, List.filter_cons_of_neg (by simp [howned])]
      rfl
    · intro uid hs hf k hk hku
      rcases hk with _ | ⟨_, hk⟩
      · exact absurd hku (hnot hs)
      · exact hf k hk hku
    · intro uid hs hg k hk
      rcases hk with _ | ⟨_, hk⟩
      · exact hnot hs
      · exact hg k hk
    · rintro uid hs ⟨hf, hp⟩
      refine ⟨fun k hk hku => ?_, hp⟩
      rcases hk with _ | ⟨_, hk⟩
      · exact absurd hku (hnot hs)
      · exact hf k hk hku
  | jobDone uid =>
    have hdone {v : String} (hf : w.Finished v) : World.Finished { w with jobs := w.jobs.map fun j =>
        if j.uid = uid then { j with terminal := true } else j } v := by
      intro k hk hku
      obtain ⟨j, hj, rfl⟩ := List.mem_map.1 hk
      split at hku
      · rw [if_pos ‹_›]
      · rw [if_neg ‹_›]
        exact hf j hj hku
    refine ⟨fun _ => rfl, fun _ h => h, fun v _ => hdone, fun v _ hg k hk => ?_,
      fun v _ hq => ⟨hdone hq.1, hq.2⟩⟩
    obtain ⟨j, hj, rfl⟩ := List.mem_map.1 hk
    split <;> exact hg j hj
  | jobGone uid =>
    exact ⟨fun _ => rfl, fun _ h => h, fun v _ hf k hk => hf k (List.mem_filter.1 hk).1,
      fun v _ hg k hk => hg k (List.mem_filter.1 hk).1,
      fun v _ hq => ⟨fun k hk => hq.1 k (List.mem_filter.1 hk).1, hq.2⟩⟩
  | podStart job pod hjob hrun hname huid =>
    refine ⟨fun _ => rfl, fun _ h => h, fun _ _ h => h, fun _ _ h => h, fun v _ hq => ⟨hq.1, ?_⟩⟩
    intro p hp hpu
    rcases hp with _ | ⟨_, hp⟩
    · have hterm := hq.1 job hjob (by rw [← huid, hpu])
      rw [hrun] at hterm
      cases hterm
    · exact hq.2 p hp hpu
  | podMove pod pod' hm =>
    refine ⟨fun _ => rfl, fun _ h => h, fun _ _ h => h, fun _ _ h => h, fun v _ hq => ⟨hq.1, ?_⟩⟩
    intro p hp hpu
    obtain ⟨q, hq', rfl⟩ := List.mem_map.1 hp
    split at hpu
    · rename_i heq
      subst heq
      have hstop := hq.2 q hq' (by rwa [hm.jobUID] at hpu)
      simp only [Pod.stopped, Bool.or_eq_true] at hstop ⊢
      exact hstop.imp hm.finished hm.executor
    · rw [if_neg ‹_›]
      exact hq.2 q hq' hpu
  | podGone pod =>
    exact ⟨fun _ => rfl, fun _ h => h, fun _ _ h => h, fun _ _ h => h,
      fun v _ hq => ⟨hq.1, fun p hp => hq.2 p (List.mem_filter.1 hp).1⟩⟩
  | _ => exact .same rfl rfl rfl

/-! ## What silent steps keep -/

/-- What a step leaves of the Jobs, the Pods and the log. -/
structure Kept (w w' : World) : Prop extends StoreKept w w' where
  log : w'.log = w.log
  ids : ∀ id ∈ w.ids, id ∈ w'.ids

namespace Kept

theorem refl (w : World) : Kept w w := ⟨.same rfl rfl rfl, rfl, fun _ h => h⟩

theorem trans (h1 : Kept w w') (h2 : Kept w' w'') : Kept w w'' :=
  ⟨h1.toStoreKept.trans h2.toStoreKept, h2.log.trans h1.log, fun id h => h2.ids id (h1.ids id h)⟩

end Kept

theorem Silent.kept (h : Silent md w w') : Kept w w' := by
  cases h with
  | env h =>
    refine ⟨h.storeKept, ?_, ?_⟩ <;> cases h <;> first | rfl | exact fun _ h => h
  | draw id hnew => exact ⟨.same rfl rfl rfl, rfl, fun _ => List.mem_cons_of_mem _⟩
  | read reading => exact ⟨.same rfl rfl rfl, rfl, fun _ h => h⟩

theorem Drift.kept (h : Drift md w w') : Kept w w' := by
  induction h with
  | refl => exact .refl _
  | tail _ hs ih => exact ih.trans hs.kept

/-! ## The logic of a pass -/

section Logic

variable {α β : Type} {p : Pass α} {f : α → Pass β} {Q : α → World → Prop} {R : β → World → Prop}

/-- Each call of `p` is a step of the system, and a result satisfies `Q`. -/
abbrev Follows (md : Mode) (p : Pass α) (Q : α → World → Prop) (w : World) : Prop :=
  SafeProc server (D md) () p Q w

/-- Each call of `p` is a step of the system. -/
abbrev Walks (md : Mode) (p : Pass α) (w : World) : Prop := Follows md p (fun _ _ => True) w

/-- `p` is silent, and a result satisfies `Q`. -/
def Silently (md : Mode) (p : Pass α) (Q : α → World → Prop) (w : World) : Prop :=
  Safe server (D md) () p.run (fun r w' => Still md w w' ∧ ∀ a, r = .ok a → Q a w') w

abbrev Quietly (md : Mode) (p : Pass α) (w : World) : Prop := Silently md p (fun _ _ => True) w

namespace Silently

theorem pure {a : α} (h : ∀ w', Reach md w' → Still md w w' → Q a w') :
    Silently md (Pure.pure a) Q w := by
  intro w' hi hr
  refine ⟨hr, fun b hb => ?_⟩
  cases hb
  exact h w' hi hr

theorem done {a : α} : Quietly md (Pure.pure a) w := pure fun _ _ _ => trivial

theorem throw {e : String} : Silently md (MonadExcept.throw e : Pass α) Q w := by
  intro w' _ hr
  refine ⟨hr, fun b hb => ?_⟩
  cases hb

theorem conseq {Q' : α → World → Prop} (h : Silently md p Q w)
    (hq : ∀ a w', Reach md w' → Still md w w' → Q a w' → Q' a w') : Silently md p Q' w :=
  Safe.conseq h fun _ w' hi hr => ⟨hr.1, fun a ha => hq a w' hi hr.1 (hr.2 a ha)⟩

theorem bind (h : Silently md p Q w)
    (hf : ∀ a w', Reach md w' → Still md w w' → Q a w' → Silently md (f a) R w') :
    Silently md (p >>= f) R w := by
  refine Safe.bind h fun r w' hi hr => ?_
  cases r with
  | error e => exact fun w1 _ h1 => ⟨hr.1.trans h1, fun b hb => by cases hb⟩
  | ok a =>
    refine Safe.conseq (hf a w' hi hr.1 (hr.2 a rfl)) fun r w1 _ h1 => ⟨hr.1.trans h1.1, h1.2⟩

/-- A silent program, and then one that is not. -/
theorem follows (h : Silently md p Q w)
    (hf : ∀ a w', Reach md w' → Still md w w' → Q a w' → Follows md (f a) R w') :
    Follows md (p >>= f) R w := by
  refine SafeProc.bind (Safe.conseq h fun r w' _ hr a ha => ?_)
    fun a w' hi (hr : Still md w w' ∧ Q a w') => hf a w' hi hr.1 hr.2
  exact ⟨hr.1, hr.2 a ha⟩

theorem attempt (h : Silently md p Q w) :
    Silently md p.attempt (fun r w' => ∀ a, r = .ok a → Q a w') w := by
  refine .map (.conseq h fun r w' _ hr => ⟨hr.1, fun r' hr' => ?_⟩)
  cases hr'
  exact hr.2

end Silently

/-- `F` held at some moment between `w` and `w'`. -/
def Read (md : Mode) (w : World) (F : World → Prop) (w' : World) : Prop :=
  ∃ w₁, Reach md w₁ ∧ Still md w w₁ ∧ F w₁ ∧ Still md w₁ w'

theorem Silently.send {c : Call} {F : c.Ans → World → Prop}
    (h : ∀ w a w', Reach md w → serve w c a w' → Still md w w' ∧ F a w') :
    Silently md (send c) (fun a w' => Read md w (F a) w') w := by
  intro w1 hi h1 a w2 hs
  obtain ⟨hstill, hf⟩ := h w1 a w2 hi hs
  have hreach : Reach md w2 := hi.drift hstill.1
  refine ⟨⟨hreach, fun u hu => absurd rfl hu⟩, fun w3 _ h3 => ?_⟩
  refine ⟨(h1.trans hstill).trans h3, fun b hb => ?_⟩
  cases hb
  exact ⟨w2, hreach, h1.trans hstill, hf, h3⟩

theorem Silently.sendOk {c : Call} (hc : c.Ans = Except String α) {F : α → World → Prop}
    (h : ∀ w a w', Reach md w → serve w c a w' → Still md w w' ∧ ∀ x, cast hc a = .ok x → F x w') :
    Silently md (sendOk c hc) (fun a w' => Read md w (F a) w') w := by
  refine (Silently.send h).bind fun a w' _ _ hr => ?_
  intro w1 _ h1
  refine ⟨h1, fun x hx => ?_⟩
  obtain ⟨w2, hreach, h2, hf, h3⟩ := hr
  exact ⟨w2, hreach, h2, hf x hx, h3.trans h1⟩

theorem Follows.send {c : Call} {F : c.Ans → World → Prop}
    (h : ∀ w1 a w2, Reach md w1 → Still md w w1 → serve w1 c a w2 → Reach md w2 ∧
      ∀ w3, Reach md w3 → Still md w2 w3 → F a w3) : Follows md (send c) F w := by
  intro w1 hi h1 a w2 hs
  obtain ⟨hreach, hf⟩ := h w1 a w2 hi h1 hs
  refine ⟨⟨hreach, fun u hu => absurd rfl hu⟩, fun w3 hi3 h3 b hb => ?_⟩
  cases hb
  exact hf w3 hi3 h3

theorem Follows.sendOk {c : Call} (hc : c.Ans = Except String α) {F : α → World → Prop}
    (h : ∀ w1 a w2, Reach md w1 → Still md w w1 → serve w1 c a w2 → Reach md w2 ∧
      ∀ x, cast hc a = .ok x → ∀ w3, Reach md w3 → Still md w2 w3 → F x w3) :
    Follows md (sendOk c hc) F w := by
  refine .bind (Q := fun a w3 => ∀ x, cast hc a = .ok x →
    ∀ w4, Reach md w4 → Still md w3 w4 → F x w4) (Follows.send fun w1 a w2 hi h1 hs => ?_)
    fun a w3 _ hq => ?_
  · obtain ⟨hreach, hf⟩ := h w1 a w2 hi h1 hs
    exact ⟨hreach, fun w3 hi3 h3 x hx w4 hi4 h4 => hf x hx w4 hi4 (h3.trans h4)⟩
  · exact SafeProc.ofExcept hq

end Logic

/-! ## The silent calls -/

section Silent

theorem ask_spec {q : Question} {F : q.Ans → Prop}
    (h : ∀ w a w', Answered w q a w' → w' = w ∧ F a) : Silently md (ask q) (fun a _ => F a) w := by
  refine (Silently.send fun w a w' _ hs => ?_).conseq fun a w' _ _ ⟨_, _, _, hf, _⟩ => hf
  obtain ⟨rfl, hf⟩ := h w a w' hs
  exact ⟨.refl _, hf⟩

theorem ask_free (q : Question)
    (h : ∀ w a w', Answered w q a w' → w' = w := by exact fun _ _ _ h => h) :
    Quietly md (ask q) w :=
  ask_spec (F := fun _ => True) fun w a w' hs => ⟨h w a w' hs, trivial⟩

theorem jobName_spec (op : Operation) : Silently md (ask (.jobName op))
      (fun a _ => ∀ name, a = .ok name → name.utf8ByteSize ≤ 253) w :=
  ask_spec (q := .jobName op) fun _ _ _ hs => hs

theorem build_spec (op : Operation) (plan : Option Plan) : Silently md (ask (.build op plan))
      (fun a _ => ∀ job, a = .ok job → job.operationID = op.id ∧ job.ownedExactly = true) w :=
  ask_spec (q := .build op plan) fun _ _ _ hs => hs

theorem now_spec : Silently md now (fun t _ => t ≠ (0 : Int)) w := by
  refine (Silently.send fun w a w' _ hs => ?_).conseq fun a w' _ _ ⟨_, _, _, hf, _⟩ => hf
  obtain ⟨rfl, hf⟩ := hs
  exact ⟨.refl _, hf⟩

theorem reply_spec {α : Type} {c : Call} (hc : c.Ans = Except String α) {F : α → Prop}
    (h : ∀ w a w', serve w c a w' → w' = w ∧ ∀ x, cast hc a = .ok x → F x) :
    Silently md (sendOk c hc) (fun x _ => F x) w := by
  refine (Silently.sendOk hc fun w a w' _ hs => ?_).conseq fun a w' _ _ ⟨_, _, _, hf, _⟩ => hf
  obtain ⟨rfl, hf⟩ := h w a w' hs
  exact ⟨.refl _, hf⟩

theorem patchJob_spec (name : String) : Quietly md (patchJob name) w :=
  reply_spec _ fun _ _ _ hs => ⟨hs, fun _ _ => trivial⟩

theorem listAcknowledgments_spec : Quietly md listAcknowledgments w :=
  reply_spec _ fun _ _ _ hs => ⟨hs, fun _ _ => trivial⟩

theorem getAcknowledgment_spec (name : String) : Quietly md (getAcknowledgment name) w :=
  reply_spec _ fun _ _ _ hs => ⟨hs, fun _ _ => trivial⟩

theorem patchAcknowledgment_spec (a : Acknowledgment) (consumed : Bool) :
    Quietly md (patchAcknowledgment a consumed) w :=
  reply_spec _ fun _ _ _ hs => ⟨hs, fun _ _ => trivial⟩

theorem getPlan_spec (name : String) :
    Silently md (getPlan name) (fun r _ => ∀ plan, r = some plan → Named plan.name plan.uid) w :=
  reply_spec _ fun _ _ _ hs => ⟨hs.1, fun _ hr plan hplan => hs.2 plan (hplan ▸ hr)⟩

theorem createPlan_spec (plan : Plan) :
    Silently md (createPlan plan) (fun r _ => ∀ plan, r = some plan → Named plan.name plan.uid) w :=
  reply_spec _ fun _ _ _ hs => ⟨hs.1, fun _ hr plan hplan => hs.2 plan (hplan ▸ hr)⟩

theorem getMigration_spec : Silently md getMigration
      (fun r w' => ∀ m, r = some m → Read md w (fun w1 => w1.migration = m) w') w := by
  refine (Silently.sendOk (F := fun r w1 => ∀ m, r = some m → w1.migration = m) _
    fun w a w' _ hs => ?_).conseq
    fun r w' _ _ ⟨w1, hi, h1, hf, h2⟩ m hm => ⟨w1, hi, h1, hf m hm, h2⟩
  obtain ⟨rfl, hf⟩ := hs
  refine ⟨.refl _, fun r hr m hm => ?_⟩
  rcases hf r hr with h | ⟨h, -⟩
  · exact (Option.some.inj (h.symm.trans hm))
  · rw [h] at hm
    cases hm

theorem listPods_spec :
    Silently md listPods (fun pods w' => Read md w (fun w1 => pods = w1.pods) w') w := by
  refine .sendOk _ fun w a w' _ hs => ?_
  obtain ⟨rfl, hf⟩ := hs
  exact ⟨.refl _, hf⟩

theorem listApprovals_spec : Silently md listApprovals
      (fun approvals w' => Read md w (fun w1 => approvals = w1.approvals) w') w := by
  refine .sendOk _ fun w a w' _ hs => ?_
  obtain ⟨rfl, hf⟩ := hs
  exact ⟨.refl _, hf⟩

theorem getApproval_spec (name : String) : Silently md (getApproval name)
      (fun r w' => Read md w (fun w1 => r = w1.approvals.find? (·.name = name)) w') w := by
  refine .sendOk _ fun w a w' _ hs => ?_
  obtain ⟨rfl, hf⟩ := hs
  exact ⟨.refl _, hf⟩

/-- A drawn ID no claim has. -/
structure World.Drawn (w : World) (id : String) : Prop where
  drawn : id ∈ w.ids
  unclaimed : id ∉ claimedIDs w.log
  digest : sha256Digest id = true

theorem Kept.drawn (h : Kept w w') (hd : w.Drawn id) : w'.Drawn id :=
  ⟨h.ids id hd.drawn, by rw [h.log]; exact hd.unclaimed, hd.digest⟩

theorem newOperationID_spec (inputFingerprint : String) :
    Silently md (newOperationID inputFingerprint) (fun id w' => w'.Drawn id) w := by
  refine (Silently.send fun w id w' hr hs => ?_).conseq
    fun id w' _ _ ⟨w1, _, _, hf, h2⟩ => h2.1.kept.drawn hf
  obtain ⟨hnew, hdigest, rfl⟩ := hs
  refine ⟨.draw hnew, .head _, fun hc => ?_, hdigest⟩
  exact absurd (hr.claim.drawn id hc) hnew

theorem getJob_spec (id name : String) :
    Silently md (getJob name) (fun r w' => (∀ job, r = some job → w'.Found id name job) ∧
      (r = none → w'.Unfound id name)) w := by
  refine (Silently.sendOk (F := fun r w1 => r = w1.jobs.find? (·.name = name)) _
    fun w a w' _ hs => ?_).conseq fun r w' _ _ ⟨w1, hi, _, hr, h2⟩ => ?_
  · obtain ⟨rfl, hf⟩ := hs
    exact ⟨.refl _, hf⟩
  have hstore := hi.store
  -- A Job of the claim with that name, if it is in the store, is the one that was found.
  have hname {j k : Job} (hj : j ∈ w1.jobsOf id) (hn : j.name = name) (hk : k ∈ w1.jobs)
      (hu : k.uid = j.uid) : k.name = name := by
    obtain ⟨stored, hs, hw⟩ := hstore.known k hk
    have : stored = j := hstore.ever hs (List.mem_filter.1 hj).1 (by rw [← hu, hw])
    rw [hw, this, hn]
  have hkept := h2.1.kept.toStoreKept
  refine ⟨fun job hjob => hkept.found ?_, fun hnone => hkept.unfound ?_⟩
  · rw [hjob] at hr
    have hmem : job ∈ w1.jobs := List.mem_of_find?_eq_some hr.symm
    have hjn : job.name = name := by simpa using List.find?_some hr.symm
    refine ⟨hstore.known job hmem, hjn, fun ht k hk hku => ?_, fun j hj hn hne k hk hku => ?_⟩
    · obtain ⟨s1, hs1, hw1⟩ := hstore.known job hmem
      obtain ⟨s2, hs2, hw2⟩ := hstore.known k hk
      have hsame : s2 = s1 := hstore.ever hs2 hs1 (by
        have e1 : job.uid = s1.uid := by rw [hw1]
        have e2 : k.uid = s2.uid := by rw [hw2]
        rw [← e1, ← e2, hku])
      have hkj : k = job := by
        refine List.inj_on_of_nodup_map hstore.names hk hmem ?_
        rw [hw1, hw2, hsame]
      rw [hkj, ht]
    · have hkj : k = job :=
        List.inj_on_of_nodup_map hstore.names hk hmem ((hname hj hn hk hku).trans hjn.symm)
      exact hne (hkj ▸ hku.symm)
  · intro j hj hn k hk hku
    rw [hnone] at hr
    have := List.find?_eq_none.1 hr.symm k hk
    simp [hname hj hn hk hku] at this

end Silent

end Ptah.Migration
