import PtahOperator.TargetLock.World

/-!
# The Lockers keep their discipline

Each call of `Acquire` and `Release` keeps the invariant and leaves the other threads' epochs
alone (`acquire_safe`, `release_safe`), so in every run each version of the Lease is a legal write
over the versions before it (`reach_ok`).
-/

namespace Ptah.TargetLock

open Conc

variable {t : Nat} {w : World}

/-! ## One call -/

theorem rely_observations (obs : LockerId → Option LeaseObservation) :
    Rely t w { w with observations := obs } :=
  ⟨List.prefix_refl _, Int.le_refl _, fun _ h => h, fun _ _ h => h⟩

theorem rely_rand (e : String) (u : Nat) : Rely t w { w with issued := (e, u) :: w.issued } :=
  ⟨List.prefix_refl _, Int.le_refl _, fun _ h => .tail _ h, fun _ _ h => h⟩

theorem guar_same (hi : Inv w) : discipline.Guar t w w :=
  ⟨hi, fun u _ => discipline.refl u w⟩

theorem guar_observations {obs : LockerId → Option LeaseObservation} (hi : Inv w)
    (hobs : ∀ l o, obs l = some o → w.observations l = some o ∨
      ∃ v, w.log.Stored o.record.resourceVersion v ∧ observedLeaseRecord v.lease = o.record ∧
        v.time + w.offset l ≤ o.firstSeen) :
    discipline.Guar t w { w with observations := obs } := by
  refine ⟨⟨hi.grown, hi.version, hi.drawn, hi.once, fun l o ho => ?_⟩,
    fun _ _ => rely_observations obs⟩
  rcases hobs l o ho with h | h
  · exact hi.seen l o h
  · exact h

theorem guar_forget (l : LockerId) (hi : Inv w) :
    discipline.Guar t w { w with observations := Function.update w.observations l none } := by
  refine guar_observations hi fun l' o ho => .inl ?_
  by_cases hl : l' = l
  · subst hl; simp at ho
  · rwa [Function.update_of_ne hl] at ho

variable {e : String} {w' : World} {u : Version} {l : LockerId}

theorem guar_rand (hi : Inv w) (hnew : ∀ i ∈ w.issued, i.1 ≠ e) :
    discipline.Guar t w { w with issued := (e, t) :: w.issued } := by
  refine ⟨⟨hi.grown, hi.version, fun n v hv => ?_, fun e' t1 t2 h1 h2 => ?_, hi.seen⟩,
    fun _ _ => rely_rand e t⟩
  · obtain ⟨u, hu⟩ := hi.drawn n v hv
    exact ⟨u, .tail _ hu⟩
  simp only [List.mem_cons, Prod.mk.injEq] at h1 h2
  rcases h1 with ⟨rfl, rfl⟩ | h1 <;> rcases h2 with ⟨he, rfl⟩ | h2
  · rfl
  · exact absurd rfl (hnew _ h2)
  · exact absurd he (hnew _ h1)
  · exact hi.once e' t1 t2 h1 h2

theorem unused_of_not_issued (hi : Inv w) (hnew : ∀ i ∈ w.issued, i.1 ≠ e) : Unused w.log e := by
  intro n v hv he
  obtain ⟨u, hu⟩ := hi.drawn n v hv
  exact hnew _ hu he

theorem guar_store {op : Op} {lease : Lease} (hi : Inv w)
    (hlegal : LegalWrite w.log ⟨{ lease with resourceVersion := w.log.length }, w.real, t, op⟩)
    (hepoch : ¬ Unused w.log lease.epoch ∨ (lease.epoch, t) ∈ w.issued) :
    discipline.Guar t w (w.store t op lease) := by
  have hstored : ∀ n v, (w.store t op lease).log.Stored n v → w.log.Stored n v ∨ (n = w.log.length ∧
        v = ⟨{ lease with resourceVersion := w.log.length }, w.real, t, op⟩) := by
    intro n v hv
    rcases History.stored_append.1 hv with hv | ⟨hn, hv⟩
    · exact .inl hv
    · exact .inr ⟨hn, (Option.some.inj hv).symm⟩
  have hissued : ∃ u, (lease.epoch, u) ∈ w.issued := by
    rcases hepoch with hold | hmine
    · simp only [Unused, not_forall, not_not] at hold
      obtain ⟨n, v, hv, he⟩ := hold
      exact he ▸ hi.drawn n v hv
    · exact ⟨t, hmine⟩
  refine ⟨⟨hi.grown.append hlegal, fun n v hv => ?_, fun n v hv => ?_, hi.once,
    fun l o ho => ?_⟩, fun u hut => ⟨List.prefix_append _ _, Int.le_refl _, fun i h => h,
      fun e he hun n v hv => ?_⟩⟩
  · rcases hstored n v hv with hv | ⟨rfl, rfl⟩
    · exact hi.version n v hv
    · exact ⟨rfl, Int.le_refl _⟩
  · rcases hstored n v hv with hv | ⟨rfl, rfl⟩
    · exact hi.drawn n v hv
    · exact hissued
  · obtain ⟨v, hv, hrec, htime⟩ := hi.seen l o ho
    exact ⟨v, hv.mono (List.prefix_append _ _), hrec, htime⟩
  rcases hstored n v hv with hv | ⟨rfl, rfl⟩
  · exact hun n v hv
  -- The writer drew its epoch or found it stored, so it is not one that `u` drew.
  rintro rfl
  rcases hepoch with hold | hmine
  · exact hold hun
  · exact hut (hi.once _ _ _ he hmine)

/-! ## The programs -/

/-- Thread `t` drew the epoch `e` and has not stored it. -/
def Mine (t : Nat) (w : World) (e : String) : Prop := (e, t) ∈ w.issued ∧ Unused w.log e

theorem Mine.mono (h : Mine t w e) (hr : Rely t w w') : Mine t w' e :=
  ⟨hr.issued _ h.1, hr.mine e h.1 h.2⟩

/-- The object `lease` was read from the version `u`. -/
def ReadFrom (w : World) (lease : Lease) (u : Version) : Prop :=
  w.log.Stored lease.resourceVersion u ∧ u.lease = lease

theorem ReadFrom.mono {lease : Lease} (h : ReadFrom w lease u)
    (hr : Rely t w w') : ReadFrom w' lease u :=
  ⟨h.1.mono hr.log, h.2⟩

theorem ReadFrom.current {lease lease' : Lease} {v : Version} (hi : Inv w)
    (h : ReadFrom w lease u) (hv : w.log.current = some v)
    (hrv : v.lease.resourceVersion = lease'.resourceVersion)
    (hsame : lease'.resourceVersion = lease.resourceVersion) : w.log.current = some u := by
  obtain ⟨n, hn, hs⟩ := History.current_eq_some.1 hv
  have : n = lease.resourceVersion := by rw [← (hi.version n v hs).1, hrv, hsame]
  subst this
  rw [hv, hs.unique h.1]

theorem Expired.mono {time time' : Int} (h : Expired u time) (ht : time ≤ time') :
    Expired u time' :=
  let ⟨d, hd, hle⟩ := h
  ⟨d, hd, Int.le_trans hle ht⟩

abbrev LockSafe {β : Type} (t : Nat) (p : Prog api β) (R : β → World → Prop) (w : World) : Prop :=
  Safe server discipline t p R w

theorem newEpoch_safe : LockSafe t newEpoch
    (fun r w' => Rely t w w' ∧ ∀ e, r = .ok e → Mine t w' e) w := by
  refine .req fun w1 hi hr a w2 hs => ?_
  cases a with
  | none =>
    obtain rfl : w2 = w1 := hs
    exact ⟨guar_same hi, .ret fun w' _ hr' => ⟨discipline.trans hr hr', by simp⟩⟩
  | some entropy =>
    obtain ⟨-, hnew, rfl⟩ := hs
    have hunused : Unused w1.log (epochOf entropy) := unused_of_not_issued hi hnew
    have hmine : Mine t { w1 with issued := (epochOf entropy, t) :: w1.issued } (epochOf entropy) :=
      ⟨.head _, hunused⟩
    refine ⟨guar_rand hi hnew, .ret fun w' _ hr' => ⟨?_, fun e he => ?_⟩⟩
    · exact discipline.trans hr (discipline.trans (rely_rand _ t) hr')
    · cases he
      exact hmine.mono hr'

/-- `lease'` is the object `updateLease` makes of `lease` in thread `t`. -/
def Updated (t : Nat) (w : World) (lease : Lease) (request : ValidatedRequest) (now : MicroTime)
    (preserveEpoch : Bool) (lease' : Lease) : Prop :=
  (preserveEpoch = true ∧ lease' = renewedLease lease request now) ∨
  (preserveEpoch = false ∧ ∃ e, Mine t w e ∧ lease' = takenLease lease request now e)

section
variable {lease lease' : Lease} {request : ValidatedRequest} {now : MicroTime}
  {preserveEpoch : Bool}

theorem Updated.mono (h : Updated t w lease request now preserveEpoch lease')
    (hr : Rely t w w') : Updated t w' lease request now preserveEpoch lease' :=
  h.imp_right fun ⟨hp, e, hmine, he⟩ => ⟨hp, e, hmine.mono hr, he⟩

theorem Updated.resourceVersion (h : Updated t w lease request now preserveEpoch lease') :
    lease'.resourceVersion = lease.resourceVersion := by
  rcases h with ⟨-, rfl⟩ | ⟨-, e, -, rfl⟩ <;> rfl

theorem updateLease_safe : LockSafe t (updateLease lease request now preserveEpoch)
    (fun r w' => Rely t w w' ∧
      ∀ lease', r = .ok lease' → Updated t w' lease request now preserveEpoch lease') w := by
  cases preserveEpoch with
  | true =>
    exact .ret fun w' _ hr => ⟨hr, fun lease' h => .inl ⟨rfl, by cases h; rfl⟩⟩
  | false =>
    refine .bind newEpoch_safe fun r w' _ ⟨hr, hmine⟩ => ?_
    cases r with
    | error e => exact .ret fun w'' _ hr' => ⟨discipline.trans hr hr', by simp⟩
    | ok e =>
      refine .ret fun w'' _ hr' => ⟨discipline.trans hr hr', fun lease' h => .inr ?_⟩
      cases h
      exact ⟨rfl, e, (hmine e rfl).mono hr', rfl⟩

end

/-- What a successful `Acquire` under an expected epoch means: if continuity is not lost, its own
write is a version of its holder under that epoch. -/
def AcquirePost (request : ValidatedRequest) (t : Nat) (r : Except LockError AcquireResult)
    (w : World) : Prop :=
  ∀ result, r = .ok result → result.acquired = true → result.continuityLost = false →
    request.expectedEpoch ≠ "" → ∃ n v, w.log.Stored n v ∧ v.writer = t ∧
      v.op = .acquire request ∧ v.lease.holder = request.holderIdentity ∧
      v.lease.epoch = request.expectedEpoch

theorem AcquirePost.error {request : ValidatedRequest} {e : LockError} :
    AcquirePost request t (.error e) w := by
  intro result h
  cases h

/-- `observeForeignLease` on an object read from `u`: nothing is left of it only when its duration
has passed in real time since `u` was stored. -/
theorem guar_observe {lease : Lease} {duration : Int} (hi : Inv w)
    (hread : ReadFrom w lease u) (hpos : 0 < duration) :
    let seen := observeForeignLease (w.observations l) lease duration (w.real + w.offset l)
    discipline.Guar t w { w with observations := Function.update w.observations l seen.2 } ∧
      (seen.1 ≤ 0 → u.time + duration ≤ w.real) := by
  intro seen
  obtain ⟨hstored, rfl⟩ := hread
  -- The clock is read now, so a record first seen now is no younger than its version.
  have hnow := (hi.version _ u hstored).2
  rcases observeForeignLease_cases (w.observations l) u.lease duration (w.real + w.offset l) with
    h | ⟨o, ho, hrec, ⟨hlt, h⟩ | ⟨hge, h⟩⟩
  · obtain ⟨h1, h2⟩ : seen.1 = duration ∧ seen.2 = some ⟨_, _⟩ := ⟨congrArg (·.1) h, congrArg (·.2) h⟩
    refine ⟨guar_observations hi fun l' o ho => ?_, by omega⟩
    by_cases hl : l' = l
    · subst hl
      rw [Function.update_self, h2] at ho
      cases ho
      exact .inr ⟨u, hstored, rfl, by simp only; omega⟩
    · exact .inl (by rwa [Function.update_of_ne hl] at ho)
  · obtain ⟨h1, h2⟩ : seen.1 = duration - (w.real + w.offset l - o.firstSeen) ∧ seen.2 = some o :=
      ⟨congrArg (·.1) h, congrArg (·.2) h⟩
    refine ⟨guar_observations hi fun l' o' ho' => .inl ?_, by omega⟩
    by_cases hl : l' = l
    · subst hl
      rw [Function.update_self, h2] at ho'
      rw [ho, ho']
    · rwa [Function.update_of_ne hl] at ho'
  · have h2 : seen.2 = none := congrArg (·.2) h
    refine ⟨by rw [h2]; exact guar_forget l hi, fun _ => ?_⟩
    obtain ⟨v, hv, -, htime⟩ := hi.seen l o ho
    rw [hrec] at hv
    obtain rfl := hv.unique hstored
    omega

theorem acquireMissing_safe {request : ValidatedRequest}
    {retry : Prog api (Except LockError AcquireResult)}
    (hretry : ∀ w, LockSafe t retry (AcquirePost request t) w) :
    LockSafe t (acquireMissing l request retry) (AcquirePost request t) w := by
  refine .req fun w1 hi1 _ _ w2 hs => ?_
  obtain rfl : w2 = _ := hs
  refine ⟨guar_forget l hi1, .req fun w3 hi3 _ now w4 hs => ?_⟩
  obtain rfl : w4 = w3 := hs
  refine ⟨guar_same hi3, .bind (Q := fun r w' => ∀ lease, r = .ok lease →
    ∃ e, Mine t w' e ∧ lease = createdLease request now e) ?_ fun r w5 _ hr => ?_⟩
  · refine .bind newEpoch_safe fun r w' _ ⟨_, hmine⟩ => ?_
    cases r with
    | error e => exact .ret fun w'' _ hr' => by simp
    | ok e =>
      refine .ret fun w'' _ hr' lease h => ?_
      cases h
      exact ⟨e, (hmine e rfl).mono hr', rfl⟩
  cases r with
  | error e => exact .ret fun _ _ _ => .error
  | ok lease =>
    obtain ⟨e, hmine, rfl⟩ := hr lease rfl
    refine .req fun w6 hi6 hr6 a w7 hs => ?_
    rcases hs with ⟨rfl, hne⟩ | ⟨hcur, rfl, ha⟩
    · refine ⟨guar_same hi6, ?_⟩
      cases a with
      | ok => exact absurd rfl hne
      | alreadyExists | conflict => exact hretry w7
      | notFound | failed => exact .ret fun _ _ _ => .error
    · have hmine6 := hmine.mono hr6
      refine ⟨guar_store hi6 (.create request rfl hcur rfl hmine6.2) (.inr hmine6.1), ?_⟩
      -- A created Lease is never a continuous one: the result reports the loss.
      rcases ha with rfl | rfl
      · refine .ret fun w' _ _ result h _ hlost hexp => ?_
        cases h
        simp [hexp] at hlost
      · exact .ret fun _ _ _ => .error

theorem World.stored_store (w : World) (t : Nat) (op : Op) (lease : Lease) :
    (w.store t op lease).log.Stored w.log.length
      ⟨{ lease with resourceVersion := w.log.length }, w.real, t, op⟩ :=
  History.stored_append.2 (.inr ⟨rfl, rfl⟩)

theorem not_unused_current (hcur : w.log.current = some u) : ¬ Unused w.log u.lease.epoch := by
  obtain ⟨n, -, hn⟩ := History.current_eq_some.1 hcur
  exact fun h => h n u hn rfl

/-- The update of `Acquire` that lands is legal, whichever object `updateLease` gave. -/
theorem guar_acquired {request : ValidatedRequest} {now : MicroTime}
    {lease' : Lease} {preserveEpoch : Bool} (hi : Inv w) (hcur : w.log.current = some u)
    (hkeep : preserveEpoch = true → u.lease.holder = request.holderIdentity)
    (hexpired : u.lease.holder ≠ "" → u.lease.holder ≠ request.holderIdentity → Expired u w.real)
    (hlease : Updated t w u.lease request now preserveEpoch lease') :
    discipline.Guar t w (w.store t (.acquire request) lease') := by
  rcases hlease with ⟨hp, rfl⟩ | ⟨-, e, hmine, rfl⟩
  · exact guar_store hi (.renew request u now rfl hcur (hkeep hp) rfl)
      (.inl (not_unused_current hcur))
  · exact guar_store hi (.take request u now e rfl hcur hexpired hmine.2 rfl) (.inr hmine.1)

theorem acquireFound_safe {request : ValidatedRequest} {lease : Lease}
    {retry : Prog api (Except LockError AcquireResult)}
    (hretry : ∀ w, LockSafe t retry (AcquirePost request t) w)
    (hread : ReadFrom w lease u)
    (hexpired : lease.holder ≠ "" → lease.holder ≠ request.holderIdentity → Expired u w.real) :
    LockSafe t (acquireFound l request lease retry) (AcquirePost request t) w := by
  refine .req fun w1 hi1 hr1 now w2 hs => ?_
  obtain rfl : w2 = w1 := hs
  refine ⟨guar_same hi1, .bind updateLease_safe fun r w3 hi3 ⟨hr3, hlease⟩ => ?_⟩
  cases r with
  | error e => exact .ret fun _ _ _ => .error
  | ok lease' =>
    refine .req fun w4 hi4 hr4 a w5 hs => ?_
    have hr : Rely t w w4 := discipline.trans hr1 (discipline.trans hr3 hr4)
    rcases hs with ⟨rfl, hne⟩ | ⟨⟨v, hv, hrv⟩, rfl, ha⟩
    · refine ⟨guar_same hi4, ?_⟩
      cases a with
      | ok => exact absurd rfl hne
      | conflict | notFound => exact hretry w5
      | alreadyExists | failed => exact .ret fun _ _ _ => .error
    have hread4 := hread.mono hr
    obtain rfl := hread4.2
    have hupd := (hlease lease' rfl).mono hr4
    have hcur := hread4.current hi4 hv hrv hupd.resourceVersion
    refine ⟨guar_acquired hi4 hcur (by simp +contextual) ?_ hupd, ?_⟩
    · exact fun h1 h2 => (hexpired h1 h2).mono hr.real
    rcases ha with rfl | rfl
    · refine .req fun w6 hi6 hr6 _ w7 hs => ?_
      obtain rfl : w7 = _ := hs
      refine ⟨guar_forget l hi6, .ret fun w8 _ hr8 result h _ hlost hexp => ?_⟩
      cases h
      -- Continuity is kept only by a renewal under the expected epoch.
      simp only [hexp, ne_eq, not_false_eq_true, decide_true, Bool.true_and, Bool.not_eq_false',
        Bool.and_eq_true, decide_eq_true_eq, decide_false, Bool.false_or] at hlost
      obtain ⟨⟨hholder, hvalid⟩, hepoch⟩ := hlost
      rcases hupd with ⟨-, rfl⟩ | ⟨hp, -⟩
      · exact ⟨w4.log.length, _, ((World.stored_store w4 t _ _).mono hr6.log).mono hr8.log,
          rfl, rfl, rfl, hepoch⟩
      · simp [hholder, hvalid] at hp
    · exact .ret fun _ _ _ => .error

/-- A duration `Acquire` accepts is the one the Lease stores, and is positive. -/
theorem validForeignLeaseDuration_eq {lease : Lease} {duration : Int}
    (h : validForeignLeaseDuration lease = some duration) :
    0 < duration ∧ ∃ d, lease.leaseDurationSeconds = some d ∧ duration = d * second := by
  unfold validForeignLeaseDuration at h
  split at h
  · cases h
  next d hd =>
    simp only at h
    split at h
    · cases h
    next hbound =>
      cases h
      have hmin : 0 < minLeaseDuration := by decide
      exact ⟨by omega, d, hd, rfl⟩

theorem read_found {lease : Lease} (hi : Inv w) (h : GetAnswer.found lease = w.read) :
    ∃ u, ReadFrom w lease u := by
  unfold World.read at h
  split at h
  next u hcur =>
    cases h
    obtain ⟨n, -, hn⟩ := History.current_eq_some.1 hcur
    refine ⟨u, ?_, rfl⟩
    rwa [(hi.version n u hn).1]
  · cases h

theorem acquireLoop_safe (l : LockerId) (request : ValidatedRequest) (attempts : Nat) (w : World) :
    LockSafe t (acquireLoop l request attempts) (AcquirePost request t) w := by
  induction attempts generalizing w with
  | zero => exact .ret fun _ _ _ => .error
  | succ n ih =>
    refine .req fun w1 hi1 _ a w2 hs => ?_
    obtain ⟨rfl, ha⟩ := hs
    refine ⟨guar_same hi1, ?_⟩
    cases a with
    | failed => exact .ret fun _ _ _ => .error
    | notFound => exact acquireMissing_safe ih
    | found lease =>
      obtain ⟨u, hread⟩ := read_found hi1 (ha.resolve_left (by simp))
      simp only
      split
      next hforeign =>
        split
        next duration hduration _ =>
          obtain ⟨hpos, d, hd, rfl⟩ := validForeignLeaseDuration_eq hduration
          refine .req fun w3 hi3 hr3 remaining w4 hs => ?_
          obtain ⟨hrem, rfl⟩ := hs
          have hread3 := hread.mono hr3
          obtain ⟨hguar, hexp⟩ := guar_observe hi3 hread3 hpos
          refine ⟨hguar, ?_⟩
          by_cases hleft : 0 < remaining
          · rw [if_pos hleft]
            refine .ret fun _ _ _ result h hacq => ?_
            cases h
            cases hacq
          · rw [if_neg hleft]
            refine acquireFound_safe ih ⟨hread3.1, hread3.2⟩ fun _ _ => ?_
            exact ⟨d, by rw [hread.2]; exact hd, hexp (Int.not_lt.1 (hrem ▸ hleft))⟩
        · exact .ret fun _ _ _ => .error
      next hown =>
        refine .req fun w3 hi3 hr3 _ w4 hs => ?_
        obtain rfl : w4 = _ := hs
        refine ⟨guar_forget l hi3, acquireFound_safe ih (u := u) ?_ fun h1 h2 => ?_⟩
        · exact ⟨(hread.mono hr3).1, hread.2⟩
        · exact absurd ⟨h1, h2⟩ hown

theorem releaseLoop_safe (l : LockerId) (request : ValidatedRequest) (attempts : Nat) (w : World) :
    LockSafe t (releaseLoop l request attempts) (fun _ _ => True) w := by
  induction attempts generalizing w with
  | zero => exact .ret fun _ _ _ => trivial
  | succ n ih =>
    refine .req fun w1 hi1 _ a w2 hs => ?_
    obtain ⟨rfl, ha⟩ := hs
    refine ⟨guar_same hi1, ?_⟩
    have hforget : ∀ w, LockSafe t
        (send (.forgetObservation l) >>= fun _ => (.ret (.ok ()) : Prog api (Except LockError Unit)))
        (fun _ _ => True) w := by
      refine fun w => .req fun w3 hi3 _ _ w4 hs => ?_
      obtain rfl : w4 = _ := hs
      exact ⟨guar_forget l hi3, .ret fun _ _ _ => trivial⟩
    cases a with
    | failed => exact .ret fun _ _ _ => trivial
    | notFound => exact hforget _
    | found lease =>
      obtain ⟨u, hread⟩ := read_found hi1 (ha.resolve_left (by simp))
      simp only
      split
      · exact .ret fun _ _ _ => trivial
      next hheld =>
        refine .req fun w3 hi3 hr3 now w4 hs => ?_
        obtain rfl : w4 = w3 := hs
        refine ⟨guar_same hi3, .req fun w5 hi5 hr5 a w6 hs => ?_⟩
        rcases hs with ⟨rfl, hne⟩ | ⟨⟨v, hv, hrv⟩, rfl, ha⟩
        · refine ⟨guar_same hi5, ?_⟩
          cases a with
          | ok => exact absurd rfl hne
          | conflict | notFound => exact ih w6
          | alreadyExists | failed => exact .ret fun _ _ _ => trivial
        have hread5 := (hread.mono hr3).mono hr5
        obtain rfl := hread5.2
        have hcur := hread5.current hi5 hv hrv rfl
        have hheld' : u.lease.holder = request.holderIdentity ∧
            u.lease.epoch = request.expectedEpoch := by
          simpa only [ne_eq, not_or, not_not] using hheld
        refine ⟨guar_store hi5 (.release request u now rfl hcur hheld'.1 hheld'.2 rfl)
          (.inl (not_unused_current hcur)), ?_⟩
        rcases ha with rfl | rfl
        · exact hforget _
        · exact .ret fun _ _ _ => trivial

/-! ## Runs -/

/-- A call of one of the two methods, on a Locker. -/
inductive Task where
  | acquire (locker : LockerId) (request : Request)
  | release (locker : LockerId) (request : Request)

/-- What a call returns. -/
inductive TaskResult where
  | acquire (r : Except LockError AcquireResult)
  | release (r : Except LockError Unit)
  deriving DecidableEq

variable (sha256 : List UInt8 → List UInt8)

def Task.code : Task → Prog api TaskResult
  | .acquire l request => .acquire <$> TargetLock.acquire sha256 l request
  | .release l request => .release <$> TargetLock.release sha256 l request

/-- The runs: calls of both methods on any number of Lockers, in any interleaving. -/
abbrev Reach (σ : Pool api Nat World Task TaskResult) : Prop :=
  Pool.Reach server (Task.code sha256) Env Init σ

abbrev Step (σ σ' : Pool api Nat World Task TaskResult) : Prop :=
  Pool.Step server (Task.code sha256) Env σ σ'

/-- What a returned call means. -/
def Task.Post : Task → Nat → TaskResult → World → Prop
  | .acquire _ request, t, .acquire r, w =>
    ∀ validated, validate sha256 request = .ok validated → AcquirePost validated t r w
  | _, _, _, _ => True

theorem Task.code_safe (task : Task) (t : Nat) (w : World) :
    LockSafe t (task.code sha256) (task.Post sha256 t) w := by
  cases task with
  | acquire l request =>
    refine .bind (Q := fun r w' => ∀ validated, validate sha256 request = .ok validated →
      AcquirePost validated t r w') ?_ fun r w' _ hr => ?_
    · unfold TargetLock.acquire
      split
      next e he => exact .ret fun _ _ _ _ h => by rw [he] at h; cases h
      next validated hv =>
        refine (acquireLoop_safe l validated maxAttempts w).conseq fun r w' _ hr v h => ?_
        rw [hv] at h
        cases h
        exact hr
    · refine .ret fun w'' _ hrely validated hv result h h1 h2 h3 => ?_
      obtain ⟨n, v, hs, hrest⟩ := hr validated hv result h h1 h2 h3
      exact ⟨n, v, hs.mono hrely.log, hrest⟩
  | release l request =>
    refine .bind (Q := fun _ _ => True) ?_ fun r w' _ _ => .ret fun _ _ _ => trivial
    unfold TargetLock.release
    split
    · exact .ret fun _ _ _ => trivial
    next validated _ =>
      split
      · exact .ret fun _ _ _ => trivial
      · exact releaseLoop_safe l validated maxAttempts w

theorem inv_init {w : World} (h : Init w) : Inv w := by
  obtain ⟨hlog, hobs, hissued⟩ := h
  refine ⟨by rw [hlog]; exact History.Grown.nil, ?_, ?_, ?_, ?_⟩
  · intro n v hv; rw [hlog] at hv; cases hv
  · intro n v hv; rw [hlog] at hv; cases hv
  · intro e t u h; rw [hissued] at h; cases h
  · intro l o h; rw [hobs] at h; cases h

theorem env_ok {w : World} (hi : Inv w) (h : Env w w') : Inv w' ∧ ∀ t, Rely t w w' := by
  cases h with
  | tick d =>
    refine ⟨⟨hi.grown, fun n v hv => ?_, hi.drawn, hi.once, hi.seen⟩,
      fun t => ⟨List.prefix_refl _, ?_, fun _ h => h, fun _ _ h => h⟩⟩
    · have := hi.version n v hv
      exact ⟨this.1, by simp only; omega⟩
    · simp only; omega
  | setBack l offset hle =>
    refine ⟨⟨hi.grown, hi.version, hi.drawn, hi.once, fun l' o ho => ?_⟩,
      fun t => ⟨List.prefix_refl _, Int.le_refl _, fun _ h => h, fun _ _ h => h⟩⟩
    obtain ⟨v, hv, hrec, htime⟩ := hi.seen l' o ho
    refine ⟨v, hv, hrec, ?_⟩
    by_cases hl : l' = l
    · subst hl
      simp only [Function.update_self]
      omega
    · simpa only [Function.update_of_ne hl] using htime
  | delete =>
    have hstored : ∀ n v, History.Stored (w.log ++ [none]) n v → w.log.Stored n v :=
      fun n v hv => (History.stored_append.1 hv).resolve_right (by simp)
    refine ⟨⟨hi.grown.append trivial, fun n v hv => hi.version n v (hstored n v hv),
      fun n v hv => hi.drawn n v (hstored n v hv), hi.once, fun l o ho => ?_⟩,
      fun t => ⟨List.prefix_append _ _, Int.le_refl _, fun _ h => h,
        fun e _ hun n v hv => hun n v (hstored n v hv)⟩⟩
    obtain ⟨v, hv, hrest⟩ := hi.seen l o ho
    exact ⟨v, hv.mono (List.prefix_append _ _), hrest⟩

theorem reach_ok {σ : Pool api Nat World Task TaskResult} (h : Reach sha256 σ) :
    Pool.Ok server discipline (Task.Post sha256) σ :=
  Pool.Reach.ok (fun _ => inv_init) (fun task t w _ => Task.code_safe sha256 task t w)
    (fun _ _ => env_ok) h

end Ptah.TargetLock
