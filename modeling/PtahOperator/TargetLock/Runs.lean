import PtahOperator.TargetLock.Safety

/-!
# What holds in every run of the Lockers

- **`takeover_after_full_duration`**: `Acquire` replaces another holder only after the full
  duration of the replaced version has passed in real time. The wall clock takes no part in it.
- **`epoch_one_interval`**: the versions under one epoch, up to any of them that is held, are one
  unbroken interval of one holder.
- **`continuous_acquire_and_release`**: an `Acquire` that keeps continuity extends such an
  interval, and `Release` ends only the interval it names.

Both are read off the history of the Lease: what each write did to the version before it.
-/

namespace Ptah.TargetLock

open Conc

variable {sha256 : List UInt8 → List UInt8} {σ : Pool api Nat World Task TaskResult}

variable {w : World} {n : Nat} {v : Version}

theorem Inv.legal (hi : Inv w) (hv : w.log.Stored n v) : LegalWrite (w.log.take n) v :=
  hi.grown n (some v) hv

/-- What a version that follows another did to it: a renewal, a new acquisition, or a release. -/
theorem Inv.replaced (hi : Inv w) {u : Version}
    (hu : w.log.Stored n u) (hv : w.log.Stored (n + 1) v) :
    (∃ request now, v.op = .acquire request ∧ u.lease.holder = request.holderIdentity ∧
      v.lease = { renewedLease u.lease request now with resourceVersion := n + 1 }) ∨
    (∃ request now e, v.op = .acquire request ∧
      (u.lease.holder ≠ "" → u.lease.holder ≠ request.holderIdentity → Expired u v.time) ∧
      Unused (w.log.take (n + 1)) e ∧
      v.lease = { takenLease u.lease request now e with resourceVersion := n + 1 }) ∨
    (∃ request now, v.op = .release request ∧ u.lease.holder = request.holderIdentity ∧
      u.lease.epoch = request.expectedEpoch ∧
      v.lease = { releasedLease u.lease now with resourceVersion := n + 1 }) := by
  have hcur : History.current (w.log.take (n + 1)) = some u :=
    (History.current_take hv.lt).2 ⟨n, rfl, hu⟩
  have hlen : (w.log.take (n + 1)).length = n + 1 := by
    rw [List.length_take, Nat.min_eq_left (Nat.le_of_lt hv.lt)]
  have hlegal := hi.legal hv
  cases hlegal with
  | create r _ hnone => rw [hcur] at hnone; cases hnone
  | renew r x now hop hx hholder hlease =>
    rw [hcur] at hx; cases hx
    exact .inl ⟨r, now, hop, hholder, by rw [hlease, hlen]⟩
  | take r x now e hop hx hexpired hnew hlease =>
    rw [hcur] at hx; cases hx
    exact .inr (.inl ⟨r, now, e, hop, hexpired, hnew, by rw [hlease, hlen]⟩)
  | release r x now hop hx hholder hepoch hlease =>
    rw [hcur] at hx; cases hx
    exact .inr (.inr ⟨r, now, hop, hholder, hepoch, by rw [hlease, hlen]⟩)

/-! ## Mutual exclusion -/

/-- What a call does to the versions: nothing, or one more, stored now. -/
theorem serve_log {t : Nat} {w' : World} {c : Call} {a : c.Ans} (h : serve t w c a w') :
    w'.log = w.log ∨ ∃ v : Version, w'.log = w.log ++ [some v] ∧ v.time = w.real := by
  cases c with
  | get => exact .inl (by rw [h.1])
  | create op lease =>
    rcases h with ⟨rfl, -⟩ | ⟨-, rfl, -⟩
    · exact .inl rfl
    · exact .inr ⟨_, rfl, rfl⟩
  | update op lease =>
    rcases h with ⟨rfl, -⟩ | ⟨-, rfl, -⟩
    · exact .inl rfl
    · exact .inr ⟨_, rfl, rfl⟩
  | now l => exact .inl (by rw [show w' = w from h])
  | observeForeignLease l lease duration => exact .inl (by rw [h.2])
  | forgetObservation l => exact .inl (by rw [show w' = _ from h])
  | rand =>
    cases a with
    | none => exact .inl (by rw [show w' = w from h])
    | some entropy => exact .inl (by rw [h.2.2])

/-- What a step does to the Lease that stands: it stays, or is replaced or deleted now. -/
theorem step_current {σ' : Pool api Nat World Task TaskResult} (h : Step sha256 σ σ')
    (hv : σ'.world.log.current = some v) :
    σ.world.log.current = some v ∨
      (σ'.world.log.Stored σ.world.log.length v ∧ σ.world.log <+: σ'.world.log ∧
        v.time = σ.world.real) := by
  have happend : ∀ e : Option Version, History.current (σ.world.log ++ [e]) = e := by
    simp [History.current]
  cases h with
  | start t task => exact .inl hv
  | @call t task r k a w ht hs =>
    rcases serve_log hs with hlog | ⟨x, hlog, htime⟩
    · exact .inl (by rwa [hlog] at hv)
    simp only [hlog, happend, Option.some.injEq] at hv ⊢
    subst hv
    exact .inr ⟨History.stored_append.2 (.inr ⟨rfl, rfl⟩), List.prefix_append _ _, htime⟩
  | env he =>
    cases he with
    | tick d => exact .inl hv
    | setBack l offset => exact .inl hv
    | delete => simp [happend] at hv

/-- The Lease changes hands only when it is free or has run out.

First part: when `Acquire` for one holder stores a version over a version of another holder, at
least the duration stored in the replaced version has passed in real time since that version was
stored. Second part: a step from a pool in which the version that stands has time left keeps its
holder, or is that holder's own release. -/
theorem takeover_after_full_duration (h : Reach sha256 σ) :
    (∀ n u v request, σ.world.log.Stored n u → σ.world.log.Stored (n + 1) v →
      v.op = .acquire request → u.lease.holder ≠ "" → u.lease.holder ≠ request.holderIdentity →
      ∃ d, u.lease.leaseDurationSeconds = some d ∧ u.time + d * second ≤ v.time) ∧
    (∀ σ' u v, σ.world.log.current = some u → u.lease.holder ≠ "" →
      (∀ d, u.lease.leaseDurationSeconds = some d → σ.world.real < u.time + d * second) →
      Step sha256 σ σ' → σ'.world.log.current = some v →
      v.lease.holder = u.lease.holder ∨
        ∃ request, v.op = .release request ∧ request.holderIdentity = u.lease.holder) := by
  constructor
  · intro n u v request hu hv hop hheld hother
    rcases (reach_ok sha256 h).1.replaced hu hv with ⟨r, _, hop', hholder, -⟩ |
      ⟨r, _, _, hop', hexpired, -⟩ | ⟨r, _, hop', -⟩
    · cases hop.symm.trans hop'
      exact absurd hholder hother
    · cases hop.symm.trans hop'
      exact hexpired hheld hother
    · cases hop.symm.trans hop'
  · intro σ' u v hcur hheld hlive hstep hcur'
    rcases step_current hstep hcur' with hsame | ⟨hv, hpre, htime⟩
    · rw [hcur] at hsame
      cases hsame
      exact .inl rfl
    obtain ⟨n, hn, hu⟩ := History.current_eq_some.1 hcur
    rw [hn] at hv
    rcases (reach_ok sha256 (h.step hstep)).1.replaced (hu.mono hpre) hv with
      ⟨r, _, -, hholder, hlease⟩ | ⟨r, _, _, -, hexpired, -, hlease⟩ | ⟨r, _, hop, hholder, -⟩
    · rw [hlease]
      exact .inl hholder.symm
    · rw [hlease]
      -- A holder with time left is not replaced, so the new acquisition is its own.
      by_cases hother : u.lease.holder = r.holderIdentity
      · exact .inl hother.symm
      obtain ⟨d, hd, hle⟩ := hexpired hheld hother
      have := hlive d hd
      omega
    · exact .inr ⟨r, hop, hholder.symm⟩

section Takeover

/-- A request of the holder `uid` for five seconds. -/
def sampleRequest (uid expectedEpoch : String) : Request where
  coordinationNamespace := "ptah-system"
  coordinationDigest := "sha256:0000000000000000000000000000000000000000000000000000000000000000"
  holder := { schemaUID := uid, operationID := "apply" }
  duration := 5 * second
  expectedEpoch := expectedEpoch

/-- Before the first call, at time zero. -/
def startPool : Pool api Nat World Task TaskResult where
  world := { log := [], real := 0, offset := fun _ => 0, observations := fun _ => none, issued := [] }
  thread _ := none

/-- `σ` after thread `t` ran `task` undisturbed. -/
def call (σ : Pool api Nat World Task TaskResult) (t : Nat) (task : Task) :
    Pool api Nat World Task TaskResult :=
  σ.runTask (handle t) (Task.code id) t task

/-- `a` acquires the Lease, `b` sees it held, and takes it after five seconds. -/
def takeoverRun : Pool api Nat World Task TaskResult :=
  let σ₁ := call startPool 0 (.acquire 0 (sampleRequest "a" ""))
  let σ₂ := call σ₁ 1 (.acquire 1 (sampleRequest "b" ""))
  let σ₃ := { σ₂ with world := { σ₂.world with real := σ₂.world.real + (5000000000 : Nat) } }
  call σ₃ 2 (.acquire 1 (sampleRequest "b" ""))

theorem startPool_reach : Reach id startPool := .init ⟨rfl, fun _ => rfl, rfl⟩

theorem call_reach {σ : Pool api Nat World Task TaskResult} (h : Reach id σ) {t : Nat}
    (ht : σ.thread t = none) (task : Task) : Reach id (call σ t task) :=
  h.runTask (handle_serves t) task ht

theorem takeoverRun_reach : Reach id takeoverRun := by
  have h1 := call_reach startPool_reach (t := 0) rfl (.acquire 0 (sampleRequest "a" ""))
  have h2 := call_reach h1 (t := 1) rfl (.acquire 1 (sampleRequest "b" ""))
  have h3 : Reach id _ := h2.step (.env (.tick 5000000000))
  exact call_reach h3 rfl (.acquire 1 (sampleRequest "b" ""))

/-- The validated form of `sampleRequest`. -/
def sampleValidated (identity expectedEpoch : String) : ValidatedRequest where
  leaseName := "ptah-t-aaaaaaaaaaaaaaaaaaaaaaaaaaaaaaaaaaaaaaaaaaaaaaaaaaaa"
  holderIdentity := identity
  durationSeconds := 5
  expectedEpoch := expectedEpoch

theorem takeoverRun_log : takeoverRun.world.log =
    [some ⟨⟨0, 0, some "v1-00000000000000000000000000000000", some "ptah-h-meagc4dqnr4q", some 5,
        some 0, some 0, some 0⟩, 0, 0, .acquire (sampleValidated "ptah-h-meagc4dqnr4q" "")⟩,
     some ⟨⟨1, 0, some "v1-00000000000000000000000000000001", some "ptah-h-miagc4dqnr4q", some 5,
        some 5000000, some 5000000, some 1⟩, 5000000000, 2,
        .acquire (sampleValidated "ptah-h-miagc4dqnr4q" "")⟩] := by
  decide +kernel

theorem takeoverRun_waits : ∃ u v, takeoverRun.world.log.Stored 0 u ∧
    takeoverRun.world.log.Stored 1 v ∧ u.lease.holder = "ptah-h-meagc4dqnr4q" ∧
    v.lease.holder = "ptah-h-miagc4dqnr4q" ∧
    ∃ d, u.lease.leaseDurationSeconds = some d ∧ u.time + d * second ≤ v.time := by
  have hu := congrArg (·[0]?) takeoverRun_log
  have hv := congrArg (·[1]?) takeoverRun_log
  exact ⟨_, _, hu, hv, rfl, rfl, (takeover_after_full_duration takeoverRun_reach).1 0 _ _
    (sampleValidated "ptah-h-miagc4dqnr4q" "") hu hv rfl (by decide) (by decide)⟩

end Takeover

/-! ## Epochs -/

/-- The versions under the epoch of a held version, up to it, are an unbroken interval of its
holder. -/
theorem Inv.epoch_one_interval (hi : Inv w)
    (hv : w.log.Stored n v) (hheld : v.lease.holder ≠ "") {i : Nat} {u : Version} (hin : i ≤ n)
    (hu : w.log.Stored i u) (hepoch : u.lease.epoch = v.lease.epoch) {k : Nat} (hik : i ≤ k)
    (hkn : k ≤ n) : ∃ x, w.log.Stored k x ∧ x.lease.holder = v.lease.holder ∧
      x.lease.epoch = v.lease.epoch := by
  -- Induction on the version: a renewal extends the interval of the version before it, and a
  -- new epoch begins an interval of its own.
  induction n generalizing v with
  | zero =>
    obtain rfl : k = 0 := by omega
    exact ⟨v, hv, rfl, rfl⟩
  | succ m ih =>
    by_cases hk : k = m + 1
    · subst hk
      exact ⟨v, hv, rfl, rfl⟩
    have hbefore : History.Stored (w.log.take (m + 1)) i u := History.stored_take.2 ⟨by omega, hu⟩
    cases hi.legal hv with
    | create r _ _ _ hnew => exact absurd hepoch (hnew i u hbefore)
    | take r x now e _ _ _ hnew hlease =>
      rw [hlease] at hepoch
      exact absurd hepoch (hnew i u hbefore)
    | release r x now _ _ _ _ hlease =>
      rw [hlease] at hheld
      exact absurd rfl hheld
    | renew r x now _ hcur hholder hlease =>
      obtain ⟨m', hm, hx⟩ := (History.current_take hv.lt).1 hcur
      obtain rfl : m = m' := by omega
      have hxv : x.lease.holder = v.lease.holder ∧ x.lease.epoch = v.lease.epoch := by
        rw [hlease]
        exact ⟨hholder, rfl⟩
      rw [← hxv.1, ← hxv.2]
      exact ih hx (hxv.1 ▸ hheld) (by omega) (by rw [hxv.2, hepoch]) (by omega)

/-- Continuity of an acquisition.

First part: when an `Acquire` that expects an epoch returns without loss of continuity, it stored a
version, and every version from any one under that epoch up to its own is of its holder and under
that epoch; none of them is a deletion. Second part: a write of `Release` replaces a version of its
holder under its epoch, and changes its holder and renew time only. -/
theorem continuous_acquire_and_release (h : Reach sha256 σ) : (∀ t l request validated result,
      σ.thread t = some (.acquire l request, .ret (.acquire (.ok result))) →
      validate sha256 request = .ok validated → request.expectedEpoch ≠ "" →
      result.acquired = true → result.continuityLost = false →
      ∃ n v, σ.world.log.Stored n v ∧ v.writer = t ∧ v.op = .acquire validated ∧
        v.lease.epoch = request.expectedEpoch ∧
        ∀ i u, i ≤ n → σ.world.log.Stored i u → u.lease.epoch = request.expectedEpoch →
          ∀ k, i ≤ k → k ≤ n → ∃ x, σ.world.log.Stored k x ∧
            x.lease.holder = validated.holderIdentity ∧
            x.lease.epoch = request.expectedEpoch) ∧
    (∀ n v request, σ.world.log.Stored n v → v.op = .release request →
      ∃ m u now, n = m + 1 ∧ σ.world.log.Stored m u ∧ u.lease.holder = request.holderIdentity ∧
        u.lease.epoch = request.expectedEpoch ∧
        v.lease = { releasedLease u.lease now with resourceVersion := n }) := by
  have hok := reach_ok sha256 h
  constructor
  · intro t l request validated result ht hvalid hexp hacq hlost
    obtain ⟨hid, -, -, -, hexp'⟩ := of_validate_eq_ok hvalid
    obtain ⟨n, v, hv, hwriter, hop, hholder, hepoch⟩ :=
      hok.returned ht validated hvalid result rfl hacq hlost (hexp' ▸ hexp)
    rw [hexp'] at hepoch
    refine ⟨n, v, hv, hwriter, hop, hepoch, fun i u hin hu hue k hik hkn => ?_⟩
    have hheld : v.lease.holder ≠ "" := hholder ▸ Holder.identity_ne_empty hid
    rw [← hholder, ← hepoch]
    exact hok.1.epoch_one_interval hv hheld hin hu (hue.trans hepoch.symm) hik hkn
  · intro n v request hv hop
    cases hok.1.legal hv with
    | create r hop' => cases hop.symm.trans hop'
    | renew r x now hop' => cases hop.symm.trans hop'
    | take r x now e hop' => cases hop.symm.trans hop'
    | release r x now hop' hcur hholder hepoch hlease =>
      cases hop.symm.trans hop'
      obtain ⟨m, rfl, hx⟩ := (History.current_take hv.lt).1 hcur
      refine ⟨m, x, now, rfl, hx, hholder, hepoch, ?_⟩
      rw [hlease, List.length_take, Nat.min_eq_left (Nat.le_of_lt hv.lt)]

section Renewal

def sampleEpoch : String := "v1-00000000000000000000000000000000"

/-- `a` acquires the Lease. -/
def acquiredPool : Pool api Nat World Task TaskResult :=
  call startPool 0 (.acquire 0 (sampleRequest "a" ""))

/-- `a` renews the Lease under its epoch, and releases it. -/
def renewalRun : Pool api Nat World Task TaskResult :=
  call (call acquiredPool 1 (.acquire 0 (sampleRequest "a" sampleEpoch))) 2
    (.release 0 (sampleRequest "a" sampleEpoch))

theorem renewalRun_reach : Reach id renewalRun := by
  have h1 := call_reach startPool_reach (t := 0) rfl (.acquire 0 (sampleRequest "a" ""))
  have h2 := call_reach h1 (t := 1) rfl (.acquire 0 (sampleRequest "a" sampleEpoch))
  exact call_reach h2 rfl (.release 0 (sampleRequest "a" sampleEpoch))

theorem renewalRun_log : renewalRun.world.log =
    [some ⟨⟨0, 0, some sampleEpoch, some "ptah-h-meagc4dqnr4q", some 5, some 0, some 0, some 0⟩,
        0, 0, .acquire (sampleValidated "ptah-h-meagc4dqnr4q" "")⟩,
     some ⟨⟨1, 0, some sampleEpoch, some "ptah-h-meagc4dqnr4q", some 5, some 0, some 0, some 0⟩,
        0, 1, .acquire (sampleValidated "ptah-h-meagc4dqnr4q" sampleEpoch)⟩,
     some ⟨⟨2, 0, some sampleEpoch, some "", some 5, some 0, some 0, some 0⟩,
        0, 2, .release (sampleValidated "ptah-h-meagc4dqnr4q" sampleEpoch)⟩] := by
  decide +kernel

theorem renewalRun_thread : renewalRun.thread 1 = some (.acquire 0 (sampleRequest "a" sampleEpoch),
      .ret (.acquire (.ok { acquired := true, epoch := sampleEpoch }))) := by
  have hresult : ((Task.code id (.acquire 0 (sampleRequest "a" sampleEpoch))).exec (handle 1)
      acquiredPool.world).1 = .acquire (.ok { acquired := true, epoch := sampleEpoch }) := by
    decide +kernel
  rw [← hresult]
  rfl

/-- The renewal is a version of the one interval of its epoch, and the release replaced the last
version of it. -/
theorem renewalRun_continuous : (∃ n v, renewalRun.world.log.Stored n v ∧ v.writer = 1 ∧
      ∀ k ≤ n, ∃ x, renewalRun.world.log.Stored k x ∧
        x.lease.holder = "ptah-h-meagc4dqnr4q" ∧ x.lease.epoch = sampleEpoch) ∧
    ∃ m u, 2 = m + 1 ∧ renewalRun.world.log.Stored m u ∧
      u.lease.holder = "ptah-h-meagc4dqnr4q" ∧ u.lease.epoch = sampleEpoch := by
  have h₀ := congrArg (·[0]?) renewalRun_log
  have h₂ := congrArg (·[2]?) renewalRun_log
  obtain ⟨hacquire, hrelease⟩ := continuous_acquire_and_release renewalRun_reach
  constructor
  · obtain ⟨n, v, hv, hwriter, -, -, hall⟩ := hacquire 1 _ _
      (sampleValidated "ptah-h-meagc4dqnr4q" sampleEpoch) _ renewalRun_thread (by decide +kernel)
      (by decide) rfl rfl
    exact ⟨n, v, hv, hwriter, fun k hk => hall 0 _ (Nat.zero_le n) h₀ rfl k (Nat.zero_le k) hk⟩
  · obtain ⟨m, u, -, hm, hu, hholder, hepoch, -⟩ := hrelease 2 _ _ h₂ rfl
    exact ⟨m, u, hm, hu, hholder, hepoch⟩

end Renewal

end Ptah.TargetLock
