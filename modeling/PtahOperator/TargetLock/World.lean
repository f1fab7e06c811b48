import PtahOperator.Conc.Run
import PtahOperator.Conc.History
import PtahOperator.TargetLock.Locker

/-!
# One Lease and the Lockers that share it

The world holds every version of one Lease, the real time, the clock and the observation of each
Locker, and the epochs drawn so far. Lockers of any number of processes run `Acquire` and
`Release` against it, each call in a thread of its own.

- A write lands only on the version its object was read from (`serve`); an answer can be lost
  after the write landed.
- The local clock of a Locker runs with real time, and can be set back (`Env.setBack`). The wall
  clock gives any value at all.
- `LegalWrite` lists what a write of the package can do to the Lease. Each stored version is one
  of these over the versions before it (`Inv.grown`), and the results about whole runs are read
  off this history.
-/

namespace Ptah.TargetLock

open Conc

/-! ## The world -/

/-- A stored version: the object, the real time it was stored at, the thread that wrote it, and
the method call it wrote it in. -/
structure Version where
  lease : Lease
  time : Int
  writer : Nat
  op : Op
  deriving DecidableEq

structure World where
  /-- The versions of the Lease; the resource version of each is its place here. -/
  log : History Version
  /-- Real time, in nanoseconds. -/
  real : Int
  /-- What each Locker's local clock is ahead of real time. -/
  offset : LockerId → Int
  /-- `Locker.observations` of the Lease. -/
  observations : LockerId → Option LeaseObservation
  /-- The epochs drawn so far, each with the thread that drew it. -/
  issued : List (String × Nat)

namespace World

/-- Thread `t` stores a new version of the Lease. -/
def store (w : World) (t : Nat) (op : Op) (lease : Lease) : World :=
  { w with log := w.log ++
      [some ⟨{ lease with resourceVersion := w.log.length }, w.real, t, op⟩] }

/-- `reader.Get` when it does not fail. -/
def read (w : World) : GetAnswer :=
  match w.log.current with
  | some v => .found v.lease
  | none => .notFound

end World

/-- The effect of each call. -/
def serve (t : Nat) (w : World) : (c : Call) → c.Ans → World → Prop
  | .get, a, w' => w' = w ∧ (a = .failed ∨ a = w.read)
  | .create op lease, a, w' =>
    (w' = w ∧ a ≠ .ok) ∨
    (w.log.current = none ∧ w' = w.store t op { lease with uid := w.log.length } ∧
      (a = .ok ∨ a = .failed))
  | .update op lease, a, w' =>
    (w' = w ∧ a ≠ .ok) ∨
    ((∃ v, w.log.current = some v ∧ v.lease.resourceVersion = lease.resourceVersion) ∧
      w' = w.store t op lease ∧ (a = .ok ∨ a = .failed))
  | .now _, _, w' => w' = w
  | .observeForeignLease l lease duration, a, w' =>
    let seen := observeForeignLease (w.observations l) lease duration (w.real + w.offset l)
    a = seen.1 ∧ w' = { w with observations := Function.update w.observations l seen.2 }
  | .forgetObservation l, _, w' =>
    w' = { w with observations := Function.update w.observations l none }
  | .rand, none, w' => w' = w
  | .rand, some entropy, w' =>
    entropy.length = 16 ∧ (∀ i ∈ w.issued, i.1 ≠ epochOf entropy) ∧
      w' = { w with issued := (epochOf entropy, t) :: w.issued }

abbrev server : Server api Nat World := ⟨serve⟩

/-- The random bytes of the next draw, in an undisturbed run. -/
def World.nextEntropy (w : World) : List UInt8 :=
  List.replicate 15 0 ++ [UInt8.ofNat w.issued.length]

/-- The answers of an undisturbed server: nothing is lost, and the wall clock is the real time. -/
def handle (t : Nat) (w : World) : (c : Call) → c.Ans × World
  | .get => (w.read, w)
  | .create op lease =>
    match w.log.current with
    | none => (.ok, w.store t op { lease with uid := w.log.length })
    | some _ => (.alreadyExists, w)
  | .update op lease =>
    match w.log.current with
    | none => (.notFound, w)
    | some v =>
      if v.lease.resourceVersion = lease.resourceVersion then (.ok, w.store t op lease)
      else (.conflict, w)
  | .now _ => (w.real / 1000, w)
  | .observeForeignLease l lease duration =>
    let seen := observeForeignLease (w.observations l) lease duration (w.real + w.offset l)
    (seen.1, { w with observations := Function.update w.observations l seen.2 })
  | .forgetObservation l => ((), { w with observations := Function.update w.observations l none })
  | .rand =>
    if ∀ i ∈ w.issued, i.1 ≠ epochOf w.nextEntropy then
      (some w.nextEntropy, { w with issued := (epochOf w.nextEntropy, t) :: w.issued })
    else (none, w)

theorem handle_serves (t : Nat) (w : World) (c : Call) :
    serve t w c (handle t w c).1 (handle t w c).2 := by
  cases c with
  | get => exact ⟨rfl, .inr rfl⟩
  | create op lease =>
    cases hcur : w.log.current with
    | none => simp only [handle, hcur]; exact .inr ⟨hcur, rfl, .inl rfl⟩
    | some v => simp only [handle, hcur]; exact .inl ⟨rfl, by simp⟩
  | update op lease =>
    cases hcur : w.log.current with
    | none => simp only [handle, hcur]; exact .inl ⟨rfl, by simp⟩
    | some v =>
      by_cases hrv : v.lease.resourceVersion = lease.resourceVersion
      · simp only [handle, hcur, if_pos hrv]; exact .inr ⟨⟨v, hcur, hrv⟩, rfl, .inl rfl⟩
      · simp only [handle, hcur, if_neg hrv]; exact .inl ⟨rfl, by simp⟩
  | now l => rfl
  | observeForeignLease l lease duration => exact ⟨rfl, rfl⟩
  | forgetObservation l => rfl
  | rand =>
    by_cases hnew : ∀ i ∈ w.issued, i.1 ≠ epochOf w.nextEntropy
    · simp only [handle, if_pos hnew]; exact ⟨by simp [World.nextEntropy], hnew, rfl⟩
    · simp only [handle, if_neg hnew]; rfl

/-- What happens without a Locker. -/
inductive Env : World → World → Prop where
  /-- Time passes. -/
  | tick {w : World} (d : Nat) : Env w { w with real := w.real + d }
  /-- The local clock of a Locker is set back. -/
  | setBack {w : World} (l : LockerId) (offset : Int) (h : offset ≤ w.offset l) :
      Env w { w with offset := Function.update w.offset l offset }
  | delete {w : World} : Env w { w with log := w.log ++ [none] }

/-- Before the first call: no Lease, and Lockers that have seen nothing. -/
structure Init (w : World) : Prop where
  log : w.log = []
  observations : ∀ l, w.observations l = none
  issued : w.issued = []

/-! ## What a write does -/

/-- No version before carries the epoch `e`. -/
def Unused (h : History Version) (e : String) : Prop :=
  ∀ n v, h.Stored n v → v.lease.epoch ≠ e

/-- The version `u` had its full duration before the time `time`. -/
def Expired (u : Version) (time : Int) : Prop :=
  ∃ d, u.lease.leaseDurationSeconds = some d ∧ u.time + d * second ≤ time

/-- What a write of the package does to the Lease with the versions `h`. -/
inductive LegalWrite (h : History Version) (v : Version) : Prop where
  /-- `Acquire` creates the Lease under a new epoch. -/
  | create (request : ValidatedRequest) (hop : v.op = .acquire request)
      (hcur : h.current = none) (hholder : v.lease.holder = request.holderIdentity)
      (hnew : Unused h v.lease.epoch)
  /-- `Acquire` renews its holder's Lease under the epoch it has. -/
  | renew (request : ValidatedRequest) (u : Version) (now : MicroTime)
      (hop : v.op = .acquire request) (hcur : h.current = some u)
      (hholder : u.lease.holder = request.holderIdentity)
      (hv : v.lease = { renewedLease u.lease request now with resourceVersion := h.length })
  /-- `Acquire` takes a Lease that is free, has expired, or has no epoch it can keep. -/
  | take (request : ValidatedRequest) (u : Version) (now : MicroTime) (epoch : String)
      (hop : v.op = .acquire request) (hcur : h.current = some u)
      (hexpired : u.lease.holder ≠ "" → u.lease.holder ≠ request.holderIdentity → Expired u v.time)
      (hnew : Unused h epoch)
      (hv : v.lease = { takenLease u.lease request now epoch with resourceVersion := h.length })
  /-- `Release` frees the Lease its holder has under its epoch. -/
  | release (request : ValidatedRequest) (u : Version) (now : MicroTime)
      (hop : v.op = .release request) (hcur : h.current = some u)
      (hholder : u.lease.holder = request.holderIdentity)
      (hepoch : u.lease.epoch = request.expectedEpoch)
      (hv : v.lease = { releasedLease u.lease now with resourceVersion := h.length })

/-- A write is one of `LegalWrite`; a deletion is always possible. -/
def Legal (h : History Version) : Option Version → Prop
  | none => True
  | some v => LegalWrite h v

/-! ## The discipline of the Lockers -/

structure Inv (w : World) : Prop where
  grown : History.Grown Legal w.log
  version : ∀ n v, w.log.Stored n v → v.lease.resourceVersion = n ∧ v.time ≤ w.real
  drawn : ∀ n v, w.log.Stored n v → ∃ t, (v.lease.epoch, t) ∈ w.issued
  once : ∀ e t u, (e, t) ∈ w.issued → (e, u) ∈ w.issued → t = u
  /-- An observation is of a stored version, and was made no earlier than the version. -/
  seen : ∀ l o, w.observations l = some o → ∃ v, w.log.Stored o.record.resourceVersion v ∧
    observedLeaseRecord v.lease = o.record ∧ v.time + w.offset l ≤ o.firstSeen

/-- What thread `t` tolerates: the history and the time go on, and nobody stores an epoch that
`t` drew. -/
structure Rely (t : Nat) (w w' : World) : Prop where
  log : w.log <+: w'.log
  real : w.real ≤ w'.real
  issued : ∀ i ∈ w.issued, i ∈ w'.issued
  mine : ∀ e, (e, t) ∈ w.issued → Unused w.log e → Unused w'.log e

def discipline : Discipline Nat World where
  inv := Inv
  rely := Rely
  refl _ _ := ⟨List.prefix_refl _, Int.le_refl _, fun _ h => h, fun _ _ h => h⟩
  trans h₁ h₂ := ⟨h₁.log.trans h₂.log, Int.le_trans h₁.real h₂.real, fun i h => h₂.issued i (h₁.issued i h),
    fun e he h => h₂.mine e (h₁.issued _ he) (h₁.mine e he h)⟩

end Ptah.TargetLock
