import PtahOperator.Conc.Prog
import PtahOperator.TargetLock.Request

/-!
# The Locker of `internal/targetlock`

The functions of the package on one Lease object, and `Acquire` and `Release` as programs over
the calls they make (`Call`): the reads and writes of the Lease, the clock, the random source, and
the observation a Locker keeps of a foreign Lease.

A write carries the method call that makes it (`Op`); the Locker does not read it.
-/

namespace Ptah.TargetLock

open Conc

/-! ## The Lease -/

/-- A `metav1.MicroTime`: microseconds from the Unix epoch. -/
abbrev MicroTime := Int

/-- The instant `time.Time.IsZero` reports: the beginning of the year 1. -/
def zeroTime : MicroTime := -62135596800000000

/-- The fields of the `coordination.k8s.io/v1` Lease that the package reads and writes. -/
structure Lease where
  resourceVersion : Nat
  uid : Nat
  /-- The annotation `operator.ptah.run/lease-epoch`. -/
  epochAnnotation : Option String
  holderIdentity : Option String
  leaseDurationSeconds : Option Int
  acquireTime : Option MicroTime
  renewTime : Option MicroTime
  leaseTransitions : Option Int
  deriving DecidableEq

def dereference (value : Option String) : String := value.getD ""

/-- The holder of a Lease, empty when it has none. -/
def Lease.holder (lease : Lease) : String := dereference lease.holderIdentity

/-- `lease.Annotations[epochAnnotation]` -/
def Lease.epoch (lease : Lease) : String := dereference lease.epochAnnotation

def validForeignLeaseDuration (lease : Lease) : Option Int :=
  match lease.leaseDurationSeconds with
  | none => none
  | some seconds =>
    let duration := seconds * second
    if duration < minLeaseDuration ∨ maxLeaseDuration < duration then none else some duration

def hasLeaseTimestamp (lease : Lease) : Bool :=
  lease.renewTime.any (· ≠ zeroTime) || lease.acquireTime.any (· ≠ zeroTime)

def monotonicLeaseTime (now : MicroTime) (lease : Lease) : MicroTime :=
  match lease.renewTime.filter (now < ·), lease.acquireTime.filter (now < ·) with
  | some renewed, _ => renewed
  | none, some acquired => acquired
  | none, none => now

/-- The object of `newLease` under the epoch it draws. The API server sets the version and the
UID. -/
def createdLease (request : ValidatedRequest) (now : MicroTime) (epoch : String) : Lease where
  resourceVersion := 0
  uid := 0
  epochAnnotation := some epoch
  holderIdentity := some request.holderIdentity
  leaseDurationSeconds := some request.durationSeconds
  acquireTime := some now
  renewTime := some now
  leaseTransitions := some 0

def maxInt32 : Int := 2147483647

/-- The object of `updateLease` with `preserveEpoch`: a renewal. -/
def renewedLease (lease : Lease) (request : ValidatedRequest) (now : MicroTime) : Lease :=
  let now := monotonicLeaseTime now lease
  { lease with
    holderIdentity := some request.holderIdentity
    leaseDurationSeconds := some request.durationSeconds
    renewTime := some now
    acquireTime := some (lease.acquireTime.getD now)
    leaseTransitions := some (lease.leaseTransitions.getD 0) }

/-- The object of `updateLease` under the epoch it draws: a new acquisition. -/
def takenLease (lease : Lease) (request : ValidatedRequest) (now : MicroTime) (epoch : String) :
    Lease :=
  let now := monotonicLeaseTime now lease
  { lease with
    holderIdentity := some request.holderIdentity
    leaseDurationSeconds := some request.durationSeconds
    renewTime := some now
    epochAnnotation := some epoch
    acquireTime := some now
    leaseTransitions := some (match lease.leaseTransitions with
      | some n => if n < maxInt32 then n + 1 else 1
      | none => 1) }

/-- The object `Release` writes. -/
def releasedLease (lease : Lease) (now : MicroTime) : Lease :=
  { lease with
    holderIdentity := some ""
    renewTime := some (monotonicLeaseTime now lease) }

/-! ## Observations of a foreign Lease -/

structure LeaseRecord where
  resourceVersion : Nat
  uid : Nat
  holder : String
  duration : Int
  acquired : Int
  renewed : Int
  transitions : Int
  deriving DecidableEq

def observedLeaseRecord (lease : Lease) : LeaseRecord where
  resourceVersion := lease.resourceVersion
  uid := lease.uid
  holder := lease.holder
  duration := lease.leaseDurationSeconds.getD 0
  acquired := lease.acquireTime.getD 0
  renewed := lease.renewTime.getD 0
  transitions := lease.leaseTransitions.getD 0

/-- A record, and the local time it was first seen at. -/
structure LeaseObservation where
  record : LeaseRecord
  firstSeen : Int
  deriving DecidableEq

/-- What is left of the foreign Lease, and the observation kept after the call. -/
def observeForeignLease (observation : Option LeaseObservation) (lease : Lease)
    (duration now : Int) : Int × Option LeaseObservation :=
  let record := observedLeaseRecord lease
  match observation with
  | none => (duration, some { record, firstSeen := now })
  | some o =>
    if o.record ≠ record ∨ now < o.firstSeen then (duration, some { record, firstSeen := now })
    else
      let elapsed := now - o.firstSeen
      if elapsed < duration then (duration - elapsed, some o) else (0, none)

/-- What `observeForeignLease` does: it starts a new observation, keeps the one it has while the
duration has not passed, or ends it. -/
theorem observeForeignLease_cases (observation : Option LeaseObservation) (lease : Lease)
    (duration now : Int) :
    observeForeignLease observation lease duration now =
      (duration, some { record := observedLeaseRecord lease, firstSeen := now }) ∨
    ∃ o, observation = some o ∧ o.record = observedLeaseRecord lease ∧
      ((now - o.firstSeen < duration ∧ observeForeignLease observation lease duration now =
          (duration - (now - o.firstSeen), some o)) ∨
       (duration ≤ now - o.firstSeen ∧
          observeForeignLease observation lease duration now = (0, none))) := by
  cases observation with
  | none => exact .inl rfl
  | some o =>
    by_cases hnew : o.record ≠ observedLeaseRecord lease ∨ now < o.firstSeen
    · exact .inl (by simp only [observeForeignLease, if_pos hnew])
    have hrecord : o.record = observedLeaseRecord lease := by
      by_contra h
      exact hnew (.inl h)
    refine .inr ⟨o, rfl, hrecord, ?_⟩
    by_cases hlt : now - o.firstSeen < duration
    · exact .inl ⟨hlt, by simp only [observeForeignLease, if_neg hnew, if_pos hlt]⟩
    · exact .inr ⟨by omega, by simp only [observeForeignLease, if_neg hnew, if_neg hlt]⟩

/-! ## The calls -/

/-- The method call that makes a write. -/
inductive Op where
  | acquire (request : ValidatedRequest)
  | release (request : ValidatedRequest)
  deriving DecidableEq

/-- A Locker of a process. -/
abbrev LockerId := Nat

inductive GetAnswer where
  | found (lease : Lease)
  | notFound
  | failed
  deriving DecidableEq

/-- The answer to a write. After `failed` the write may have landed or not. -/
inductive WriteAnswer where
  | ok
  | alreadyExists
  | conflict
  | notFound
  | failed
  deriving DecidableEq

inductive Call where
  /-- `reader.Get` of the Lease. -/
  | get
  /-- `writer.Create` -/
  | create (op : Op) (lease : Lease)
  /-- `writer.Update` -/
  | update (op : Op) (lease : Lease)
  /-- `now`: the wall clock, in microseconds. -/
  | now (locker : LockerId)
  /-- `observeForeignLease` at `localNow`, under the mutex. -/
  | observeForeignLease (locker : LockerId) (lease : Lease) (duration : Int)
  /-- `forgetObservation`, under the mutex. -/
  | forgetObservation (locker : LockerId)
  /-- `rand.Read` of 16 bytes. -/
  | rand

@[reducible] def Call.Ans : Call → Type
  | .get => GetAnswer
  | .create .. => WriteAnswer
  | .update .. => WriteAnswer
  | .now .. => MicroTime
  | .observeForeignLease .. => Int
  | .forgetObservation .. => Unit
  | .rand => Option (List UInt8)

abbrev api : Iface := ⟨Call, Call.Ans⟩

abbrev send (c : Call) : Prog api c.Ans := @Prog.req api c

/-! ## `Acquire` and `Release` -/

def epochOf (entropy : List UInt8) : String := "v1-" ++ String.ofList (hexEncode entropy)

structure AcquireResult where
  acquired : Bool := false
  /-- `Contention.RequeueAfter` -/
  contention : Option Int := none
  epoch : String := ""
  continuityLost : Bool := false
  deriving DecidableEq

def newEpoch : Prog api (Except LockError String) := do
  match ← send .rand with
  | none => return .error (.failed "generate target lease epoch")
  | some entropy => return .ok (epochOf entropy)

def newLease (request : ValidatedRequest) (now : MicroTime) :
    Prog api (Except LockError Lease) := do
  match ← newEpoch with
  | .error e => return .error e
  | .ok epoch => return .ok (createdLease request now epoch)

def updateLease (lease : Lease) (request : ValidatedRequest) (now : MicroTime)
    (preserveEpoch : Bool) : Prog api (Except LockError Lease) := do
  if preserveEpoch then return .ok (renewedLease lease request now)
  else
    match ← newEpoch with
    | .error e => return .error e
    | .ok epoch => return .ok (takenLease lease request now epoch)

/-- `Acquire` after the Lease was not found. `retry` is its next attempt. -/
def acquireMissing (locker : LockerId) (request : ValidatedRequest)
    (retry : Prog api (Except LockError AcquireResult)) :
    Prog api (Except LockError AcquireResult) := do
  send (.forgetObservation locker)
  let now ← send (.now locker)
  match ← newLease request now with
  | .error e => return .error e
  | .ok lease =>
    match ← send (.create (.acquire request) lease) with
    | .ok =>
      return .ok { acquired := true, epoch := lease.epoch,
                   continuityLost := request.expectedEpoch ≠ "" }
    | .alreadyExists | .conflict => retry
    | _ => return .error (.failed "create target lease")

/-- `Acquire` after it read a Lease that it may renew or take. -/
def acquireFound (locker : LockerId) (request : ValidatedRequest) (lease : Lease)
    (retry : Prog api (Except LockError AcquireResult)) :
    Prog api (Except LockError AcquireResult) := do
  let currentEpoch := lease.epoch
  let sameHolder : Bool := lease.holder = request.holderIdentity
  let continuous := sameHolder && validEpoch currentEpoch &&
    (request.expectedEpoch = "" || currentEpoch = request.expectedEpoch)
  let continuityLost := request.expectedEpoch ≠ "" && !continuous
  let now ← send (.now locker)
  match ← updateLease lease request now (sameHolder && validEpoch currentEpoch) with
  | .error e => return .error e
  | .ok lease =>
    match ← send (.update (.acquire request) lease) with
    | .ok =>
      send (.forgetObservation locker)
      return .ok { acquired := true, epoch := lease.epoch, continuityLost }
    | .conflict | .notFound => retry
    | _ => return .error (.failed "update target lease")

/-- The attempts of `Acquire`. -/
def acquireLoop (locker : LockerId) (request : ValidatedRequest) :
    Nat → Prog api (Except LockError AcquireResult)
  | 0 => return .error (.concurrentUpdate "acquire target lease")
  | attempts + 1 => do
    match ← send .get with
    | .notFound => acquireMissing locker request (acquireLoop locker request attempts)
    | .failed => return .error (.failed "read target lease")
    | .found lease =>
      if lease.holder ≠ "" ∧ lease.holder ≠ request.holderIdentity then
        match validForeignLeaseDuration lease, hasLeaseTimestamp lease with
        | some duration, true =>
          let remaining ← send (.observeForeignLease locker lease duration)
          if 0 < remaining then
            return .ok { contention := some remaining }
          else
            acquireFound locker request lease (acquireLoop locker request attempts)
        | _, _ => return .error (.malformedLease "foreign holder has incomplete timing evidence")
      else
        send (.forgetObservation locker)
        acquireFound locker request lease (acquireLoop locker request attempts)

/-- The attempts of `Release`. -/
def releaseLoop (locker : LockerId) (request : ValidatedRequest) :
    Nat → Prog api (Except LockError Unit)
  | 0 => return .error (.concurrentUpdate "release target lease")
  | attempts + 1 => do
    match ← send .get with
    | .notFound =>
      send (.forgetObservation locker)
      return .ok ()
    | .failed => return .error (.failed "read target lease for release")
    | .found lease =>
      if lease.holder ≠ request.holderIdentity ∨ lease.epoch ≠ request.expectedEpoch then
        return .ok ()
      else
        let now ← send (.now locker)
        match ← send (.update (.release request) (releasedLease lease now)) with
        | .ok =>
          send (.forgetObservation locker)
          return .ok ()
        | .conflict | .notFound => releaseLoop locker request attempts
        | _ => return .error (.failed "release target lease")

variable (sha256 : List UInt8 → List UInt8)

def acquire (locker : LockerId) (request : Request) : Prog api (Except LockError AcquireResult) :=
  match validate sha256 request with
  | .error e => .ret (.error e)
  | .ok validated => acquireLoop locker validated maxAttempts

def release (locker : LockerId) (request : Request) : Prog api (Except LockError Unit) :=
  match validate sha256 request with
  | .error e => .ret (.error e)
  | .ok validated =>
    if validated.expectedEpoch = "" then
      .ret (.error (.invalidRequest "expected epoch is required for release"))
    else releaseLoop locker validated maxAttempts

end Ptah.TargetLock
