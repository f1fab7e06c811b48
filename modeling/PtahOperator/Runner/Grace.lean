import PtahOperator.Runner.Result

/-!
# The termination grace of a Pod

`internal/runner/grace.go`: the grace a Pod was given, and how long a child that was asked to stop may
take. Durations are nanoseconds in 64 bits; a product wraps around.

* `child_stopped_in_grace_iff`: a grace that is accepted is the number of seconds that was written, and
  leaves the runner time behind its child, unless the product wrapped around.
-/

namespace Ptah.Runner

open Go (Bytes bytes)

/-- `time.Second` -/
def second : Int := 10 ^ 9

def defaultTerminationGracePeriod : Int := 30 * second

def maxTerminationGracePeriod : Int := 300 * second

/-- `time.Duration(seconds) * time.Second` -/
def durationOfSeconds (seconds : Int) : Int := (seconds * second).bmod (2 ^ 64)

def childStopDelay (grace : Int) : Int := if grace ≤ 0 then 0 else grace - grace / 3

/-- `terminationGracePeriod`, of the value of `PTAH_TERMINATION_GRACE_PERIOD_SECONDS`. -/
def terminationGracePeriod (value : Option Bytes) (operation : Operation) : Except String Int :=
  match value.filter (· ≠ []) with
  | none =>
    if operation.mutating then .error "the Pod's termination grace period is required"
    else .ok defaultTerminationGracePeriod
  | some value =>
    match Go.parseInt value with
    | none => .error "the Pod's termination grace period must be a whole number of seconds between 1 and 300"
    | some seconds =>
      if seconds < 1 ∨ durationOfSeconds seconds > maxTerminationGracePeriod then
        .error "the Pod's termination grace period must be a whole number of seconds between 1 and 300"
      else .ok (durationOfSeconds seconds)

/-- When the executor kills a child that ignores being asked to stop at the end of its execution window. -/
def killedAt (executionNotAfter grace : Int) : Int := executionNotAfter + childStopDelay grace

/-! ## What is accepted -/

/-- The number of seconds that a value says. A Pod that does not say has the default. -/
def denoted (value : Option Bytes) : Option Int :=
  match value.filter (· ≠ []) with
  | none => some 30
  | some value => Go.parseInt value

theorem childStopDelay_lt {grace : Int} (h : 3 ≤ grace) :
    0 < childStopDelay grace ∧ childStopDelay grace < grace := by
  rw [childStopDelay, if_neg (by omega)]
  omega

theorem durationOfSeconds_eq {seconds : Int} (hpos : 0 ≤ seconds) (hlt : seconds * second < 2 ^ 63) :
    durationOfSeconds seconds = seconds * second := by
  unfold second at hlt ⊢
  rw [durationOfSeconds, second, Int.bmod_eq_of_le] <;> omega

/-- What an accepted grace is made of: a number of seconds that passed the check behind the product. -/
theorem grace_accepted {value : Option Bytes} {operation : Operation} {grace : Int}
    (h : terminationGracePeriod value operation = .ok grace) :
    ∃ seconds, denoted value = some seconds ∧ 1 ≤ seconds ∧ grace = durationOfSeconds seconds ∧
      grace ≤ maxTerminationGracePeriod := by
  unfold terminationGracePeriod at h
  unfold denoted
  cases hvalue : value.filter (· ≠ []) with
  | none =>
    simp only [hvalue] at h
    split at h
    · cases h
    cases h
    exact ⟨30, rfl, by decide, by decide, by decide⟩
  | some value =>
    simp only [hvalue] at h
    cases hparse : Go.parseInt value with
    | none =>
      rw [hparse] at h
      cases h
    | some seconds =>
      simp only [hparse] at h
      split at h
      · cases h
      cases h
      exact ⟨seconds, hparse, by omega, rfl, by omega⟩

/-- An accepted grace is the seconds that were written, from 1 to 300, and its child is dead inside it,
exactly if the product with a second did not wrap around. -/
theorem child_stopped_in_grace_iff {value : Option Bytes} {operation : Operation} {grace : Int}
    (h : terminationGracePeriod value operation = .ok grace) :
    (∃ seconds, denoted value = some seconds ∧ 1 ≤ seconds ∧ seconds ≤ 300 ∧ grace = seconds * second ∧
      0 < childStopDelay grace ∧ childStopDelay grace < grace ∧
      ∀ executionNotAfter, killedAt executionNotAfter grace < executionNotAfter + seconds * second) ↔
    ∀ seconds, denoted value = some seconds → seconds * second < 2 ^ 63 := by
  obtain ⟨seconds, hsays, hpos, hgrace, hmax⟩ := grace_accepted h
  constructor
  · rintro ⟨m, hm, -, hle, -⟩ n hn
    cases hm.symm.trans hn
    unfold second
    omega
  · intro hfits
    rw [durationOfSeconds_eq (by omega) (hfits seconds hsays)] at hgrace
    simp only [maxTerminationGracePeriod, second] at hgrace hmax ⊢
    have hdelay := childStopDelay_lt (show 3 ≤ grace by omega)
    refine ⟨seconds, hsays, hpos, by omega, hgrace, hdelay.1, hdelay.2, fun notAfter => ?_⟩
    unfold killedAt
    omega

/-- The grace that a claim records, as the builder of the Job writes it. -/
theorem recorded_grace_exact : terminationGracePeriod (some (bytes "30")) .apply = .ok (30 * second) ∧
    ∃ seconds, denoted (some (bytes "30")) = some seconds ∧ 1 ≤ seconds ∧ seconds ≤ 300 ∧
      30 * second = seconds * second ∧ 0 < childStopDelay (30 * second) ∧
      childStopDelay (30 * second) < 30 * second ∧
      ∀ notAfter, killedAt notAfter (30 * second) < notAfter + seconds * second := by
  have h : terminationGracePeriod (some (bytes "30")) .apply = .ok (30 * second) := by decide
  have hsays : denoted (some (bytes "30")) = some 30 := by decide
  refine ⟨h, (child_stopped_in_grace_iff h).2 fun seconds hs => ?_⟩
  cases hsays.symm.trans hs
  decide

/-- 9223372037 seconds are more than 64 bits hold: the product is negative and passes the check. -/
theorem wrapped_grace_accepted :
    terminationGracePeriod (some (bytes "9223372037")) .apply = .ok (-9223372036709551616) ∧
      denoted (some (bytes "9223372037")) = some 9223372037 ∧ childStopDelay (-9223372036709551616) = 0 := by
  decide

end Ptah.Runner
