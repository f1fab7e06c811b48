import PtahOperator.ResultStore.Record
import PtahOperator.Runner.Frame

/-!
# The reader of durable results

A pass never waits for a durable result. It polls the `Reader` (`internal/resultconsumer`), which loads the
result in the background and keeps the answer until the next poll or until it expires. The pass then judges
the answer by its own clock (`awaitFrameArrival`), so a missing result may be judged final after the arrival
window by a load from before the window's end.

* `poll`, `expire`, `step`: the reader, with the moment each load began as a history variable.
* `durableTerminalResult`, `awaitFrameArrival`: what a pass makes of an answer.
* `Inv`: an answer is younger than the timeout of its load, and a load that missed a publication began
  before it.
* `late_poll_reads_late_load`: a poll that comes the timeout and the retention after the window reads a
  load from after the window.
-/

namespace Ptah.ResultConsumer

open Go (Bytes bytes)
open ResultStore (StoreError Codec attemptName)
open Runner (FrameError)

/-! ## The reader -/

structure Request where
  ns : Bytes
  kind : Bytes
  name : Bytes
  uid : Bytes
  generation : Int
  executionBindingID : Bytes
  inputFingerprint : Bytes
  operation : Bytes
  operationID : Bytes
  jobName : Bytes
  jobUID : Bytes
  engine : Bytes
  deriving DecidableEq

inductive ReadError where
  | pending
  | stopped
  | binding
  /-- `resultdelivery.ErrPayload` -/
  | payload
  | store (e : StoreError)
  /-- The error of an ended context. -/
  | context
  deriving DecidableEq

/-- Durations and instants are nanoseconds. -/
abbrev second : Nat := 10 ^ 9

structure Options where
  workers : Nat
  entries : Nat
  timeout : Nat
  retention : Nat

/-- The options that `New` accepts. -/
def Options.accepted (o : Options) : Bool :=
  1 ≤ o.workers && o.workers ≤ 4 && o.workers ≤ o.entries && o.entries ≤ 16 &&
    0 < o.timeout && o.timeout ≤ 60 * second && 0 < o.retention && o.retention ≤ 300 * second

structure Entry (β : Type) where
  request : Request
  /-- When the load began. -/
  started : Option Nat
  /-- When the load was completed, and its answer. -/
  done : Option (Nat × Except ReadError β)

inductive Phase where
  | idle
  | running
  /-- The context of `Start` has ended. -/
  | stopped
  deriving DecidableEq

/-- The reader, its clock, and the results in the store with the instants their publications completed. -/
structure State (β : Type) where
  now : Nat
  phase : Phase
  entries : List (Entry β)
  running : Nat
  published : Request → Option Nat

def initial {β : Type} : State β := ⟨0, .idle, [], 0, fun _ => none⟩

section Reader

variable {β : Type} (codec : Codec) (o : Options)

def Entry.expired (now : Nat) (e : Entry β) : Bool := e.done.any (·.1 + o.retention ≤ now)

def expire (s : State β) : State β :=
  { s with entries := s.entries.filter fun e => !e.expired o s.now }

def State.entry (s : State β) (r : Request) : Option (Entry β) := s.entries.find? (·.request = r)

def State.remove (s : State β) (r : Request) : State β :=
  { s with entries := s.entries.filter (·.request ≠ r) }

def State.put (s : State β) (e : Entry β) : State β :=
  { s with entries := e :: (s.remove e.request).entries }

def Request.valid (r : Request) : Bool :=
  (attemptName codec r.ns r.uid r.operationID r.jobName).isOk && r.jobUID ≠ [] && 1 ≤ r.generation

/-- `Poll`, whose own context may have ended. -/
def poll (ended : Bool) (r : Request) (s : State β) : Except ReadError β × State β :=
  if ended then (.error .context, s)
  else if !r.valid codec then (.error .binding, s)
  else if s.phase ≠ .running then (.error .stopped, s)
  else
    let s := expire o s
    match s.entry r with
    | some e =>
      match e.done with
      | none => (.error .pending, s)
      | some (_, value) => (value, s.remove r)
    | none =>
      if o.workers ≤ s.running || o.entries ≤ s.entries.length then (.error .pending, s)
      else
        (.error .pending, { s.put ⟨r, none, none⟩ with running := s.running + 1 })

def incomplete : Except ReadError β → Bool
  | .error (.store .incomplete) => true
  | _ => false

/-- What can happen around the reader. -/
inductive Event (β : Type) where
  | advance (d : Nat)
  | start
  | stop
  /-- The workers have ended, and the reader clears its entries. -/
  | clear
  | tick
  | poll (ended : Bool) (r : Request)
  /-- The load of an entry begins. -/
  | load (r : Request)
  /-- The load of an entry ends with the loader's answer. -/
  | finish (r : Request) (value : Except ReadError β)
  | publish (r : Request)
  | delete (r : Request)

/-- A load that begins after a publication has completed finds it, unless it is deleted. -/
def misses (s : State β) (r : Request) (started : Nat) (value : Except ReadError β) : Bool :=
  incomplete value && (s.published r).any (· < started)

/-- What the entry of an ended load holds. The error of the load's context replaces the loader's answer. -/
def finished (s : State β) (started : Nat) (value : Except ReadError β) : Nat × Except ReadError β :=
  (s.now, if started + o.timeout ≤ s.now ∨ s.phase = .stopped then .error .context else value)

def step (s : State β) : Event β → Option (State β)
  | .advance d => some { s with now := s.now + d }
  | .start => if s.phase = .idle then some { s with phase := .running } else none
  | .stop => if s.phase = .running then some { s with phase := .stopped } else none
  | .clear => if s.phase = .stopped ∧ s.running = 0 then some { s with entries := [] } else none
  | .tick => if s.phase = .running then some (expire o s) else none
  | .poll ended r => some (poll codec o ended r s).2
  | .load r =>
    match s.entry r with
    | some ⟨_, none, none⟩ => some (s.put ⟨r, some s.now, none⟩)
    | _ => none
  | .finish r value =>
    match s.entry r with
    | some ⟨_, some started, none⟩ =>
      if misses s r started value then none
      else some { s.put ⟨r, some started, some (finished o s started value)⟩ with running := s.running - 1 }
    | _ => none
  | .publish r =>
    if s.published r = none then some { s with published := Function.update s.published r (some s.now) }
    else none
  | .delete r => some { s with published := Function.update s.published r none }

/-- The state after events, each of which was possible. -/
def run (s : State β) (events : List (Event β)) : Option (State β) := events.foldlM (step codec o) s

/-! ## The invariant -/

/-- What an entry says about its load. An answer that found no result came within the timeout, and no
publication had completed when its load began. -/
structure Entry.Good (now : Nat) (published : Request → Option Nat) (e : Entry β) : Prop where
  past : ∀ t, e.started = some t → t ≤ now
  missed : ∀ completed value, e.done = some (completed, value) → incomplete value = true →
    ∃ t, e.started = some t ∧ completed < t + o.timeout ∧ ∀ p, published e.request = some p → t ≤ p

def Inv (s : State β) : Prop := ∀ e ∈ s.entries, e.Good o s.now s.published

variable {codec o} {s s' : State β}

theorem Inv.drop (h : Inv o s) {kept : Entry β → Bool} :
    Inv o { s with entries := s.entries.filter kept } :=
  fun e he => h e (List.mem_filter.1 he).1

theorem Inv.put (h : Inv o s) {e : Entry β} (he : e.Good o s.now s.published) : Inv o (s.put e) := by
  rintro e' (_ | ⟨_, he'⟩)
  · exact he
  exact h.drop e' he'

theorem Inv.entry (h : Inv o s) {r : Request} {e : Entry β} (he : s.entry r = some e) :
    e.request = r ∧ e.Good o s.now s.published :=
  ⟨by simpa using List.find?_some he, h e (List.mem_of_find?_eq_some he)⟩

theorem Inv.poll (h : Inv o s) (ended : Bool) (r : Request) : Inv o (poll codec o ended r s).2 := by
  have hexpired : Inv o (expire o s) := h.drop
  unfold ResultConsumer.poll
  split_ifs
  · exact h
  · exact h
  · exact h
  · dsimp only
    split
    · split
      · exact hexpired
      · exact hexpired.drop
    split_ifs
    · exact hexpired
    exact hexpired.put ⟨by simp, by simp⟩

/-- Time passes, and a publication that is new completes now. -/
theorem Entry.Good.mono {e : Entry β} {now now' : Nat} {published published' : Request → Option Nat}
    (h : e.Good o now published) (hnow : now ≤ now')
    (hp : ∀ p, published' e.request = some p → published e.request = some p ∨ now ≤ p) :
    e.Good o now' published' where
  past t ht := (h.past t ht).trans hnow
  missed completed value hdone hvalue := by
    obtain ⟨t, ht, hcompleted, hmissed⟩ := h.missed completed value hdone hvalue
    refine ⟨t, ht, hcompleted, fun p hp' => ?_⟩
    rcases hp p hp' with hold | hnew
    · exact hmissed p hold
    exact (h.past t ht).trans hnew

theorem finished_incomplete {started : Nat} {value : Except ReadError β}
    (h : incomplete (finished o s started value).2 = true) :
    s.now < started + o.timeout ∧ incomplete value = true := by
  unfold finished at h
  split_ifs at h with hcontext
  · cases h
  exact ⟨by omega, h⟩

theorem Inv.step (h : Inv o s) {event : Event β} (hs : step codec o s event = some s') : Inv o s' := by
  cases event with simp only [ResultConsumer.step] at hs
  | advance d =>
    cases hs
    exact fun e he => (h e he).mono (Nat.le_add_right ..) fun _ => .inl
  | poll ended r =>
    cases hs
    exact h.poll ended r
  | load r =>
    split at hs
    case h_1 =>
      cases hs
      exact h.put ⟨fun t ht => (Option.some.inj ht).ge, by simp⟩
    case h_2 => cases hs
  | finish r value =>
    split at hs
    case h_1 _ started he =>
      obtain ⟨rfl, hgood⟩ := h.entry he
      split_ifs at hs with hmisses
      cases hs
      refine h.put ⟨hgood.past, fun completed value hdone hvalue => ⟨started, rfl, ?_⟩⟩
      cases hdone
      obtain ⟨hnow, hincomplete⟩ := finished_incomplete hvalue
      refine ⟨hnow, fun p hp => ?_⟩
      simpa [misses, hincomplete, show s.published _ = some p from hp] using hmisses
    case h_2 => cases hs
  | delete r =>
    cases hs
    refine fun e he => (h e he).mono le_rfl fun p hp => ?_
    simp only [Function.update_apply] at hp
    split_ifs at hp
    exact .inl hp
  | publish r =>
    split_ifs at hs
    cases hs
    refine fun e he => (h e he).mono le_rfl fun p hp => ?_
    simp only [Function.update_apply] at hp
    split_ifs at hp
    · exact .inr (Option.some.inj hp).le
    · exact .inl hp
  | tick =>
    split_ifs at hs
    cases hs
    exact h.drop
  | clear =>
    split_ifs at hs
    cases hs
    exact fun e he => by cases he
  | _ =>
    split_ifs at hs
    cases hs
    exact h

theorem Inv.run {events : List (Event β)} (h : Inv o s) (hs : run codec o s events = some s') : Inv o s' := by
  induction events generalizing s with
  | nil =>
    cases hs
    exact h
  | cons event events ih =>
    obtain ⟨next, hnext, hs⟩ := Option.bind_eq_some_iff.1 hs
    exact ih (h.step hnext) hs

/-- A poll that finds no result reads a load that began less than the timeout and the retention ago. -/
theorem Inv.poll_incomplete (h : Inv o s) {ended : Bool} {r : Request}
    (hpoll : incomplete (ResultConsumer.poll codec o ended r s).1 = true) :
    ∃ e started, (expire o s).entry r = some e ∧ e.started = some started ∧
      s.now < started + o.timeout + o.retention ∧ ∀ p, s.published r = some p → started ≤ p := by
  unfold ResultConsumer.poll at hpoll
  split_ifs at hpoll
  · cases hpoll
  · cases hpoll
  · cases hpoll
  dsimp only at hpoll
  split at hpoll
  case h_2 =>
    -- A poll that begins a load, or may not, answers that it is pending.
    split_ifs at hpoll
    · cases hpoll
    · cases hpoll
  case h_1 e he =>
    split at hpoll
    · cases hpoll
    case h_2 completed value hdone =>
      obtain ⟨rfl, hgood⟩ := (show Inv o (expire o s) from h.drop).entry he
      obtain ⟨started, hstarted, hcompleted, hmissed⟩ := hgood.missed completed value hdone hpoll
      have hkept := (List.mem_filter.1 (List.mem_of_find?_eq_some he)).2
      simp only [Entry.expired, hdone, Option.any_some, Bool.not_eq_true', decide_eq_false_iff_not] at hkept
      exact ⟨e, started, he, hstarted, by omega, hmissed⟩

end Reader

/-! ## Passes -/

/-- The errors of `parseResult`. -/
inductive ParseError where
  | frame (e : FrameError)
  | read (e : ReadError)
  /-- `resultLogLost`, which is an `ErrFrameNotFound` too. -/
  | lost
  deriving DecidableEq

def ParseError.mayStillArrive : ParseError → Bool
  | .frame e => Runner.mayStillArrive e
  | .read _ => false
  | .lost => true

/-- `terminalEvidence` that is durable. -/
structure Evidence (β : Type) where
  resultError : Option ParseError
  result : Option β

/-- Errors of a pass that is made again. -/
inductive PassError where
  /-- `errResultReadCooling` -/
  | cooling
  /-- `errResultReadRetry` -/
  | retry
  /-- `errTerminalPodIntent` -/
  | podIntent
  deriving DecidableEq

inductive JobConditionType where
  | complete
  | failed
  | other
  deriving DecidableEq

structure JobCondition where
  type : JobConditionType
  status : Bool
  /-- None is the zero time. -/
  lastTransitionTime : Option Nat

def frameArrivalWindow : Nat := 30 * second

def frameArrivalPoll : Nat := 2 * second

def jobFinishedAt (conditions : List JobCondition) : Option Nat :=
  conditions.findSome? fun c =>
    if (c.type = .complete || c.type = .failed) && c.status then c.lastTransitionTime else none

/-- How soon a parse failure is read again, unless it is judged now. -/
def awaitFrameArrival (conditions : List JobCondition) (err : ParseError) (now : Nat) : Option Nat :=
  if !err.mayStillArrive || err = .lost then none
  else
    match jobFinishedAt conditions with
    | none => none
    | some finished => if finished + frameArrivalWindow ≤ now then none else some frameArrivalPoll

section Passes

variable {β : Type} (hold : β → Except PassError Bool) (validate : β → Option String)

/-- `durableTerminalResult` from its poll on. `hold` holds a loaded result to the request and to the
selected Pod. -/
def durableTerminalResult : Except ReadError β → Except PassError (Evidence β)
  | .error .pending | .error .stopped => .error .cooling
  | .error (.store .incomplete) => .ok ⟨some (.frame .notFound), none⟩
  | .error (.store .other) | .error .context => .error .retry
  | .error e => .ok ⟨some (.read e), none⟩
  | .ok value =>
    match hold value with
    | .error e => .error e
    | .ok false => .ok ⟨some (.read .binding), none⟩
    | .ok true => .ok ⟨none, some value⟩

/-- `parseResult` of durable evidence. `validate` is `ValidateResultFor`. -/
def Evidence.parseResult (e : Evidence β) : Except ParseError β :=
  match e.resultError, e.result with
  | some err, _ => .error err
  | none, none => .error (.frame .notFound)
  | none, some value =>
    match validate value with
    | some reason => .error (.frame (.malformed reason))
    | none => .ok value

/-- A pass with this answer finds no frame, and judges that at `now` for good. -/
structure JudgedMissing (conditions : List JobCondition) (answer : Except ReadError β) (now : Nat) : Prop where
  parsed : ∃ evidence, durableTerminalResult hold answer = .ok evidence ∧
    evidence.parseResult validate = .error (.frame .notFound)
  final : awaitFrameArrival conditions (.frame .notFound) now = none

variable {hold validate} {conditions : List JobCondition} {answer : Except ReadError β} {now : Nat}

/-- A durable frame is missing only where the store had no complete result. -/
theorem JudgedMissing.incomplete (h : JudgedMissing hold validate conditions answer now) :
    incomplete answer = true := by
  obtain ⟨evidence, hevidence, hparsed⟩ := h.parsed
  unfold durableTerminalResult at hevidence
  split at hevidence
  case h_3 => rfl
  case h_6 =>
    cases hevidence
    cases hparsed
  case h_7 value =>
    split at hevidence
    · cases hevidence
    · cases hevidence
      cases hparsed
    · cases hevidence
      dsimp only [Evidence.parseResult] at hparsed
      split at hparsed
      · cases hparsed
      · cases hparsed
  all_goals cases hevidence

variable {codec : Codec} {o : Options} {s : State β}

/-- A pass that judges a durable result missing, and polls the timeout and the retention after the arrival
window of its Job or later, judges a load that began after the window, and a result that was published
within the window is not missed. -/
theorem late_poll_reads_late_load {events : List (Event β)} (hs : run codec o initial events = some s)
    {ended : Bool} {r : Request} {f : Nat}
    (hjudged : JudgedMissing hold validate conditions (poll codec o ended r s).1 now)
    (hlate : jobFinishedAt conditions = some f ∧
      f + frameArrivalWindow + o.timeout + o.retention ≤ s.now) :
    ∃ e started, (expire o s).entry r = some e ∧ e.started = some started ∧ f + frameArrivalWindow ≤ started ∧
      ∀ p, s.published r = some p → f + frameArrivalWindow ≤ p := by
  have hinv : Inv o s := Inv.run (fun e he => by cases he) hs
  obtain ⟨e, started, he, hstarted, hnow, hmissed⟩ := hinv.poll_incomplete hjudged.incomplete
  have hbegan : f + frameArrivalWindow ≤ started := by omega
  exact ⟨e, started, he, hstarted, hbegan, fun p hp => hbegan.trans (hmissed p hp)⟩

end Passes

def sampleRequest : Request where
  ns := bytes "db"
  kind := bytes "PtahMigration"
  name := bytes "m"
  uid := bytes "u"
  generation := 1
  executionBindingID := bytes "e"
  inputFingerprint := bytes "i"
  operation := bytes "migration-apply"
  operationID := bytes "o"
  jobName := bytes "j"
  jobUID := bytes "k"
  engine := bytes "postgres"

def sampleCodec : Codec := ⟨fun _ => [], fun _ => none, fun _ => [], fun _ => none, id, id⟩

/-- The options of the manager. -/
def managerOptions : Options := ⟨1, 4, 30 * second, 60 * second⟩

/-- A load that begins at an instant and finds no result a second later. -/
def sampleLoad (began : Nat) : List (Event Unit) :=
  [.start, .advance began, .poll false sampleRequest, .load sampleRequest, .advance second,
    .finish sampleRequest (.error (.store .incomplete)), .advance second]

def sampleJob : List JobCondition := [⟨.failed, true, some 0⟩]

/-- A run ends in a state in which the pass of the sample finds no result. -/
def Misses (events : List (Event Unit)) (s : State Unit) : Prop :=
  run sampleCodec managerOptions initial events = some s ∧
    JudgedMissing (fun _ => .ok true) (fun _ => none) sampleJob
      (poll sampleCodec managerOptions false sampleRequest s).1 s.now

theorem late_poll_reads_late_load_sample :
    ∃ s e started, Misses (sampleLoad (121 * second)) s ∧
      (expire managerOptions s).entry sampleRequest = some e ∧ e.started = some started ∧
      0 + frameArrivalWindow ≤ started := by
  obtain ⟨s, hs, hlate⟩ : ∃ s, Misses (sampleLoad (121 * second)) s ∧
      0 + frameArrivalWindow + 30 * second + 60 * second ≤ s.now :=
    ⟨_, ⟨rfl, ⟨_, rfl, rfl⟩, by decide +kernel⟩, by decide +kernel⟩
  obtain ⟨e, started, he, hstarted, hbegan, -⟩ := late_poll_reads_late_load hs.1 hs.2 ⟨rfl, hlate⟩
  exact ⟨s, e, started, hs, he, hstarted, hbegan⟩

/-- A Job finished at second 0. The pass at second 31 judges its result missing by a load that began at
second 26, though the result was published at second 28. -/
theorem early_load_judged :
    managerOptions.accepted = true ∧ jobFinishedAt sampleJob = some 0 ∧ ∃ s e,
      Misses (sampleLoad (26 * second) ++ [.publish sampleRequest, .advance (3 * second)]) s ∧
      (expire managerOptions s).entry sampleRequest = some e ∧ e.started = some (26 * second) ∧
      s.published sampleRequest = some (28 * second) ∧ 28 * second < 0 + frameArrivalWindow :=
  ⟨by decide, rfl, _, _, ⟨rfl, ⟨_, rfl, rfl⟩, by decide +kernel⟩, rfl, rfl, rfl, by decide⟩

end Ptah.ResultConsumer
