import PtahOperator.Migration.Runs.System

/-!
# Scripted passes

A pass run on a list of choices, one for each call: the call is answered as the store stands, its
write lands and the answer is lost, or it fails. The sample objects are what the calls outside the
store answer with. A scripted pass is a run of the controller (`Runs.pass`), so a reached world can
be computed.
-/

namespace Ptah.Migration.Script

open Conc DataPlane Lifecycle

/-- How a call of a scripted pass goes. -/
inductive Choice where
  /-- The call is answered as the store stands, and a question by its usual answer. -/
  | go
  /-- The call fails, and nothing changes. -/
  | fail
  /-- The write lands, and its answer is lost. -/
  | lost
  | result (reading : Reading)
  /-- The Lease was lost, and is taken again. -/
  | anew
  deriving DecidableEq

/-! ## Sample objects -/

/-- The `n`-th operation ID. -/
def operationID (n : Nat) : String :=
  String.ofList ("sha256:".toList ++ List.replicate 63 '0' ++ [Nat.digitChar n])

def binding : ExecutionBinding where
  epoch := "binding"
  controllerStateVersion := 1
  ptahVersion := "v1"
  executorImage := "executor"
  runnerProtocolVersion := 1

def history : HistoryStatus where
  observedAt := 1
  contractVersion := 1
  currentVersion := 1
  checkpointVersion := 0
  appliedCount := 1
  pendingCount := 1
  fingerprint := "history"
  targetIdentityDigest := "sha256:1111111111111111111111111111111111111111111111111111111111111111"
  dirty := false
  modifiedVersions := []
  outOfOrderVersions := []

def plan : Plan where
  name := "plan"
  uid := "plan-uid"
  migrationUID := "migration-uid"
  fingerprint := "plan-fingerprint"
  migrations := 1
  historyFingerprint := "history"
  coordinationDigest := "sha256:2222222222222222222222222222222222222222222222222222222222222222"
  targetIdentityDigest := "sha256:1111111111111111111111111111111111111111111111111111111111111111"
  executionBindingID := "binding"

def manager : ManagerRecord where
  controllerImage := "controller"
  controllerRevision := "revision"
  runnerImage := "runner"

def job (op : Operation) : Job where
  name := op.jobName
  operationID := op.id
  templateDigest := "template"
  manager := manager

def usual : (q : Question) → q.Ans
  | .configuredBinding => binding
  | .bindingEpoch => "binding"
  | .inputFingerprint _ => .ok "inputs"
  | .jobName _ => .ok "job"
  | .build op _ => .ok (job op)
  | .resolveSnapshot job => .ok ⟨"snapshot", job.templateDigest⟩
  | .validateSnapshot _ => .ok ()
  | .digestTemplate _ => .ok ()
  | .policyBinds _ => .ok ()
  | .planCurrent _ => .ok ()
  | .jobMatch _ => .ok ()
  | .podIntent _ => .ok ()
  | .podGraceOver => true
  | .frameMayArrive => false
  | .durableBinding _ => .ok ()
  | .readResult _ _ => .later
  | .podAdmission _ => .ok none
  | .unreadableRequest => none
  | .failedReadGivesWay => .ok none
  | .engineSupported => true
  | .realmRefusal => .ok none
  | .sourceMoved => .ok false
  | .readRequest => none
  | .resolveSource => .ok .job
  | .coordinationDigest => .ok plan.coordinationDigest
  | .desiredPlan _ => .ok plan
  | .claimDeadline => none
  | .deadline => 1000

/-! ## Answers -/

def write (choice : Choice) (w : World) (resourceVersion : Nat) (landed : World) :
    Option (Except String PtahMigration × World) :=
  match choice with
  | .go =>
    if resourceVersion = w.migration.resourceVersion then some (.ok landed.migration, landed)
    else some (.error "conflict", w)
  | .fail => some (.error "unavailable", w)
  | .lost =>
    if resourceVersion = w.migration.resourceVersion then some (.error "timeout", landed) else none
  | _ => none

theorem write_written {choice : Choice} {w landed w' : World} {resourceVersion : Nat}
    {a : Except String PtahMigration}
    (h : write choice w resourceVersion landed = some (a, w')) :
    Written w resourceVersion landed a w' := by
  cases choice with
  | go =>
    simp only [write] at h
    split at h
    · rename_i hv
      cases h
      exact .inr ⟨hv, rfl, by rintro m ⟨⟩; rfl⟩
    · cases h
      exact .inl ⟨rfl, _, rfl⟩
  | fail =>
    cases h
    exact .inl ⟨rfl, _, rfl⟩
  | lost =>
    simp only [write] at h
    split at h
    · rename_i hv
      cases h
      exact .inr ⟨hv, rfl, by rintro m ⟨⟩⟩
    · cases h
  | _ => cases h

def read {α : Type} (choice : Choice) (w : World) (a : α) : Option (Except String α × World) :=
  match choice with
  | .go => some (.ok a, w)
  | .fail => some (.error "unavailable", w)
  | _ => none

theorem read_eq {α : Type} {choice : Choice} {w w' : World} {a : α} {r : Except String α}
    (h : read choice w a = some (r, w')) : w' = w ∧ ∀ x, r = .ok x → x = a := by
  cases choice with
  | go =>
    cases h
    exact ⟨rfl, by rintro x ⟨⟩; rfl⟩
  | fail =>
    cases h
    exact ⟨rfl, by rintro x ⟨⟩⟩
  | _ => cases h

def jobUID (w : World) : String := String.ofList (List.replicate (w.everJobs.length + 1) 'u')

instance (w : World) (name : String) : Decidable (w.NameFree name) := by
  unfold World.NameFree JobName
  infer_instance

instance (w : World) (uid : String) : Decidable (w.NewJobUID uid) := by
  unfold World.NewJobUID
  infer_instance

def create (choice : Choice) (w : World) (job : Job) : Option (Except CreateError Unit × World) :=
  let sent := w.note (.create w.migration.status.activeOperation job false)
  let stored := sent.addJob { job with uid := jobUID w, terminal := false }
  match choice with
  | .go =>
    if w.NameFree job.name ∧ w.NewJobUID (jobUID w) then some (.ok (), stored)
    else some (.error .alreadyExists, sent)
  | .fail => some (.error .other, sent)
  | .lost =>
    if w.NameFree job.name ∧ w.NewJobUID (jobUID w) then some (.error .other, stored) else none
  | _ => none

def handle (choice : Choice) (w : World) : (c : Call) → Option (c.Ans × World)
  | .getMigration => read choice w (some w.migration)
  | .patchFinalizer version present => write choice w version (w.writeFinalizer present)
  | .patchCopy version value => write choice w version (w.writeCopy value)
  | .patchStatus version s => write choice w version (w.writeStatus s)
  | .getJob name => read choice w (w.jobs.find? (·.name = name))
  | .createJob job => create choice w job
  | .patchJob _ => read choice w ()
  | .listPods => read choice w w.pods
  | .getPlan _ => read choice w (some plan)
  | .createPlan _ => read choice w (some plan)
  | .listApprovals => read choice w w.approvals
  | .getApproval name => read choice w (w.approvals.find? (·.name = name))
  | .patchApproval approval mark =>
    match choice with
    | .go =>
      if ∃ b ∈ w.approvals, b.uid = approval.uid then
        some (.ok true, match mark with
          | .consumed =>
            (w.note (.consumed approval w.approvals)).markApproval approval.uid .consumed
          | .stale => w.markApproval approval.uid .stale)
      else some (.ok false, w)
    | .fail => some (.error "unavailable", w)
    | _ => none
  | .listAcknowledgments => read choice w []
  | .getAcknowledgment _ => read choice w none
  | .patchAcknowledgment _ _ => read choice w ()
  | .acquire _ op =>
    match choice with
    | .go => some (.ok { acquired := true, epoch := "epoch" }, w.note (.acquired op.id "epoch"))
    | .anew =>
      some (.ok { acquired := true, epoch := "anew", continuityLost := true },
        w.note (.acquired op.id "anew"))
    | .fail => some (.error "unavailable", w)
    | _ => none
  | .release _ owed =>
    match choice with
    | .go => some (.ok (), w.note (.released owed))
    | .fail => some (.error "unavailable", w)
    | _ => none
  | .now => some ((1 : Int), w)
  | .newOperationID _ =>
    if operationID w.ids.length ∉ w.ids ∧ sha256Digest (operationID w.ids.length) = true then
      some (operationID w.ids.length, { w with ids := operationID w.ids.length :: w.ids })
    else none
  | .contextErr =>
    match choice with
    | .go => some (.ok (), w.note (.passedConsume w.migration.status.activeOperation))
    | .fail =>
      some (.error "stopped", w.note (.passedConsume w.migration.status.activeOperation))
    | _ => none
  | .ask (.readResult _ _) =>
    match choice with
    | .result reading =>
      some (reading, { w with reading :=
        match reading with
        | .read (.history report target) => some (report, target)
        | _ => none })
    | _ => none
  | .ask q => some (usual q, w)

theorem create_served {choice : Choice} {w w' : World} {job : Job} {a : Except CreateError Unit}
    (h : create choice w job = some (a, w')) : serve w (.createJob job) a w' := by
  cases choice with
  | go =>
    simp only [create] at h
    split at h
    · rename_i hfree
      cases h
      exact .inr ⟨rfl, hfree.1, _, hfree.2, rfl⟩
    · cases h
      exact .inl ⟨rfl, by simp⟩
  | fail =>
    cases h
    exact .inl ⟨rfl, by simp⟩
  | lost =>
    simp only [create] at h
    split at h
    · rename_i hfree
      cases h
      exact .inr ⟨rfl, hfree.1, _, hfree.2, rfl⟩
    · cases h
  | _ => cases h

theorem handle_served (choice : Choice) (w : World) (c : Call) (a : c.Ans) (w' : World)
    (h : handle choice w c = some (a, w')) : serve w c a w' := by
  cases c with
  | getMigration =>
    obtain ⟨rfl, hr⟩ := read_eq h
    exact ⟨rfl, fun r ha => .inl (hr r ha)⟩
  | patchFinalizer version present => exact write_written h
  | patchCopy version value => exact write_written h
  | patchStatus version s => exact write_written h
  | getJob name => exact read_eq h
  | createJob job => exact create_served h
  | patchJob name => exact (read_eq h).1
  | listPods => exact read_eq h
  | getPlan name =>
    obtain ⟨rfl, hr⟩ := read_eq h
    refine ⟨rfl, fun p ha => ?_⟩
    cases hr _ ha
    exact ⟨rfl, rfl⟩
  | createPlan p =>
    obtain ⟨rfl, hr⟩ := read_eq h
    refine ⟨rfl, fun p ha => ?_⟩
    cases hr _ ha
    exact ⟨rfl, rfl⟩
  | listApprovals => exact read_eq h
  | getApproval name => exact read_eq h
  | patchApproval approval mark =>
    cases choice with
    | go =>
      simp only [handle] at h
      split at h
      · rename_i hb
        cases h
        exact .inr ⟨hb, by rintro r ⟨⟩; rfl, by cases mark <;> rfl⟩
      · rename_i hb
        cases h
        exact .inl ⟨rfl, by rintro r ⟨⟩; exact ⟨rfl, fun b hm hu => hb ⟨b, hm, hu⟩⟩⟩
    | fail =>
      cases h
      exact .inl ⟨rfl, by rintro r ⟨⟩⟩
    | _ => cases h
  | listAcknowledgments => exact (read_eq h).1
  | getAcknowledgment name => exact (read_eq h).1
  | patchAcknowledgment acknowledgment consumed => exact (read_eq h).1
  | acquire uid op => cases choice <;> cases h <;> rfl
  | release uid owed => cases choice <;> cases h <;> rfl
  | now =>
    cases h
    exact ⟨rfl, by decide⟩
  | newOperationID fingerprint =>
    simp only [handle] at h
    split at h
    · rename_i hnew
      cases h
      exact ⟨hnew.1, hnew.2, rfl⟩
    · cases h
  | contextErr => cases choice <;> cases h <;> rfl
  | ask q =>
    cases q with
    | readResult job pod =>
      cases choice with
      | result reading =>
        cases h
        cases a with
        | read result => cases result <;> exact rfl
        | _ => exact rfl
      | _ => cases h
    | jobName op =>
      cases h
      exact ⟨rfl, by rintro name ⟨⟩; decide⟩
    | build op p =>
      cases h
      exact ⟨rfl, by rintro j ⟨⟩; exact ⟨rfl, rfl⟩⟩
    | _ =>
      cases h
      exact rfl

/-! ## Runs -/

variable {md : Mode} {digestHistory : MigrationStatusReport → String} {w : World}
  {running : Option (Prog api (Except String Unit))}

/-- A pass on a script, from the world `w`. -/
def pass (digestHistory : MigrationStatusReport → String) (choices : List Choice) (w : World) :
    World :=
  ((reconcile digestHistory).run.script handle choices (enter w)).2

theorem pass_runs (h : Runs md digestHistory ⟨w, running⟩) (hgate : Gate md w)
    (choices : List Choice) :
    ∃ running, Runs md digestHistory ⟨pass digestHistory choices w, running⟩ :=
  ⟨_, Solo.Reach.script handle_served choices h hgate⟩

def passes (digestHistory : MigrationStatusReport → String) (scripts : List (List Choice))
    (w : World) : World :=
  scripts.foldl (fun w choices => pass digestHistory choices w) w

theorem passes_runs_gated (h : Runs md digestHistory ⟨w, running⟩) (scripts : List (List Choice))
    (hgate : ∀ n < scripts.length, Gate md (passes digestHistory (scripts.take n) w)) :
    ∃ running, Runs md digestHistory ⟨passes digestHistory scripts w, running⟩ := by
  induction scripts generalizing w running with
  | nil => exact ⟨running, h⟩
  | cons choices scripts ih =>
    obtain ⟨running', h'⟩ := pass_runs h (hgate 0 (Nat.succ_pos _)) choices
    exact ih h' fun n hn => hgate (n + 1) (Nat.succ_lt_succ hn)

theorem passes_runs (hmd : md.careful = false) (h : Runs md digestHistory ⟨w, running⟩)
    (scripts : List (List Choice)) :
    ∃ running, Runs md digestHistory ⟨passes digestHistory scripts w, running⟩ :=
  passes_runs_gated h scripts fun _ _ hc => by rw [hmd] at hc; cases hc

/-! Steps of the environment. -/

def podStarted (pod : Pod) (w : World) : World := { w with pods := pod :: w.pods }

/-- The Job `uid` is terminal. -/
def jobDone (uid : String) (w : World) : World :=
  { w with jobs := w.jobs.map fun j => if j.uid = uid then { j with terminal := true } else j }

/-- The Job `uid` is deleted. -/
def jobGone (uid : String) (w : World) : World := { w with jobs := w.jobs.filter (·.uid ≠ uid) }

/-- The deletion of the approval `uid` is asked for. -/
def withdrawing (uid : String) (w : World) : World :=
  { w with approvals := w.approvals.map fun a =>
      if a.uid = uid then { a with deleting := true } else a }

def edited (spec : Spec) (w : World) : World := w.store { w.migration with spec := spec }

/-- The Pod of the Job that a script creates first. -/
def pod (executorTerminated : Bool) : Pod where
  uid := "pod"
  jobName := "job"
  jobUID := "u"
  phase := if executorTerminated then .succeeded else .running
  executorTerminated := executorTerminated

theorem podStarted_runs {p : Pod} (h : Runs md digestHistory ⟨w, running⟩)
    (hjob : w.jobs.any (fun j => !j.terminal && p.jobName = j.name && p.jobUID = j.uid) = true) :
    Runs md digestHistory ⟨podStarted p w, running⟩ := by
  obtain ⟨j, hj, hfits⟩ := List.any_eq_true.1 hjob
  simp only [Bool.and_eq_true, Bool.not_eq_true', decide_eq_true_eq] at hfits
  exact h.step (.env (.podStart j p hj hfits.1.1 hfits.1.2 hfits.2))

theorem jobDone_runs (h : Runs md digestHistory ⟨w, running⟩) (uid : String) :
    Runs md digestHistory ⟨jobDone uid w, running⟩ :=
  h.step (.env (.jobDone uid))

theorem jobGone_runs (h : Runs md digestHistory ⟨w, running⟩) (uid : String) :
    Runs md digestHistory ⟨jobGone uid w, running⟩ :=
  h.step (.env (.jobGone uid))

theorem withdrawing_runs (h : Runs md digestHistory ⟨w, running⟩) (uid : String) :
    Runs md digestHistory ⟨withdrawing uid w, running⟩ :=
  h.step (.env (.withdrawing uid))

theorem edited_runs (h : Runs md digestHistory ⟨w, running⟩) (spec : Spec) :
    Runs md digestHistory ⟨edited spec w, running⟩ :=
  h.step (.env (.edit _ rfl rfl rfl))

/-- A resource whose plan is published and waits for its Apply. -/
def start (policy : ApplyPolicy) (approvals : List Approval) : World where
  migration :=
    { uid := "migration-uid"
      spec := { apply := policy }
      status :=
        { observedGeneration := 1
          phase := .planning
          artifact := some "artifact"
          executionBinding := some binding
          history := some history
          plan := some plan.ref
          nextReconciliationTime := some 1000 } }
  approvals := approvals
  approvalUIDs := approvals.map (·.uid)

theorem start_runs (policy : ApplyPolicy) {approvals : List Approval}
    (h : (approvals.map (·.uid)).Nodup) : Runs md digestHistory ⟨start policy approvals, none⟩ := by
  refine .init ⟨rfl, rfl, rfl, rfl, ?_, rfl, ?_, .nil, ?_, .nil, ?_, ?_, h, rfl⟩
  · rintro _ ⟨⟩
    decide +kernel
  · intro j hj
    cases hj
  · intro j hj
    cases hj
  · intro p hp
    cases hp
  · intro a ha
    exact List.mem_map_of_mem ha

end Ptah.Migration.Script
