import PtahOperator.Migration.Invariant.Latch

/-!
# Jobs in the store, claims and their creates

- **`StoreInv`**: the Jobs in the store are Jobs that were stored, under different names.
- **`ClaimInv`**: the active claim is one the log shows, and one whose record a copy decodes to.
- **`CreateInv`**: an Apply claim sends at most one create that is not refused, and a claim that
  has not been marked has sent none. It holds in runs without restores: a restore takes the claim
  out of the store under a pass that goes on to create.
-/

namespace Ptah.Migration

open Conc Lifecycle

variable {md : Mode} {w w' : World}

/-! ## The store -/

/-- The Job `j` in the store is the Job `stored` once was, except that it may have finished. -/
def Job.Was (j stored : Job) : Prop := j = { stored with terminal := j.terminal }

theorem Job.Was.refl (j : Job) : j.Was j := rfl

structure StoreInv (w : World) : Prop where
  names : (w.jobs.map (·.name)).Nodup
  known : ∀ j ∈ w.jobs, ∃ stored ∈ w.everJobs, j.Was stored
  uids : (w.everJobs.map (·.uid)).Nodup
  uid : ∀ j ∈ w.everJobs, j.uid ≠ ""
  name : ∀ j ∈ w.everJobs, JobName j.name
  /-- A Pod names the Job that owns it. -/
  pods : ∀ p ∈ w.pods, ∀ j ∈ w.everJobs, p.jobUID = j.uid → p.jobName = j.name

theorem StoreInv.add (hi : StoreInv w) {job : Job} (hname : w.NameFree job.name)
    (huid : w.NewJobUID job.uid) : StoreInv (w.addJob job) := by
  obtain ⟨h1, h2, h3, h4, h5, h6⟩ := hi
  obtain ⟨hne, hjobs, hpods⟩ := huid
  refine ⟨?_, ?_, ?_, ?_, ?_, ?_⟩
  · refine List.nodup_cons.2 ⟨?_, h1⟩
    rw [List.mem_map]
    rintro ⟨j, hj, he⟩
    exact hname.2 j hj he
  · intro j hj
    rcases List.mem_cons.1 hj with rfl | hj
    · exact ⟨j, .head _, .refl j⟩
    · obtain ⟨stored, hs, hw⟩ := h2 j hj
      exact ⟨stored, .tail _ hs, hw⟩
  · refine List.nodup_cons.2 ⟨?_, h3⟩
    rw [List.mem_map]
    rintro ⟨j, hj, he⟩
    exact hjobs j hj he
  · intro j hj
    rcases List.mem_cons.1 hj with rfl | hj
    · exact hne
    · exact h4 j hj
  · intro j hj
    rcases List.mem_cons.1 hj with rfl | hj
    · exact hname.1
    · exact h5 j hj
  · intro p hp j hj he
    rcases List.mem_cons.1 hj with rfl | hj
    · exact absurd he (hpods p hp)
    · exact h6 p hp j hj he

theorem StoreInv.congr (hi : StoreInv w) (hjobs : w'.jobs = w.jobs)
    (hever : w'.everJobs = w.everJobs) (hpods : w'.pods = w.pods) : StoreInv w' := by
  obtain ⟨h1, h2, h3, h4, h5, h6⟩ := hi
  exact ⟨by rwa [hjobs], by rwa [hjobs, hever], by rwa [hever], by rwa [hever], by rwa [hever],
    by rwa [hpods, hever]⟩

theorem StoreInv.ever (hi : StoreInv w) {j k : Job} (hj : j ∈ w.everJobs) (hk : k ∈ w.everJobs)
    (h : j.uid = k.uid) : j = k :=
  List.inj_on_of_nodup_map hi.uids hj hk h

theorem StoreInv.env (hi : StoreInv w) (h : Env md.restores w w') : StoreInv w' := by
  cases h with
  | foreignJob job howned hname huid => exact hi.add hname huid
  | jobDone uid =>
    have hnames : (w.jobs.map fun j => if j.uid = uid then { j with terminal := true } else j).map
        (·.name) = w.jobs.map (·.name) := by
      rw [List.map_map]
      refine List.map_congr_left fun j _ => ?_
      simp only [Function.comp_apply]
      split <;> rfl
    refine ⟨by rw [hnames]; exact hi.names, ?_, hi.uids, hi.uid, hi.name, hi.pods⟩
    intro j hj
    obtain ⟨k, hk, rfl⟩ := List.mem_map.1 hj
    obtain ⟨stored, hs, hw⟩ := hi.known k hk
    refine ⟨stored, hs, ?_⟩
    rw [Job.Was] at hw ⊢
    split
    · rw [hw]
    · exact hw
  | jobGone uid =>
    refine ⟨?_, fun j hj => hi.known j (List.mem_filter.1 hj).1, hi.uids, hi.uid, hi.name, hi.pods⟩
    exact hi.names.sublist (List.filter_sublist.map _)
  | podStart job pod hjob hrun hname huid =>
    refine ⟨hi.names, hi.known, hi.uids, hi.uid, hi.name, fun p hp j hj he => ?_⟩
    rcases hp with _ | ⟨_, hp⟩
    · obtain ⟨stored, hs, hw⟩ := hi.known job hjob
      have hsame : stored = j := hi.ever hs hj (by rw [← he, huid, hw])
      rw [hname, hw, hsame]
    · exact hi.pods p hp j hj he
  | podMove pod pod' hm =>
    refine ⟨hi.names, hi.known, hi.uids, hi.uid, hi.name, fun p hp j hj => ?_⟩
    obtain ⟨q, hq, rfl⟩ := List.mem_map.1 hp
    split
    · rename_i heq
      subst heq
      rw [hm.jobUID, hm.jobName]
      exact hi.pods q hq j hj
    · exact hi.pods q hq j hj
  | podGone pod =>
    exact ⟨hi.names, hi.known, hi.uids, hi.uid, hi.name,
      fun p hp => hi.pods p (List.mem_filter.1 hp).1⟩
  | _ => exact hi.congr rfl rfl rfl

theorem Reach.store (h : Reach md w) : StoreInv w := by
  refine h.induct (fun w hw => ?_) fun w w' _ hi hmove => ?_
  · exact ⟨hw.names, fun j hj => ⟨j, hw.jobs j hj, .refl j⟩, hw.uids,
      fun j hj => (hw.foreign j hj).2.1, fun j hj => (hw.foreign j hj).2.2, hw.pods⟩
  cases hmove with
  | silent h =>
    cases h with
    | env h => exact hi.env h
    | _ => exact hi.congr rfl rfl rfl
  | stored job uid h hname huid =>
    exact (show StoreInv (w.note _) from hi.congr rfl rfl rfl).add hname huid
  | _ => exact hi.congr rfl rfl rfl

/-! ## Claims -/

def TakenApply (log : List Event) (id : String) : Prop :=
  ∃ e ∈ statuses log, ∃ op, e.claimed = some op ∧ op.id = id ∧ op.type = .apply

instance (log : List Event) (id : String) : Decidable (TakenApply log id) :=
  decidable_of_iff ((statuses log).any fun e => e.claimed.any fun op =>
    op.id = id && op.type = .apply) (by simp [TakenApply, Option.any_eq_true])

structure ClaimInv (w : World) : Prop where
  drawn : ∀ id ∈ claimedIDs w.log, id ∈ w.ids
  apply : ∀ op, w.migration.status.activeOperation = some op → op.type = .apply → ApplyOK op
  type : ∀ op, w.migration.status.activeOperation = some op →
    (op.type = .apply ↔ TakenApply w.log op.id)
  reads : ∀ op, w.migration.status.activeOperation = some op → op.type ≠ .apply → op.Reads
  identified : w.migration.status.Identified

variable {id : String}

theorem TakenApply.claimed {log : List Event} (h : TakenApply log id) : id ∈ claimedIDs log := by
  obtain ⟨e, he, op, hop, rfl, -⟩ := h
  exact List.mem_filterMap.2 ⟨e, he, by simp [hop]⟩

theorem takenApply_cons {log' : List Event} (log : List Event) {e : StatusWrite}
    (h : statuses log' = e :: statuses log) :
    TakenApply log' id ↔
      (∃ op, e.claimed = some op ∧ op.id = id ∧ op.type = .apply) ∨ TakenApply log id := by
  simp only [TakenApply, h, List.exists_mem_cons_iff]

theorem ApplyTended.fixed {restores : Bool} {op op' : Operation}
    (h : ApplyTended restores w op op') :
    op'.id = op.id ∧ op'.planRef = op.planRef ∧ op'.jobName = op.jobName ∧
      op'.approvalRef = op.approvalRef ∧ op'.type = op.type := by
  cases h with
  | tend epoch lost snapshot refreshed h => subst h; exact ⟨rfl, rfl, rfl, rfl, rfl⟩
  | mark h => subst h; exact ⟨rfl, rfl, rfl, rfl, rfl⟩
  | withdraw h => subst h; exact ⟨rfl, rfl, rfl, rfl, rfl⟩
  | record job h => subst h; exact ⟨rfl, rfl, rfl, rfl, rfl⟩

theorem ClaimInv.status (hi : ClaimInv w) {s : Status} (h : StatusStep md w s) :
    ClaimInv (w.writeStatus s) := by
  have hlog : statuses (w.writeStatus s).log = w.statusWrite s :: statuses w.log := rfl
  -- Only a claim that is taken adds to the claims the log shows.
  have hother (hnot : w.migration.status.activeOperation ≠ none ∨ s.activeOperation = none) :
      (w.statusWrite s).claimed = none := by
    rw [StatusWrite.claimed]
    rcases hnot with hnot | hnot
    · rw [if_neg (by simpa [World.statusWrite] using hnot)]
    split
    · exact hnot
    · rfl
  have hids (hnot : (w.statusWrite s).claimed = none) :
      claimedIDs (w.writeStatus s).log = claimedIDs w.log := by
    simp [claimedIDs, hlog, hnot]
  have htaken (hnot : (w.statusWrite s).claimed = none) {id : String} :
      TakenApply (w.writeStatus s).log id ↔ TakenApply w.log id := by
    simp [takenApply_cons _ hlog, hnot]
  have hidentified : s.Identified := h.identified hi.identified
  have hkeep (op op') (hop : w.migration.status.activeOperation = some op)
      (hop' : s.activeOperation = some op') (hid : op'.id = op.id) (htype : op'.type = op.type)
      (hok : op.type = .apply → ApplyOK op') (hreads : op.type ≠ .apply → op'.Reads) :
      ClaimInv (w.writeStatus s) := by
    have hnot := hother (.inl (by rw [hop]; simp))
    refine ⟨by rw [hids hnot]; exact hi.drawn, ?_, ?_, ?_, hidentified⟩
    · intro o ho ht
      cases hop'.symm.trans ho
      exact hok (htype ▸ ht)
    · intro o ho
      cases hop'.symm.trans ho
      rw [htaken hnot, hid, htype]
      exact hi.type op hop
    · intro o ho ht
      cases hop'.symm.trans ho
      exact hreads (htype ▸ ht)
  have hend (hnone : s.activeOperation = none) : ClaimInv (w.writeStatus s) := by
    refine ⟨by rw [hids (hother (.inr hnone))]; exact hi.drawn, ?_, ?_, ?_, hidentified⟩ <;>
    · intro o ho
      cases hnone.symm.trans ho
  cases h.claim with
  | keep hsame =>
    cases hop : w.migration.status.activeOperation with
    | none => exact hend (hsame.trans hop)
    | some op =>
      exact hkeep op op hop (hsame.trans hop) rfl rfl (hi.apply op hop) (hi.reads op hop)
  | take op hnone hop hid hnew hstart hcopy hu hr happly hread =>
    have hclaimed : (w.statusWrite s).claimed = some op := by
      simp [StatusWrite.claimed, World.statusWrite, hnone, hop]
    refine ⟨?_, ?_, ?_, ?_, hidentified⟩
    · intro id hmem
      simp only [claimedIDs, hlog, List.filterMap_cons, hclaimed, Option.map_some,
        List.mem_cons] at hmem
      rcases hmem with rfl | hmem
      · exact hid
      · exact hi.drawn id hmem
    · intro o ho ht
      cases hop.symm.trans ho
      exact (happly ht).2.1
    · intro o ho
      cases hop.symm.trans ho
      rw [takenApply_cons _ hlog]
      constructor
      · exact fun ht => .inl ⟨op, hclaimed, rfl, ht⟩
      rintro (⟨o, ho, -, ht⟩ | ht)
      · cases hclaimed.symm.trans ho
        exact ht
      · exact absurd ht.claimed hnew
    · intro o ho ht
      cases hop.symm.trans ho
      exact hread ht
  | tend op op' hop hop' hid htype happly hread =>
    refine hkeep op op' hop hop' hid htype (fun ht => ?_) fun ht => ?_
    · obtain ⟨hid, hplan, hname, -, -⟩ := (happly ht).fixed
      have hok := hi.apply op hop ht
      exact ⟨hid ▸ hok.id, hplan ▸ hok.plan, hname ▸ hok.jobName⟩
    · exact hread ht (hi.reads op hop ht)
  | retire op hop hnone => exact hend hnone

theorem ClaimInv.congr (hi : ClaimInv w) (hstatus : w'.migration.status = w.migration.status)
    (hlog : statuses w'.log = statuses w.log) (hids : ∀ id ∈ w.ids, id ∈ w'.ids) : ClaimInv w' := by
  obtain ⟨h1, h2, h3, h4, h5⟩ := hi
  refine ⟨fun id hid => hids id (h1 id ?_), ?_, ?_, ?_, ?_⟩
  · rwa [claimedIDs, hlog] at hid
  · rwa [hstatus]
  · rw [hstatus]
    intro op hop
    rw [TakenApply, hlog]
    exact h3 op hop
  · rwa [hstatus]
  · rwa [hstatus]

theorem ClaimInv.restored (hi : ClaimInv w) (hstatus : w'.migration.status = {})
    (hlog : statuses w'.log = statuses w.log) (hids : ∀ id ∈ w.ids, id ∈ w'.ids) : ClaimInv w' := by
  refine ⟨fun id hid => hids id (hi.drawn id ?_), ?_, ?_, ?_, ?_⟩
  · rwa [claimedIDs, hlog] at hid
  all_goals simp [hstatus, Status.Identified]

theorem Reach.claim (h : Reach md w) : ClaimInv w := by
  refine h.induct (fun w hw => ?_) fun w w' _ hi hmove => ?_
  · have hlog : statuses w.log = [] := by rw [hw.log]; rfl
    refine ⟨by simp [claimedIDs, hlog], ?_, ?_, ?_, hw.history⟩ <;>
    · intro op hop
      rw [hw.active] at hop
      cases hop
  have hsame {id : String} h : id ∈ w.ids := h
  cases hmove with
  | silent h =>
    cases h with
    | draw id hnew => exact hi.congr rfl rfl fun _ => List.mem_cons_of_mem _
    | read reading => exact hi.congr rfl rfl fun _ => hsame
    | env h =>
      cases h with
      | edit m huid hstatus hcopy => exact hi.congr hstatus rfl fun _ => hsame
      | restore m hmode hstatus hcopy => exact hi.restored hstatus rfl fun _ => hsame
      | _ => exact hi.congr rfl rfl fun _ => hsame
  | status s h => exact hi.status h
  | _ => exact hi.congr rfl rfl fun _ => hsame

/-! ## Creates -/

/-- A create request for the claim `id` that was not refused. -/
def Event.isCreate (id : String) : Event → Bool
  | .create _ job refused => !refused && job.operationID = id
  | _ => false

/-- The create requests for the claim `id` that were answered otherwise than refused. -/
def unrefused (log : List Event) (id : String) : Nat := log.countP (·.isCreate id)

theorem noneCreated_iff {log : List Event} : NoneCreated log id ↔ unrefused log id = 0 := by
  rw [unrefused, List.countP_eq_zero]
  constructor
  · intro h e he
    cases e with
    | create claim job refused =>
      by_cases hid : job.operationID = id
      · simp [Event.isCreate, h claim job refused he hid]
      · simp [Event.isCreate, hid]
    | _ => simp [Event.isCreate]
  · intro h claim job refused he hid
    simpa [Event.isCreate, hid] using h _ he

structure CreateInv (w : World) : Prop where
  unmarked : ∀ op, w.migration.status.activeOperation = some op → op.type = .apply →
    op.mayHaveDispatched = false → unrefused w.log op.id = 0
  /-- Each Job stored for a claim is one its creates stored. -/
  jobs : ∀ id, (w.jobsOf id).length ≤ unrefused w.log id
  claimed : ∀ claim job refused, .create claim job refused ∈ w.log →
    job.operationID ∈ claimedIDs w.log
  once : ∀ id, TakenApply w.log id → unrefused w.log id ≤ 1
  names : ∀ op, w.migration.status.activeOperation = some op → op.type = .apply →
    ∀ j ∈ w.jobsOf op.id, j.name = op.jobName
  recorded : ∀ op, w.migration.status.activeOperation = some op → op.type = .apply →
    op.jobUID ≠ "" → ∃ j ∈ w.jobsOf op.id, j.uid = op.jobUID

theorem CreateInv.init (h : Fresh w) : CreateInv w := by
  have hlog : w.log = [] := h.log
  have hjobs id : w.jobsOf id = [] := by
    rw [World.jobsOf, List.filter_eq_nil_iff]
    intro j hj
    simp [(h.foreign j hj).1]
  constructor <;> simp [h.active, hlog, hjobs, TakenApply, statuses]

theorem CreateInv.congr (hi : CreateInv w)
    (hactive : w'.migration.status.activeOperation = w.migration.status.activeOperation)
    (hstatuses : statuses w'.log = statuses w.log)
    (hcreates : ∀ claim job refused, .create claim job refused ∈ w'.log →
      .create claim job refused ∈ w.log)
    (hcount : ∀ id, unrefused w'.log id = unrefused w.log id)
    (hjobs : ∀ id, w'.jobsOf id = w.jobsOf id) : CreateInv w' := by
  obtain ⟨h1, h2, h3, h4, h5, h6⟩ := hi
  refine ⟨?_, ?_, ?_, ?_, ?_, ?_⟩
  · simpa only [hactive, hcount] using h1
  · simpa only [hjobs, hcount] using h2
  · intro claim job refused he
    rw [claimedIDs, hstatuses]
    exact h3 claim job refused (hcreates claim job refused he)
  · intro id hid
    rw [hcount]
    refine h4 id ?_
    rwa [TakenApply, hstatuses] at hid
  · simpa only [hactive, hjobs] using h5
  · simpa only [hactive, hjobs] using h6

theorem CreateInv.new (hi : CreateInv w) (hid : id ∉ claimedIDs w.log) :
    unrefused w.log id = 0 ∧ w.jobsOf id = [] := by
  have hnone : unrefused w.log id = 0 := by
    refine noneCreated_iff.1 fun claim job refused he hjob => ?_
    exact absurd (hjob ▸ hi.claimed claim job refused he) hid
  refine ⟨hnone, List.length_eq_zero_iff.1 ?_⟩
  have := hi.jobs id
  omega

theorem CreateInv.status (hi : CreateInv w) (hmd : md.restores = false) {s : Status}
    (h : StatusStep md w s) :
    CreateInv (w.writeStatus s) := by
  have hlog : statuses (w.writeStatus s).log = w.statusWrite s :: statuses w.log := rfl
  have hcount id : unrefused (w.writeStatus s).log id = unrefused w.log id := by
    simp [unrefused, World.writeStatus, World.note, World.store, Event.isCreate]
  have hclaimed : ∀ claim job refused, Event.create claim job refused ∈ (w.writeStatus s).log →
      job.operationID ∈ claimedIDs (w.writeStatus s).log := by
    intro claim job refused he
    have he : Event.create claim job refused ∈ w.log := by
      simpa [World.writeStatus, World.note, World.store] using he
    exact claimedIDs_mono hlog (hi.claimed claim job refused he)
  have hjobs id : (w.writeStatus s).jobsOf id = w.jobsOf id := rfl
  -- What holds of every claim; the rest is about the active one.
  have hall (hnew : ∀ op, (w.statusWrite s).claimed = some op → op.id ∉ claimedIDs w.log)
      (hactive : ∀ op, s.activeOperation = some op → op.type = .apply →
        (op.mayHaveDispatched = false → unrefused w.log op.id = 0) ∧
        (∀ j ∈ w.jobsOf op.id, j.name = op.jobName) ∧
        (op.jobUID ≠ "" → ∃ j ∈ w.jobsOf op.id, j.uid = op.jobUID)) :
      CreateInv (w.writeStatus s) := by
    refine ⟨?_, ?_, hclaimed, ?_, ?_, ?_⟩
    · intro op hop ht hm
      exact (hactive op hop ht).1 hm
    · intro id
      exact hi.jobs id
    · intro id hid
      rw [hcount]
      rcases (takenApply_cons _ hlog).1 hid with ⟨op, hop, rfl, -⟩ | hid
      · rw [(hi.new (hnew op hop)).1]
        exact Nat.zero_le 1
      · exact hi.once id hid
    · exact fun op hop ht => (hactive op hop ht).2.1
    · exact fun op hop ht => (hactive op hop ht).2.2
  have hnotTaken {P : Prop} (hsome : w.migration.status.activeOperation ≠ none) {op : Operation}
      (hop : (w.statusWrite s).claimed = some op) : P := by
    rw [StatusWrite.claimed, if_neg (by simpa [World.statusWrite] using hsome)] at hop
    cases hop
  cases h.claim with
  | keep hsame =>
    refine hall (fun op hop => ?_) fun op hop ht => ?_
    · simp only [StatusWrite.claimed, World.statusWrite, hsame] at hop
      split at hop
      · rename_i hnone
        rw [Option.isNone_iff_eq_none.1 hnone] at hop
        cases hop
      · cases hop
    · have hop : w.migration.status.activeOperation = some op := hsame ▸ hop
      exact ⟨hi.unmarked op hop ht, hi.names op hop ht, hi.recorded op hop ht⟩
  | take op hnone hop hid hnew hstart hcopy hu hr happly hread =>
    refine hall (fun o ho => ?_) fun o ho ht => ?_
    · simp only [StatusWrite.claimed, World.statusWrite, hnone, hop, Option.isNone_none,
        if_true, Option.some.injEq] at ho
      exact ho ▸ hnew
    · cases hop.symm.trans ho
      obtain ⟨hzero, hnil⟩ := hi.new hnew
      refine ⟨fun _ => hzero, by simp [hnil], fun huid => ?_⟩
      simp [Operation.mayHaveDispatched, huid] at hstart
  | tend op op' hop hop' hid htype happly hread =>
    refine hall (fun o ho => hnotTaken (by simp [hop]) ho) fun o ho ht => ?_
    cases hop'.symm.trans ho
    have ht' : op.type = .apply := htype ▸ ht
    obtain ⟨-, -, hname, -, -⟩ := (happly ht').fixed
    rw [hid, hname]
    refine ⟨fun hm => ?_, hi.names op hop ht', fun huid => ?_⟩
    · cases happly ht' with
      | tend epoch lost snapshot refreshed h => subst h; exact hi.unmarked op hop ht' hm
      | mark h => subst h; simp [Operation.mayHaveDispatched] at hm
      | withdraw h huid hnone => exact noneCreated_iff.1 (hnone hmd)
      | record job h => subst h; simp [Operation.mayHaveDispatched] at hm
    · cases happly ht' with
      | tend epoch lost snapshot refreshed h => subst h; exact hi.recorded op hop ht' huid
      | mark h => subst h; exact hi.recorded op hop ht' huid
      | withdraw h => subst h; exact hi.recorded op hop ht' huid
      | record job h hstarted hjob => subst h; exact hjob hmd
  | retire op hop hnone =>
    refine hall (fun o ho => hnotTaken (by simp [hop]) ho) fun o ho => ?_
    rw [hnone] at ho
    cases ho

theorem CreateInv.create (hi : CreateInv w) (hl : LatchInv w) (hc : ClaimInv w) {job : Job}
    {refused : Bool} (h : MayCreate w job)
    (hactive : w'.migration.status.activeOperation = w.migration.status.activeOperation)
    (hlog : w'.log = .create w.migration.status.activeOperation job refused :: w.log)
    (hjobs : ∀ id, w'.jobsOf id = w.jobsOf id ∨ (refused = false ∧ job.operationID = id ∧
      ∃ j, w'.jobsOf id = j :: w.jobsOf id ∧ j.name = job.name)) : CreateInv w' := by
  obtain ⟨op, hop, hid, howned, hname, happly⟩ := h
  have hstatuses : statuses w'.log = statuses w.log := by rw [hlog]; rfl
  have hmono {id : String} {j : Job} (hj : j ∈ w.jobsOf id) : j ∈ w'.jobsOf id := by
    rcases hjobs id with h | ⟨-, -, k, h, -⟩
    · rwa [h]
    · rw [h]
      exact .tail _ hj
  have hcount id : unrefused w'.log id =
      unrefused w.log id + if refused = false ∧ job.operationID = id then 1 else 0 := by
    rw [hlog, unrefused, List.countP_cons]
    simp [unrefused, Event.isCreate]
  refine ⟨?_, ?_, ?_, ?_, ?_, ?_⟩
  · intro o ho ht hm
    cases (hactive ▸ ho).symm.trans hop
    simp [Operation.mayHaveDispatched, (happly ht).marked] at hm
  · intro id
    rw [hcount]
    have := hi.jobs id
    rcases hjobs id with h | ⟨hr, hid, k, h, -⟩
    · rw [h]
      omega
    · rw [h, if_pos ⟨hr, hid⟩, List.length_cons]
      omega
  · intro claim j r he
    rw [hlog] at he
    rw [claimedIDs, hstatuses]
    rcases List.mem_cons.1 he with he | he
    · cases he
      rw [hid]
      exact hl.activeClaimed _ (Status.activeIs_iff.2 ⟨op, hop, rfl⟩)
    · exact hi.claimed claim j r he
  · intro id htaken
    rw [TakenApply, hstatuses] at htaken
    rw [hcount]
    by_cases hself : job.operationID = id
    · have ht : op.type = .apply := (hc.type op hop).2 (by rwa [← hid, hself])
      have hzero : unrefused w.log id = 0 := by
        rw [← hself, hid]
        exact noneCreated_iff.1 (happly ht).first
      split <;> omega
    · rw [if_neg (by simp [hself])]
      exact hi.once id htaken
  · intro o ho ht j hj
    cases (hactive ▸ ho).symm.trans hop
    rcases hjobs op.id with h | ⟨-, -, k, h, hk⟩
    · exact hi.names op hop ht j (h ▸ hj)
    rw [h] at hj
    rcases hj with _ | ⟨_, hj⟩
    · rw [hk, hname]
    · exact hi.names op hop ht j hj
  · intro o ho ht huid
    cases (hactive ▸ ho).symm.trans hop
    obtain ⟨j, hj, hju⟩ := hi.recorded op hop ht huid
    exact ⟨j, hmono hj, hju⟩

theorem CreateInv.silent (hi : CreateInv w) (hmd : md.restores = false) (h : Silent md w w') :
    CreateInv w' := by
  have hsame hactive
      (hlog : w'.log = w.log) (hjobs : ∀ id, w'.jobsOf id = w.jobsOf id) : CreateInv w' :=
    hi.congr hactive (by rw [hlog]) (by rw [hlog]; exact fun _ _ _ h => h) (by simp [hlog]) hjobs
  cases h with
  | env h =>
    cases h with
    | edit m huid hstatus hcopy => exact hsame (by rw [← hstatus]; rfl) rfl fun _ => rfl
    | restore m hmode => rw [hmd] at hmode; cases hmode
    | foreignJob job howned =>
      refine hsame rfl rfl fun id => ?_
      rw [World.jobsOf, World.addJob, List.filter_cons_of_neg (by simp [howned])]
      rfl
    | _ => exact hsame rfl rfl fun _ => rfl
  | _ => exact hsame rfl rfl fun _ => rfl

/-- At most one create of each Apply was not refused, in every run without restores. -/
theorem Reach.create (hmd : md.restores = false) (h : Reach md w) : CreateInv w := by
  refine h.induct (fun _ => CreateInv.init) fun w w' hr hi hmove => ?_
  cases hmove with
  | silent h => exact hi.silent hmd h
  | status s h => exact hi.status hmd h
  | create job refused h => exact hi.create hr.latch hr.claim (h hmd) rfl rfl fun _ => .inl rfl
  | stored job uid h hname huid =>
    refine hi.create hr.latch hr.claim (h hmd) rfl rfl fun id => ?_
    obtain ⟨op, hop, hid, howned, -⟩ := h hmd
    by_cases hself : job.operationID = id
    · refine .inr ⟨rfl, hself, _, List.filter_cons_of_pos (by simp [howned, hself]), rfl⟩
    · refine .inl ?_
      exact List.filter_cons_of_neg (by simp [hself])
  | finalizer | copy | stale => exact hi.congr rfl rfl (fun _ _ _ h => h) (fun _ => rfl) fun _ => rfl
  | consume | passed | acquired | released =>
    refine hi.congr rfl rfl (fun claim job refused h => ?_) (fun id => ?_) fun _ => rfl
    · simpa [World.note, World.markApproval] using h
    · simp [unrefused, World.note, World.markApproval, Event.isCreate]

end Ptah.Migration
