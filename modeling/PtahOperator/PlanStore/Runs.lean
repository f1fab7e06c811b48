import PtahOperator.PlanStore.Store

/-!
# What an Apply executes

Any number of managers publish one plan, load it and project it, in any interleaving of their calls,
with chunks deleted and replaced between them.

* `publish_safe`, `loadTask_safe`, `applyTask_safe`: each program keeps the discipline of the store.
* `reach_ok`: a commit was made on chunks that carried the document, under a manifest of it.
* `plan_executed_exactly`: what is loaded and what the runner reads is the document.
-/

namespace Ptah.PlanStore

open Conc
open Go (Bytes bytes)

/-! ## The discipline of the store -/

section Discipline

variable (sha256 : Bytes → Bytes) (p : Publication)

/-- A manifest of the document. -/
structure Bound (spec : PlanSpec) : Prop where
  nonempty : p.content ≠ []
  small : p.content.length ≤ maxPlanBytes
  few : (split p.content chunkBytes).length ≤ maxChunks
  digest : spec.contentDigest = digestBytes sha256 p.content
  chunks : spec.chunks = chunkReferences sha256 p.name 0 (split p.content chunkBytes)

/-- What a thread published of one chunk of the document: it was shown an object with these bytes. -/
def Shown (t : Nat) (log : List Event) (slice : Bytes × Nat) (published : PublishedChunk) : Prop :=
  ∃ chunk, Event.chunk t chunk ∈ log ∧ chunk.data = slice.1 ∧
    published = { name := chunk.metadata.name, uid := chunk.uid, index := int32 slice.2 }

/-- A thread was shown every chunk of the document. -/
def Carried (t : Nat) (log : List Event) (published : List PublishedChunk) : Prop :=
  List.Forall₂ (Shown t log) (split p.content chunkBytes).zipIdx published

/-- What a commit of the plan follows. -/
def Legal (older : List Event) : Event → Prop
  | .chunk _ _ => True
  | .commit t name published => name = p.name → Carried p t older published

structure Inv (w : World) : Prop where
  named : ∀ name plan, w.plans name = some plan → plan.name = name
  legal : Logged (Legal p) w.log
  bound : w.Committed p.name → ∃ plan, w.plans p.name = some plan ∧ Bound sha256 p plan.spec

/-- What every thread tolerates: manifests and projections stay, and the log goes on. -/
structure Rely (w w' : World) : Prop where
  plans : ∀ name plan, w.plans name = some plan →
    ∃ plan', w'.plans name = some plan' ∧ plan'.spec = plan.spec
  configMaps : ∀ name configMap, w.configMaps name = some configMap →
    w'.configMaps name = some configMap
  log : w.log <:+ w'.log

def discipline : Discipline Nat World where
  inv := Inv sha256 p
  rely _ := Rely
  refl _ _ := ⟨fun _ plan h => ⟨plan, h, rfl⟩, fun _ _ h => h, List.suffix_refl _⟩
  trans h₁ h₂ := by
    refine ⟨fun name plan h => ?_, fun name c h => h₂.configMaps name c (h₁.configMaps name c h),
      h₁.log.trans h₂.log⟩
    obtain ⟨plan₁, hplan₁, hspec₁⟩ := h₁.plans name plan h
    obtain ⟨plan₂, hplan₂, hspec₂⟩ := h₂.plans name plan₁ hplan₁
    exact ⟨plan₂, hplan₂, hspec₂.trans hspec₁⟩

end Discipline

variable {sha256 : Bytes → Bytes} {p : Publication} {t : Nat} {w : World}

/-! ## One call -/

theorem guar_same (hi : Inv sha256 p w) : (discipline sha256 p).Guar t w w :=
  ⟨hi, fun u _ => (discipline sha256 p).refl u w⟩

variable {plan desired : Plan} {w' : World} {index : Nat} {ref : ChunkReference} {content : Bytes}

theorem guar_storePlan (hi : Inv sha256 p w) (hnew : w.plans plan.name = none) :
    (discipline sha256 p).Guar t w (w.storePlan plan) := by
  have hold : ∀ name plan', w.plans name = some plan' → name ≠ plan.name := by
    rintro name plan' h rfl
    rw [hnew] at h
    cases h
  refine ⟨⟨fun name plan' h => ?_, hi.legal, fun hc => ?_⟩, fun u _ => ⟨fun name plan' h => ?_,
    fun _ _ h => h, List.suffix_refl _⟩⟩
  · by_cases hname : name = plan.name
    · subst hname
      rw [World.storePlan_self] at h
      cases h
      rfl
    · rw [World.storePlan_of_ne hname] at h
      exact hi.named name plan' h
  · obtain ⟨plan', hplan', hbound⟩ := hi.bound hc
    exact ⟨plan', (World.storePlan_of_ne (hold _ _ hplan')).trans hplan', hbound⟩
  · exact ⟨plan', (World.storePlan_of_ne (hold _ _ h)).trans h, rfl⟩

theorem guar_chunks {chunks : Bytes → Option Chunk} (hi : Inv sha256 p w) :
    (discipline sha256 p).Guar t w { w with chunks } :=
  ⟨⟨hi.named, hi.legal, hi.bound⟩, fun _ _ =>
    ⟨fun _ plan h => ⟨plan, h, rfl⟩, fun _ _ h => h, List.suffix_refl _⟩⟩

theorem guar_trans {w1 w2 : World} (h1 : (discipline sha256 p).Guar t w w1)
    (h2 : (discipline sha256 p).Guar t w1 w2) : (discipline sha256 p).Guar t w w2 :=
  ⟨h2.1, fun u hu => (discipline sha256 p).trans (h1.2 u hu) (h2.2 u hu)⟩

theorem guar_seen (hi : Inv sha256 p w) (chunk : Chunk) :
    (discipline sha256 p).Guar t w (w.record [.chunk t chunk]) := by
  refine ⟨⟨hi.named, hi.legal.cons trivial, fun hc => ?_⟩, fun _ _ =>
    ⟨fun _ plan h => ⟨plan, h, rfl⟩, fun _ _ h => h, List.suffix_cons _ _⟩⟩
  obtain ⟨u, published, hm⟩ := hc
  rcases List.mem_cons.1 hm with hm | hm
  · cases hm
  · exact hi.bound ⟨u, published, hm⟩

/-- A commit on a manifest of the document, by a thread that was shown its chunks. -/
theorem guar_commit {stored : Plan} {published : List PublishedChunk} (hi : Inv sha256 p w)
    (hplan : w.plans p.name = some plan) (hbound : Bound sha256 p plan.spec)
    (hname : stored.name = p.name) (hspec : stored.spec = plan.spec)
    (hcarried : Carried p t w.log published) :
    (discipline sha256 p).Guar t w ((w.storePlan stored).record [.commit t p.name published]) := by
  refine ⟨⟨fun name plan' h => ?_, hi.legal.cons fun _ => hcarried, fun _ => ⟨stored, ?_, hspec ▸ hbound⟩⟩,
    fun _ _ => ⟨fun name plan' h => ?_, fun _ _ h => h, List.suffix_cons _ _⟩⟩
  · by_cases heq : name = stored.name
    · subst heq
      rw [World.record_plans, World.storePlan_self] at h
      cases h
      rfl
    · rw [World.record_plans, World.storePlan_of_ne heq] at h
      exact hi.named name plan' h
  · rw [World.record_plans, ← hname, World.storePlan_self]
  · by_cases heq : name = p.name
    · subst heq
      rw [hplan] at h
      cases h
      exact ⟨stored, by rw [World.record_plans, ← hname, World.storePlan_self], hspec⟩
    · exact ⟨plan', (World.storePlan_of_ne (hname ▸ heq)).trans h, rfl⟩

theorem guar_storeConfigMap {configMap : ConfigMap} (hi : Inv sha256 p w)
    (hnew : w.configMaps configMap.metadata.name = none) :
    (discipline sha256 p).Guar t w (w.storeConfigMap configMap) := by
  refine ⟨⟨hi.named, hi.legal, hi.bound⟩, fun _ _ =>
    ⟨fun _ plan h => ⟨plan, h, rfl⟩, fun name c h => ?_, List.suffix_refl _⟩⟩
  refine (World.storeConfigMap_of_ne ?_).trans h
  rintro rfl
  rw [hnew] at h
  cases h

/-! ## `Publish` -/

/-- The manifest that a thread works on, as it is stored. -/
def Kept (name : Bytes) (spec : PlanSpec) (w : World) : Prop :=
  ∃ stored, w.plans name = some stored ∧ stored.spec = spec

theorem Kept.mono {name : Bytes} {spec : PlanSpec} {w : World} (hr : Rely w w') (h : Kept name spec w) :
    Kept name spec w' := by
  obtain ⟨stored, hstored, hspec⟩ := h
  obtain ⟨stored', hstored', hspec'⟩ := hr.plans name stored hstored
  exact ⟨stored', hstored', hspec'.trans hspec⟩

/-- The server of the store, and the discipline on it. -/
abbrev SafeAction {α : Type} (sha256 : Bytes → Bytes) (p : Publication) (t : Nat) (action : Action α)
    (Q : α → World → Prop) (w : World) : Prop :=
  SafeProc server (discipline sha256 p) t action Q w

theorem SafeAction.keep {α : Type} {action : Action α} {Q : α → World → Prop} {P : World → Prop}
    (hP : ∀ w w', Rely w w' → P w → P w') (h : SafeAction sha256 p t action Q w) (hw : P w) :
    SafeAction sha256 p t action (fun a w' => Q a w' ∧ P w') w :=
  SafeProc.frame (Nat.succ_ne_self t) (fun _ => hP) h hw

theorem require_safe {check : Except String Unit} :
    SafeAction sha256 p t (require check) (fun _ _ => check = .ok ()) w :=
  SafeProc.ofExcept fun _ h _ _ _ => h

theorem sameManifest_ok {actual : Plan} (h : sameManifest desired actual = .ok ()) :
    actual.spec.contentDigest = desired.spec.contentDigest ∧ actual.spec.chunks = desired.spec.chunks := by
  unfold sameManifest at h
  dsimp only at h
  split at h
  · cases h
  split at h
  · cases h
  rename_i hspec
  rw [not_or, not_not] at hspec
  rw [hspec.1]
  exact ⟨rfl, rfl⟩

/-- The manifest is that of the publisher, apart from the record of who published it. -/
theorem publishManifest_safe : SafeAction sha256 p t (publishManifest desired)
      (fun plan w' => plan.name = desired.name ∧ plan.spec.contentDigest = desired.spec.contentDigest ∧
        plan.spec.chunks = desired.spec.chunks ∧ Kept desired.name plan.spec w') w := by
  refine .req fun w1 hi _ a w2 hs => ?_
  rcases hs with ⟨rfl, hnot⟩ | ⟨stored, uid, version, rfl, hnew, rfl, ha⟩
  · refine ⟨guar_same hi, ?_⟩
    cases a with
    | ok stored => exact absurd rfl (hnot stored)
    | failed => exact .throw
    | alreadyExists =>
      refine .req fun w3 hi3 _ a w4 hs => ?_
      obtain ⟨rfl, ha⟩ := hs
      refine ⟨guar_same hi3, ?_⟩
      cases a with
      | failed => exact .throw
      | notFound => exact .throw
      | found plan =>
        have hplan : w4.plans desired.name = some plan := by
          rcases ha with ha | ha
          · cases ha
          · exact found_of ha
        refine .bind (SafeAction.keep (fun _ _ hr h => Kept.mono hr h) require_safe
          (⟨plan, hplan, rfl⟩)) fun _ w5 hi5 hsame => ?_
        obtain ⟨hsame, hkept⟩ := hsame
        have hname := hi3.named _ _ hplan
        obtain ⟨hdigest, hchunks⟩ := sameManifest_ok hsame
        exact .pure fun w6 _ hr => ⟨hname, hdigest, hchunks, hkept.mono hr⟩
  · refine ⟨guar_storePlan hi hnew, ?_⟩
    rcases ha with rfl | rfl
    · refine .pure fun w3 _ hr => ⟨rfl, rfl, rfl, .mono hr ⟨_, ?_, rfl⟩⟩
      exact World.storePlan_self ..
    · exact .throw

theorem storeChunk_safe {desired : Chunk} : SafeAction sha256 p t (storeChunk desired index)
      (fun chunk w' => Event.chunk t chunk ∈ w'.log) w := by
  refine .req fun w1 hi _ a w2 hs => ?_
  rcases hs with ⟨rfl, hnot⟩ | ⟨stored, uid, rfl, hnew, ⟨rfl, rfl⟩ | ⟨rfl, rfl⟩⟩
  · refine ⟨guar_same hi, ?_⟩
    cases a with
    | ok stored => exact absurd rfl (hnot stored)
    | failed => exact .throw
    | alreadyExists =>
      refine .req fun w3 hi3 _ a w4 hs => ?_
      obtain ⟨-, rfl⟩ := hs
      cases a with
      | failed => exact ⟨guar_same hi3, .throw⟩
      | notFound => exact ⟨guar_same hi3, .throw⟩
      | found chunk =>
        refine ⟨guar_seen hi3 chunk, .pure fun w5 _ hr => ?_⟩
        exact hr.log.subset (.head _)
  · have hstored : (discipline sha256 p).Guar t w1 (w1.storeChunk { desired with uid }) := guar_chunks hi
    refine ⟨guar_trans hstored (guar_seen hstored.1 _), .pure fun w3 _ hr => ?_⟩
    exact hr.log.subset (.head _)
  · exact ⟨guar_chunks hi, .throw⟩

theorem verifyChunk_data {expected : Bytes} {chunk : Chunk}
    (h : verifyChunk sha256 plan ref expected chunk = .ok ()) : chunk.data = expected := by
  unfold verifyChunk at h
  split at h
  · cases h
  split at h
  · cases h
  rename_i hdata
  rw [not_or, not_or, not_not, not_not, not_not] at hdata
  exact hdata.2.2

theorem Shown.mono {log log' : List Event} {slice : Bytes × Nat} {published : PublishedChunk}
    (hlog : log <:+ log') (h : Shown t log slice published) : Shown t log' slice published := by
  obtain ⟨chunk, hm, hdata, hpublished⟩ := h
  exact ⟨chunk, hlog.subset hm, hdata, hpublished⟩

theorem publishChunks_safe {pairs : List (ChunkReference × Bytes)} :
    SafeAction sha256 p t (publishChunks sha256 plan index pairs) (fun published w' =>
        List.Forall₂ (Shown t w'.log) ((pairs.map Prod.snd).zipIdx index) published) w := by
  induction pairs generalizing index w with
  | nil => exact .pure fun _ _ _ => .nil
  | cons pair pairs ih =>
    unfold publishChunks
    split
    · exact .throw
    refine .bind storeChunk_safe fun chunk w1 _ hseen => ?_
    refine .bind (SafeAction.keep (fun _ _ hr h => hr.log.subset h) require_safe hseen)
      fun _ w2 _ hverified => ?_
    refine .bind (SafeAction.keep (fun _ _ hr h => hr.log.subset h) ih hverified.2)
      fun published w3 _ hrest => ?_
    refine .pure fun w4 _ hr => ?_
    have hdata := verifyChunk_data hverified.1
    refine List.Forall₂.cons ⟨chunk, hr.log.subset hrest.2, hdata, rfl⟩ ?_
    exact hrest.1.imp fun _ _ h => h.mono hr.log

theorem commitStorage_safe {published : List PublishedChunk} (hname : plan.name = p.name)
    (hbound : Bound sha256 p plan.spec) (hkept : Kept p.name plan.spec w)
    (hcarried : Carried p t w.log published) :
    SafeAction sha256 p t (commitStorage plan published) (fun _ _ => True) w := by
  refine .req fun w1 hi hr a w2 hs => ?_
  obtain ⟨rfl, ha⟩ := hs
  refine ⟨guar_same hi, ?_⟩
  cases a with
  | failed => exact .throw
  | notFound => exact .throw
  | found latest =>
    have hlatest : w2.plans plan.name = some latest := by
      rcases ha with ha | ha
      · cases ha
      · exact found_of ha
    have hlatestName : latest.name = p.name := (hi.named _ _ hlatest).trans hname
    refine .req fun w3 hi3 hr3 a w4 hs => ?_
    rcases hs with ⟨rfl, rfl⟩ | ⟨current, stored, version, hcurrent, -, -, rfl, rfl, ha⟩
    · exact ⟨guar_same hi3, .throw⟩
    have hcurrent' : w3.plans p.name = some current := hlatestName ▸ hcurrent
    obtain ⟨kept, hstored, hspec⟩ := (hkept.mono hr).mono hr3
    have hsame : current.spec = plan.spec := by
      rw [hcurrent'] at hstored
      cases hstored
      exact hspec
    have hshown : Carried p t w3.log published := hcarried.imp fun _ _ h =>
      h.mono (hr.log.trans hr3.log)
    have hcurrentName : current.name = p.name := hi3.named _ _ hcurrent'
    refine ⟨hlatestName ▸ guar_commit hi3 hcurrent' (hsame ▸ hbound) hcurrentName rfl hshown, ?_⟩
    rcases ha with rfl | rfl
    · exact .done
    · exact .throw

theorem prepare_ok {schema : Schema} {spec : PlanSpec} {chunks : List Bytes}
    (hname : p.name = planName spec.fingerprint)
    (h : prepare sha256 schema spec p.content = .ok (desired, chunks)) :
    desired.name = p.name ∧ Bound sha256 p desired.spec ∧ chunks = split p.content chunkBytes := by
  unfold prepare at h
  dsimp only at h
  split at h
  · cases h
  split at h
  · cases h
  rename_i hne
  split at h
  · cases h
  rename_i hsmall
  split at h
  · cases h
  split at h
  · cases h
  split at h
  · cases h
  split at h
  · cases h
  split at h
  · cases h
  rename_i hfew
  cases h
  exact ⟨hname.symm, ⟨hne, Nat.le_of_not_lt hsmall, Nat.le_of_not_lt hfew, rfl, by rw [hname]⟩, rfl⟩

theorem length_chunkReferences (name : Bytes) (index : Nat) (chunks : List Bytes) :
    (chunkReferences sha256 name index chunks).length = chunks.length := by
  induction chunks generalizing index with
  | nil => rfl
  | cons chunk chunks ih => rw [chunkReferences, List.length_cons, ih, List.length_cons]

theorem publish_safe (record : PublisherRecord) :
    SafeAction sha256 p t (publishTask sha256 p record) (fun _ _ => True) w := by
  refine .bind (.ofExcept (Q := fun prepared _ =>
    prepare sha256 p.schema (p.spec record) p.content = .ok prepared) fun _ h _ _ _ => h)
    fun prepared w1 _ hprepared => ?_
  obtain ⟨desired, chunks⟩ := prepared
  have hplanName : p.name = planName (p.spec record).fingerprint := rfl
  obtain ⟨hname, hbound, rfl⟩ := prepare_ok hplanName hprepared
  dsimp only
  unfold publish
  split
  · exact .throw
  refine .bind require_safe fun _ w2 _ _ => ?_
  refine .bind publishManifest_safe fun plan w3 _ hplan => ?_
  obtain ⟨hstoredName, hdigest, hchunks, hkept⟩ := hplan
  rw [hname] at hstoredName hkept
  have hplanBound : Bound sha256 p plan.spec :=
    ⟨hbound.nonempty, hbound.small, hbound.few, hdigest.trans hbound.digest, hchunks.trans hbound.chunks⟩
  refine .bind (SafeAction.keep (fun _ _ hr h => Kept.mono hr h) publishChunks_safe hkept)
    fun published w4 _ hpublished => ?_
  have hslices : (plan.spec.chunks.zip (split p.content chunkBytes)).map Prod.snd =
      split p.content chunkBytes :=
    List.map_snd_zip (by rw [hplanBound.chunks, length_chunkReferences])
  rw [hslices] at hpublished
  exact commitStorage_safe hstoredName hplanBound hpublished.2 hpublished.1

/-! ## `Load` and `Project` -/

theorem loadChunk_safe {committed : PublishedChunk} :
    SafeAction sha256 p t (loadChunk sha256 plan index ref committed) (fun _ _ => True) w := by
  unfold loadChunk
  split
  · exact .throw
  refine .req fun w1 hi _ a w2 hs => ?_
  obtain ⟨-, rfl⟩ := hs
  cases a with
  | failed => exact ⟨guar_same hi, .throw⟩
  | notFound => exact ⟨guar_same hi, .throw⟩
  | found chunk =>
    refine ⟨guar_seen hi chunk, ?_⟩
    dsimp only
    split
    · exact .throw
    · exact .bind require_safe fun _ _ _ _ => .done

theorem loadChunks_safe {pairs : List (ChunkReference × PublishedChunk)} :
    SafeAction sha256 p t (loadChunks sha256 plan index content pairs) (fun _ _ => True) w := by
  induction pairs generalizing index content w with
  | nil => exact .done
  | cons pair pairs ih =>
    refine .bind loadChunk_safe fun data w1 _ _ => ?_
    split
    · exact .throw
    · exact ih

theorem load_safe : SafeAction sha256 p t (load sha256 plan) (fun content _ =>
      digestBytes sha256 content = plan.spec.contentDigest ∧ validatePlanContract plan.spec = .ok ()) w := by
  unfold load
  split
  · exact .throw
  refine .bind require_safe fun _ w1 _ hvalid => ?_
  split
  · exact .throw
  split
  · exact .throw
  refine .bind loadChunks_safe fun content w2 _ _ => ?_
  split
  · exact .throw
  rename_i hcontent
  rw [not_or, not_not, not_not] at hcontent
  exact .pure fun _ _ _ => ⟨hcontent.2, hvalid⟩

theorem storeProjection_safe {desired : ConfigMap} :
    SafeAction sha256 p t (storeProjection desired index)
      (fun configMap w' => w'.configMaps desired.metadata.name = some configMap) w := by
  refine .req fun w1 hi _ a w2 hs => ?_
  rcases hs with ⟨rfl, hnot⟩ | ⟨hnew, rfl, ha⟩
  · refine ⟨guar_same hi, ?_⟩
    cases a with
    | ok stored => exact absurd rfl (hnot stored)
    | failed => exact .throw
    | alreadyExists =>
      refine .req fun w3 hi3 _ a w4 hs => ?_
      obtain ⟨rfl, ha⟩ := hs
      refine ⟨guar_same hi3, ?_⟩
      cases a with
      | failed => exact .throw
      | notFound => exact .throw
      | found configMap =>
        refine .pure fun w5 _ hr => hr.configMaps _ _ ?_
        rcases ha with ha | ha
        · cases ha
        · exact found_of ha
  · refine ⟨guar_storeConfigMap hi hnew, ?_⟩
    rcases ha with rfl | rfl
    · refine .pure fun w3 _ hr => hr.configMaps _ _ ?_
      exact World.storeConfigMap_self ..
    · exact .throw

def Projected (sha256 : Bytes → Bytes) (plan : Plan) (w : World) (ref : ChunkReference) : Prop :=
  ∃ configMap, w.configMaps ref.name = some configMap ∧ verifyProjection sha256 plan ref configMap = .ok ()

theorem Projected.mono {w : World} (hr : Rely w w')
    (h : Projected sha256 plan w ref) : Projected sha256 plan w' ref := by
  obtain ⟨configMap, hstored, hverified⟩ := h
  exact ⟨configMap, hr.configMaps _ _ hstored, hverified⟩

theorem projectChunks_safe {pairs : List (ChunkReference × Bytes)} :
    SafeAction sha256 p t (projectChunks sha256 plan index pairs)
      (fun _ w' => ∀ ref ∈ pairs.map Prod.fst, Projected sha256 plan w' ref) w := by
  induction pairs generalizing index w with
  | nil => exact .pure fun _ _ _ ref href => by cases href
  | cons pair pairs ih =>
    obtain ⟨ref, data⟩ := pair
    unfold projectChunks
    split
    · exact .throw
    refine .bind storeProjection_safe fun configMap w1 _ hstored => ?_
    refine .bind (SafeAction.keep (fun _ _ hr h => hr.configMaps _ _ h) require_safe hstored)
      fun _ w2 _ hverified => ?_
    have hprojected : Projected sha256 plan w2 ref := ⟨configMap, hverified.2, hverified.1⟩
    refine .conseq (SafeAction.keep (fun _ _ hr h => Projected.mono hr h) ih hprojected) ?_
    intro _ w3 _ hrest ref' href'
    rcases List.mem_cons.1 href' with rfl | href'
    · exact hrest.2
    · exact hrest.1 ref' href'

theorem project_safe : SafeAction sha256 p t (project sha256 plan content)
      (fun _ w' => ∀ ref ∈ plan.spec.chunks, Projected sha256 plan w' ref) w := by
  unfold project
  split
  · exact .throw
  refine .bind require_safe fun _ w1 _ _ => ?_
  split
  · exact .throw
  split
  · exact .throw
  rename_i hlength
  have hrefs : (plan.spec.chunks.zip (split content chunkBytes)).map Prod.fst = plan.spec.chunks :=
    List.map_fst_zip (Nat.le_of_eq (not_not.1 hlength).symm)
  exact .conseq projectChunks_safe fun _ _ _ h => hrefs ▸ h

/-- What was loaded of a plan, if its storage was committed. -/
structure Loaded (sha256 : Bytes → Bytes) (p : Publication) (plan : Plan) (content : Bytes) : Prop where
  digest : digestBytes sha256 content = digestBytes sha256 p.content
  bound : Bound sha256 p plan.spec
  valid : validatePlanContract plan.spec = .ok ()

/-- What `Load` says of the plan as it was read. -/
structure LoadedAs (sha256 : Bytes → Bytes) (p : Publication) (plan : Plan) (content : Bytes) (w : World) :
    Prop where
  digest : digestBytes sha256 content = plan.spec.contentDigest
  valid : validatePlanContract plan.spec = .ok ()
  kept : Kept p.name plan.spec w

theorem LoadedAs.committed (h : LoadedAs sha256 p plan content w)
    (hi : Inv sha256 p w) (hcommitted : w.Committed p.name) : Loaded sha256 p plan content := by
  obtain ⟨stored, hstored, hbound⟩ := hi.bound hcommitted
  obtain ⟨stored', hstored', hspec⟩ := h.kept
  cases hstored.symm.trans hstored'
  rw [hspec] at hbound
  exact ⟨h.digest.trans hbound.digest, hbound, h.valid⟩

theorem LoadedAs.mono {w : World} (hr : Rely w w')
    (h : LoadedAs sha256 p plan content w) : LoadedAs sha256 p plan content w' :=
  ⟨h.digest, h.valid, h.kept.mono hr⟩

theorem loadTask_safe : SafeAction sha256 p t (loadTask sha256 p)
      (fun result w' => LoadedAs sha256 p result.1 result.2 w') w := by
  refine .req fun w1 hi _ a w2 hs => ?_
  obtain ⟨rfl, ha⟩ := hs
  refine ⟨guar_same hi, ?_⟩
  cases a with
  | failed => exact .throw
  | notFound => exact .throw
  | found plan =>
    have hplan : Kept p.name plan.spec w2 := by
      rcases ha with ha | ha
      · cases ha
      · exact ⟨plan, found_of ha, rfl⟩
    refine .bind (SafeAction.keep (fun _ _ hr h => Kept.mono hr h) load_safe hplan)
      fun content w3 _ hloaded => ?_
    obtain ⟨⟨hdigest, hvalid⟩, hkept⟩ := hloaded
    exact .pure fun w4 _ hr => ⟨hdigest, hvalid, hkept.mono hr⟩

theorem applyTask_safe : SafeAction sha256 p t (applyTask sha256 p)
      (fun result w' => LoadedAs sha256 p result.1 result.2 w' ∧
        ∀ ref ∈ result.1.spec.chunks, Projected sha256 result.1 w' ref) w := by
  refine .bind loadTask_safe fun result w1 _ hloaded => ?_
  refine .bind (SafeAction.keep (fun _ _ hr h => LoadedAs.mono hr h) project_safe hloaded)
    fun _ w2 _ hprojected => ?_
  exact .pure fun w3 _ hr =>
    ⟨hprojected.2.mono hr, fun ref href => (hprojected.1 ref href).mono hr⟩

/-! ## Runs -/

/-- What each task leaves. -/
def Post (sha256 : Bytes → Bytes) (p : Publication) : Task → Nat → TaskResult → World → Prop
  | .load, _, .loaded (.ok result), w => LoadedAs sha256 p result.1 result.2 w
  | .apply, _, .applied (.ok result), w => LoadedAs sha256 p result.1 result.2 w ∧
      ∀ ref ∈ result.1.spec.chunks, Projected sha256 result.1 w ref
  | _, _, _, _ => True

theorem code_safe (task : Task) (t : Nat) (w : World) :
    Safe server (discipline sha256 p) t (task.code sha256 p) (Post sha256 p task t) w := by
  cases task with
  | publish record => exact .map (.conseq (publish_safe record) fun _ _ _ _ => trivial)
  | load =>
    refine .map (.conseq loadTask_safe fun r w' _ h => ?_)
    cases r with
    | error reason => trivial
    | ok result => exact h result rfl
  | apply =>
    refine .map (.conseq applyTask_safe fun r w' _ h => ?_)
    cases r with
    | error reason => trivial
    | ok result => exact h result rfl

/-- The runs of the managers that share the plan. -/
abbrev Runs (sha256 : Bytes → Bytes) (p : Publication) : Pool api Nat World Task TaskResult → Prop :=
  Pool.Reach server (Task.code sha256 p) Env Init

theorem reach_ok {σ : Pool api Nat World Task TaskResult} (h : Runs sha256 p σ) :
    Pool.Ok server (discipline sha256 p) (Post sha256 p) σ := by
  refine Pool.Reach.ok (fun w hw => ?_) (fun task t w _ => code_safe task t w) (fun w w' hi henv => ?_) h
  · refine ⟨hw.named, hw.log ▸ Logged.nil, fun hc => ?_⟩
    obtain ⟨t, published, hm⟩ := hc
    rw [hw.log] at hm
    cases hm
  · obtain ⟨chunks⟩ := henv
    exact ⟨(guar_chunks (t := 0) hi).1, fun t => (guar_chunks hi).2 t (Nat.ne_of_lt (Nat.lt_succ_self t))⟩

/-! ## The volume of an Apply -/

/-- The plan volume of a Pod: each source of the projection is a file, with the bytes of its key. -/
def Mounts (configMaps : Bytes → Option ConfigMap) (sources : List VolumeSource) (directory : List Entry) :
    Prop :=
  ∃ files, List.Forall₂ (fun source file => ∃ configMap data,
      configMaps source.name = some configMap ∧ configMap.binaryData.lookup source.key = some data ∧
      file = { name := source.path, data }) sources files ∧
    Holds directory files

theorem verifyProjection_ok {configMap : ConfigMap}
    (h : verifyProjection sha256 plan ref configMap = .ok ()) :
    ∃ data, configMap.binaryData.lookup projectionDataKey = some data ∧
      ref.digest = digestBytes sha256 data := by
  unfold verifyProjection at h
  split at h
  · cases h
  split at h
  · cases h
  split at h
  · cases h
  rename_i data hdata
  split at h
  · cases h
  rename_i hmatch
  simp only [not_or, not_not] at hmatch
  exact ⟨data, hdata, hmatch.2.2.2⟩

theorem volumeSourcesFrom_references (name : Bytes) (index : Nat) (chunks : List Bytes) :
    ∃ sources, volumeSourcesFrom index (chunkReferences sha256 name index chunks) = .ok sources := by
  induction chunks generalizing index with
  | nil => exact ⟨[], rfl⟩
  | cons chunk chunks ih =>
    obtain ⟨sources, hsources⟩ := ih (index + 1)
    refine ⟨{ name := name ++ 0x2d :: pad3 index, key := projectionDataKey, path := chunkPath index } :: sources, ?_⟩
    rw [chunkReferences, volumeSourcesFrom, if_neg (by simp), hsources]

theorem mounted_files {name : Bytes} {chunks : List Bytes}
    {sources : List VolumeSource} {files : List Entry}
    (hfree : ∀ chunk ∈ chunks, CollisionFree sha256 chunk)
    (hprojected : ∀ ref ∈ chunkReferences sha256 name index chunks, Projected sha256 plan w ref)
    (hsources : volumeSourcesFrom index (chunkReferences sha256 name index chunks) = .ok sources)
    (hfiles : List.Forall₂ (fun source file => ∃ configMap data,
      w.configMaps source.name = some configMap ∧ configMap.binaryData.lookup source.key = some data ∧
      file = { name := source.path, data }) sources files) :
    files = chunkFiles index chunks := by
  induction chunks generalizing index sources files with
  | nil =>
    cases hsources
    cases hfiles
    rfl
  | cons chunk chunks ih =>
    rw [chunkReferences, volumeSourcesFrom] at hsources
    split at hsources
    · cases hsources
    split at hsources
    · cases hsources
    rename_i rest hrest
    cases hsources
    cases hfiles with
    | cons hfile hfiles =>
      obtain ⟨configMap, data, hstored, hdata, rfl⟩ := hfile
      obtain ⟨configMap', hstored', hverified⟩ := hprojected _ (.head _)
      cases hstored.symm.trans hstored'
      obtain ⟨data', hdata', hdigest⟩ := verifyProjection_ok hverified
      cases hdata.symm.trans hdata'
      rw [(hfree chunk (.head _)).eq_of_digestBytes hdigest.symm,
        ih (fun c hc => hfree c (.tail _ hc))
          (fun ref href => hprojected ref (.tail _ href)) hrest hfiles]
      rfl

/-- The digests of a document and of its chunks are digests of nothing else. -/
structure Unambiguous (sha256 : Bytes → Bytes) (content : Bytes) : Prop where
  length : (sha256 content).length = 32
  document : CollisionFree sha256 content
  chunks : ∀ chunk ∈ split content chunkBytes, CollisionFree sha256 chunk

/-- **What an Apply executes is the published plan.** In every run, a thread commits the storage of the
plan only after it was shown every chunk with its slice of the document. Whatever is loaded from the
committed plan is the document. The files of the volume that an Apply projected are the chunks in the
order of the manifest, and the runner reads the document from them. -/
theorem plan_executed_exactly (hsha : Unambiguous sha256 p.content)
    {σ : Pool api Nat World Task TaskResult} (h : Runs sha256 p σ) :
    (∀ t published older, Event.commit t p.name published :: older <:+ σ.world.log →
      Carried p t older published) ∧
    (∀ t plan content, σ.thread t = some (.load, .ret (.loaded (.ok (plan, content)))) →
      σ.world.Committed p.name → content = p.content) ∧
    ∀ t plan content, σ.thread t = some (.apply, .ret (.applied (.ok (plan, content)))) →
      σ.world.Committed p.name →
      content = p.content ∧
      ∃ sources, volumeSources plan = .ok sources ∧
        ∀ directory, Mounts σ.world.configMaps sources directory →
          (sortEntries directory).filter (fun e => !e.hidden) =
            chunkFiles 0 (split p.content chunkBytes) ∧
          (Go.validText p.content = true → ∀ maxBytes : Int,
            maxBytes ≤ 0 ∨ p.content.length ≤ maxBytes →
            reconstructPlan sha256 (.directory directory) plan.spec.contentDigest maxBytes =
              .ok (p.content, digestBytes sha256 p.content)) := by
  have hok := reach_ok h
  refine ⟨fun t published older hsuffix => hok.1.legal older _ hsuffix rfl, ?_, ?_⟩
  · intro t plan content ht hcommitted
    have hloaded : LoadedAs sha256 p plan content σ.world := hok.returned ht
    exact hsha.document.eq_of_digestBytes (hloaded.committed hok.1 hcommitted).digest
  intro t plan content ht hcommitted
  obtain ⟨hloadedAs, hprojected⟩ : LoadedAs sha256 p plan content σ.world ∧
    ∀ ref ∈ plan.spec.chunks, Projected sha256 plan σ.world ref := hok.returned ht
  have hloaded := hloadedAs.committed hok.1 hcommitted
  have hbound := hloaded.bound
  obtain ⟨sources, hsources⟩ :=
    @volumeSourcesFrom_references sha256 p.name 0 (split p.content chunkBytes)
  have hvolume : volumeSources plan = .ok sources := by
    unfold volumeSources
    rw [if_neg, hloaded.valid, hbound.chunks]
    · exact hsources
    · rw [not_or, ← List.length_eq_zero_iff, hbound.chunks, length_chunkReferences]
      exact ⟨fun h => split_ne_nil hbound.nonempty (List.length_eq_zero_iff.1 h), Nat.not_lt.2 hbound.few⟩
  refine ⟨hsha.document.eq_of_digestBytes hloaded.digest, sources, hvolume, ?_⟩
  rintro directory ⟨files, hfiles, hdirectory⟩
  rw [hbound.chunks] at hprojected
  rw [mounted_files hsha.chunks hprojected hsources hfiles] at hdirectory
  refine ⟨sortEntries_filter hbound.few hdirectory, fun hvalid maxBytes hmax => ?_⟩
  rw [hbound.digest]
  exact reconstructPlan_mounted hsha.length hbound.nonempty hbound.small hbound.few hdirectory hmax hvalid

/-! ## An undisturbed run -/

/-- The answers of an undisturbed server. -/
def handle (t : Nat) (w : World) : (c : Call) → c.Ans × World
  | .createPlan plan =>
    match w.plans plan.name with
    | some _ => (.alreadyExists, w)
    | none =>
      let stored := { plan with uid := bytes "uid", resourceVersion := 1, generation := 1 }
      (.ok stored, w.storePlan stored)
  | .getPlan name => (.of (w.plans name), w)
  | .createChunk chunk =>
    match w.chunks chunk.metadata.name with
    | some _ => (.alreadyExists, w)
    | none =>
      let stored := { chunk with uid := bytes "uid" }
      (.ok stored, (w.storeChunk stored).record [.chunk t stored])
  | .getChunk name => (.of (w.chunks name), w.record (seen t (.of (w.chunks name))))
  | .updateStatus plan =>
    match w.plans plan.name with
    | none => (none, w)
    | some current =>
      if current.uid = plan.uid ∧ current.resourceVersion = plan.resourceVersion then
        let stored := { current with
          status := plan.status, resourceVersion := current.resourceVersion + 1 }
        (some stored, (w.storePlan stored).record [.commit t plan.name plan.status.publishedChunks])
      else (none, w)
  | .createConfigMap configMap =>
    match w.configMaps configMap.metadata.name with
    | some _ => (.alreadyExists, w)
    | none => (.ok configMap, w.storeConfigMap configMap)
  | .getConfigMap name => (.of (w.configMaps name), w)

theorem handle_serves (t : Nat) (w : World) (c : Call) : serve t w c (handle t w c).1 (handle t w c).2 := by
  cases c with
  | createPlan plan =>
    cases h : w.plans plan.name with
    | some stored => simp only [handle, h]; exact .inl ⟨rfl, fun _ hc => by cases hc⟩
    | none => simp only [handle, h]; exact .inr ⟨_, _, _, rfl, h, rfl, .inl rfl⟩
  | getPlan name => exact ⟨rfl, .inr rfl⟩
  | createChunk chunk =>
    cases h : w.chunks chunk.metadata.name with
    | some stored => simp only [handle, h]; exact .inl ⟨rfl, fun _ hc => by cases hc⟩
    | none => simp only [handle, h]; exact .inr ⟨_, _, rfl, h, .inl ⟨rfl, rfl⟩⟩
  | getChunk name => exact ⟨.inr rfl, rfl⟩
  | updateStatus plan =>
    cases h : w.plans plan.name with
    | none => simp only [handle, h]; exact .inl ⟨rfl, rfl⟩
    | some current =>
      by_cases hversion : current.uid = plan.uid ∧ current.resourceVersion = plan.resourceVersion
      · simp only [handle, h, if_pos hversion]
        exact .inr ⟨current, _, _, h, hversion.1, hversion.2, rfl, rfl, .inl rfl⟩
      · simp only [handle, h, if_neg hversion]
        exact .inl ⟨rfl, rfl⟩
  | createConfigMap configMap =>
    cases h : w.configMaps configMap.metadata.name with
    | some stored => simp only [handle, h]; exact .inl ⟨rfl, fun _ hc => by cases hc⟩
    | none => simp only [handle, h]; exact .inr ⟨h, rfl, .inl rfl⟩
  | getConfigMap name => exact ⟨rfl, .inr rfl⟩

/-- A hash that tells one document from all others. -/
def sampleHash (content data : Bytes) : Bytes := List.replicate 32 (if data = content then 1 else 0)

theorem sampleHash_free (content : Bytes) : CollisionFree (sampleHash content) content := by
  intro other h
  by_contra hne
  simp [sampleHash, hne] at h

/-- A small plan. -/
def samplePublication : Publication where
  schema := { name := bytes "orders", uid := bytes "schema" }
  binding := {
    contractVersion := 1
    schemaName := bytes "orders"
    schemaUID := bytes "schema"
    fingerprint := bytes "sha256:" ++ List.replicate 64 0x61
    executionBindingID := bytes "v1-" ++ List.replicate 32 0x30
    controllerStateVersion := 1
    controllerImage := []
    controllerRevision := []
    runnerImage := [] }
  content := bytes "SELECT 1;"

def sampleRecord : PublisherRecord where
  controllerImage := bytes "manager@sha256:" ++ List.replicate 64 0x62
  controllerRevision := bytes "v1"
  runnerImage := []

/-- One manager publishes the plan, and one loads and projects it. -/
def samplePool : Pool api Nat World Task TaskResult :=
  let code := Task.code (sampleHash samplePublication.content) samplePublication
  let start : Pool api Nat World Task TaskResult :=
    ⟨⟨fun _ => none, fun _ => none, fun _ => none, []⟩, fun _ => none⟩
  (start.runTask (handle 0) code 0 (.publish sampleRecord)).runTask (handle 1) code 1 .apply

/-- The managers publish the plan, commit it, load it and project it. -/
theorem plan_executed_exactly_sample :
    ∃ plan, samplePool.thread 1 = some (.apply, .ret (.applied (.ok (plan, bytes "SELECT 1;")))) ∧
      samplePool.world.Committed samplePublication.name ∧
      ∃ sources, volumeSources plan = .ok sources := by
  have hslices : split samplePublication.content chunkBytes = [samplePublication.content] := by
    decide +kernel
  have hfree := sampleHash_free samplePublication.content
  have hruns : Runs (sampleHash samplePublication.content) samplePublication samplePool :=
    Pool.Reach.runTask (handle_serves 1) _ (Pool.Reach.runTask (handle_serves 0) _
      (.init ⟨fun _ _ h => (by cases h), rfl⟩) rfl) rfl
  have hcommitted : samplePool.world.Committed samplePublication.name :=
    ⟨0, _, .tail _ (.head _)⟩
  obtain ⟨-, -, hexecuted⟩ := plan_executed_exactly
    ⟨by decide +kernel, hfree, fun c hc => List.mem_singleton.1 (hslices ▸ hc) ▸ hfree⟩ hruns
  refine ⟨_, rfl, hcommitted, (hexecuted 1 _ _ rfl hcommitted).2.imp fun _ h => h.1⟩

end Ptah.PlanStore
