import PtahOperator.PlanStore.Runs
import PtahOperator.ResultStore.Documents
import PtahOperator.ResultStore.Store

/-!
# One result per attempt

Any number of publications and reads of results, in any interleaving of their calls, with records
updated and deleted between them.

* `validateRecordCreate_safe`, `ensure_safe`, `load_safe`, `publish_safe`: each program keeps the
  discipline of the store, in which every intent holds the manifest of a submission (`Written`).
* `Evidence`: what a returned payload and receipt rest on.
* `result_stored_once`: a payload that is read was submitted under a binding that JSON reads back as the one of
  the call, and two receipts of an attempt whose intent was not deleted are for one binding and one payload.
-/

namespace Ptah.ResultStore

open Conc
open Go (Bytes bytes validText)
open PlanStore (OwnerReference Found found_of CollisionFree)

/-! ## The discipline of the store -/

section Discipline

variable (codec : Codec)

/-- A manifest of a payload under a binding, in either layout. -/
structure LaidOut (b : Binding) (payload : Bytes) (m : Manifest) : Prop where
  binding : m.binding = b
  digest : m.digest = codec.digest payload
  size : m.size = payload.length
  nonempty : m.inlined ≠ some []

/-- The bytes of an intent are the manifest of a submission. -/
def Written (log : List Event) (data : Bytes) : Prop :=
  ∃ b payload m, Event.submitted b payload ∈ log ∧ data = codec.encodeManifest m ∧ LaidOut codec b payload m

structure Inv (w : World) : Prop where
  written : ∀ key r, w.records key = some r → r.type = .intent → Written codec w.log r.data

/-- The record under a key has these bytes, unless one was deleted there. -/
def Holds (key : Key) (data : Bytes) (w : World) : Prop :=
  Event.deleted key ∈ w.log ∨ ∃ r, w.records key = some r ∧ r.data = data

/-- What every thread tolerates: records keep their bytes until they are deleted, and the log goes on. -/
structure Rely (w w' : World) : Prop where
  records : ∀ key data, Holds key data w → Holds key data w'
  log : w.log <:+ w'.log

def discipline : Discipline Nat World where
  inv := Inv codec
  rely _ := Rely
  refl _ _ := ⟨fun _ _ h => h, List.suffix_refl _⟩
  trans h₁ h₂ := ⟨fun key data h => h₂.records key data (h₁.records key data h), h₁.log.trans h₂.log⟩

end Discipline

variable {codec : Codec} {t : Nat} {w w' : World}

theorem Written.mono {log log' : List Event} {data : Bytes} (hlog : log <:+ log')
    (h : Written codec log data) : Written codec log' data := by
  obtain ⟨b, payload, m, hm, hdata, hlaid⟩ := h
  exact ⟨b, payload, m, hlog.subset hm, hdata, hlaid⟩

/-! ## One call -/

theorem guar_same (hi : Inv codec w) : (discipline codec).Guar t w w :=
  ⟨hi, fun u _ => (discipline codec).refl u w⟩

variable {r candidate intent : Record} {key : Key} {ns : Bytes} {ref : OwnerReference} {index : Nat}
  {m : Manifest} {receipt : Receipt}

theorem Inv.store (hi : Inv codec w) (hr : r.type = .intent → Written codec w.log r.data) :
    Inv codec (w.store r) := by
  refine ⟨fun key r' h htype => ?_⟩
  by_cases hkey : key = r.key
  · subst hkey
    rw [World.store_self] at h
    cases h
    exact hr htype
  · rw [World.store_of_ne hkey] at h
    exact hi.written key r' h htype

theorem Rely.store (hr : ∀ old, w.records r.key = some old → r.data = old.data) :
    Rely w (w.store r) := by
  refine ⟨fun key data h => ?_, List.suffix_refl _⟩
  rcases h with h | ⟨old, hold, rfl⟩
  · exact .inl h
  by_cases hkey : key = r.key
  · subst hkey
    exact .inr ⟨r, World.store_self .., hr old hold⟩
  · exact .inr ⟨old, (World.store_of_ne hkey).trans hold, rfl⟩

theorem Rely.delete (key : Key) : Rely w (w.delete key) := by
  refine ⟨fun key' data h => ?_, List.suffix_cons _ _⟩
  rcases h with h | ⟨old, hold, rfl⟩
  · exact .inl (.tail _ h)
  by_cases hkey : key' = key
  · subst hkey
    exact .inl (.head _)
  · exact .inr ⟨old, (World.delete_of_ne hkey).trans hold, rfl⟩

theorem env_guar (hi : Inv codec w) (h : Env w w') : Inv codec w' ∧ Rely w w' := by
  cases h with
  | delete key =>
    refine ⟨⟨fun key' r h htype => ?_⟩, .delete key⟩
    by_cases hkey : key' = key
    · subst hkey
      rw [World.delete_self] at h
      cases h
    · rw [World.delete_of_ne hkey] at h
      exact (hi.written key' r h htype).mono (List.suffix_cons _ _)
  | @update old next hold hupdate =>
    obtain ⟨hkey, htype, hdata⟩ := validateRecordUpdate_ok hupdate
    refine ⟨hi.store fun hintent => hdata ▸ hi.written _ _ hold (htype ▸ hintent), .store ?_⟩
    intro stored hstored
    rw [hkey, hold] at hstored
    cases hstored
    exact hdata

theorem guar_create (hi : Inv codec w) (hnew : w.records r.key = none)
    (hr : r.type = .intent → Written codec w.log r.data) : (discipline codec).Guar t w (w.store r) := by
  refine ⟨hi.store hr, fun _ _ => .store fun old hold => ?_⟩
  rw [hnew] at hold
  cases hold

theorem guar_submit (hi : Inv codec w) (b : Binding) (payload : Bytes) :
    (discipline codec).Guar t w (w.submit b payload) := by
  refine ⟨⟨fun key r h htype => (hi.written key r h htype).mono (List.suffix_cons _ _)⟩, fun _ _ =>
    ⟨fun key data h => ?_, List.suffix_cons _ _⟩⟩
  exact h.imp (List.mem_cons_of_mem _) id

/-! ## Reads -/

/-- The server of the store, and the discipline on it. -/
abbrev SafeAction {α : Type} (codec : Codec) (t : Nat) (action : Action α) (Q : α → World → Prop)
    (w : World) : Prop :=
  SafeProc server (discipline codec) t action Q w

theorem SafeAction.keep {α : Type} {action : Action α} {Q : α → World → Prop} {P : World → Prop}
    (hP : ∀ w w', Rely w w' → P w → P w') (h : SafeAction codec t action Q w) (hw : P w) :
    SafeAction codec t action (fun a w' => Q a w' ∧ P w') w :=
  SafeProc.frame (Nat.succ_ne_self t) (fun _ => hP) h hw

theorem get_safe {β : Type} {f : Found Record → Action β} {R : β → World → Prop}
    (h : ∀ a w', Inv codec w' → Rely w w' → (∀ r, a = .found r → w'.records key = some r) →
      SafeAction codec t (f a) R w') : SafeAction codec t (send (.get key) >>= f) R w := by
  refine .req fun w1 hi hr a w2 hs => ?_
  obtain ⟨rfl, ha⟩ := hs
  refine ⟨guar_same hi, h a w2 hi hr fun r hfound => ?_⟩
  subst hfound
  rcases ha with ha | ha
  · cases ha
  · exact found_of ha

/-- A record as a thread has read it. -/
structure Seen (codec : Codec) (key : Key) (got : Record) (w : World) : Prop where
  holds : Holds key got.data w
  written : got.type = .intent → Written codec w.log got.data

theorem Seen.mono {got : Record} (hr : Rely w w') (h : Seen codec key got w) :
    Seen codec key got w' :=
  ⟨hr.records _ _ h.holds, fun htype => (h.written htype).mono hr.log⟩

theorem Seen.of_records {got : Record} (hi : Inv codec w) (h : w.records key = some got) :
    Seen codec key got w :=
  ⟨.inr ⟨got, h, rfl⟩, hi.written key got h⟩

theorem read_safe {want : Record} :
    SafeAction codec t (read want) (fun got w' => got.type = want.type ∧ Seen codec want.key got w') w := by
  refine get_safe fun a w1 hi _ hfound => ?_
  cases a with
  | notFound => exact .throw
  | failed => exact .throw
  | found got =>
    dsimp only
    split
    · exact .throw
    rename_i hvalid
    simp only [Bool.or_eq_true, not_or] at hvalid
    have hshape := (recordShape_iff (by simpa using hvalid.1.1.2)).2
    exact .pure fun w2 _ hr => ⟨hshape, (Seen.of_records hi (hfound got rfl)).mono hr⟩

/-! ## Admission -/

theorem admissionIntent_safe :
    SafeAction codec t (admissionIntent candidate) (fun _ _ => True) w := by
  unfold admissionIntent
  split
  · exact .done
  split
  · exact .throw
  split
  · split
    · exact .throw
    refine get_safe fun a _ _ _ _ => ?_
    cases a with
    | notFound => exact .throw
    | failed => exact .throw
    | found intent =>
      dsimp only
      split
      · exact .throw
      · exact .done
  · exact .throw

theorem admissionChunks_safe {name : Bytes} {payload : Bytes}
    {chunks : List (ChunkReference × Bytes)} :
    SafeAction codec t (admissionChunks codec ns name ref index payload chunks) (fun _ _ => True) w := by
  induction chunks generalizing index payload w with
  | nil => exact .done
  | cons chunk chunks ih =>
    refine .bind read_safe fun part w1 _ _ => ?_
    split
    · exact .throw
    · exact ih

theorem admissionPayload_safe {name : Bytes} :
    SafeAction codec t (admissionPayload codec candidate intent m name) (fun _ _ => True) w := by
  unfold admissionPayload
  dsimp only
  split
  · exact .done
  · split
    · exact .throw
    split
    · exact .throw
    split
    · exact .throw
    split
    · exact .throw
    · exact .done
  · split
    · exact .throw
    split
    · exact .throw
    refine .bind admissionChunks_safe fun payload w1 _ _ => ?_
    split
    · exact .throw
    · exact .done
  · exact .throw

theorem checkExisting_safe {existing : Record} :
    SafeAction codec t (checkExisting candidate existing) (fun _ _ => True) w := by
  unfold checkExisting
  split
  · exact .throw
  · exact .done

theorem admissionRetry_safe {name : Bytes} :
    SafeAction codec t (admissionRetry candidate ns name) (fun _ _ => True) w := by
  refine get_safe fun a _ _ _ _ => ?_
  cases a with
  | found existing => exact checkExisting_safe
  | failed => exact .throw
  | notFound =>
    dsimp only
    split
    · exact .done
    refine get_safe fun a _ _ _ _ => ?_
    cases a with
    | notFound => exact .done
    | failed => exact .throw
    | found ready =>
      refine get_safe fun a _ _ _ _ => ?_
      cases a with
      | found existing => exact checkExisting_safe
      | notFound => exact .throw
      | failed => exact .throw

theorem validateRecordCreate_safe :
    SafeAction codec t (validateRecordCreate codec candidate) (fun _ _ => True) w := by
  unfold validateRecordCreate
  split
  · exact .throw
  refine .bind admissionIntent_safe fun intent w1 _ _ => ?_
  split
  · exact .throw
  split
  · exact .throw
  split
  · exact .throw
  refine .bind admissionPayload_safe fun payload w2 _ _ => ?_
  refine .bind admissionRetry_safe fun _ w3 _ _ => ?_
  exact .done

/-! ## `Publish` and `Load` -/

theorem createRecord_safe (h : candidate.type = .intent → Written codec w.log candidate.data) :
    SafeAction codec t (createRecord codec candidate) (fun _ _ => True) w := by
  refine .bind (SafeAction.keep (P := fun w' => candidate.type = .intent →
    Written codec w'.log candidate.data) (fun _ _ hr h htype => (h htype).mono hr.log)
    (.attempt validateRecordCreate_safe) h) fun r w1 _ hadmitted => ?_
  cases r with
  | error e => exact .done
  | ok admitted =>
    intro w2 hi hr a w3 hs
    have hwritten := fun htype => (hadmitted.2 htype).mono hr.log
    rcases hs with ⟨rfl, -⟩ | ⟨stored, uid, created, -, rfl, hnew, rfl, -⟩
    · exact ⟨guar_same hi, SafeProc.done⟩
    · exact ⟨guar_create hi hnew hwritten, SafeProc.done⟩

theorem ensure_safe {want : Record} (h : want.type = .intent → Written codec w.log want.data) :
    SafeAction codec t (ensure codec want)
      (fun got w' => got.type = want.type ∧ Holds want.key want.data w' ∧ Seen codec want.key got w') w := by
  have hread : ∀ w1, SafeAction codec t
      (do let got ← read want; if got.data ≠ want.data then throw .conflict else pure got)
      (fun got w' => got.type = want.type ∧ Holds want.key want.data w' ∧ Seen codec want.key got w') w1 := by
    intro w1
    refine .bind read_safe fun got w2 _ hgot => ?_
    split
    · exact .throw
    rename_i hdata
    rw [ne_eq, not_not] at hdata
    refine .pure fun w3 _ hr => ?_
    have hseen := hgot.2.mono hr
    exact ⟨hgot.1, hdata ▸ hseen.holds, hseen⟩
  refine .bind (createRecord_safe h) fun created w1 _ _ => ?_
  cases created with
  | ok stored => exact hread w1
  | alreadyExists => exact hread w1
  | failed =>
    refine .bind (.attempt read_safe) fun r w2 _ _ => ?_
    cases r with
    | error e => cases e <;> exact .throw
    | ok got =>
      dsimp only
      split
      · exact .throw
      · exact .throw

/-- What an intent says of a payload and a receipt. -/
structure Loaded (codec : Codec) (data : Bytes) (b : Binding) (payload : Bytes) (receipt : Receipt)
    (m : Manifest) : Prop where
  canonical : codec.canonicalManifest data = some m
  binding : m.binding = b
  digest : receipt.digest = m.digest
  size : receipt.size = m.size
  payloadDigest : codec.digest payload = m.digest
  payloadSize : (payload.length : Int) = m.size

theorem loadChunks_safe {name : Bytes} {size : Int} {payload : Bytes}
    {chunks : List (ChunkReference × Bytes)} :
    SafeAction codec t (loadChunks codec ns name ref size index payload chunks) (fun _ _ => True) w := by
  induction chunks generalizing index payload w with
  | nil => exact .done
  | cons chunk chunks ih =>
    unfold loadChunks
    split
    · exact .throw
    refine .bind read_safe fun part w1 _ _ => ?_
    split
    · exact .throw
    · exact ih

/-- The payload of chunks has the digest and the size of the manifest. -/
theorem loadCompletion_safe {b : Binding} {name : Bytes}
    (hm : codec.canonicalManifest intent.data = some m) (hb : m.binding = b) :
    SafeAction codec t (loadCompletion codec intent b m name)
      (fun r _ => Loaded codec intent.data b r.1 r.2 m) w := by
  unfold loadCompletion
  refine .bind read_safe fun ready w1 _ _ => ?_
  split
  · exact .throw
  refine .bind loadChunks_safe fun payload w2 _ _ => ?_
  split
  · exact .throw
  rename_i hvalid
  simp only [Bool.or_eq_true, not_or, decide_eq_true_eq, not_not] at hvalid
  exact .pure fun _ _ _ => ⟨hm, hb, rfl, rfl, hvalid.2, hvalid.1⟩

theorem loadIntent_safe {b : Binding} : SafeAction codec t (loadIntent codec intent b)
      (fun r _ => ∃ m, Loaded codec intent.data b r.1 r.2 m) w := by
  unfold loadIntent
  split
  · exact .throw
  split
  · exact .throw
  rename_i m name hadmitted
  have hadmitted := admissionManifest_ok hadmitted
  split
  · exact .throw
  rename_i hb
  rw [ne_eq, not_not] at hb
  split
  · rename_i payload hpayload
    obtain ⟨hsize, hdigest, -⟩ := hadmitted.inlined payload hpayload
    exact .pure fun _ _ _ => ⟨m, hadmitted.canonical, hb, rfl, rfl, hdigest, hsize⟩
  · exact .conseq (loadCompletion_safe hadmitted.canonical hb) fun _ _ _ h => ⟨m, h⟩

/-- What a payload and a receipt under a binding rest on: an intent under the name of the attempt, which
holds the manifest of a submission. -/
def Evidence (codec : Codec) (b : Binding) (payload : Bytes) (receipt : Receipt) (w : World) : Prop :=
  ∃ name data m, resultName codec b = .ok name ∧ Holds (b.ns, name) data w ∧ Written codec w.log data ∧
    Loaded codec data b payload receipt m

theorem Evidence.mono {b : Binding} {payload : Bytes} (hr : Rely w w')
    (h : Evidence codec b payload receipt w) : Evidence codec b payload receipt w' := by
  obtain ⟨name, data, m, hname, hholds, hwritten, hloaded⟩ := h
  exact ⟨name, data, m, hname, hr.records _ _ hholds, hwritten.mono hr.log, hloaded⟩

theorem loadIntent_evidence {b : Binding} {name : Bytes}
    (hname : resultName codec b = .ok name) (htype : intent.type = .intent)
    (hseen : Seen codec (b.ns, name) intent w) :
    SafeAction codec t (loadIntent codec intent b) (fun r w' => Evidence codec b r.1 r.2 w') w := by
  refine .conseq (SafeAction.keep (fun _ _ hr h => Seen.mono hr h) loadIntent_safe hseen)
    fun r w1 _ h => ?_
  obtain ⟨⟨m, hloaded⟩, hkept⟩ := h
  exact ⟨name, intent.data, m, hname, hkept.holds, hkept.written htype, hloaded⟩

theorem load_safe {b : Binding} :
    SafeAction codec t (load codec b) (fun r w' => Evidence codec b r.1 r.2 w') w := by
  refine .bind (.ofExcept fun _ h _ _ _ => h) fun name w1 _ hname => ?_
  refine .bind read_safe fun intent w2 _ hintent => ?_
  exact loadIntent_evidence hname hintent.1 hintent.2

theorem resultName_eq {b : Binding} {name : Bytes} (h : resultName codec b = .ok name) :
    attemptName codec b.ns b.uid b.operationID b.jobName = .ok name := by
  unfold resultName at h
  split at h
  · cases h
  · exact h

theorem loadAttempt_safe {uid operationID jobName : Bytes} :
    SafeAction codec t (loadAttempt codec ns uid operationID jobName)
      (fun r w' => Evidence codec r.1 r.2.1 r.2.2 w') w := by
  unfold loadAttempt
  split
  · exact .throw
  refine get_safe fun a w1 hi _ hfound => ?_
  cases a with
  | notFound => exact .throw
  | failed => exact .throw
  | found intent =>
    dsimp only
    split
    · exact .throw
    rename_i m found hadmitted
    have hadmitted := admissionManifest_ok hadmitted
    split
    · exact .throw
    rename_i hsame
    simp only [Bool.or_eq_true, not_or, decide_eq_true_eq, not_not] at hsame
    obtain ⟨⟨⟨⟨rfl, rfl⟩, -⟩, -⟩, -⟩ := hsame
    refine .bind (loadIntent_evidence hadmitted.named hadmitted.type (.of_records hi (hfound intent rfl)))
      fun r w2 _ h => ?_
    exact .pure fun w3 _ hr => h.mono hr

theorem authorize_safe {authorized : Bool} :
    SafeAction codec t (authorize authorized) (fun _ _ => True) w := by
  unfold authorize
  split
  · intro w1 hi _ a w2 hs
    obtain rfl : w2 = w1 := hs
    refine ⟨guar_same hi, ?_⟩
    cases a with
    | true => exact SafeProc.done
    | false => exact SafeProc.throw
  · exact .done

theorem storeChunks_safe {name : Bytes} {parts : List Bytes} :
    SafeAction codec t (storeChunks codec ns name ref index parts) (fun _ _ => True) w := by
  induction parts generalizing index w with
  | nil => exact .done
  | cons part parts ih =>
    refine .bind (ensure_safe fun htype => by cases htype) fun stored w1 _ _ => ?_
    refine .bind ih fun uids w2 _ _ => ?_
    exact .done

/-- What a publication returns: evidence for its own payload, unless its intent was deleted. -/
def Published (codec : Codec) (b : Binding) (name payload : Bytes) (receipt : Receipt) (w : World) : Prop :=
  Event.deleted (b.ns, name) ∈ w.log ∨ Evidence codec b payload receipt w

theorem Holds.unique {data data' : Bytes} (h : Holds key data w) (h' : Holds key data' w) :
    Event.deleted key ∈ w.log ∨ data = data' := by
  rcases h with h | ⟨r, hr, rfl⟩
  · exact .inl h
  rcases h' with h' | ⟨r', hr', rfl⟩
  · exact .inl h'
  rw [hr] at hr'
  cases hr'
  exact .inr rfl

/-- A load after the intent of a payload was read: the receipt is for this payload. -/
theorem Evidence.published (hcodec : codec.Faithful) {b : Binding} {name payload payload' : Bytes}
    (hname : resultName codec b = .ok name)
    (hm : LaidOut codec b payload m) (hholds : Holds (b.ns, name) (codec.encodeManifest m) w)
    (h : Evidence codec b payload' receipt w) : Published codec b name payload receipt w := by
  obtain ⟨name', data, m', hname', hholds', hwritten, hloaded⟩ := h
  cases hname.symm.trans hname'
  rcases hholds.unique hholds' with hdeleted | rfl
  · exact .inl hdeleted
  cases canonicalManifest_encode hcodec hm.nonempty hloaded.canonical
  have hdigest : m.readBack.digest = codec.digest payload := by rw [← toValid_digest, ← hm.digest]; rfl
  exact .inr ⟨name, _, m.readBack, hname, hholds', hwritten, hloaded.canonical, hloaded.binding, hloaded.digest,
    hloaded.size, hdigest.symm, hm.size.symm⟩

section Publish

variable (hcodec : codec.Faithful) {authorized older : Bool} {b : Binding} {name payload : Bytes}
include hcodec

theorem load_published (hname : resultName codec b = .ok name) (hm : LaidOut codec b payload m)
    (hholds : Holds (b.ns, name) (codec.encodeManifest m) w) :
    SafeAction codec t (do let (_, receipt) ← load codec b; pure receipt)
      (fun receipt w' => Published codec b name payload receipt w') w := by
  refine .bind (SafeAction.keep (fun _ _ hr h => hr.records _ _ h) load_safe hholds)
    fun r w1 _ h => ?_
  have hpublished := h.1.published hcodec hname hm h.2
  refine .pure fun w2 _ hr => ?_
  exact hpublished.imp (fun hd => hr.log.subset hd) fun he => he.mono hr

theorem publishChunks_safe (hname : resultName codec b = .ok name)
    (hsubmitted : Event.submitted b payload ∈ w.log) :
    SafeAction codec t (publishChunks codec authorized b name payload (codec.digest payload))
      (fun receipt w' => Published codec b name payload receipt w') w := by
  have hm : LaidOut codec b payload (chunkedManifest codec b payload (codec.digest payload)) :=
    ⟨rfl, rfl, rfl, fun h => by cases h⟩
  refine .bind (SafeAction.keep (fun _ _ hr h => hr.log.subset h) authorize_safe hsubmitted)
    fun _ w1 _ hsub => ?_
  refine .bind (ensure_safe fun _ => ⟨b, payload, _, hsub.2, rfl, hm⟩) fun intent w2 _ hintent => ?_
  obtain ⟨-, hholds, -⟩ := hintent
  refine get_safe fun a w3 _ hr _ => ?_
  cases a with
  | failed => exact .throw
  | found ready =>
    refine .bind (SafeAction.keep (fun _ _ hr h => hr.records _ _ h) authorize_safe
      (hr.records _ _ hholds)) fun _ w4 _ h => ?_
    exact load_published hcodec hname hm h.2
  | notFound =>
    refine .bind (SafeAction.keep (fun _ _ hr h => hr.records _ _ h) storeChunks_safe
      (hr.records _ _ hholds)) fun uids w4 _ h => ?_
    refine .bind (SafeAction.keep (fun _ _ hr h => hr.records _ _ h) authorize_safe h.2)
      fun _ w5 _ h => ?_
    refine .bind (SafeAction.keep (fun _ _ hr h => hr.records _ _ h)
      (ensure_safe fun htype => by cases htype) h.2) fun _ w6 _ h => ?_
    exact load_published hcodec hname hm h.2

theorem publishInline_safe (hname : resultName codec b = .ok name) (hpayload : payload ≠ [])
    (hsubmitted : Event.submitted b payload ∈ w.log) :
    SafeAction codec t (publishInline codec authorized b name payload (codec.digest payload))
      (fun receipt w' => Published codec b name payload receipt w') w := by
  have hm : LaidOut codec b payload (inlineManifest b payload (codec.digest payload)) :=
    ⟨rfl, rfl, rfl, fun h => hpayload (Option.some.inj h)⟩
  refine .bind (SafeAction.keep (fun _ _ hr h => hr.log.subset h) authorize_safe hsubmitted)
    fun _ w1 _ hsub => ?_
  refine .bind (SafeAction.keep (fun _ _ hr h => hr.log.subset h) (.attempt
    (ensure_safe fun _ => ⟨b, payload, _, hsub.2, rfl, hm⟩)) hsub.2) fun r w2 _ hr => ?_
  cases r with
  | error e =>
    cases e with
    | conflict =>
      refine .bind (SafeAction.keep (fun _ _ hr h => hr.log.subset h) read_safe hr.2)
        fun previous w3 _ hprevious => ?_
      split
      · exact publishChunks_safe hcodec hname hprevious.2
      · exact .throw
    | incomplete => exact .throw
    | invalid => exact .throw
    | other => exact .throw
  | ok intent =>
    obtain ⟨htype, hholds, hseen⟩ := hr.1 intent rfl
    refine .bind (SafeAction.keep (fun _ _ hr h => hr.records _ _ h)
      (loadIntent_evidence hname htype hseen) hholds) fun r w3 _ h => ?_
    have hpublished := h.1.published hcodec hname hm h.2
    refine .pure fun w4 _ hr => ?_
    exact hpublished.imp (fun hd => hr.log.subset hd) fun he => he.mono hr

theorem publish_safe {expectedDigest : Bytes} :
    SafeAction codec t (publishTask codec authorized older b payload expectedDigest)
      (fun receipt w' => ∃ name, resultName codec b = .ok name ∧ Published codec b name payload receipt w')
      w := by
  refine .req fun w1 hi _ a w2 hs => ?_
  obtain rfl : w2 = w1.submit b payload := hs
  refine ⟨guar_submit hi b payload, ?_⟩
  have hsubmitted : Event.submitted b payload ∈ (w1.submit b payload).log := .head _
  refine .bind (SafeAction.keep (fun _ _ hr h => hr.log.subset h) (.ofExcept
    fun _ h _ _ _ => h) hsubmitted)
    fun name w3 _ h => ?_
  obtain ⟨hname, hsub⟩ := h
  split
  · exact .throw
  rename_i hvalid
  simp only [Bool.or_eq_true, not_or, decide_eq_true_eq, not_not] at hvalid
  obtain ⟨⟨⟨hpayload, -⟩, -⟩, rfl⟩ := hvalid
  split
  · exact .conseq (publishInline_safe hcodec hname hpayload hsub) fun _ _ _ h => ⟨name, hname, h⟩
  · exact .conseq (publishChunks_safe hcodec hname hsub) fun _ _ _ h => ⟨name, hname, h⟩

end Publish

/-! ## Runs -/

/-- What a task leaves when it returns. -/
def Done (codec : Codec) : Task → Nat → TaskResult → World → Prop
  | .publish _ _ b payload _, _, .published (.ok receipt), w =>
    ∃ name, resultName codec b = .ok name ∧ Published codec b name payload receipt w
  | .load b, _, .loaded (.ok (payload, receipt)), w => Evidence codec b payload receipt w
  | .loadAttempt .., _, .attempt (.ok (b, payload, receipt)), w => Evidence codec b payload receipt w
  | _, _, _, _ => True

/-- What the threads reach, with their calls in any order. -/
abbrev Runs (codec : Codec) (σ : Pool api Nat World Task TaskResult) : Prop :=
  Pool.Reach server (Task.code codec) Env Init σ

theorem code_safe (hcodec : codec.Faithful) (task : Task) (t : Nat) (w : World) :
    Safe server (discipline codec) t (task.code codec) (Done codec task t) w := by
  cases task with
  | publish authorized older b payload expectedDigest =>
    refine .map (.conseq (publish_safe hcodec) fun r w1 _ h => ?_)
    cases r with
    | error e => trivial
    | ok receipt => exact h receipt rfl
  | load b =>
    refine .map (.conseq load_safe fun r w1 _ h => ?_)
    cases r with
    | error e => trivial
    | ok result => exact h result rfl
  | loadAttempt ns uid operationID jobName =>
    refine .map (.conseq loadAttempt_safe fun r w1 _ h => ?_)
    cases r with
    | error e => trivial
    | ok result => exact h result rfl

theorem reach_ok (hcodec : codec.Faithful) {σ : Pool api Nat World Task TaskResult} (h : Runs codec σ) :
    Pool.Ok server (discipline codec) (Done codec) σ := by
  refine h.ok (fun w hw => ⟨fun key r hr => ?_⟩) (fun task t w _ => code_safe hcodec task t w)
    fun w w' hi he => ?_
  · rw [hw.records key] at hr
    cases hr
  · obtain ⟨hi', hrely⟩ := env_guar hi he
    exact ⟨hi', fun _ => hrely⟩

/-- The read `t` returned a payload under a binding. -/
def Pool.Read (σ : Pool api Nat World Task TaskResult) (t : Nat) (b : Binding) (payload : Bytes)
    (receipt : Receipt) : Prop :=
  σ.thread t = some (.load b, .ret (.loaded (.ok (payload, receipt)))) ∨
    ∃ ns uid operationID jobName, σ.thread t =
      some (.loadAttempt ns uid operationID jobName, .ret (.attempt (.ok (b, payload, receipt))))

/-- The call `t` returned a receipt for a payload under a binding. -/
def Pool.Receives (σ : Pool api Nat World Task TaskResult) (t : Nat) (b : Binding) (payload : Bytes)
    (receipt : Receipt) : Prop :=
  (∃ authorized older expectedDigest, σ.thread t =
    some (.publish authorized older b payload expectedDigest, .ret (.published (.ok receipt)))) ∨
  Pool.Read σ t b payload receipt

variable {σ : Pool api Nat World Task TaskResult}

theorem Pool.Read.evidence (hcodec : codec.Faithful) (hr : Runs codec σ) {t : Nat} {b : Binding}
    {payload : Bytes} (h : Pool.Read σ t b payload receipt) :
    Evidence codec b payload receipt σ.world := by
  have hok := reach_ok hcodec hr
  rcases h with h | ⟨ns, uid, operationID, jobName, h⟩
  · exact hok.returned h
  · exact hok.returned h

theorem Pool.Receives.evidence (hcodec : codec.Faithful) (hr : Runs codec σ) {t : Nat} {b : Binding}
    {payload : Bytes} (h : Pool.Receives σ t b payload receipt)
    (hkept : ∀ name, resultName codec b = .ok name → Event.deleted (b.ns, name) ∉ σ.world.log) :
    Evidence codec b payload receipt σ.world := by
  rcases h with ⟨authorized, older, expectedDigest, h⟩ | h
  · obtain ⟨name, hname, hpublished⟩ : ∃ name, resultName codec b = .ok name ∧
        Published codec b name payload receipt σ.world := (reach_ok hcodec hr).returned h
    exact hpublished.resolve_left (hkept name hname)
  · exact h.evidence hcodec hr

/-- A payload with the digest of a manifest that was written was submitted. -/
theorem Evidence.submitted (hcodec : codec.Faithful)
    (hsha : ∀ b payload, Event.submitted b payload ∈ w.log → CollisionFree codec.sha256 payload)
    {b : Binding} {payload : Bytes} (h : Evidence codec b payload receipt w) :
    ∃ b', Event.submitted b' payload ∈ w.log ∧ b'.readBack = b := by
  obtain ⟨name, data, m, -, -, ⟨b', payload', m', hsubmitted, rfl, hlaid⟩, hloaded⟩ := h
  cases canonicalManifest_encode hcodec hlaid.nonempty hloaded.canonical
  have hdigest : codec.digest payload = codec.digest payload' := by
    rw [hloaded.payloadDigest, ← toValid_digest, ← hlaid.digest]
    rfl
  obtain rfl : payload = payload' := (hsha b' payload' hsubmitted).eq_of_digestBytes hdigest
  exact ⟨b', hsubmitted, by rw [← hloaded.binding, ← hlaid.binding]; rfl⟩

/-- In any interleaving of publications, reads, updates and deletions, for a hash without collisions on
what was submitted:

* a payload that `Load` or `LoadAttempt` returns was submitted under a binding that JSON reads back as the one
  of the call, and under this one if its texts are UTF-8;
* two calls that return a receipt under one attempt, whose intent was not deleted, are for one binding
  and one payload, and each receipt has its digest and its size. -/
theorem result_stored_once (hcodec : codec.Faithful) (hr : Runs codec σ)
    (hsha : ∀ b payload, Event.submitted b payload ∈ σ.world.log → CollisionFree codec.sha256 payload) :
    (∀ t b payload receipt, Pool.Read σ t b payload receipt →
      ∃ b', Event.submitted b' payload ∈ σ.world.log ∧ b'.readBack = b ∧
        ((∀ text ∈ b'.texts, validText text = true) → b' = b)) ∧
    ∀ t u b b' payload payload' receipt receipt', Pool.Receives σ t b payload receipt →
      Pool.Receives σ u b' payload' receipt' →
      b.ns = b'.ns → b.uid = b'.uid → b.operationID = b'.operationID → b.jobName = b'.jobName →
      (∀ name, attemptName codec b.ns b.uid b.operationID b.jobName = .ok name →
        Event.deleted (b.ns, name) ∉ σ.world.log) →
      b = b' ∧ payload = payload' ∧
        receipt.digest = codec.digest payload ∧ receipt.size = payload.length ∧
        receipt'.digest = codec.digest payload ∧ receipt'.size = payload.length := by
  refine ⟨fun t b payload receipt h => ?_, ?_⟩
  · obtain ⟨b', hsubmitted, hback⟩ := (h.evidence hcodec hr).submitted hcodec hsha
    exact ⟨b', hsubmitted, hback, fun hvalid => (Binding.readBack_of_valid hvalid).symm.trans hback⟩
  intro t u b b' payload payload' receipt receipt' h h' hns huid hoperation hjob hkept
  have he := h.evidence hcodec hr fun name hname => hkept name (resultName_eq hname)
  have he' := h'.evidence hcodec hr fun name hname => by
    have hname' := resultName_eq hname
    rw [← hns, ← huid, ← hoperation, ← hjob] at hname'
    rw [← hns]
    exact hkept name hname'
  obtain ⟨submitted, hlogged, -⟩ := he.submitted hcodec hsha
  have hsubmitted := hsha _ _ hlogged
  obtain ⟨name, data, m, hname, hholds, -, hloaded⟩ := he
  obtain ⟨name', data', m', hname', hholds', -, hloaded'⟩ := he'
  have hattempt := resultName_eq hname
  have hattempt' := resultName_eq hname'
  rw [← hns, ← huid, ← hoperation, ← hjob] at hattempt'
  cases hattempt.symm.trans hattempt'
  rw [← hns] at hholds'
  have hdata := (hholds.unique hholds').resolve_left (hkept name hattempt)
  have hm : m = m' := by
    have hcanonical := hloaded'.canonical
    rw [← hdata, hloaded.canonical] at hcanonical
    exact Option.some.inj hcanonical
  subst hm
  have hpayload : payload' = payload :=
    hsubmitted.eq_of_digestBytes (hloaded'.payloadDigest.trans hloaded.payloadDigest.symm)
  refine ⟨hloaded.binding.symm.trans hloaded'.binding, hpayload.symm,
    hloaded.digest.trans hloaded.payloadDigest.symm, hloaded.size.trans hloaded.payloadSize.symm,
    hloaded'.digest.trans hloaded.payloadDigest.symm, hloaded'.size.trans hloaded.payloadSize.symm⟩

/-! ## An undisturbed run -/

/-- The answers of an undisturbed server. -/
def handle (w : World) : (c : Call) → c.Ans × World
  | .submit b payload => ((), w.submit b payload)
  | .get key => (.of (w.records key), w)
  | .create r =>
    match w.records r.key with
    | some _ => (.alreadyExists, w)
    | none =>
      let stored := { r with uid := bytes "uid", creationTimestamp := some 0 }
      (.ok stored, w.store stored)
  | .check => (true, w)

theorem handle_serves (t : Nat) (w : World) (c : Call) : serve t w c (handle w c).1 (handle w c).2 := by
  cases c with
  | submit b payload => rfl
  | get key => exact ⟨rfl, .inr rfl⟩
  | create r =>
    cases h : w.records r.key with
    | some stored => simp only [handle, h]; exact .inl ⟨rfl, fun _ hc => by cases hc⟩
    | none => simp only [handle, h]; exact .inr ⟨_, bytes "uid", 0, by decide, rfl, h, rfl, .inl rfl⟩
  | check => rfl

def samplePayload : Bytes := bytes "SELECT 1;"

/-- The documents in JSON, and a digest that tells the payload from all other bytes. -/
def sampleCodec : Codec := jsonCodec (PlanStore.sampleHash samplePayload)

/-- Tasks that run one after another in an empty store. -/
def runTasks (tasks : List Task) : Pool api Nat World Task TaskResult :=
  tasks.zipIdx.foldl (fun σ task => σ.runTask handle (Task.code sampleCodec) task.2 task.1)
    ⟨⟨fun _ => none, []⟩, fun _ => none⟩

def publishSample (older : Bool) (b : Binding) : Task :=
  .publish (!older) older b samplePayload (sampleCodec.digest samplePayload)

def sampleReceipt (name : Bytes) : Receipt where
  name
  uid := bytes "uid"
  digest := sampleCodec.digest samplePayload
  size := 9

/-- The name that the attempt of the sample reserves. -/
def sampleName : Bytes := bytes "ptah-result-" ++ List.replicate 64 0x30

theorem sample_free {σ : Pool api Nat World Task TaskResult}
    (h : ∀ e ∈ σ.world.log, ∃ b, e = .submitted b samplePayload) {b : Binding} {payload : Bytes}
    (hsubmitted : Event.submitted b payload ∈ σ.world.log) : CollisionFree sampleCodec.sha256 payload := by
  obtain ⟨b', hb⟩ := h _ hsubmitted
  cases hb
  exact PlanStore.sampleHash_free samplePayload

/-- An older build publishes the payload in chunks, this build retries it, and it is loaded. -/
def samplePool : Pool api Nat World Task TaskResult :=
  runTasks [publishSample true sampleBinding, publishSample false sampleBinding, .load sampleBinding]

/-- Both publications and the load return one receipt. -/
theorem result_stored_once_sample :
    ∃ receipt, Pool.Receives samplePool 0 sampleBinding samplePayload receipt ∧
      Pool.Receives samplePool 1 sampleBinding samplePayload receipt ∧
      Pool.Read samplePool 2 sampleBinding samplePayload receipt ∧
      Event.submitted sampleBinding samplePayload ∈ samplePool.world.log ∧
      receipt.digest = sampleCodec.digest samplePayload := by
  have hruns : Runs sampleCodec samplePool :=
    Pool.Reach.runTask (handle_serves 2) _ (Pool.Reach.runTask (handle_serves 1) _
      (Pool.Reach.runTask (handle_serves 0) _ (.init ⟨fun _ => rfl, rfl⟩) rfl) rfl) rfl
  have hran : samplePool.world.log =
        [.submitted sampleBinding samplePayload, .submitted sampleBinding samplePayload] ∧
      samplePool.returned 0 = some (publishSample true sampleBinding,
        .published (.ok (sampleReceipt (completionName sampleName)))) ∧
      samplePool.returned 1 = some (publishSample false sampleBinding,
        .published (.ok (sampleReceipt (completionName sampleName)))) ∧
      samplePool.returned 2 = some (.load sampleBinding,
        .loaded (.ok (samplePayload, sampleReceipt (completionName sampleName)))) := by
    decide +kernel
  obtain ⟨hlog, h₀, h₁, h₂⟩ := hran
  obtain ⟨hread, hreceived⟩ := result_stored_once (jsonCodec_faithful _) hruns fun b payload =>
    sample_free (by simp [hlog])
  have h₀ : Pool.Receives samplePool 0 sampleBinding samplePayload _ := .inl ⟨_, _, _, Pool.thread_of_returned h₀⟩
  have h₁ : Pool.Receives samplePool 1 sampleBinding samplePayload _ := .inl ⟨_, _, _, Pool.thread_of_returned h₁⟩
  have h₂ : Pool.Read samplePool 2 sampleBinding samplePayload _ := .inl (Pool.thread_of_returned h₂)
  obtain ⟨b, hsubmitted, -⟩ := hread 2 _ _ _ h₂
  obtain rfl : b = sampleBinding := by simpa [hlog] using hsubmitted
  exact ⟨_, h₀, h₁, h₂, hsubmitted,
    (hreceived 0 1 _ _ _ _ _ _ h₀ h₁ rfl rfl rfl rfl (by simp [hlog])).2.2.1⟩

/-- The UID of the Pod is a byte outside a character. -/
def brokenBinding : Binding := { sampleBinding with podUID := [0xff] }

def brokenPool : Pool api Nat World Task TaskResult :=
  runTasks [publishSample false brokenBinding, .load brokenBinding.readBack]

/-- A payload that was submitted under a Pod UID outside UTF-8 is returned under the Pod UID U+FFFD. -/
theorem result_of_other_binding :
    sampleCodec.Faithful ∧ Runs sampleCodec brokenPool ∧
      (∀ b payload, Event.submitted b payload ∈ brokenPool.world.log → CollisionFree sampleCodec.sha256 payload) ∧
      brokenBinding.validate = .ok () ∧ brokenBinding.readBack.validate = .ok () ∧
      Pool.Read brokenPool 1 brokenBinding.readBack samplePayload (sampleReceipt sampleName) ∧
      brokenPool.world.log = [.submitted brokenBinding samplePayload] ∧ brokenBinding ≠ brokenBinding.readBack := by
  have hruns : Runs sampleCodec brokenPool := Pool.Reach.runTask (handle_serves 1) _
    (Pool.Reach.runTask (handle_serves 0) _ (.init ⟨fun _ => rfl, rfl⟩) rfl) rfl
  have hran : brokenPool.world.log = [.submitted brokenBinding samplePayload] ∧
      brokenPool.returned 1 = some (.load brokenBinding.readBack,
        .loaded (.ok (samplePayload, sampleReceipt sampleName))) := by
    decide +kernel
  exact ⟨jsonCodec_faithful _, hruns, fun b payload => sample_free (by simp [hran.1]), by decide +kernel,
    by decide +kernel, .inl (Pool.thread_of_returned hran.2), hran.1, by decide +kernel⟩

end Ptah.ResultStore
