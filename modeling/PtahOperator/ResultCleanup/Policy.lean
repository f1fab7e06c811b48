import PtahOperator.ResultCleanup.Retention

/-!
# The admission verdict on the deletion of a result record

`AuthorizeDelete` of `internal/resultcleanup`, over the reads it makes at one state of the store.

* `deletionOrder`: what has to be gone before a record of each type.
* `authorizeRetired`, `authorizeForeground`: the verdict under a retirement marker, and that under a
  foreground deletion where there is no marker.
* `authorizeDelete_permit`: what an admitted deletion has passed.
-/

namespace Ptah.ResultCleanup

open Conc
open Go (Bytes bytes)
open PlanStore (OwnerReference Found)
open ResultStore

section Policy

variable (docs : Documents)

/-! ## Members -/

def ownedBy (name : Bytes) (member : Record) : Bool :=
  match member.ownerReferences with
  | [ref] => ref.name = name && ref.kind = bytes "PtahResultRecord"
  | _ => false

/-- The loop of `members` over a page. -/
def addMembers (name : Bytes) (index : Index) : (found page : List Record) → Except Refusal (List Record)
  | found, [] => .ok found
  | found, member :: page =>
    if ownedBy name member then
      if 128 < found.length + 1 then .error .retained
      else addMembers name index (found ++ [member]) page
    else if index ≠ .legacy then .error .retained
    else addMembers name index found page

/-- The loop of `members` over the pages of an index. -/
def memberPages (ns name : Bytes) (index : Index) : (pages start : Nat) → (found : List Record) →
    Action (List Record)
  | 0, _, _ => throw .retained
  | pages + 1, start, found => do
    match ← send (.list ns index start) with
    | none => throw .other
    | some page =>
      let found ← Proc.ofExcept (addMembers name index found page.items)
      match page.continuation with
      | none => pure found
      | some next => memberPages ns name index pages next found

def Record.completes (r : Record) : Bool := r.labels.role = some .complete

/-- Completions first, and then by name. -/
def memberOrder (a b : Record) : Prop :=
  if Record.completes a ≠ Record.completes b then Record.completes a = true else ¬ b.name < a.name

instance : DecidableRel memberOrder := fun a b => by unfold memberOrder; infer_instance

def members (b : Binding) : Action (List Record) :=
  match resultName docs.toCodec b with
  | .error e => throw (.store e)
  | .ok name => do
    let indexed ← memberPages b.ns name (.attempt (docs.attemptLabel name)) 1 0 []
    let found ← memberPages b.ns name .legacy 16 0 indexed
    pure (found.insertionSort memberOrder)

def requireNoMembers (b : Binding) : Action Unit := do
  let found ← members docs b
  if found ≠ [] then throw .retained else pure ()

def requireAbsent (key : Key) : Action Unit := do
  match ← send (.getRecord key) with
  | .notFound => pure ()
  | .found _ => throw .retained
  | .failed => throw .other

def requireJobAbsent (b : Binding) : Action Unit := do
  match ← send (.getJob (b.ns, b.jobName)) with
  | .notFound => pure ()
  | .found uid => if uid = b.jobUID then throw .retained else pure ()
  | .failed => throw .other

def deletionOrder (record : Record) (b : Binding) : Action Unit :=
  match record.type with
  | .chunk => requireAbsent (b.ns, completionName (intentName docs b))
  | .complete => pure ()
  | .intent => requireNoMembers docs b
  | .credential => requireAbsent (b.ns, intentName docs b)
  | .retired => do
    requireAbsent (b.ns, intentName docs b)
    requireAbsent (credentialKey docs b)
    requireNoMembers docs b

def isMember (record : Record) : Bool := record.type = .chunk || record.type = .complete

/-! ## Foreground deletion -/

/-- The root whose deletion timestamp retires a record. -/
def foregroundRoot (record : Record) : Action Record :=
  if isMember record then
    match record.ownerReferences with
    | [ref] =>
      if ref.kind ≠ bytes "PtahResultRecord" then throw .retained
      else do
        match ← send (.getRecord (record.ns, ref.name)) with
        | .found root => if root.type ≠ .intent || root.uid ≠ ref.uid then throw .retained else pure root
        | _ => throw .other
    | _ => throw .retained
  else pure record

def foregroundBinding (now window : Int) (record : Record) : Action Binding := do
  let root ← foregroundRoot record
  match rootBinding docs root, root.deletionTimestamp with
  | .ok b, some deleted =>
    if (root.type ≠ .intent && root.type ≠ .credential) || root.finalizers ≠ [finalizerDeleteDependents] ||
        isMember record && !memberOf docs record b then throw .retained
    else do
      checkUnpinned docs b
      requireJobAbsent b
      match record.creationTimestamp with
      | none => throw (.window none)
      | some created =>
        if now < max (deleted + window) (created + window) then
          throw (.window (some (max (deleted + window) (created + window))))
        else pure b
  | _, _ => throw .retained

def authorizeForeground (now window : Int) (record : Record) : Action Unit := do
  let b ← foregroundBinding docs now window record
  deletionOrder docs record b

/-! ## Retirement -/

/-- The record under a key, if there is one. -/
def getRecord (key : Key) : Action (Option Record) := do
  match ← send (.getRecord key) with
  | .found r => pure (some r)
  | .notFound => pure none
  | .failed => throw .other

/-- A root has the identity that a retirement recorded, under the same binding. -/
def checkSource (r : Retirement) (b : Binding) (source : Record) : Action Unit :=
  match rootBinding docs source with
  | .error _ => throw .retained
  | .ok sourceBinding =>
    if source.uid ≠ r.source.uid || source.type ≠ r.source.type || sourceBinding ≠ b then throw .retained
    else pure ()

/-- The source of a retirement, if it is still there. It is not read where the order of deletion asks for
its absence. -/
def readSource (record : Record) (r : Retirement) (b : Binding) : Action (Option Record) :=
  if record.type = .retired || record.type = .credential && r.source.type = .intent then pure (some record)
  else do
    let source ← if record.name = r.source.name then pure (some record)
      else getRecord (b.ns, r.source.name)
    match source with
    | none => pure none
    | some found =>
      checkSource docs r b found
      pure (some found)

/-- The owner of a member, if it is still there, is the intent of the attempt. -/
def checkOwner (record : Record) (r : Retirement) (b : Binding) (source : Option Record) : Action Unit :=
  if !isMember record then pure ()
  else
    match record.ownerReferences with
    | [ref] => do
      let intent ← if ref.name = r.source.name then pure source else getRecord (b.ns, ref.name)
      match intent with
      | none => pure ()
      | some found =>
        match rootBinding docs found with
        | .error _ => throw .retained
        | .ok intentBinding => if intentBinding ≠ b || found.uid ≠ ref.uid then throw .retained else pure ()
    | _ => throw .retained

/-- The part of `AuthorizeDelete` under a marker. -/
def authorizeRetired (now window : Int) (record marker : Record) (b : Binding) : Action Unit :=
  match decode docs marker with
  | .error _ => throw .retained
  | .ok r =>
    if r.binding ≠ b || record.name = r.source.name && record.uid ≠ r.source.uid then throw .retained
    else do
      let source ← readSource docs record r b
      checkOwner docs record r b source
      eligible docs marker now window
      match record.creationTimestamp with
      | none => throw (.window none)
      | some created =>
        if now < created + r.window window then throw (.window (some (created + r.window window)))
        else do
          requireJobAbsent b
          deletionOrder docs record b

/-- `AuthorizeDelete` for chunks and completions. -/
def authorizeMember (now window : Int) (record : Record) : Action Unit :=
  match record.ownerReferences with
  | [ref] =>
    if ref.kind ≠ bytes "PtahResultRecord" then throw .retained
    else do
      match ← getRecord (record.ns, retiredName ref.name) with
      | none => authorizeForeground docs now window record
      | some marker =>
        match decode docs marker with
        | .error _ => throw .retained
        | .ok r =>
          if !memberOf docs record r.binding then throw .retained
          else authorizeRetired docs now window record marker r.binding
  | _ => throw .retained

/-- `AuthorizeDelete` for intents and credentials. -/
def authorizeRoot (now window : Int) (record : Record) (b : Binding) : Action Unit :=
  match resultName docs.toCodec b with
  | .error e => throw (.store e)
  | .ok name => do
    match ← getRecord (b.ns, retiredName name) with
    | none => authorizeForeground docs now window record
    | some marker => authorizeRetired docs now window record marker b

def authorizeDelete (now window : Int) (record : Record) : Action Unit :=
  if window < minimumWindow || record.uid = [] then throw .retained
  else if record.creationTimestamp.any fun created => now < created + window then
    throw (.window (record.creationTimestamp.map (· + window)))
  else if isMember record then authorizeMember docs now window record
  else
    match rootBinding docs record with
    | .error e => throw e
    | .ok b =>
      if record.type = .retired then authorizeRetired docs now window record record b
      else authorizeRoot docs now window record b

/-! ## What an admitted deletion has passed -/

/-- No resource pins the attempt. -/
def Unpinned (w : World) (b : Binding) : Prop :=
  (b.kind = bytes "PtahSchema" ∧ ∀ schema, w.schemas (b.ns, b.name) = some schema →
    schema.uid = b.uid → schema.pins b = false) ∨
  (b.kind = bytes "PtahMigration" ∧ ∀ migration, w.migrations (b.ns, b.name) = some migration →
    migration.uid = b.uid → migration.pins docs b = false)

/-- The Job of the attempt is gone; one of its name has another UID. -/
def JobGone (w : World) (b : Binding) : Prop := w.jobs (b.ns, b.jobName) ≠ some b.jobUID

/-- A time that is known, and at least a window ago. -/
def Elapsed (start : Option Int) (window now : Int) : Prop :=
  ∃ begun, start = some begun ∧ begun + window ≤ now

/-- The record is a root of the attempt, or a member of an attempt that a stored root is for. -/
def AttemptOf (w : World) (record : Record) (b : Binding) : Prop :=
  rootBinding docs record = .ok b ∨
    memberOf docs record b = true ∧ ∃ root ∈ w.records, rootBinding docs root = .ok b

/-- A marker retired the attempt: the current window and the one it records are over, since the marker and
since the record. -/
def MarkerElapsed (w : World) (now window : Int) (record : Record) (b : Binding) : Prop :=
  ∃ marker r, (marker = record ∨ w.get (b.ns, retiredName (intentName docs b)) = some marker) ∧
    decode docs marker = .ok r ∧ r.binding = b ∧ Elapsed marker.creationTimestamp window now ∧
    Elapsed marker.creationTimestamp (r.retentionSeconds * second) now ∧
    Elapsed record.creationTimestamp (r.retentionSeconds * second) now

/-- There is no marker, and the window is over since the foreground deletion of a root. -/
def ForegroundElapsed (w : World) (now window : Int) (record : Record) (b : Binding) : Prop :=
  w.get (b.ns, retiredName (intentName docs b)) = none ∧
    ∃ root, (root = record ∨ root ∈ w.records) ∧ rootBinding docs root = .ok b ∧
      foregroundDeleting root = true ∧ Elapsed root.deletionTimestamp window now

/-- What an admitted deletion has passed. -/
structure Permit (w : World) (now window : Int) (record : Record) (b : Binding) : Prop where
  attempt : AttemptOf docs w record b
  unpinned : Unpinned docs w b
  jobGone : JobGone w b
  aged : Elapsed record.creationTimestamp window now
  retired : MarkerElapsed docs w now window record b ∨ ForegroundElapsed docs w now window record b
  order : Answers w (deletionOrder docs record b) ()

end Policy

variable {docs : Documents} {w : World} {now window : Int} {record : Record} {b : Binding}

/-! ## Reads -/

variable {key : Key} {r : Retirement} {marker : Record}

theorem answers_getRecord {β : Type} {f : Found Record → Action β} {x : β}
    (hfailed : ¬ Answers w (f .failed) x) (h : Answers w (send (.getRecord key) >>= f) x) :
    Answers w (f (.of (w.get key))) x := by
  obtain ⟨a, ha, hf⟩ := answers_bind.1 h
  rcases (answers_send.1 ha).2 with rfl | rfl
  · exact absurd hf hfailed
  · exact hf

theorem getRecord_answers {r : Option Record} (h : Answers w (getRecord key) r) :
    w.get key = r := by
  have h := answers_getRecord (by simp) h
  cases hget : w.get key with
  | none =>
    rw [hget] at h
    exact answers_pure.1 h
  | some found =>
    rw [hget] at h
    exact answers_pure.1 h

theorem requireAbsent_answers (h : Answers w (requireAbsent key) ()) : w.get key = none := by
  have h := answers_getRecord (by simp) h
  cases hget : w.get key with
  | none => rfl
  | some found =>
    rw [hget] at h
    exact absurd h answers_throw

theorem requireJobAbsent_answers (h : Answers w (requireJobAbsent b) ()) : JobGone w b := by
  obtain ⟨a, ha, hf⟩ := answers_bind.1 h
  intro hjob
  rcases (answers_send.1 ha).2 with rfl | rfl
  · exact absurd hf answers_throw
  · rw [hjob] at hf
    simp [Found.of] at hf

theorem checkUnpinned_answers (h : Answers w (checkUnpinned docs b) ()) : Unpinned docs w b := by
  unfold checkUnpinned at h
  split at h
  · exact absurd h answers_throw
  split at h
  · rename_i hkind
    refine .inl ⟨hkind, fun schema hschema huid => ?_⟩
    obtain ⟨a, ha, hf⟩ := answers_bind.1 h
    rcases (answers_send.1 ha).2 with rfl | rfl
    · exact absurd hf answers_throw
    rw [hschema] at hf
    simp only [Found.of, huid, ne_eq, not_true_eq_false, if_false] at hf
    split at hf
    · exact absurd hf answers_throw
    · rename_i hpins
      simpa using hpins
  split at h
  · rename_i hkind
    refine .inr ⟨hkind, fun migration hmigration huid => ?_⟩
    obtain ⟨a, ha, hf⟩ := answers_bind.1 h
    rcases (answers_send.1 ha).2 with rfl | rfl
    · exact absurd hf answers_throw
    rw [hmigration] at hf
    simp only [Found.of, huid, ne_eq, not_true_eq_false, if_false] at hf
    split at hf
    · exact absurd hf answers_throw
    · rename_i hpins
      simpa using hpins
  · exact absurd h answers_throw

/-! ## Windows -/

/-- A window that is over, and so each window it covers. -/
theorem Elapsed.of_max {created : Int} {start : Option Int} (hstart : start = some created)
    (h : ¬ now < created + r.window window) :
    Elapsed start window now ∧ Elapsed start (r.retentionSeconds * second) now := by
  have hleft := le_max_left window (r.retentionSeconds * second)
  have hright := le_max_right window (r.retentionSeconds * second)
  rw [← Retirement.window] at hleft hright
  exact ⟨⟨created, hstart, by linarith⟩, ⟨created, hstart, by linarith⟩⟩

theorem eligible_answers (h : Answers w (eligible docs marker now window) ()) :
    ∃ r, decode docs marker = .ok r ∧ Unpinned docs w r.binding ∧
      Elapsed marker.creationTimestamp window now ∧
      Elapsed marker.creationTimestamp (r.retentionSeconds * second) now := by
  obtain ⟨r, hr, h⟩ := answers_bind.1 h
  refine ⟨r, answers_ofExcept.1 hr, ?_⟩
  split at h
  · exact absurd h answers_throw
  rename_i created hcreated
  split at h
  · exact absurd h answers_throw
  obtain ⟨_, hpins, h⟩ := answers_bind.1 h
  split at h
  · exact absurd h answers_throw
  · rename_i hwindow
    exact ⟨checkUnpinned_answers hpins, Elapsed.of_max hcreated hwindow⟩

/-! ## The verdict -/

theorem decode_type (h : decode docs marker = .ok r) : marker.type = .retired := by
  unfold decode at h
  split at h
  · cases h
  rename_i hvalid
  simp only [Bool.or_eq_true, not_or, decide_eq_true_eq, not_not] at hvalid
  exact hvalid.1.1

theorem rootBinding_of_decode (h : decode docs marker = .ok r) :
    rootBinding docs marker = .ok r.binding := by
  unfold rootBinding
  rw [decode_type h]
  simp only [h]
  rfl

/-- A member that is held to a binding is owned by the intent of that binding. -/
theorem memberOf_owner {ref : OwnerReference} (h : memberOf docs record b = true)
    (href : record.ownerReferences = [ref]) :
    resultName docs.toCodec b = .ok ref.name ∧ record.ns = b.ns ∧ ref.kind = bytes "PtahResultRecord" := by
  unfold memberOf at h
  dsimp only at h
  split at h
  · rename_i name ref' hname hrefs
    obtain rfl : ref = ref' := by
      have : record.ownerReferences = [ref'] := hrefs
      rw [href] at this
      exact (List.cons.inj this).1
    simp only [Bool.and_eq_true] at h
    have hshape := h.2
    simp only [recordShape, Bool.and_eq_true, decide_eq_true_eq] at hshape
    have hns := hshape.1.1.1.1.1.1.1
    have howners := hshape.1.2
    rw [hrefs] at howners
    have hchild : ref = childOwner name ref.uid := (List.cons.inj howners).1
    refine ⟨?_, hns, ?_⟩
    · rw [hname, hchild]
      rfl
    · rw [hchild]
      rfl
  · cases h

theorem intentName_eq {name : Bytes} (h : resultName docs.toCodec b = .ok name) : intentName docs b = name := by
  rw [intentName, h]
  rfl

theorem authorizeRetired_permit (hattempt : AttemptOf docs w record b)
    (hmarker : marker = record ∨ w.get (b.ns, retiredName (intentName docs b)) = some marker)
    (h : Answers w (authorizeRetired docs now window record marker b) ()) :
    Permit docs w now window record b := by
  unfold authorizeRetired at h
  split at h
  · exact absurd h answers_throw
  rename_i r hr
  split at h
  · exact absurd h answers_throw
  rename_i hsame
  simp only [Bool.or_eq_true, not_or, decide_eq_true_eq, not_not] at hsame
  obtain ⟨rfl, -⟩ := hsame
  obtain ⟨source, -, h⟩ := answers_bind.1 h
  obtain ⟨_, -, h⟩ := answers_bind.1 h
  obtain ⟨_, heligible, h⟩ := answers_bind.1 h
  obtain ⟨r', hr', hunpinned, hwindow, hretention⟩ := eligible_answers heligible
  cases hr.symm.trans hr'
  split at h
  · exact absurd h answers_throw
  rename_i created hcreated
  split at h
  · exact absurd h answers_throw
  rename_i hold
  obtain ⟨_, hjob, horder⟩ := answers_bind.1 h
  obtain ⟨haged, hkept⟩ := Elapsed.of_max hcreated hold
  exact ⟨hattempt, hunpinned, requireJobAbsent_answers hjob, haged,
    .inl ⟨marker, r, hmarker, hr, rfl, hwindow, hretention, hkept⟩, horder⟩

theorem World.mem_of_get {r : Record} (h : w.get key = some r) : r ∈ w.records :=
  List.mem_of_find?_eq_some h

/-- The root of a foreground deletion: the record itself, or the stored owner of a member. -/
theorem foregroundRoot_answers {root : Record} (h : Answers w (foregroundRoot record) root) :
    (isMember record = false ∧ root = record) ∨
      ∃ ref, isMember record = true ∧ record.ownerReferences = [ref] ∧ w.get (record.ns, ref.name) = some root := by
  unfold foregroundRoot at h
  split at h
  · rename_i hmember
    split at h
    · rename_i ref hrefs
      split at h
      · exact absurd h answers_throw
      have h := answers_getRecord (by simp) h
      cases hget : w.get (record.ns, ref.name) with
      | none =>
        rw [hget] at h
        exact absurd h answers_throw
      | some found =>
        rw [hget] at h
        simp only [Found.of] at h
        split at h
        · exact absurd h answers_throw
        · exact .inr ⟨ref, hmember, hrefs, hget.trans (congrArg some (answers_pure.1 h))⟩
    · exact absurd h answers_throw
  · rename_i hmember
    exact .inl ⟨by simpa using hmember, (answers_pure.1 h).symm⟩

theorem authorizeForeground_permit
    (hmarker : ∀ b', AttemptOf docs w record b' → w.get (b'.ns, retiredName (intentName docs b')) = none)
    (h : Answers w (authorizeForeground docs now window record) ()) :
    ∃ b, Permit docs w now window record b := by
  obtain ⟨b, hb, horder⟩ := answers_bind.1 h
  refine ⟨b, ?_⟩
  obtain ⟨root, hroot, hb⟩ := answers_bind.1 hb
  split at hb
  · rename_i b' deleted hbinding hdeleted
    split at hb
    · exact absurd hb answers_throw
    rename_i hvalid
    simp only [Bool.or_eq_true, not_or, decide_eq_true_eq, not_not] at hvalid
    obtain ⟨⟨-, hfinalizers⟩, hmember⟩ := hvalid
    obtain ⟨_, hpins, hb⟩ := answers_bind.1 hb
    obtain ⟨_, hjob, hb⟩ := answers_bind.1 hb
    split at hb
    · exact absurd hb answers_throw
    rename_i created hcreated
    split at hb
    · exact absurd hb answers_throw
    rename_i hwindow
    obtain rfl := answers_pure.1 hb
    have hmax := not_lt.1 hwindow
    have hattempt : AttemptOf docs w record b' := by
      rcases foregroundRoot_answers hroot with ⟨-, rfl⟩ | ⟨ref, hkind, -, hget⟩
      · exact .inl hbinding
      · refine .inr ⟨?_, root, World.mem_of_get hget, hbinding⟩
        simpa [hkind] using hmember
    have hstored : root = record ∨ root ∈ w.records := by
      rcases foregroundRoot_answers hroot with ⟨-, rfl⟩ | ⟨ref, -, -, hget⟩
      · exact .inl rfl
      · exact .inr (World.mem_of_get hget)
    refine ⟨hattempt, checkUnpinned_answers hpins, requireJobAbsent_answers hjob,
      ⟨created, hcreated, le_trans (le_max_right _ _) hmax⟩, .inr ⟨hmarker b' hattempt, root, hstored, hbinding, ?_,
        deleted, hdeleted, le_trans (le_max_left _ _) hmax⟩, horder⟩
    rw [foregroundDeleting, Record.deleting, hdeleted, hfinalizers]
    rfl
  · exact absurd hb answers_throw

theorem rootBinding_not_member (h : rootBinding docs record = .ok b) : isMember record = false := by
  unfold rootBinding at h
  split at h
  · rename_i htype
    rw [isMember, htype]
    rfl
  · rename_i htype
    rw [isMember, htype]
    rfl
  · rename_i htype
    rw [isMember, htype]
    rfl
  · cases h

theorem authorizeMember_permit (hmember : isMember record = true)
    (h : Answers w (authorizeMember docs now window record) ()) : ∃ b, Permit docs w now window record b := by
  unfold authorizeMember at h
  split at h
  · rename_i ref hrefs
    split at h
    · exact absurd h answers_throw
    obtain ⟨marker, hmarker, h⟩ := answers_bind.1 h
    have hget := getRecord_answers hmarker
    -- Whatever binding the member is held to, its marker has this key.
    have hkey : ∀ b', memberOf docs record b' = true →
        (b'.ns, retiredName (intentName docs b')) = (record.ns, retiredName ref.name) := by
      intro b' hb'
      obtain ⟨hname, hns, -⟩ := memberOf_owner hb' hrefs
      rw [intentName_eq hname, hns]
    split at h
    · refine authorizeForeground_permit (fun b' hb' => ?_) h
      rcases hb' with hb' | ⟨hb', -⟩
      · rw [rootBinding_not_member hb'] at hmember
        cases hmember
      · rw [hkey b' hb']
        exact hget
    · rename_i marker
      split at h
      · exact absurd h answers_throw
      rename_i r hr
      split at h
      · exact absurd h answers_throw
      rename_i hof
      have hof : memberOf docs record r.binding = true := by simpa using hof
      refine ⟨r.binding, authorizeRetired_permit
        (.inr ⟨hof, marker, World.mem_of_get hget, rootBinding_of_decode hr⟩) (.inr ?_) h⟩
      rw [hkey _ hof]
      exact hget
  · exact absurd h answers_throw

theorem memberOf_not_root (h : memberOf docs record b = true) : isMember record = true := by
  unfold memberOf at h
  dsimp only at h
  split at h
  · simp only [Bool.and_eq_true] at h
    obtain ⟨⟨-, hname⟩, -⟩ := h
    split at hname
    · rename_i htype
      have : record.type = .complete := htype
      rw [isMember, this]
      rfl
    · rename_i htype
      have : record.type = .chunk := htype
      rw [isMember, this]
      rfl
    · cases hname
  · cases h

/-- What an admitted deletion has passed. -/
theorem authorizeDelete_permit (h : Answers w (authorizeDelete docs now window record) ()) :
    ∃ b, Permit docs w now window record b := by
  unfold authorizeDelete at h
  split at h
  · exact absurd h answers_throw
  split at h
  · exact absurd h answers_throw
  split at h
  · rename_i hmember
    exact authorizeMember_permit hmember h
  rename_i hmember
  split at h
  · exact absurd h answers_throw
  rename_i b hb
  split at h
  · exact ⟨b, authorizeRetired_permit (.inl hb) (.inl rfl) h⟩
  unfold authorizeRoot at h
  split at h
  · exact absurd h answers_throw
  rename_i name hname
  obtain ⟨marker, hmarker, h⟩ := answers_bind.1 h
  have hget := getRecord_answers hmarker
  rw [← intentName_eq hname] at hget
  split at h
  · refine authorizeForeground_permit (fun b' hb' => ?_) h
    rcases hb' with hb' | ⟨hb', -⟩
    · cases hb.symm.trans hb'
      exact hget
    · exact absurd (memberOf_not_root hb') hmember
  · exact ⟨b, authorizeRetired_permit (.inl hb) (.inr hget) h⟩

end Ptah.ResultCleanup
