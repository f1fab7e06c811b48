import PtahOperator.ResultCleanup.Documents
import PtahOperator.ResultStore.Reading
import PtahOperator.ResultCleanup.Order

/-!
# Sequences of deletions

A complete publication with its credential and its marker, and any sequence of admitted deletions, with
any changes of other records and of the resources between them.

* `Part`, `Part.Before`: the records of a publication, and the order of their deletion.
* `permit_order`: an admitted deletion of a part finds every part before it gone.
* `load_reached`: what `Load` returns in every state that is reached.
* `evidence_kept`: what admits a deletion, and the order of any sequence of them.
-/

namespace Ptah.ResultCleanup

open Conc
open Go (Bytes bytes)
open ResultStore

/-! ## The parts of a publication -/

inductive Part where
  | completion
  | chunk (index : Nat)
  | intent
  | credential
  | marker
  deriving DecidableEq

/-- The order of deletion: the completion before its chunks, members before the intent, the intent before
the credential, and everything before the marker. -/
def Part.Before : Part → Part → Prop
  | .completion, .chunk _ => True
  | .completion, .intent => True
  | .chunk _, .intent => True
  | .intent, .credential => True
  | .marker, .marker => False
  | _, .marker => True
  | _, _ => False

/-- The parts that a manifest lays out. -/
def Part.Of (m : Manifest) : Part → Prop
  | .completion => m.inlined = none
  | .chunk i => i < m.references.length
  | _ => True

section Parts

variable (docs : Documents) (b : Binding) (m : Manifest)

def Part.key : Part → Key
  | .completion => (b.ns, completionName (intentName docs b))
  | .chunk i => (b.ns, chunkName (intentName docs b) i)
  | .intent => (b.ns, intentName docs b)
  | .credential => credentialKey docs b
  | .marker => (b.ns, retiredName (intentName docs b))

/-- What a record is as a part of the publication. -/
def Part.Fits (r : Record) : Part → Prop
  | .completion => r.type = .complete ∧ memberOf docs r b = true
  | .chunk _ => r.type = .chunk ∧ memberOf docs r b = true
  | .intent => r.type = .intent ∧ rootBinding docs r = .ok b
  | .credential => r.type = .credential ∧ rootBinding docs r = .ok b
  | .marker => r.type = .retired ∧ rootBinding docs r = .ok b

/-- The order of deletion on the keys of the publication. -/
def KeyBefore (key key' : Key) : Prop :=
  ∃ x y : Part, x.Of m ∧ y.Of m ∧ x.Before y ∧ x.key docs b = key ∧ y.key docs b = key'

/-! ## Deletions -/

def World.remove (w : World) (key : Key) : World :=
  { w with records := w.records.filter fun r => r.key ≠ key }

/-- The foreground deletion of the record under a key has begun. -/
def World.mark (w : World) (key : Key) (now : Int) : World :=
  { w with records := w.records.map fun r => if r.key = key then marked r now else r }

/-- A deletion that was admitted on the stored record, or a change that leaves the publication alone. The
removal of the finalizer of a foreground deletion passes the same verdict. -/
inductive Step : World → World → Prop where
  | delete {w : World} {record : Record} {now window : Int} (hstored : w.get record.key = some record)
    (hadmitted : Answers w (authorizeDelete docs now window record) ()) : Step w (w.remove record.key)
  | foreground {w : World} {record : Record} {now window : Int} (hstored : w.get record.key = some record)
    (hadmitted : Answers w (authorizeDelete docs now window record) ()) : Step w (w.mark record.key now)
  | other {w w' : World} (h : ∀ x : Part, x.Of m → w'.get (x.key docs b) = w.get (x.key docs b)) : Step w w'

/-- The states that a sequence of steps reaches. -/
abbrev Reached (start w : World) : Prop := Relation.ReflTransGen (Step docs b m) start w

/-- The store as `Load` reads it. -/
def World.view (w : World) : ResultStore.World := ⟨w.get, []⟩

/-- A complete publication with its credential and its marker. -/
structure Complete (w : World) (payload : Bytes) (receipt : Receipt) : Prop where
  loaded : answer w.view (load docs.toCodec b) = .ok (payload, receipt)
  credential : ∃ r, w.get (Part.credential.key docs b) = some r ∧ Part.credential.Fits docs b r
  marker : ∃ r, w.get (Part.marker.key docs b) = some r ∧ Part.marker.Fits docs b r

end Parts

theorem World.get_remove_self (w : World) (key : Key) : (w.remove key).get key = none := by
  simp [World.get, World.remove, List.find?_filter]

variable {key : Key} {now : Int} {r : Record} {b' : Binding}

theorem World.get_remove_of_ne {w : World} {key' : Key} (h : key' ≠ key) :
    (w.remove key).get key' = w.get key' := by
  have hsame : (fun r : Record => decide (r.key ≠ key) && decide (r.key = key')) =
      fun r => decide (r.key = key') := by
    funext r
    by_cases hr : r.key = key'
    · simp [hr, h]
    · simp [hr]
  simp only [World.get, World.remove, List.find?_filter]
  exact congrArg (List.find? · w.records) (by simpa using hsame)

theorem World.get_mark (w : World) (key key' : Key) (now : Int) :
    (w.mark key now).get key' = (w.get key').map fun r => if r.key = key then marked r now else r := by
  have hkey : ((fun r : Record => decide (r.key = key')) ∘ fun r => if r.key = key then marked r now else r) =
      fun r => decide (r.key = key') := by
    funext r
    by_cases hr : r.key = key
    · simp only [Function.comp, if_pos hr]
      rfl
    · simp only [Function.comp, if_neg hr]
  simp only [World.get, World.mark, List.find?_map, hkey]

variable {docs : Documents} {b : Binding} {m : Manifest} {w w' start : World}

theorem World.get_mark_of_ne {key' : Key} (h : key' ≠ key) :
    (w.mark key now).get key' = w.get key' := by
  rw [World.get_mark]
  cases hget : w.get key' with
  | none => rfl
  | some r =>
    rw [Option.map_some, if_neg]
    rw [World.key_of_get hget]
    exact h

theorem World.get_mark_self (h : w.get key = some r) :
    (w.mark key now).get key = some (marked r now) := by
  rw [World.get_mark, h, Option.map_some, if_pos (World.key_of_get h)]

/-! ## One deletion -/

theorem Part.Fits.marked {x : Part} (h : x.Fits docs b r) (now : Int) :
    x.Fits docs b (marked r now) := by
  cases x with
  | completion => exact ⟨h.1, memberOf_marked h.2 now⟩
  | chunk i => exact ⟨h.1, memberOf_marked h.2 now⟩
  | intent => exact ⟨h.1, rootBinding_marked h.2 now⟩
  | credential => exact ⟨h.1, rootBinding_marked h.2 now⟩
  | marker => exact ⟨h.1, rootBinding_marked h.2 now⟩

theorem memberOf_refs (h : memberOf docs r b = true) : ∃ ref, r.ownerReferences = [ref] := by
  unfold memberOf at h
  dsimp only at h
  split at h
  · rename_i name ref hname hrefs
    exact ⟨ref, hrefs⟩
  · cases h

theorem AttemptOf.root (h : AttemptOf docs w r b')
    (hroot : rootBinding docs r = .ok b) : b' = b := by
  rcases h with h | ⟨h, -⟩
  · exact Except.ok.inj (h.symm.trans hroot)
  have hmember := memberOf_not_root h
  rw [rootBinding_not_member hroot] at hmember
  cases hmember

theorem AttemptOf.member (h : AttemptOf docs w r b')
    (hmember : memberOf docs r b = true) : b'.ns = b.ns ∧ intentName docs b' = intentName docs b := by
  rcases h with h | ⟨h, -⟩
  · have hroot := memberOf_not_root hmember
    rw [rootBinding_not_member h] at hroot
    cases hroot
  · obtain ⟨ref, href⟩ := memberOf_refs hmember
    obtain ⟨hname, hns, -⟩ := memberOf_owner hmember href
    obtain ⟨hname', hns', -⟩ := memberOf_owner h href
    exact ⟨hns'.symm.trans hns, by rw [intentName_eq hname, intentName_eq hname']⟩

/-- The stored records under the keys of the publication are its parts. -/
def AllFit (docs : Documents) (b : Binding) (m : Manifest) (w : World) : Prop :=
  ∀ x : Part, x.Of m → ∀ r, w.get (x.key docs b) = some r → x.Fits docs b r

theorem AllFit.no_members (hall : AllFit docs b m w) (h : Answers w (requireNoMembers docs b) ()) :
    (m.inlined = none → w.get (Part.completion.key docs b) = none) ∧
      ∀ i, i < m.references.length → w.get ((Part.chunk i).key docs b) = none := by
  have habsent : ∀ x : Part, x.Of m → (∀ r, x.Fits docs b r → memberOf docs r b = true) →
      w.get (x.key docs b) = none := by
    intro x hx hmember
    cases hget : w.get (x.key docs b) with
    | none => rfl
    | some r =>
      have hno := requireNoMembers_answers h (World.mem_of_get hget)
      rw [hmember r (hall x hx r hget)] at hno
      cases hno
  exact ⟨fun hinlined => habsent .completion hinlined fun r hr => hr.2,
    fun i hi => habsent (.chunk i) hi fun r hr => hr.2⟩

/-- An admitted deletion of a part finds every part before it gone. -/
theorem permit_order {x y : Part} {window : Int} (hall : AllFit docs b m w)
    (hfits : y.Fits docs b r) (hpermit : Permit docs w now window r b') (hx : x.Of m) (hxy : x.Before y) :
    w.get (x.key docs b) = none := by
  have horder := hpermit.order
  unfold deletionOrder at horder
  cases y with
  | completion => cases x <;> exact hxy.elim
  | chunk i =>
    obtain ⟨hns, hname⟩ := hpermit.attempt.member hfits.2
    simp only [hfits.1, hns, hname] at horder
    cases x with
    | completion => exact requireAbsent_answers horder
    | chunk j => exact hxy.elim
    | intent => exact hxy.elim
    | credential => exact hxy.elim
    | marker => exact hxy.elim
  | intent =>
    obtain rfl := hpermit.attempt.root hfits.2
    simp only [hfits.1] at horder
    obtain ⟨hcompletion, hchunks⟩ := hall.no_members horder
    cases x with
    | completion => exact hcompletion hx
    | chunk j => exact hchunks j hx
    | intent => exact hxy.elim
    | credential => exact hxy.elim
    | marker => exact hxy.elim
  | credential =>
    obtain rfl := hpermit.attempt.root hfits.2
    simp only [hfits.1] at horder
    cases x with
    | completion => exact hxy.elim
    | chunk j => exact hxy.elim
    | intent => exact requireAbsent_answers horder
    | credential => exact hxy.elim
    | marker => exact hxy.elim
  | marker =>
    obtain rfl := hpermit.attempt.root hfits.2
    simp only [hfits.1] at horder
    obtain ⟨_, hintent, horder⟩ := answers_bind.1 horder
    obtain ⟨_, hcredential, horder⟩ := answers_bind.1 horder
    obtain ⟨hcompletion, hchunks⟩ := hall.no_members horder
    cases x with
    | completion => exact hcompletion hx
    | chunk j => exact hchunks j hx
    | intent => exact requireAbsent_answers hintent
    | credential => exact requireAbsent_answers hcredential
    | marker => exact hxy.elim

/-! ## Sequences -/

/-- What every sequence of deletions keeps. -/
structure Inv (docs : Documents) (b : Binding) (m : Manifest) (start w : World) : Prop where
  fits : AllFit docs b m w
  /-- A part that is there is as it was, or its deletion has begun. -/
  kept : ∀ x : Part, x.Of m → ∀ r, w.get (x.key docs b) = some r →
    start.get (x.key docs b) = some r ∨ r.deleting = true
  order : Ordered (KeyBefore docs b m) start.get w.get

theorem first_of_permit {record : Record} {window : Int} (hall : AllFit docs b m w)
    (hstored : w.get record.key = some record)
    (hadmitted : Answers w (authorizeDelete docs now window record) ()) (key : Key)
    (hbefore : KeyBefore docs b m key record.key) : w.get key = none := by
  obtain ⟨b', hpermit⟩ := authorizeDelete_permit hadmitted
  obtain ⟨x, y, hx, hy, hxy, rfl, hykey⟩ := hbefore
  refine permit_order hall (hall y hy record ?_) hpermit hx hxy
  rw [hykey]
  exact hstored

theorem Inv.step (hinv : Inv docs b m start w) (h : Step docs b m w w') : Inv docs b m start w' := by
  cases h with
  | @delete record now window hstored hadmitted =>
    have hget : ∀ key r, (w.remove record.key).get key = some r → w.get key = some r := by
      intro key r hr
      by_cases hkey : key = record.key
      · rw [hkey, World.get_remove_self] at hr
        cases hr
      · rwa [World.get_remove_of_ne hkey] at hr
    refine ⟨fun x hx r hr => hinv.fits x hx r (hget _ _ hr), fun x hx r hr => hinv.kept x hx r (hget _ _ hr), ?_⟩
    refine hinv.order.change (by rw [hstored]; exact Option.some_ne_none _)
      (first_of_permit hinv.fits hstored hadmitted) fun key hkey => World.get_remove_of_ne hkey
  | @foreground record now window hstored hadmitted =>
    have hget : ∀ key r, (w.mark record.key now).get key = some r →
        w.get key = some r ∨ (w.get key = some record ∧ r = marked record now) := by
      intro key r hr
      by_cases hkey : key = record.key
      · subst hkey
        rw [World.get_mark_self hstored] at hr
        exact .inr ⟨hstored, (Option.some.inj hr).symm⟩
      · rw [World.get_mark_of_ne hkey] at hr
        exact .inl hr
    refine ⟨fun x hx r hr => ?_, fun x hx r hr => ?_, ?_⟩
    · rcases hget _ _ hr with hold | ⟨hold, rfl⟩
      · exact hinv.fits x hx r hold
      · exact (hinv.fits x hx record hold).marked now
    · rcases hget _ _ hr with hold | ⟨-, rfl⟩
      · exact hinv.kept x hx r hold
      · exact .inr rfl
    · exact hinv.order.change (by rw [hstored]; exact Option.some_ne_none _)
        (first_of_permit hinv.fits hstored hadmitted) fun key hkey => World.get_mark_of_ne hkey
  | other hsame =>
    refine ⟨fun x hx r hr => hinv.fits x hx r (hsame x hx ▸ hr),
      fun x hx r hr => hinv.kept x hx r (hsame x hx ▸ hr), hinv.order.frame ?_⟩
    rintro _ _ ⟨x, y, hx, hy, -, rfl, rfl⟩
    exact ⟨hsame x hx, hsame y hy⟩

theorem Inv.reached (hinv : Inv docs b m start start) (h : Reached docs b m start w) :
    Inv docs b m start w := by
  induction h with
  | refl => exact hinv
  | tail _ hstep ih => exact ih.step hstep

/-! ## The start -/

theorem cleanupView_of_present (h : r.deleting = false) : cleanupView r = r := by
  have hforeground : foregroundDeleting r = false := by rw [foregroundDeleting, h, Bool.false_and]
  have hnone : r.deletionTimestamp = none := by
    rw [Record.deleting, Option.isSome_eq_false_iff, Option.isNone_iff_eq_none] at h
    exact h
  rw [cleanupView, hforeground, ← hnone]
  rfl

theorem memberOf_read {name member uid : Bytes} {type : RecordType} {v : ResultStore.World}
    (hname : resultName docs.toCodec b = .ok name) (huid : uid ≠ [])
    (hread : readAt v (ResultStore.record docs.toCodec b.ns member type (childOwner name uid) []) = .ok r)
    (hmember : (type = .complete ∧ member = completionName name) ∨
      (type = .chunk ∧ ∃ i < maxChunks, member = chunkName name i)) :
    r.type = type ∧ memberOf docs r b = true := by
  obtain ⟨-, hr, hpresent, hshape⟩ := readAt_ok hread
  have hrname : r.name = member := congrArg Prod.snd (recordShape_iff hshape).1
  have htype : r.type = type := (recordShape_iff hshape).2
  have hrefs : r.ownerReferences = [childOwner name uid] := by
    have hfields := hshape
    simp only [recordShape, Bool.and_eq_true, decide_eq_true_eq] at hfields
    exact hfields.1.2
  refine ⟨htype, ?_⟩
  unfold memberOf
  rw [cleanupView_of_present hpresent]
  simp only [hname, hrefs, Bool.and_eq_true, decide_eq_true_eq]
  have hshape' : recordShape r (ResultStore.record docs.toCodec b.ns r.name r.type
      (childOwner name (childOwner name uid).uid) []) = true := by
    rw [hrname, htype]
    exact hshape
  refine ⟨⟨⟨hr, huid⟩, ?_⟩, hshape'⟩
  rcases hmember with ⟨rfl, rfl⟩ | ⟨rfl, i, hi, rfl⟩
  · rw [htype]
    simpa using hrname
  · rw [htype]
    simp only [List.any_eq_true, List.mem_range, decide_eq_true_eq]
    exact ⟨i, hi, hrname⟩

theorem Complete.whole {payload : Bytes} {receipt : Receipt} (h : Complete docs b w payload receipt) :
    ∃ intent m, Whole docs.toCodec w.view b (intentName docs b) intent m := by
  obtain ⟨name, intent, m, hwhole⟩ := load_whole h.loaded
  rw [← intentName_eq hwhole.named] at hwhole
  exact ⟨intent, m, hwhole⟩

theorem Complete.inv {payload : Bytes} {receipt : Receipt} {intent : Record}
    (h : Complete docs b start payload receipt)
    (hwhole : Whole docs.toCodec start.view b (intentName docs b) intent m) :
    Inv docs b m start start := by
  obtain ⟨hget, huid, hpresent, hshape⟩ := readAt_ok hwhole.read
  have hadmitted := admissionManifest_ok hwhole.manifest
  refine ⟨fun x hx r hr => ?_, fun x _ r hr => .inl hr, Ordered.refl⟩
  cases x with
  | completion =>
    obtain ⟨ready, hready⟩ := hwhole.completion hx
    obtain rfl : ready = r := Option.some.inj ((readAt_ok hready).1.symm.trans hr)
    exact memberOf_read hwhole.named huid hready (.inl ⟨rfl, rfl⟩)
  | chunk i =>
    obtain ⟨part, hpart⟩ := hwhole.chunks i hx
    obtain rfl : part = r := Option.some.inj ((readAt_ok hpart).1.symm.trans hr)
    have hinlined : m.inlined = none := by
      cases hm : m.inlined with
      | none => rfl
      | some payload =>
        rw [Part.Of, (hadmitted.inlined payload hm).2.2] at hx
        exact absurd hx (Nat.not_lt_zero _)
    exact memberOf_read hwhole.named huid hpart
      (.inr ⟨rfl, i, Nat.lt_of_lt_of_le hx (hadmitted.chunked hinlined), rfl⟩)
  | intent =>
    obtain rfl : intent = r := Option.some.inj (hget.symm.trans hr)
    refine ⟨hadmitted.type, ?_⟩
    unfold rootBinding
    rw [hadmitted.type]
    have hstored : storedBinding docs intent = .ok b := by
      unfold storedBinding
      rw [if_neg huid, cleanupView_of_present hpresent, hwhole.manifest]
      exact congrArg Except.ok hwhole.binding
    simp only [hstored]
  | credential =>
    obtain ⟨stored, hstored, hfits⟩ := h.credential
    obtain rfl : stored = r := Option.some.inj (hstored.symm.trans hr)
    exact hfits
  | marker =>
    obtain ⟨stored, hstored, hfits⟩ := h.marker
    obtain rfl : stored = r := Option.some.inj (hstored.symm.trans hr)
    exact hfits

/-! ## `Load` in every state -/

/-- What `Load` returns: the same as at the start; that the result is incomplete; or a conflict, while the
intent or the completion is being deleted. -/
theorem load_reached {intent : Record} (hinv : Inv docs b m start w)
    (hwhole : Whole docs.toCodec start.view b (intentName docs b) intent m) :
    answer w.view (load docs.toCodec b) = answer start.view (load docs.toCodec b) ∨
      answer w.view (load docs.toCodec b) = .error .incomplete ∨
      answer w.view (load docs.toCodec b) = .error .conflict ∧
        ∃ x : Part, (x = .intent ∨ x = .completion) ∧ ∃ r, w.get (x.key docs b) = some r ∧ r.deleting = true := by
  obtain ⟨hget, huid, hpresent, hshape⟩ := readAt_ok hwhole.read
  have hadmitted := admissionManifest_ok hwhole.manifest
  rw [answer_load hwhole.named, answer_load hwhole.named]
  cases hintent : w.get (Part.intent.key docs b) with
  | none =>
    have hread : readAt w.view (intentRecord docs.toCodec b (intentName docs b) []) = .error .incomplete :=
      readAt_none hintent
    rw [hread]
    exact .inr (.inl rfl)
  | some r =>
    rcases hinv.kept .intent trivial r hintent with hsame | hdeleting
    · have hread : readAt w.view (intentRecord docs.toCodec b (intentName docs b) []) = .ok intent := by
        rw [← hwhole.read]
        exact readAt_congr (hintent.trans hsame.symm)
      rw [hread, hwhole.read]
      by_cases hinlined : m.inlined = none
      · cases hready : w.get (Part.completion.key docs b) with
        | none =>
          exact .inr (.inl (loadIntent_error huid hwhole.manifest hwhole.binding hinlined (readAt_none hready)))
        | some ready =>
          rcases hinv.kept .completion hinlined ready hready with hsame | hdeleting
          · refine .inl (loadIntent_agree hwhole.manifest (fun _ => hready.trans hsame.symm) fun i hi => ?_)
            -- A chunk changes only after the completion is gone.
            by_contra hchunk
            have hgone := hinv.order _ _ ⟨.completion, .chunk i, hinlined, hi, trivial, rfl, rfl⟩ hchunk
            rw [hready] at hgone
            cases hgone
          · exact .inr (.inr ⟨loadIntent_error huid hwhole.manifest hwhole.binding hinlined
              (readAt_deleting hready hdeleting), .completion, .inr rfl, ready, hready, hdeleting⟩)
      · refine .inl (loadIntent_agree hwhole.manifest (fun h => absurd h hinlined) fun i hi => ?_)
        obtain ⟨payload, hpayload⟩ := Option.ne_none_iff_exists'.1 hinlined
        rw [(hadmitted.inlined payload hpayload).2.2] at hi
        exact absurd hi (Nat.not_lt_zero _)
    · have hread : readAt w.view (intentRecord docs.toCodec b (intentName docs b) []) = .error .conflict :=
        readAt_deleting hintent hdeleting
      rw [hread]
      exact .inr (.inr ⟨rfl, .intent, .inl rfl, r, hintent, hdeleting⟩)

/-- Evidence is not deleted early, and not torn:

* a deletion is admitted only when nothing pins the attempt, its Job is gone, and the windows of the record
  and of its retirement are over;
* from a complete publication with its credential and its marker, any sequence of admitted deletions
  changes a part only after all parts before it are gone, and `Load` returns the whole payload, or that it
  is incomplete, or a conflict while the intent or the completion is being deleted. -/
theorem evidence_kept (docs : Documents) :
    (∀ w now window record, Answers w (authorizeDelete docs now window record) () →
      ∃ b, AttemptOf docs w record b ∧ Unpinned docs w b ∧ JobGone w b ∧
        Elapsed record.creationTimestamp window now ∧
        (MarkerElapsed docs w now window record b ∨ ForegroundElapsed docs w now window record b)) ∧
    ∀ b start payload receipt, Complete docs b start payload receipt →
      ∃ intent m, start.get (b.ns, intentName docs b) = some intent ∧
        admissionManifest docs.toCodec intent = .ok (m, intentName docs b) ∧
        ∀ w, Reached docs b m start w → (∀ x y : Part, x.Of m → y.Of m → x.Before y →
            w.get (y.key docs b) ≠ start.get (y.key docs b) → w.get (x.key docs b) = none) ∧
          (answer w.view (load docs.toCodec b) = .ok (payload, receipt) ∨
            answer w.view (load docs.toCodec b) = .error .incomplete ∨
            answer w.view (load docs.toCodec b) = .error .conflict ∧ ∃ x : Part,
              (x = .intent ∨ x = .completion) ∧ ∃ r, w.get (x.key docs b) = some r ∧ r.deleting = true) := by
  refine ⟨fun w now window record h => ?_, fun b start payload receipt h => ?_⟩
  · obtain ⟨b, hpermit⟩ := authorizeDelete_permit h
    exact ⟨b, hpermit.attempt, hpermit.unpinned, hpermit.jobGone, hpermit.aged, hpermit.retired⟩
  obtain ⟨intent, m, hwhole⟩ := h.whole
  refine ⟨intent, m, (readAt_ok hwhole.read).1, hwhole.manifest, fun w hreached => ?_⟩
  have hinv := (h.inv hwhole).reached hreached
  refine ⟨fun x y hx hy hxy => hinv.order _ _ ⟨x, y, hx, hy, hxy, rfl, rfl⟩, ?_⟩
  have hload := load_reached hinv hwhole
  rwa [h.loaded] at hload

/-! ## A sample -/

/-- The answers of a server whose reads do not fail. -/
def handle (w : World) : (c : Call) → c.Ans × World
  | .getRecord key => (.of (w.get key), w)
  | .getJob key => (.of (w.jobs key), w)
  | .getSchema key => (.of (w.schemas key), w)
  | .getMigration key => (.of (w.migrations key), w)
  | .list ns index start =>
    (some {
      items := ((w.listed ns index).drop start).take 128
      continuation := if (w.listed ns index).length ≤ start + 128 then none else some (start + 128) }, w)

theorem handle_serves (w : World) (c : Call) : serve () w c (handle w c).1 (handle w c).2 := by
  cases c with
  | getRecord key => exact ⟨rfl, .inr rfl⟩
  | getJob key => exact ⟨rfl, .inr rfl⟩
  | getSchema key => exact ⟨rfl, .inr rfl⟩
  | getMigration key => exact ⟨rfl, .inr rfl⟩
  | list ns index start => exact ⟨rfl, .inr ⟨128, Nat.le_refl _, rfl⟩⟩

theorem answers_of_exec {α : Type} {action : Action α} {a : α}
    (h : (action.run.exec handle w).1 = .ok a) : Answers w action a := by
  have hends : Prog.Ends server () _ w _ _ := Prog.ends_exec handle_serves action.run w
  have hsame := Prog.Ends.stays (fun _ _ _ _ h => serve_same h) hends
  rw [h, hsame] at hends
  exact hends

/-- The documents in JSON, and a digest that tells the payload from all other bytes. -/
def sampleDocs : Documents := jsonDocuments (PlanStore.sampleHash samplePayload)

def stored (r : Record) : Record := { r with uid := bytes "uid", creationTimestamp := some 0 }

def sampleManifest : Manifest :=
  chunkedManifest sampleCodec sampleBinding samplePayload (sampleCodec.digest samplePayload)

def sampleIntentRecord : Record :=
  stored (intentRecord sampleCodec sampleBinding sampleName (sampleCodec.encodeManifest sampleManifest))

def sampleCompletion : Completion where
  manifestUID := bytes "uid"
  manifestDigest := sampleCodec.digest sampleIntentRecord.data
  chunkUIDs := [bytes "uid"]

def sampleCompletionRecord : Record :=
  stored (ResultStore.record sampleCodec sampleBinding.ns (completionName sampleName) .complete
    (childOwner sampleName (bytes "uid")) (sampleCodec.encodeCompletion sampleCompletion))

def sampleSource : Source where
  name := sampleName
  uid := bytes "uid"
  type := .intent

def sampleCredential : Record :=
  stored ((podBindingRecord sampleDocs sampleIdentity).toOption.getD sampleIntentRecord)

def sampleMarker : Record :=
  stored ((retirementRecord sampleDocs sampleBinding sampleSource (3600 * second)).toOption.getD sampleIntentRecord)

/-- A chunked publication with its credential and its marker, whose schema is gone. -/
def sampleWorld : World where
  records :=
    [sampleIntentRecord,
      stored (ResultStore.record sampleCodec sampleBinding.ns (chunkName sampleName 0) .chunk
        (childOwner sampleName (bytes "uid")) samplePayload),
      sampleCompletionRecord, sampleCredential, sampleMarker]
  jobs := fun _ => none
  schemas := fun _ => none
  migrations := fun _ => none

/-- After two hours the deletion of the completion is admitted, and the result is then incomplete. -/
theorem evidence_kept_sample :
    Elapsed sampleCompletionRecord.creationTimestamp minimumWindow (7200 * second) ∧
      answer sampleWorld.view (load sampleCodec sampleBinding) =
        .ok (samplePayload, sampleReceipt sampleCompletionRecord.name) ∧
      sampleWorld.get ((Part.chunk 0).key sampleDocs sampleBinding) ≠ none ∧
      answer (sampleWorld.remove sampleCompletionRecord.key).view (load sampleCodec sampleBinding) =
        .error .incomplete := by
  let deleted := answer (sampleWorld.remove sampleCompletionRecord.key).view (load sampleCodec sampleBinding)
  -- One evaluation, so that the kernel writes each document once for all of the facts.
  have hran : (answer sampleWorld.view (load sampleCodec sampleBinding) =
        .ok (samplePayload, sampleReceipt sampleCompletionRecord.name) ∧
      sampleWorld.get ((Part.chunk 0).key sampleDocs sampleBinding) ≠ none ∧
      deleted ≠ .ok (samplePayload, sampleReceipt sampleCompletionRecord.name) ∧ deleted ≠ .error .conflict) ∧
      ((authorizeDelete sampleDocs (7200 * second) minimumWindow sampleCompletionRecord).run.exec handle
        sampleWorld).1 = .ok () ∧
      (sampleWorld.get (Part.credential.key sampleDocs sampleBinding) = some sampleCredential ∧
        sampleCredential.type = .credential ∧ rootBinding sampleDocs sampleCredential = .ok sampleBinding) ∧
      sampleWorld.get (Part.marker.key sampleDocs sampleBinding) = some sampleMarker ∧
        sampleMarker.type = .retired ∧ rootBinding sampleDocs sampleMarker = .ok sampleBinding := by
    decide +kernel
  obtain ⟨⟨hloaded, hchunk, hother⟩, hexec, hcredential, hmarker⟩ := hran
  have hadmitted : Answers sampleWorld
      (authorizeDelete sampleDocs (7200 * second) minimumWindow sampleCompletionRecord) () :=
    answers_of_exec hexec
  obtain ⟨hpermitted, hsequences⟩ := evidence_kept sampleDocs
  obtain ⟨b, -, -, -, haged, -⟩ := hpermitted _ _ _ _ hadmitted
  obtain ⟨intent, m, -, -, hreached⟩ := hsequences _ _ _ _ ⟨hloaded, ⟨_, hcredential⟩, ⟨_, hmarker⟩⟩
  refine ⟨haged, hloaded, hchunk, ?_⟩
  obtain ⟨-, hload⟩ := hreached _
    (.single (@Step.delete _ _ _ _ sampleCompletionRecord _ _ rfl hadmitted))
  exact (hload.resolve_left hother.1).resolve_right fun h => hother.2 h.1

end Ptah.ResultCleanup
