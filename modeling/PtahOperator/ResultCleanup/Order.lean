import PtahOperator.Conc.Ordered
import PtahOperator.ResultStore.Runs
import PtahOperator.ResultCleanup.Policy

/-!
# Result records are deleted in order

What the foreground deletion of a record leaves of it, and what the policy's last look at the members of a
publication says.

* `Settled`, `marked`: a record that is no longer written to, and one whose deletion was admitted. Its
  binding and its identity are read as before (`storedBinding_marked`, `storedRecordIdentity_marked`,
  `rootBinding_marked`).
* `requireNoMembers_answers`: an empty answer means that no record of the publication is left.
-/

namespace Ptah.ResultCleanup

open Conc
open Go (Bytes)
open ResultStore

/-! ## Foreground deletion of a record -/

/-- A record whose foreground deletion was admitted. -/
def marked (r : Record) (now : Int) : Record :=
  { r with
    deletionTimestamp := some (r.deletionTimestamp.getD now)
    finalizers := if r.finalizers.contains finalizerDeleteDependents then r.finalizers
      else finalizerDeleteDependents :: r.finalizers }

/-- A record has no finalizer, or that of its foreground deletion. -/
def Settled (r : Record) : Prop := r.finalizers = [] ∨ foregroundDeleting r = true

theorem settled_iff {r : Record} : Settled r ↔ ¬ (r.finalizers ≠ [] ∧ foregroundDeleting r = false) := by
  rw [not_and_or, not_not, Bool.not_eq_false]
  rfl

/-- The check of the finalizers, as the decoders make it. -/
theorem Settled.passes {r : Record} (h : Settled r) :
    (decide (r.finalizers ≠ []) && !foregroundDeleting r) = false := by
  rcases h with h | h
  · simp [h]
  · simp [h]

theorem Settled.foregroundDeleting_marked {r : Record} (h : Settled r) (now : Int) :
    foregroundDeleting (marked r now) = true := by
  rcases h with h | h
  · simp [foregroundDeleting, marked, Record.deleting, h]
  · simp only [foregroundDeleting, Bool.and_eq_true, decide_eq_true_eq] at h
    simp [foregroundDeleting, marked, Record.deleting, h.2]

theorem Settled.marked {r : Record} (h : Settled r) (now : Int) : Settled (marked r now) :=
  .inr (h.foregroundDeleting_marked now)

theorem settled_of_cleanupView {r : Record} (h : (cleanupView r).finalizers = []) : Settled r := by
  by_cases hdeleting : foregroundDeleting r = true
  · exact .inr hdeleting
  · simp only [cleanupView, hdeleting] at h
    exact .inl h

theorem cleanupView_marked {r : Record} (h : (cleanupView r).finalizers = []) (now : Int) :
    cleanupView (marked r now) = cleanupView r := by
  have hmarked := (settled_of_cleanupView h).foregroundDeleting_marked now
  have hview : cleanupView (marked r now) = { r with finalizers := [], deletionTimestamp := none } := by
    simp only [cleanupView, hmarked, if_true]
    rfl
  have hself : cleanupView r = { r with finalizers := [], deletionTimestamp := none } := by
    have hfinalizers : (if foregroundDeleting r then [] else r.finalizers) = [] := h
    simp only [cleanupView, hfinalizers]
  rw [hview, hself]

section Marked

variable {docs : Documents} {b : Binding} {r : Record}

theorem memberOf_marked (h : memberOf docs r b = true) (now : Int) : memberOf docs (marked r now) b = true := by
  have hview : (cleanupView r).finalizers = [] := by
    unfold memberOf at h
    dsimp only at h
    split at h
    · simp only [Bool.and_eq_true] at h
      have hshape := h.2
      simp only [recordShape, Bool.and_eq_true, decide_eq_true_eq] at hshape
      exact hshape.1.1.1.2
    · cases h
  unfold memberOf at h ⊢
  rw [cleanupView_marked hview]
  exact h

theorem storedBinding_marked (h : storedBinding docs r = .ok b) (now : Int) :
    storedBinding docs (marked r now) = .ok b := by
  have hview : (cleanupView r).finalizers = [] := by
    unfold storedBinding at h
    split at h
    · cases h
    split at h
    · cases h
    rename_i m name hm
    have hshape := (admissionManifest_ok hm).shape
    simp only [recordShape, Bool.and_eq_true, decide_eq_true_eq] at hshape
    exact hshape.1.1.1.2
  unfold storedBinding at h ⊢
  rw [cleanupView_marked hview]
  exact h

theorem decode_marked {retirement : Retirement} (h : decode docs r = .ok retirement) (now : Int) :
    decode docs (marked r now) = .ok retirement := by
  have hsettled : Settled r := by
    unfold decode at h
    split at h
    · cases h
    split at h
    · cases h
    split at h
    · cases h
    split at h
    · cases h
    split at h
    · cases h
    split at h
    · cases h
    rename_i hfinalizers
    rw [settled_iff]
    simpa using hfinalizers
  unfold decode at h ⊢
  simp only [hsettled.passes, (hsettled.marked now).passes] at h ⊢
  exact h

theorem storedRecordIdentity_settled {identity : Identity} (h : storedRecordIdentity docs r = .ok identity) :
    Settled r := by
  rw [settled_iff]
  rintro ⟨hfinalizers, hdeleting⟩
  have hpod : decodePodBinding docs r true = .error .credential := by simp [decodePodBinding, hfinalizers, hdeleting]
  have hsecret : recordSecret docs r = .error .credential := by
    simp [recordSecret, hfinalizers, hdeleting]
  simp [storedRecordIdentity, hpod, hsecret] at h

theorem storedRecordIdentity_marked (h : Settled r) (now : Int) :
    storedRecordIdentity docs (marked r now) = storedRecordIdentity docs r := by
  have hpod : decodePodBinding docs (marked r now) true = decodePodBinding docs r true := by
    unfold decodePodBinding
    simp only [h.passes, (h.marked now).passes]
    rfl
  have hsecret : recordSecret docs (marked r now) = recordSecret docs r := by
    unfold recordSecret
    simp only [h.passes, (h.marked now).passes]
    rfl
  unfold storedRecordIdentity
  rw [hpod, hsecret]
  rfl

theorem rootBinding_marked (h : rootBinding docs r = .ok b) (now : Int) :
    rootBinding docs (marked r now) = .ok b := by
  unfold rootBinding at h ⊢
  have htype : (marked r now).type = r.type := rfl
  rw [htype]
  split at h
  · cases hidentity : storedRecordIdentity docs r with
    | error e =>
      rw [hidentity] at h
      cases h
    | ok identity =>
      rw [storedRecordIdentity_marked (storedRecordIdentity_settled hidentity)]
      exact h
  · cases hstored : storedBinding docs r with
    | error e =>
      rw [hstored] at h
      cases h
    | ok stored =>
      rw [hstored] at h
      rw [storedBinding_marked hstored]
      exact h
  · cases hdecoded : decode docs r with
    | error e =>
      rw [hdecoded] at h
      cases h
    | ok retirement =>
      rw [hdecoded] at h
      rw [decode_marked hdecoded]
      exact h
  · cases h

end Marked

/-! ## The listing of members -/

section Listing

variable {docs : Documents} {w : World} {b : Binding} {name : Bytes} {index : Index}

theorem addMembers_ok {found page result : List Record} (h : addMembers name index found page = .ok result) :
    found ⊆ result ∧ ∀ r ∈ page, ownedBy name r = true → r ∈ result := by
  induction page generalizing found with
  | nil =>
    cases h
    exact ⟨List.Subset.refl _, fun r hr => by cases hr⟩
  | cons member page ih =>
    rw [addMembers] at h
    split at h
    · split at h
      · cases h
      obtain ⟨hfound, hpage⟩ := ih h
      have hmember : member ∈ result := hfound (by simp)
      refine ⟨fun r hr => hfound (List.mem_append_left _ hr), fun r hr howned => ?_⟩
      rcases hr with _ | ⟨_, hr⟩
      · exact hmember
      · exact hpage r hr howned
    · rename_i hother
      split at h
      · cases h
      obtain ⟨hfound, hpage⟩ := ih h
      refine ⟨hfound, fun r hr howned => ?_⟩
      rcases hr with _ | ⟨_, hr⟩
      · exact absurd howned hother
      · exact hpage r hr howned

/-- The pages that are read show every listed child from the start on. -/
theorem memberPages_answers {ns : Bytes} {pages start : Nat} {found result : List Record}
    (h : Answers w (memberPages ns name index pages start found) result) :
    found ⊆ result ∧ ∀ r ∈ (w.listed ns index).drop start, ownedBy name r = true → r ∈ result := by
  induction pages generalizing start found with
  | zero => exact absurd h answers_throw
  | succ pages ih =>
    obtain ⟨answer, hanswer, h⟩ := answers_bind.1 h
    obtain ⟨-, rfl | ⟨size, -, rfl⟩⟩ := answers_send.1 hanswer
    · exact absurd h answers_throw
    obtain ⟨grown, hgrown, h⟩ := answers_bind.1 h
    obtain ⟨hfound, hpage⟩ := addMembers_ok (answers_ofExcept.1 hgrown)
    by_cases hlast : (w.listed ns index).length ≤ start + size
    · simp only [hlast, if_true] at h
      obtain rfl := answers_pure.1 h
      refine ⟨hfound, fun r hr howned => hpage r ?_ howned⟩
      rwa [List.take_of_length_le (by rw [List.length_drop]; omega)]
    · simp only [hlast, if_false] at h
      obtain ⟨hgrown, hrest⟩ := ih h
      refine ⟨fun r hr => hgrown (hfound hr), fun r hr howned => ?_⟩
      rw [← List.take_append_drop size ((w.listed ns index).drop start), List.drop_drop] at hr
      rcases List.mem_append.1 hr with hr | hr
      · exact hgrown (hpage r hr howned)
      · exact hrest r hr howned

theorem memberOf_selected {r : Record} (hname : resultName docs.toCodec b = .ok name)
    (h : memberOf docs r b = true) :
    r.ns = b.ns ∧ ownedBy name r = true ∧
      ((Index.attempt (docs.attemptLabel name)).selects r = true ∨ Index.legacy.selects r = true) := by
  have hmember := memberOf_not_root h
  unfold memberOf at h
  dsimp only at h
  split at h
  · rename_i name' ref hname' hrefs
    cases hname.symm.trans hname'
    simp only [Bool.and_eq_true] at h
    have hshape := h.2
    simp only [recordShape, Bool.and_eq_true, decide_eq_true_eq] at hshape
    obtain ⟨⟨⟨⟨⟨⟨⟨hns, -⟩, -⟩, -⟩, -⟩, hlabels⟩, howners⟩, -⟩ := hshape
    have hrefs' : r.ownerReferences = [childOwner name ref.uid] := howners
    have hrole : ∀ labels : Labels, labels.role = some r.type →
        (labels.role = some .chunk || labels.role = some .complete) = true := by
      intro labels hlabels
      simp only [isMember, Bool.or_eq_true, decide_eq_true_eq] at hmember
      simp only [Bool.or_eq_true, decide_eq_true_eq, hlabels, Option.some.injEq]
      exact hmember
    have hlabel : (ResultStore.record docs.toCodec b.ns (cleanupView r).name (cleanupView r).type
        (childOwner name ref.uid) []).labels =
        { role := some r.type, attempt := some (docs.attemptLabel name) } := rfl
    refine ⟨hns, ?_, ?_⟩
    · rw [ownedBy, hrefs']
      simp [childOwner, owner]
    split at hlabels
    · have hlabels : r.labels = { role := some r.type, attempt := none } := hlabels
      refine .inr ?_
      rw [Index.selects, hlabels, hrole _ rfl]
      rfl
    · have hlabels : r.labels = { role := some r.type, attempt := some (docs.attemptLabel name) } := hlabels
      rw [Index.selects, hlabels, hrole _ rfl]
      simp
  · cases h

theorem requireNoMembers_answers (h : Answers w (requireNoMembers docs b) ()) {r : Record}
    (hstored : r ∈ w.records) : memberOf docs r b = false := by
  by_contra hmember
  rw [Bool.not_eq_false] at hmember
  obtain ⟨found, hfound, h⟩ := answers_bind.1 h
  split at h
  · exact absurd h answers_throw
  rename_i hempty
  rw [ne_eq, not_not] at hempty
  unfold members at hfound
  split at hfound
  · exact absurd hfound answers_throw
  rename_i name hname
  obtain ⟨indexed, hindexed, hfound⟩ := answers_bind.1 hfound
  obtain ⟨all, hall, hfound⟩ := answers_bind.1 hfound
  have hsorted := answers_pure.1 hfound
  have hnil : all = [] := by
    have hperm := List.perm_insertionSort memberOrder all
    rw [hsorted, hempty] at hperm
    exact List.nil_perm.1 hperm
  obtain ⟨-, hlisted⟩ := memberPages_answers hindexed
  obtain ⟨hkept, hlegacy⟩ := memberPages_answers hall
  obtain ⟨hns, howned, hselected⟩ := memberOf_selected hname hmember
  have hmem : r ∈ all := by
    rcases hselected with hselected | hselected
    · refine hkept (hlisted r ?_ howned)
      exact List.mem_filter.2 ⟨hstored, by simp [hns, hselected]⟩
    · refine hlegacy r ?_ howned
      exact List.mem_filter.2 ⟨hstored, by simp [hns, hselected]⟩
  rw [hnil] at hmem
  cases hmem

end Listing

end Ptah.ResultCleanup
