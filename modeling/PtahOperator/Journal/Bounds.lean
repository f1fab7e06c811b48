import Mathlib.Data.Multiset.AddSub
import Mathlib.Tactic.ByContra
import Mathlib.Tactic.Conv
import PtahOperator.Journal.Entries

/-!
# The bounded journal forgets nothing a decision needs

What a decision reads of a journal is a fold over its entries (`awaiting`): the plan that waits to be
carried out, and whether it was approved. The bounds keep the value of that fold, so a journal and the
same journal without bounds answer alike, write after write.

* `outstandingPlan_eq`: `outstandingPlan` is the fold.
* `boundFrom_eq`: what the bounds keep, and what they drop.
* `Bounded`: a bounded journal beside the unbounded one.
* `Fresh`: no event publishes the plan that already waits.
-/

namespace Ptah.Journal

open Migration (Time)

/-! ## The plan that waits -/

/-- The plan that waits, and whether it was approved. -/
abbrev Awaiting := Option (String × Bool)

def Approves (plan : String) (entry : Entry) : Prop :=
  entry.type = .approvalAccepted ∧ entry.plan = plan

instance Approves.decidable (plan : String) (entry : Entry) : Decidable (Approves plan entry) :=
  inferInstanceAs (Decidable (_ ∧ _))

/-- What an entry does to the plan that waits. -/
def carry (waiting : Awaiting) (entry : Entry) : Awaiting :=
  match entry.type with
  | .planPublished => some (entry.plan, false)
  | .approvalAccepted => waiting.map fun w => (w.1, w.2 || decide (entry.plan = w.1))
  | .applyFinished | .runFinished => none
  | .verified | .runAcknowledged | .operationFailed => waiting

/-- The plan that waits behind some entries. -/
def awaiting (entries : List Entry) : Awaiting := entries.foldl carry none

/-- The entry neither publishes a plan nor carries one out. -/
def Passive (entry : Entry) : Prop :=
  entry.type ≠ .planPublished ∧ entry.type ≠ .applyFinished ∧ entry.type ≠ .runFinished

theorem awaiting_append (entries more : List Entry) :
    awaiting (entries ++ more) = more.foldl carry (awaiting entries) :=
  List.foldl_append

theorem carry_published {entry : Entry} (h : entry.type = .planPublished) (waiting : Awaiting) :
    carry waiting entry = some (entry.plan, false) := by
  simp [carry, h]

theorem carry_failed {entry : Entry} (h : entry.type = .operationFailed) (waiting : Awaiting) :
    carry waiting entry = waiting := by
  simp [carry, h]

theorem carry_passive {entry : Entry} (h : Passive entry) (plan : String) (approved : Bool) :
    carry (some (plan, approved)) entry = some (plan, approved || decide (Approves plan entry)) := by
  obtain ⟨hpublished, happly, hrun⟩ := h
  cases htype : entry.type <;> simp_all [carry, Approves]

variable {post kept whole : List Entry} {approvals : List Nat} {coveredSince : Time}
  {full : Option LifecycleJournal} {waiting : Awaiting}

theorem foldl_passive (h : ∀ entry ∈ post, Passive entry) (plan : String) (approved : Bool) :
    post.foldl carry (some (plan, approved)) =
      some (plan, approved || post.any fun entry => Approves plan entry) := by
  induction post generalizing approved with
  | nil => simp
  | cons entry post ih =>
    rw [List.foldl_cons, carry_passive (h entry (.head _)),
      ih fun e he => h e (.tail _ he), List.any_cons, Bool.or_assoc]

theorem foldl_passive_none (h : ∀ entry ∈ post, Passive entry) : post.foldl carry none = none := by
  induction post with
  | nil => rfl
  | cons entry post ih =>
    have hcarry : carry none entry = none := by
      have := (h entry (.head _)).1
      cases htype : entry.type <;> simp_all [carry]
    rw [List.foldl_cons, hcarry]
    exact ih fun e he => h e (.tail _ he)

/-- Behind the entry that published it, a plan waits until something carries it out. -/
theorem awaiting_published {pre : List Entry} {entry : Entry} (hentry : entry.type = .planPublished)
    (hpost : ∀ e ∈ post, Passive e) :
    awaiting (pre ++ entry :: post) =
      some (entry.plan, post.any fun e => Approves entry.plan e) := by
  rw [awaiting_append, List.foldl_cons, carry_published hentry, foldl_passive hpost, Bool.false_or]

/-- A plan that waits behind the end of a journal waits behind all of it. -/
theorem awaiting_suffix {pre : List Entry} (h : awaiting (pre ++ post) = none) :
    awaiting post = none := by
  have hstep : ∀ (entries : List Entry) (a b), a = none ∨ a = b →
      entries.foldl carry a = none ∨ entries.foldl carry a = entries.foldl carry b := by
    intro entries
    induction entries with
    | nil => exact fun a b hab => hab
    | cons entry entries ih =>
      intro a b hab
      refine ih _ _ ?_
      rcases hab with rfl | rfl
      · cases htype : entry.type <;> simp [carry, htype]
      · exact .inr rfl
  rw [awaiting_append] at h
  rcases hstep post none (awaiting pre) (.inl rfl) with hnone | hsame
  · exact hnone
  · exact hsame.trans h

/-! ## Where its entries are -/

/-- What `outstanding` finds in a journal. -/
inductive Located (entries : List Entry) : Option Nat × Option Nat → Prop where
  | nothing (h : awaiting entries = none) : Located entries (none, none)
  | unapproved {pre post : List Entry} {entry : Entry} (split : entries = pre ++ entry :: post)
      (published : entry.type = .planPublished) (passive : ∀ e ∈ post, Passive e)
      (unapproved : ∀ e ∈ post, ¬ Approves entry.plan e) : Located entries (some pre.length, none)
  | approved {pre mid post : List Entry} {entry approval : Entry}
      (split : entries = pre ++ entry :: (mid ++ approval :: post))
      (published : entry.type = .planPublished) (passive : ∀ e ∈ mid ++ approval :: post, Passive e)
      (approves : Approves entry.plan approval) :
      Located entries (some pre.length, some (pre.length + 1 + mid.length))

/-- The approvals that the loop of `outstanding` has seen are those behind its index. -/
structure SeenApprovals (entries : List Entry) (left : Nat) (approvals : List Nat) : Prop where
  sound : ∀ candidate ∈ approvals, left ≤ candidate ∧
    ∃ e, entries[candidate]? = some e ∧ e.type = .approvalAccepted
  complete : ∀ candidate e, left ≤ candidate → entries[candidate]? = some e →
    e.type = .approvalAccepted → candidate ∈ approvals

theorem SeenApprovals.skip {entries : List Entry} {index : Nat} {entry : Entry}
    (h : SeenApprovals entries (index + 1) approvals) (hentry : entries[index]? = some entry)
    (htype : entry.type ≠ .approvalAccepted) : SeenApprovals entries index approvals where
  sound candidate hc := by
    obtain ⟨hle, he⟩ := h.sound candidate hc
    exact ⟨by omega, he⟩
  complete candidate e hle he happroval := by
    refine h.complete candidate e (Nat.lt_of_le_of_ne hle ?_) he happroval
    rintro rfl
    rw [hentry] at he
    cases he
    exact htype happroval

theorem SeenApprovals.add {entries : List Entry} {index : Nat} {entry : Entry}
    (h : SeenApprovals entries (index + 1) approvals) (hentry : entries[index]? = some entry)
    (htype : entry.type = .approvalAccepted) : SeenApprovals entries index (approvals ++ [index]) where
  sound candidate hc := by
    rcases List.mem_append.1 hc with hc | hc
    · obtain ⟨hle, he⟩ := h.sound candidate hc
      exact ⟨by omega, he⟩
    · obtain rfl := List.mem_singleton.1 hc
      exact ⟨Nat.le_refl _, entry, hentry, htype⟩
  complete candidate e hle he happroval := by
    rcases Nat.lt_or_eq_of_le hle with hlt | rfl
    · exact List.mem_append_left _ (h.complete candidate e hlt he happroval)
    · exact List.mem_append_right _ (List.mem_singleton_self _)

theorem split_at {entries : List Entry} {index : Nat} {entry : Entry} (h : entries[index]? = some entry) :
    entries = entries.take index ++ entry :: entries.drop (index + 1) ∧
      (entries.take index).length = index := by
  obtain ⟨hlt, heq⟩ := List.getElem?_eq_some_iff.1 h
  refine ⟨?_, List.length_take_of_le (Nat.le_of_lt hlt)⟩
  rw [← heq, ← List.drop_eq_getElem_cons hlt, List.take_append_drop]

theorem outstandingFrom_located {entries : List Entry} {left : Nat}
    (hleft : left ≤ entries.length) (hseen : SeenApprovals entries left approvals)
    (hpassive : ∀ e ∈ entries.drop left, Passive e) :
    Located entries (outstandingFrom entries left approvals) := by
  induction left generalizing approvals with
  | zero =>
    refine .nothing ?_
    exact foldl_passive_none (by simpa using hpassive)
  | succ index ih =>
    have hlt : index < entries.length := hleft
    have hentry : entries[index]? = some entries[index] := List.getElem?_eq_getElem hlt
    obtain ⟨hsplit, hlen⟩ := split_at hentry
    rw [outstandingFrom, hentry]
    dsimp only
    have hrest (hp : Passive entries[index]) : ∀ e ∈ entries.drop index, Passive e := by
      rw [List.drop_eq_getElem_cons hlt]
      intro e he
      rcases he with _ | ⟨_, he⟩
      · exact hp
      · exact hpassive e he
    cases htype : entries[index].type with
    | planPublished =>
      cases hfind : approvals.find? fun candidate =>
          (entries[candidate]?).any (·.plan = entries[index].plan) with
      | none =>
        have hno : ∀ e ∈ entries.drop (index + 1), ¬ Approves entries[index].plan e := by
          rintro e he ⟨hacc, hplan⟩
          obtain ⟨k, hk⟩ := List.mem_iff_getElem?.1 he
          rw [List.getElem?_drop] at hk
          have hmem := hseen.complete _ e (by omega) hk hacc
          have := List.find?_eq_none.1 hfind _ hmem
          simp [hk, hplan] at this
        have := Located.unapproved hsplit htype hpassive hno
        rwa [hlen] at this
      | some candidate =>
        obtain ⟨hle, e, he, hacc⟩ := hseen.sound candidate (List.mem_of_find?_eq_some hfind)
        have hplan : e.plan = entries[index].plan := by
          simpa [he] using List.find?_some hfind
        obtain ⟨k, rfl⟩ := Nat.exists_eq_add_of_le hle
        have hpost : (entries.drop (index + 1))[k]? = some e := by rw [List.getElem?_drop]; exact he
        obtain ⟨hpostSplit, hpostLen⟩ := split_at hpost
        have hpassive' := hpassive
        rw [hpostSplit] at hsplit hpassive'
        have := Located.approved hsplit htype hpassive' ⟨hacc, hplan⟩
        rwa [hlen, hpostLen] at this
    | approvalAccepted =>
      exact ih (Nat.le_of_lt hlt) (hseen.add hentry htype) (hrest (by simp [Passive, htype]))
    | applyFinished | runFinished =>
      refine .nothing ?_
      have hcarry : ∀ waiting, carry waiting entries[index] = none := fun waiting => by
        rw [carry, htype]
      rw [hsplit, awaiting_append, List.foldl_cons, hcarry]
      exact foldl_passive_none hpassive
    | verified | runAcknowledged | operationFailed =>
      exact ih (Nat.le_of_lt hlt) (hseen.skip hentry (by simp [htype])) (hrest (by simp [Passive, htype]))

theorem outstanding_located (entries : List Entry) : Located entries (outstanding entries) := by
  refine outstandingFrom_located (Nat.le_refl _) ⟨nofun, fun candidate e hle he => ?_⟩ (by simp)
  rw [List.getElem?_eq_none hle] at he
  cases he

theorem outstandingPlan_eq (journal : LifecycleJournal) :
    outstandingPlan (some journal) = (awaiting journal.entries).getD ("", false) := by
  rw [outstandingPlan]
  have hlocated := outstanding_located journal.entries
  cases hout : outstanding journal.entries with
  | mk published approval =>
    rw [hout] at hlocated
    cases hlocated with
    | nothing h => rw [h]; rfl
    | unapproved split hpublished hpassive hnone =>
      have hany : (List.any _ fun e => decide (Approves _ e)) = false :=
        List.any_eq_false.2 (by simpa using hnone)
      rw [split, awaiting_published hpublished hpassive, hany]
      simp
    | approved split hpublished hpassive happroves =>
      rw [split, awaiting_published hpublished hpassive]
      simp [happroves]

/-! ## What the bounds keep -/

/-- The entries that stay of those that the loop of `applyBounds` goes past, from `index` on. -/
def picked (bounds : Bounds) : (index : Nat) → List Entry → List Entry
  | _, [] => []
  | index, entry :: rest =>
    (if bounds.Keeps index then [entry] else []) ++ picked bounds (index + 1) rest

/-- The entries that go of those. -/
def gone (bounds : Bounds) : (index : Nat) → List Entry → List Entry
  | _, [] => []
  | index, entry :: rest =>
    (if bounds.Keeps index then [] else [entry]) ++ gone bounds (index + 1) rest

/-- How many entries from `index` on do not answer to the bounds. -/
def Bounds.room (bounds : Bounds) (index : Nat) : Nat :=
  (bounds.published.filter (index ≤ ·)).toList.length + (bounds.approval.filter (index ≤ ·)).toList.length

variable {bounds : Bounds} {index : Nat}

theorem picked_append (a b : List Entry) :
    picked bounds index (a ++ b) = picked bounds index a ++ picked bounds (index + a.length) b := by
  induction a generalizing index with
  | nil => rfl
  | cons entry a ih =>
    rw [List.cons_append, picked, picked, ih, List.append_assoc, List.length_cons,
      Nat.add_right_comm, Nat.add_assoc]

theorem picked_sublist (entries : List Entry) : (picked bounds index entries).Sublist entries := by
  induction entries generalizing index with
  | nil => exact .slnil
  | cons entry entries ih =>
    rw [picked]
    split
    · exact ih.cons_cons entry
    · exact ih.cons entry

theorem gone_append_picked (entries : List Entry) :
    (gone bounds index entries ++ picked bounds index entries).Perm entries := by
  induction entries generalizing index with
  | nil => exact .nil
  | cons entry entries ih =>
    rw [gone, picked]
    split
    · exact List.perm_middle.trans (ih.cons entry)
    · exact ih.cons entry

theorem picked_eq_nil (hpublished : bounds.published = none) (happroval : bounds.approval = none)
    (entries : List Entry) : picked bounds index entries = [] := by
  induction entries generalizing index with
  | nil => rfl
  | cons entry entries ih =>
    rw [picked, ih, if_neg]
    · rfl
    · simp [Bounds.Keeps, hpublished, happroval]

theorem Bounds.room_le (bounds : Bounds) (index : Nat) : bounds.room index ≤ 2 := by
  have hle : ∀ o : Option Nat, o.toList.length ≤ 1 := fun o => by cases o <;> simp
  have h1 := hle (bounds.published.filter (index ≤ ·))
  have h2 := hle (bounds.approval.filter (index ≤ ·))
  unfold Bounds.room
  omega

theorem Bounds.room_succ (bounds : Bounds) (index : Nat) :
    bounds.room (index + 1) ≤ bounds.room index ∧
      (bounds.Keeps index → bounds.room (index + 1) < bounds.room index) := by
  have hstep : ∀ o : Option Nat,
      (o.filter (index + 1 ≤ ·)).toList.length ≤ (o.filter (index ≤ ·)).toList.length ∧
        (o = some index →
          (o.filter (index + 1 ≤ ·)).toList.length < (o.filter (index ≤ ·)).toList.length) := by
    intro o
    cases o with
    | none => simp
    | some i =>
      refine ⟨?_, fun h => ?_⟩
      · by_cases hi : index < i
        · rw [Option.filter_some, Option.filter_some, if_pos (decide_eq_true (Nat.succ_le_of_lt hi)),
            if_pos (decide_eq_true (Nat.le_of_lt hi))]
        · rw [Option.filter_some, if_neg (by rw [decide_eq_true_eq]; omega)]
          exact Nat.zero_le _
      · obtain rfl := Option.some.inj h
        simp [Option.filter_some]
  obtain ⟨hle1, hlt1⟩ := hstep bounds.published
  obtain ⟨hle2, hlt2⟩ := hstep bounds.approval
  unfold Bounds.room
  refine ⟨by omega, ?_⟩
  rintro (h | h)
  · have := hlt1 h
    omega
  · have := hlt2 h
    omega

/-- The bounds drop entries from the front, and keep the rest as it is. The instant from which the
journal is complete moves past each entry that goes. -/
theorem boundFrom_eq (kept rest : List Entry) (coveredSince : Time) :
    ∃ past tail coveredSince', rest = past ++ tail ∧ boundFrom bounds index kept coveredSince rest =
        ⟨coveredSince', kept ++ picked bounds index past ++ tail⟩ ∧
      coveredSince ≤ coveredSince' ∧ ∀ entry ∈ gone bounds index past, latest entry ≤ coveredSince' := by
  induction rest generalizing index kept coveredSince with
  | nil => exact ⟨[], [], coveredSince, rfl, by simp [boundFrom, picked], Int.le_refl _,
    fun e he => by cases he⟩
  | cons entry rest ih =>
    rw [boundFrom]
    by_cases hkeeps : bounds.Keeps index
    · obtain ⟨past, tail, covered, hsplit, heq, hle, hgone⟩ :=
        @ih (index + 1) (kept ++ [entry]) coveredSince
      refine ⟨entry :: past, tail, covered, by rw [hsplit]; rfl, ?_, hle, ?_⟩
      · rw [if_pos hkeeps, heq, picked, if_pos hkeeps]
        simp
      · rw [gone, if_pos hkeeps]
        exact hgone
    · rw [if_neg hkeeps]
      dsimp only
      split
      · exact ⟨[], entry :: rest, coveredSince, rfl, by simp [picked], Int.le_refl _,
          fun e he => by cases he⟩
      obtain ⟨past, tail, covered, hsplit, heq, hle, hgone⟩ :=
        @ih (index + 1) kept (if coveredSince < latest entry then latest entry else coveredSince)
      have hmoved : coveredSince ≤ covered ∧ latest entry ≤ covered := by
        split at hle
        · rename_i hlater
          exact ⟨Int.le_trans (Int.le_of_lt hlater) hle, hle⟩
        · rename_i hnot
          exact ⟨hle, Int.le_trans (Int.not_lt.1 hnot) hle⟩
      refine ⟨entry :: past, tail, covered, by rw [hsplit]; rfl, ?_, hmoved.1, ?_⟩
      · rw [heq, picked, if_neg hkeeps, List.nil_append]
      rw [gone, if_neg hkeeps]
      intro e he
      rcases he with _ | ⟨_, he⟩
      · exact hmoved.2
      · exact hgone e he

theorem boundFrom_newest {rest : List Entry} {newest : Entry} (coveredSince : Time)
    (hcount : bounds.count = index + (rest ++ [newest]).length) (hkept : kept.length ≤ index)
    (hroom : kept.length + bounds.room index ≤ 2) (hrecent : ¬ latest newest < bounds.cutoff) :
    (boundFrom bounds index kept coveredSince (rest ++ [newest])).entries.getLast? = some newest ∧
      (boundFrom bounds index kept coveredSince (rest ++ [newest])).entries.length ≤ maxEntries := by
  obtain ⟨hle, hlt⟩ := bounds.room_succ index
  simp only [List.length_append, List.length_singleton] at hcount
  induction rest generalizing index kept coveredSince with
  | nil =>
    rw [List.nil_append, boundFrom]
    have hsmall : (kept ++ [newest]).length ≤ maxEntries := by
      simp only [List.length_append, List.length_singleton, maxEntries]
      omega
    split
    · rw [boundFrom]
      exact ⟨by simp, hsmall⟩
    · rw [if_pos ⟨by simp only [List.length_nil, maxEntries] at hcount ⊢; omega, hrecent⟩]
      exact ⟨by simp, hsmall⟩
  | cons entry rest ih =>
    simp only [List.length_cons] at hcount
    rw [List.cons_append, boundFrom]
    obtain ⟨hle', hlt'⟩ := bounds.room_succ (index + 1)
    split
    · rename_i hkeeps
      have := hlt hkeeps
      refine ih coveredSince ?_ ?_ hle' hlt' (by omega)
      · simp only [List.length_append, List.length_singleton]
        omega
      · simp only [List.length_append, List.length_singleton]
        omega
    · dsimp only
      split
      · rename_i hstops
        refine ⟨by simp [List.getLast?_cons], ?_⟩
        simp only [List.length_append, List.length_cons, List.length_nil]
        omega
      · exact ih _ (by omega) (by omega) hle' hlt' (by omega)

/-- Keeping what `outstanding` found keeps the plan that waits. -/
theorem awaiting_picked {past tail : List Entry} {published approval : Option Nat}
    (hlocated : Located (past ++ tail) (published, approval)) (hpublished : bounds.published = published)
    (happroval : bounds.approval = approval) :
    awaiting (picked bounds 0 past ++ tail) = awaiting (past ++ tail) := by
  -- Behind the entry that published the plan, enough stays to tell whether it was approved.
  have hkept {pre post kept : List Entry} {entry : Entry} (htype : entry.type = .planPublished)
      (hpassive : ∀ e ∈ post, Passive e) (hsub : kept.Sublist post)
      (hany : ∀ e ∈ post, Approves entry.plan e → ∃ e' ∈ kept, Approves entry.plan e')
      front :
      awaiting (front ++ entry :: kept) = awaiting (pre ++ entry :: post) := by
    rw [awaiting_published htype hpassive,
      awaiting_published htype fun e he => hpassive e (hsub.subset he)]
    congr 2
    rw [Bool.eq_iff_iff, List.any_eq_true, List.any_eq_true]
    simp only [decide_eq_true_eq]
    constructor
    · rintro ⟨e, he, happroves⟩
      exact ⟨e, hsub.subset he, happroves⟩
    · rintro ⟨e, he, happroves⟩
      exact hany e he happroves
  have hsplit {pre post : List Entry} {entry : Entry} (heq : past ++ tail = pre ++ entry :: post)
      (htype : entry.type = .planPublished) (hpassive : ∀ e ∈ post, Passive e)
      (hat : bounds.published = some pre.length)
      (hany : ∀ inner, past = pre ++ entry :: inner → ∀ e ∈ post, Approves entry.plan e →
        ∃ e' ∈ picked bounds (pre.length + 1) inner ++ tail, Approves entry.plan e') :
      awaiting (picked bounds 0 past ++ tail) = awaiting (past ++ tail) := by
    rw [heq]
    rcases List.append_eq_append_iff.1 heq with ⟨t, rfl, htail⟩ | ⟨inner, rfl, hinner⟩
    · rw [htail, ← List.append_assoc]
      exact hkept htype hpassive (.refl _) (fun e he h => ⟨e, he, h⟩) _
    cases inner with
    | nil =>
      rw [List.nil_append] at hinner
      rw [← hinner]
      exact hkept htype hpassive (.refl _) (fun e he h => ⟨e, he, h⟩) _
    | cons e inner =>
      obtain ⟨rfl, rfl⟩ := List.cons.inj hinner
      rw [picked_append, picked, Nat.zero_add, if_pos (.inl hat), List.append_assoc,
        List.append_assoc, List.singleton_append]
      exact hkept htype hpassive ((picked_sublist inner).append_right tail) (hany inner rfl) _
  cases hlocated with
  | nothing h =>
    rw [picked_eq_nil hpublished happroval, List.nil_append, h]
    exact awaiting_suffix h
  | unapproved split htype hpassive hnone =>
    exact hsplit split htype hpassive hpublished fun _ _ e he happroves =>
      absurd happroves (hnone e he)
  | @approved pre mid post entry approval split htype hpassive happroves =>
    refine hsplit split htype hpassive hpublished fun inner hpast e he _ => ?_
    refine ⟨approval, ?_, happroves⟩
    rw [hpast, List.append_assoc, List.cons_append] at split
    have hinner := (List.cons.inj (List.append_cancel_left split)).2
    rcases List.append_eq_append_iff.1 hinner with ⟨t, rfl, htail⟩ | ⟨late, rfl, hlate⟩
    · rw [htail]
      simp
    cases late with
    | nil =>
      rw [List.nil_append] at hlate
      rw [← hlate]
      simp
    | cons a late =>
      obtain ⟨rfl, -⟩ := List.cons.inj hlate
      rw [picked_append, picked, if_pos (.inr happroval)]
      simp

/-! ## A journal and the same journal without bounds -/

/-- A bounded list of entries beside the whole list: it misses entries that are not later than
`coveredSince`, and answers alike. -/
structure Bounded (coveredSince : Time) (kept whole : List Entry) : Prop where
  sublist : kept.Sublist whole
  newest : kept.getLast? = whole.getLast?
  awaits : awaiting kept = awaiting whole
  missing : ∃ lost, (lost ++ kept).Perm whole ∧ ∀ entry ∈ lost, latest entry ≤ coveredSince

theorem Bounded.refl (coveredSince : Time) (entries : List Entry) : Bounded coveredSince entries entries where
  sublist := .refl _
  newest := rfl
  awaits := rfl
  missing := ⟨[], .refl _, fun e he => by cases he⟩

theorem add_folds {front : List Entry} {newest entry : Entry} (h : folds newest entry = true) :
    add (front ++ [newest]) entry = front ++ [folded newest entry] := by
  simp [add, h]

theorem add_appends {entries : List Entry} {entry : Entry}
    (h : ∀ newest ∈ entries.getLast?, folds newest entry = false) : add entries entry = entries ++ [entry] := by
  unfold add
  split
  · rename_i newest hnewest
    rw [h newest hnewest, if_neg (by decide)]
  · rfl

theorem awaiting_add (entries : List Entry) (entry : Entry) :
    awaiting (add entries entry) = carry (awaiting entries) entry := by
  by_cases hfolds : ∃ newest ∈ entries.getLast?, folds newest entry = true
  · obtain ⟨newest, hnewest, hfolds⟩ := hfolds
    obtain ⟨front, rfl⟩ := List.getLast?_eq_some_iff.1 hnewest
    have htypes : newest.type = .operationFailed ∧ entry.type = .operationFailed := by
      simp only [folds, Bool.and_eq_true, decide_eq_true_eq] at hfolds
      exact hfolds.1.1
    have hfolded : (folded newest entry).type = .operationFailed := htypes.1
    rw [add_folds hfolds, awaiting_append, awaiting_append, List.foldl_cons, List.foldl_cons,
      List.foldl_nil, List.foldl_nil, carry_failed hfolded, carry_failed htypes.1, carry_failed htypes.2]
  · rw [add_appends fun newest hn => by simpa using fun h => hfolds ⟨newest, hn, h⟩, awaiting_append]
    rfl

theorem awaiting_recorded (entries more : List Entry) :
    awaiting (more.foldl add entries) = more.foldl carry (awaiting entries) := by
  induction more generalizing entries with
  | nil => rfl
  | cons entry more ih => rw [List.foldl_cons, List.foldl_cons, ih, awaiting_add]

theorem Bounded.add (h : Bounded coveredSince kept whole)
    (entry : Entry) : Bounded coveredSince (add kept entry) (add whole entry) := by
  obtain ⟨lost, hperm, hlost⟩ := h.missing
  have hawaits : awaiting (Journal.add kept entry) = awaiting (Journal.add whole entry) := by
    rw [awaiting_add, awaiting_add, h.awaits]
  by_cases hfolds : ∃ newest ∈ kept.getLast?, folds newest entry = true
  · obtain ⟨newest, hnewest, hfolds⟩ := hfolds
    obtain ⟨front, rfl⟩ := List.getLast?_eq_some_iff.1 hnewest
    obtain ⟨whole, rfl⟩ := List.getLast?_eq_some_iff.1 (h.newest ▸ hnewest)
    rw [add_folds hfolds, add_folds hfolds] at hawaits ⊢
    refine ⟨?_, by simp, hawaits, lost, ?_, hlost⟩
    · exact (List.append_sublist_append_right _).2 ((List.append_sublist_append_right _).1 h.sublist)
    · rw [← List.append_assoc] at hperm ⊢
      exact ((List.perm_append_right_iff _).1 hperm).append_right _
  · have hnot : ∀ newest ∈ kept.getLast?, folds newest entry = false :=
      fun newest hn => by simpa using fun h => hfolds ⟨newest, hn, h⟩
    rw [add_appends hnot, add_appends (h.newest ▸ hnot)] at hawaits ⊢
    refine ⟨h.sublist.append_right _, by simp, hawaits, lost, ?_, hlost⟩
    rw [← List.append_assoc]
    exact hperm.append_right _

theorem Bounded.addAll (h : Bounded coveredSince kept whole) (entries : List Entry) :
    Bounded coveredSince (entries.foldl Journal.add kept) (entries.foldl Journal.add whole) := by
  induction entries generalizing kept whole with
  | nil => exact h
  | cons entry entries ih => exact ih (h.add entry)

theorem applyBounds_spec (journal : LifecycleJournal) :
    journal.coveredSince ≤ (applyBounds journal).coveredSince ∧
      (applyBounds journal).entries.length ≤ maxEntries ∧
      Bounded (applyBounds journal).coveredSince (applyBounds journal).entries journal.entries := by
  unfold applyBounds
  cases hnewest : journal.entries.getLast? with
  | none =>
    rw [List.getLast?_eq_none_iff.1 hnewest]
    exact ⟨Int.le_refl _, Nat.zero_le _, .refl _ _⟩
  | some newest =>
    have hlocated := outstanding_located journal.entries
    cases hout : outstanding journal.entries with
    | mk published approval =>
      rw [hout] at hlocated
      dsimp only
      obtain ⟨past, tail, covered, hsplit, heq, hle, hgone⟩ :=
        @boundFrom_eq ⟨journal.entries.length, latest newest - maxAge, published, approval⟩ 0 []
          journal.entries journal.coveredSince
      obtain ⟨front, hfront⟩ := List.getLast?_eq_some_iff.1 hnewest
      have hkeeps := @boundFrom_newest []
        ⟨journal.entries.length, latest newest - maxAge, published, approval⟩ 0 front newest
        journal.coveredSince (by rw [hfront, Nat.zero_add]) (Nat.zero_le _)
        (by simpa using Bounds.room_le _ 0) (by
          have hage : 0 ≤ maxAge := by decide
          exact Int.not_lt.2 (Int.sub_le_self _ hage))
      rw [← hfront] at hkeeps
      rw [heq, List.nil_append] at hkeeps ⊢
      refine ⟨hle, hkeeps.2, ⟨?_, hkeeps.1.trans hnewest.symm, ?_, gone _ 0 past, ?_, hgone⟩⟩
      · rw [hsplit]
        exact (picked_sublist past).append_right tail
      · rw [hsplit] at hlocated ⊢
        exact awaiting_picked hlocated rfl rfl
      · rw [← List.append_assoc]
        conv_rhs => rw [hsplit]
        exact (gone_append_picked past).append_right tail

theorem Bounded.trans {earlier later : Time} {entries : List Entry}
    (h : Bounded later kept entries) (h' : Bounded earlier entries whole) (hle : earlier ≤ later) :
    Bounded later kept whole := by
  obtain ⟨lost, hperm, hlost⟩ := h.missing
  obtain ⟨lost', hperm', hlost'⟩ := h'.missing
  refine ⟨h.sublist.trans h'.sublist, h.newest.trans h'.newest, h.awaits.trans h'.awaits,
    lost' ++ lost, ?_, ?_⟩
  · rw [List.append_assoc]
    exact (hperm.append_left lost').trans hperm'
  intro entry he
  rcases List.mem_append.1 he with he | he
  · exact Int.le_trans (hlost' entry he) hle
  · exact hlost entry he

/-! ## Sequences of calls -/

/-- One call of `Record`: its entries and its clock. -/
abbrev Call := List Entry × Time

def recorded (journal : Option LifecycleJournal) (calls : List Call) : Option LifecycleJournal :=
  calls.foldl (fun journal call => some (record journal call.1 call.2)) journal

def unbounded (journal : Option LifecycleJournal) (calls : List Call) : Option LifecycleJournal :=
  calls.foldl (fun journal call => some (recordAll journal call.1 call.2)) journal

/-- Two journals, one bounded. -/
inductive Beside : Option LifecycleJournal → Option LifecycleJournal → Prop where
  | absent : Beside none none
  | present {kept whole : LifecycleJournal} (h : Bounded kept.coveredSince kept.entries whole.entries) :
      Beside (some kept) (some whole)

theorem Beside.record {journal : Option LifecycleJournal} (h : Beside journal full)
    (entries : List Entry) (now : Time) :
    Bounded (record journal entries now).coveredSince (record journal entries now).entries
      (recordAll full entries now).entries := by
  obtain ⟨hle, -, hbounded⟩ := applyBounds_spec (recordAll journal entries now)
  refine hbounded.trans ?_ hle
  cases h with
  | absent => exact .refl _ _
  | present h => exact h.addAll entries

theorem Beside.recorded {journal : Option LifecycleJournal} (h : Beside journal full)
    (calls : List Call) : Beside (Journal.recorded journal calls) (unbounded full calls) := by
  induction calls generalizing journal full with
  | nil => exact h
  | cons call calls ih => exact ih (.present (h.record call.1 call.2))

theorem Beside.refl (journal : Option LifecycleJournal) : Beside journal journal := by
  cases journal with
  | none => exact .absent
  | some journal => exact .present (.refl _ _)

theorem Beside.outstandingPlan {journal : Option LifecycleJournal} (h : Beside journal full) :
    outstandingPlan journal = Journal.outstandingPlan full := by
  cases h with
  | absent => rfl
  | present h => rw [outstandingPlan_eq, outstandingPlan_eq, h.awaits]

theorem Bounded.dropped (h : Bounded coveredSince kept whole) :
    ∀ entry ∈ whole.diff kept, latest entry ≤ coveredSince := by
  obtain ⟨lost, hperm, hlost⟩ := h.missing
  have hdiff : (whole.diff kept : Multiset Entry) = lost := by
    have hwhole : (whole : Multiset Entry) = lost + kept := by
      exact Multiset.coe_eq_coe.2 hperm.symm
    rw [← Multiset.coe_sub, hwhole, Multiset.add_sub_cancel_right]
  exact fun entry he => hlost entry ((Multiset.coe_eq_coe.1 hdiff).subset he)

/-! ## Sequences of status writes -/

/-- A status write: the status before it, the status after it, and its clock. -/
inductive Write where
  | schema (before after : SchemaStatus) (now : Time)
  | migration (before after : MigrationStatus) (now : Time)

def Write.now : Write → Time
  | .schema _ _ now | .migration _ _ now => now

def Write.entries (write : Write) (journal : Option LifecycleJournal) : List Entry :=
  match write with
  | .schema before after now => schemaEntries before after journal now
  | .migration before after now => migrationEntries before after journal now

def Write.journal (write : Write) (journal : Option LifecycleJournal) : LifecycleJournal :=
  record journal (write.entries journal) write.now

/-- All entries that a sequence of writes produces. -/
def produced (journal : Option LifecycleJournal) : List Write → List Entry
  | [] => []
  | write :: writes => write.entries journal ++ produced (some (write.journal journal)) writes

/-- No entry publishes the plan that already waits. -/
def Fresh (waiting : Awaiting) : List Entry → Prop
  | [] => True
  | entry :: entries =>
    (entry.type = .planPublished → ∀ approved, waiting ≠ some (entry.plan, approved)) ∧
      Fresh (carry waiting entry) entries

theorem fresh_append {a b : List Entry} :
    Fresh waiting (a ++ b) ↔ Fresh waiting a ∧ Fresh (a.foldl carry waiting) b := by
  induction a generalizing waiting with
  | nil => simp [Fresh]
  | cons entry a ih => simp only [List.cons_append, Fresh, List.foldl_cons, ih, and_assoc]

theorem fresh_of_unpublished {entries : List Entry}
    (h : ∀ entry ∈ entries, entry.type ≠ .planPublished) : Fresh waiting entries := by
  induction entries generalizing waiting with
  | nil => trivial
  | cons entry entries ih =>
    exact ⟨fun hp => absurd hp (h entry (.head _)),
      ih fun e he => h e (.tail _ he)⟩

/-- The plan that waits in a journal that may not exist. -/
def awaitingIn (journal : Option LifecycleJournal) : Awaiting :=
  journal.bind fun journal => awaiting journal.entries

theorem outstandingPlan_awaitingIn (journal : Option LifecycleJournal) :
    outstandingPlan journal = (awaitingIn journal).getD ("", false) := by
  cases journal with
  | none => rfl
  | some journal => exact outstandingPlan_eq journal

theorem planRecorded_of_awaiting {journal : Option LifecycleJournal} {plan : String} {approved : Bool}
    (h : awaitingIn journal = some (plan, approved)) : planRecorded journal plan = true := by
  rw [planRecorded, outstandingPlan_awaitingIn, h]
  exact decide_eq_true rfl

/-- The first entry of a write alone may publish a plan, and it is not the one that waits. -/
theorem fresh_optional {journal : Option LifecycleJournal} {first : Option Entry} {others : List Entry}
    (hfirst : ∀ entry ∈ first, planRecorded journal entry.plan = false)
    (hothers : ∀ entry ∈ others, entry.type ≠ .planPublished) :
    Fresh (awaitingIn journal) (first.toList ++ others) := by
  refine fresh_append.2 ⟨?_, fresh_of_unpublished hothers⟩
  cases first with
  | none => trivial
  | some entry =>
    refine ⟨fun _ approved hwaiting => ?_, trivial⟩
    have := hfirst entry rfl
    rw [planRecorded_of_awaiting hwaiting] at this
    cases this

/-! ## The entries of a write -/

section Entries

variable {schema schema' : SchemaStatus} {migration migration' : MigrationStatus}
  {journal : Option LifecycleJournal} {now : Time} {entry : Entry} {P : Entry → Prop}

/-- An entry, if there is one, satisfies `P`. -/
def Yields (P : Entry → Prop) (recorded : Option Entry) : Prop := ∀ entry ∈ recorded, P entry

theorem Yields.none : Yields P none := fun _ he => by cases he

theorem Yields.some (h : P entry) : Yields P (some entry) := by
  rintro _ ⟨⟩
  exact h

theorem Yields.bind {α : Type} {o : Option α} {f : α → Option Entry} (h : ∀ a, Yields P (f a)) :
    Yields P (o.bind f) := by
  intro entry he
  obtain ⟨a, -, he⟩ := Option.bind_eq_some_iff.1 he
  exact h a entry he

theorem Yields.unless {c : Prop} [Decidable c] {o : Option Entry} (h : ¬ c → Yields P o) :
    Yields P (if c then Option.none else o) := by
  split
  · exact .none
  · exact h (by assumption)

theorem schemaPublished_new :
    Yields (planRecorded journal ·.plan = false) (schemaPublished schema schema' journal now) :=
  .bind fun _ => .unless fun h => .some (Bool.eq_false_iff.2 fun hr => h (by rw [hr, Bool.or_true]))

theorem migrationPublished_new :
    Yields (planRecorded journal ·.plan = false) (migrationPublished migration migration' journal now) :=
  .bind fun _ => .unless fun h => .some (Bool.eq_false_iff.2 fun hr => h (by rw [hr, Bool.or_true]))

theorem schemaApproved_type : Yields (·.type = .approvalAccepted) (schemaApproved schema schema' journal now) :=
  .bind fun _ => .bind fun _ => .unless fun _ => .some rfl

theorem schemaApplied_type : Yields (·.type = .applyFinished) (schemaApplied schema schema' now) :=
  .bind fun _ => .unless fun _ => .bind fun _ => .unless fun _ => .some rfl

theorem schemaVerified_type : Yields (·.type = .verified) (schemaVerified schema schema' now) :=
  .bind fun _ => .unless fun _ => .some rfl

theorem schemaFailed_type : Yields (·.type = .operationFailed) (schemaFailed schema schema' now) :=
  .bind fun _ => .unless fun _ => .unless fun _ => .some rfl

theorem withRunIdentity_type (entry : Entry) (run : RunStatus) :
    (withRunIdentity entry run).type = entry.type := by
  obtain ⟨outcome, jobName, jobUID, operationID, planRef, planFingerprint, authorization⟩ := run
  cases authorization with
  | none => cases planRef <;> rfl
  | some authorization =>
    obtain ⟨kind, approvalRef, approver⟩ := authorization
    cases planRef <;> cases approvalRef <;> cases approver <;> rfl

theorem runFinished_type (run : RunStatus) (finishedAt : Time) :
    (runFinished run finishedAt).type = .runFinished :=
  withRunIdentity_type _ run

theorem finishedRun_type : Yields (·.type = .runFinished) (finishedRun migration migration' journal now) := by
  unfold finishedRun
  split
  · exact .some (runFinished_type _ _)
  unfold heldRun
  split
  · exact .none
  refine .unless fun _ => ?_
  split
  · exact .unless fun _ => .some (runFinished_type _ _)
  · exact .some rfl

theorem migrationApproved_type :
    Yields (·.type = .approvalAccepted) (migrationApproved migration migration' journal now) :=
  .bind fun _ => .unless fun _ => .bind fun _ => .unless fun _ => .some rfl

theorem migrationVerified_type : Yields (·.type = .verified) (migrationVerified migration migration') :=
  .bind fun _ => .bind fun _ => .unless fun _ => .some rfl

theorem migrationAcknowledged_type :
    Yields (·.type = .runAcknowledged) (migrationAcknowledged migration migration' now) :=
  .bind fun _ => .unless fun _ => .some rfl

theorem migrationFailed_type : Yields (·.type = .operationFailed) (migrationFailed migration migration' now) := by
  unfold migrationFailed
  dsimp only
  split
  · exact .some rfl
  · exact .none

end Entries

theorem Write.fresh (write : Write) (journal : Option LifecycleJournal) :
    Fresh (awaitingIn journal) (write.entries journal) := by
  cases write with
  | schema before after now =>
    rw [Write.entries, schemaEntries, List.append_assoc, List.append_assoc, List.append_assoc]
    refine fresh_optional schemaPublished_new fun entry he => ?_
    simp only [List.mem_append, Option.mem_toList] at he
    rcases he with he | he | he | he
    · simp [schemaApproved_type entry he]
    · simp [schemaApplied_type entry he]
    · simp [schemaVerified_type entry he]
    · simp [schemaFailed_type entry he]
  | migration before after now =>
    rw [Write.entries, migrationEntries, List.append_assoc, List.append_assoc, List.append_assoc,
      List.append_assoc]
    refine fresh_optional migrationPublished_new fun entry he => ?_
    simp only [List.mem_append, Option.mem_toList] at he
    rcases he with he | he | he | he | he
    · simp [migrationApproved_type entry he]
    · simp [finishedRun_type entry he]
    · simp [migrationVerified_type entry he]
    · simp [migrationAcknowledged_type entry he]
    · simp [migrationFailed_type entry he]

/-- The plan that waits behind a write, in the bounded journal, is the one behind its entries. -/
theorem awaitingIn_record (journal : Option LifecycleJournal) (entries : List Entry) (now : Time) :
    awaitingIn (some (record journal entries now)) = entries.foldl carry (awaitingIn journal) := by
  have hbounded := (Beside.refl journal).record entries now
  rw [awaitingIn, Option.bind_some, hbounded.awaits, recordAll, awaiting_recorded]
  cases journal <;> rfl

theorem produced_fresh (journal : Option LifecycleJournal) (writes : List Write) :
    Fresh (awaitingIn journal) (produced journal writes) := by
  induction writes generalizing journal with
  | nil => trivial
  | cons write writes ih =>
    have hrest := ih (some (write.journal journal))
    rw [Write.journal, awaitingIn_record] at hrest
    exact fresh_append.2 ⟨write.fresh journal, hrest⟩

/-- The entry ends the wait for a plan: something was carried out, or another plan was published. -/
def EndsWait (plan : String) (entry : Entry) : Prop :=
  entry.type = .applyFinished ∨ entry.type = .runFinished ∨
    entry.type = .planPublished ∧ entry.plan ≠ plan

theorem carry_same {plan : String} {approved : Bool} {entry : Entry} (h : ¬ EndsWait plan entry) :
    ∃ approved', carry (some (plan, approved)) entry = some (plan, approved') := by
  unfold EndsWait at h
  cases htype : entry.type <;> simp_all [carry]

/-- Between two publications of a plan its wait ended. -/
theorem Fresh.ended {earlier between later : List Entry} {first second : Entry}
    (h : Fresh waiting (earlier ++ first :: (between ++ second :: later)))
    (hfirst : first.type = .planPublished) (hsecond : second.type = .planPublished)
    (hplan : first.plan = second.plan) : ∃ entry ∈ between, EndsWait first.plan entry := by
  by_contra hnone
  have hkeeps : ∀ (entries : List Entry) approved, (∀ e ∈ entries, ¬ EndsWait first.plan e) →
      ∃ approved', entries.foldl carry (some (first.plan, approved)) = some (first.plan, approved') := by
    intro entries
    induction entries with
    | nil => exact fun approved _ => ⟨approved, rfl⟩
    | cons e entries ih =>
      intro approved hall
      obtain ⟨approved', hcarry⟩ := @carry_same first.plan approved e (hall e (.head _))
      rw [List.foldl_cons, hcarry]
      exact ih approved' fun x hx => hall x (.tail _ hx)
  have hbehind := (fresh_append.1 (fresh_append.1 h).2.2).2.1 hsecond
  rw [carry_published hfirst] at hbehind
  obtain ⟨approved, hwaiting⟩ := hkeeps between false fun e he hends => hnone ⟨e, he, hends⟩
  exact hbehind approved (by rw [hwaiting, hplan])

/-! ## What a bounded journal remembers -/

/-- Whatever is recorded, and whatever the clocks say: a bounded journal names the plan that the
unbounded one names as waiting, and whether it was approved. It has at most `maxEntries` entries, the
newest one among them, and every entry that it lost is not later than `coveredSince`, which never
decreases. So a status write never publishes again the plan that waits. -/
theorem journal_remembers (journal : Option LifecycleJournal) :
    (∀ calls, outstandingPlan (recorded journal calls) = outstandingPlan (unbounded journal calls)) ∧
      (∀ calls entries now,
        (record (recorded journal calls) entries now).entries.length ≤ maxEntries ∧
        (record (recorded journal calls) entries now).entries.getLast? =
          (recordAll (unbounded journal calls) entries now).entries.getLast? ∧
        (∀ entry ∈ (recordAll (unbounded journal calls) entries now).entries.diff
            (record (recorded journal calls) entries now).entries,
          latest entry ≤ (record (recorded journal calls) entries now).coveredSince) ∧
        ∀ previous ∈ recorded journal calls,
          previous.coveredSince ≤ (record (recorded journal calls) entries now).coveredSince) ∧
      ∀ writes earlier between later first second,
        produced journal writes = earlier ++ first :: (between ++ second :: later) →
        first.type = .planPublished → second.type = .planPublished → first.plan = second.plan →
        ∃ entry ∈ between, entry.type = .applyFinished ∨ entry.type = .runFinished ∨
          entry.type = .planPublished ∧ entry.plan ≠ first.plan := by
  refine ⟨fun calls => ((Beside.refl journal).recorded calls).outstandingPlan,
    fun calls entries now => ?_, fun writes earlier between later first second heq hfirst hsecond hplan => ?_⟩
  · have hbounded := ((Beside.refl journal).recorded calls).record entries now
    obtain ⟨hcovered, hlength, -⟩ := applyBounds_spec (recordAll (recorded journal calls) entries now)
    refine ⟨hlength, hbounded.newest, hbounded.dropped, fun previous hprevious => ?_⟩
    rw [Option.mem_def.1 hprevious] at hcovered ⊢
    exact hcovered
  · have hfresh := produced_fresh journal writes
    rw [heq] at hfresh
    exact hfresh.ended hfirst hsecond hplan

def planned (plan : String) : MigrationStatus := { plan := some plan }

/-- A plan that is cleared, replaced by another one and then published again. -/
theorem journal_remembers_replaced :
    (produced none [.migration {} (planned "a") 1, .migration (planned "a") {} 2,
        .migration {} (planned "a") 3, .migration {} (planned "b") 4, .migration {} (planned "a") 5]).map
      (fun entry => (entry.type, entry.plan)) =
        [(.planPublished, "a"), (.planPublished, "b"), (.planPublished, "a")] ∧
      ∃ entry ∈ [(⟨.planPublished, 4, none, none, 0, "", "b", "", "", 0, false, false, "", none, "", "", "",
          none, "", "", "", "", 0, none, "", ""⟩ : Entry)], entry.type = .applyFinished ∨
        entry.type = .runFinished ∨ entry.type = .planPublished ∧ entry.plan ≠ "a" := by
  refine ⟨by decide +kernel, ?_⟩
  exact (journal_remembers none).2.2 [.migration {} (planned "a") 1, .migration (planned "a") {} 2,
    .migration {} (planned "a") 3, .migration {} (planned "b") 4, .migration {} (planned "a") 5] [] _ []
    { type := .planPublished, atTime := 1, plan := "a" } { type := .planPublished, atTime := 5, plan := "a" }
    (by decide +kernel) rfl rfl rfl

end Ptah.Journal
