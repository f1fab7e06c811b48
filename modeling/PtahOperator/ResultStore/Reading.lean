import PtahOperator.ResultStore.Runs

/-!
# `Load` at one state of the store

What `Load` returns when the store does not change and no read fails.

* `answer`: the result of an action there.
* `load_agree`: `Load` depends on the records that it reads.
* `Whole`, `load_whole`: the records that a returned payload was read from.
-/

namespace Ptah.ResultStore

open Conc
open Go (Bytes)
open PlanStore (OwnerReference Found)

section Answer

variable {α β : Type} {w w' : World}

/-- The result of an action when nobody else writes and no read fails. -/
def answer (w : World) (action : Action α) : Except StoreError α := (action.run.exec handle w).1

def Reads (action : Action α) : Prop := ∀ w, (action.run.exec handle w).2 = w

theorem exec_bind {p : Action α} {f : α → Action β} (hp : Reads p) (w : World) :
    (p >>= f).run.exec handle w = (ExceptT.bindCont f (p.run.exec handle w).1).exec handle w := by
  have hexec : (p >>= f).run.exec handle w = _ := Prog.exec_bind p.run (ExceptT.bindCont f) w
  rw [hexec, hp w]

theorem answer_bind {p : Action α} {f : α → Action β} (hp : Reads p) :
    answer w (p >>= f) = (answer w p).bind fun a => answer w (f a) := by
  rw [answer, answer, exec_bind hp]
  cases (p.run.exec handle w).1 with
  | ok a => rfl
  | error e => rfl

theorem Reads.pure {a : α} : Reads (Pure.pure a : Action α) := fun _ => rfl

theorem Reads.throw {e : StoreError} : Reads (MonadExcept.throw e : Action α) := fun _ => rfl

theorem Reads.bind {p : Action α} {f : α → Action β} (hp : Reads p) (hf : ∀ a, Reads (f a)) :
    Reads (p >>= f) := by
  intro w
  rw [exec_bind hp]
  cases (p.run.exec handle w).1 with
  | ok a => exact hf a w
  | error e => rfl

end Answer

/-! ## Reads -/

variable {want intent : Record} {ns name payload : Bytes} {ref : OwnerReference} {size : Int}
  {index : Nat} {chunks : List (ChunkReference × Bytes)} {m : Manifest} {b : Binding}

section Load

variable {codec : Codec} {w w' : World}

/-- What `read` refuses in a record that it finds. -/
def refused (got want : Record) : Bool :=
  got.uid = [] || got.deleting || !recordShape got want || got.data = [] || chunkBytes < got.data.length

/-- `read` at a state. -/
def readAt (w : World) (want : Record) : Except StoreError Record :=
  match w.records want.key with
  | none => .error .incomplete
  | some got => if refused got want then .error .conflict else .ok got

theorem read_exec (want : Record) (w : World) : (read want).run.exec handle w = (readAt w want, w) := by
  have hget : (read want).run.exec handle w = _ :=
    Prog.exec_bind (send (.get want.key)).run (ExceptT.bindCont _) w
  rw [hget]
  unfold readAt
  cases hfound : w.records want.key with
  | none =>
    have hanswer : (send (.get want.key)).run.exec handle w = (.ok .notFound, w) := by
      change (Except.ok (Found.of (w.records want.key)), w) = _
      rw [hfound]
      rfl
    rw [hanswer]
    rfl
  | some got =>
    have hanswer : (send (.get want.key)).run.exec handle w = (.ok (.found got), w) := by
      change (Except.ok (Found.of (w.records want.key)), w) = _
      rw [hfound]
      rfl
    rw [hanswer]
    simp only [ExceptT.bindCont]
    split
    · rename_i hrefused
      rw [if_pos (show refused got want = true from hrefused)]
      rfl
    · rename_i hrefused
      rw [if_neg (show ¬ refused got want = true from hrefused)]
      rfl

theorem Reads.read (want : Record) : Reads (read want) := fun w => by rw [read_exec]

@[simp] theorem answer_read : answer w (read want) = readAt w want := by
  rw [answer, read_exec]

theorem readAt_none (h : w.records want.key = none) : readAt w want = .error .incomplete := by
  rw [readAt, h]

theorem readAt_deleting {got : Record} (h : w.records want.key = some got) (hdeleting : got.deleting = true) :
    readAt w want = .error .conflict := by
  have hrefused : refused got want = true := by simp [refused, hdeleting]
  rw [readAt, h]
  simp only [hrefused, if_true]

theorem readAt_congr (h : w'.records want.key = w.records want.key) :
    readAt w' want = readAt w want := by
  rw [readAt, readAt, h]

theorem readAt_ok {got : Record} (h : readAt w want = .ok got) :
    w.records want.key = some got ∧ got.uid ≠ [] ∧ got.deleting = false ∧ recordShape got want = true := by
  unfold readAt at h
  split at h
  · cases h
  rename_i found hfound
  split at h
  · cases h
  rename_i hvalid
  cases h
  simp only [refused, Bool.or_eq_true, not_or, decide_eq_true_eq] at hvalid
  exact ⟨hfound, hvalid.1.1.1.1, by simpa using hvalid.1.1.1.2, by simpa using hvalid.1.1.2⟩

/-! ## Chunks -/

theorem Reads.loadChunks :
    Reads (ResultStore.loadChunks codec ns name ref size index payload chunks) := by
  induction chunks generalizing index payload with
  | nil => exact .pure
  | cons chunk chunks ih =>
    unfold ResultStore.loadChunks
    split
    · exact .throw
    refine .bind (.read _) fun part => ?_
    split
    · exact .throw
    · exact ih

theorem loadChunks_agree
    (h : ∀ i, i < chunks.length →
      w'.records (ns, chunkName name (index + i)) = w.records (ns, chunkName name (index + i))) :
    answer w' (loadChunks codec ns name ref size index payload chunks) =
      answer w (loadChunks codec ns name ref size index payload chunks) := by
  induction chunks generalizing index payload with
  | nil => rfl
  | cons chunk chunks ih =>
    unfold loadChunks
    split
    · rfl
    have hfirst : readAt w' (record codec ns (chunkName name index) .chunk ref []) =
        readAt w (record codec ns (chunkName name index) .chunk ref []) :=
      readAt_congr (h 0 (Nat.succ_pos _))
    rw [answer_bind (.read _), answer_bind (.read _), answer_read, answer_read, hfirst]
    cases readAt w (record codec ns (chunkName name index) .chunk ref []) with
    | error e => rfl
    | ok part =>
      simp only [Except.bind]
      split
      · rfl
      refine ih fun i hi => ?_
      have hnext := h (i + 1) (Nat.succ_lt_succ hi)
      rwa [← Nat.add_assoc, Nat.add_right_comm] at hnext

theorem loadChunks_ok {result : Bytes}
    (h : answer w (loadChunks codec ns name ref size index payload chunks) = .ok result) (i : Nat)
    (hi : i < chunks.length) :
    ∃ part, readAt w (record codec ns (chunkName name (index + i)) .chunk ref []) = .ok part := by
  induction chunks generalizing index payload i with
  | nil => exact absurd hi (Nat.not_lt_zero _)
  | cons chunk chunks ih =>
    unfold loadChunks at h
    split at h
    · cases h
    rw [answer_bind (.read _), answer_read] at h
    cases hread : readAt w (record codec ns (chunkName name index) .chunk ref []) with
    | error e =>
      rw [hread] at h
      cases h
    | ok part =>
      rw [hread] at h
      simp only [Except.bind] at h
      split at h
      · cases h
      cases i with
      | zero => exact ⟨part, hread⟩
      | succ i =>
        obtain ⟨part', hpart'⟩ := ih h i (Nat.lt_of_succ_lt_succ hi)
        rw [Nat.add_assoc, Nat.add_comm 1 i] at hpart'
        exact ⟨part', hpart'⟩

/-! ## `Load` -/

theorem completes_length {data : Bytes} {c : Completion}
    (h : completes codec intent m data = some c) : c.chunkUIDs.length = m.references.length := by
  obtain ⟨-, hvalid⟩ := Option.filter_eq_some_iff.1 h
  simp only [Bool.and_eq_true, decide_eq_true_eq] at hvalid
  exact hvalid.2

/-- The completion and the chunks of an intent decide what is loaded from it. -/
theorem loadIntent_agree (hm : admissionManifest codec intent = .ok (m, name))
    (hready : m.inlined = none →
      w'.records (b.ns, completionName name) = w.records (b.ns, completionName name))
    (hchunks : ∀ i, i < m.references.length →
      w'.records (b.ns, chunkName name i) = w.records (b.ns, chunkName name i)) :
    answer w' (loadIntent codec intent b) = answer w (loadIntent codec intent b) := by
  unfold loadIntent
  split
  · rfl
  simp only [hm]
  split
  · rfl
  split
  · rfl
  rename_i hinlined
  unfold loadCompletion
  have hread : readAt w' (record codec b.ns (completionName name) .complete
      (childOwner intent.name intent.uid) []) =
      readAt w (record codec b.ns (completionName name) .complete (childOwner intent.name intent.uid) []) :=
    readAt_congr (hready hinlined)
  rw [answer_bind (.read _), answer_bind (.read _), answer_read, answer_read, hread]
  cases readAt w (record codec b.ns (completionName name) .complete (childOwner intent.name intent.uid) []) with
  | error e => rfl
  | ok ready =>
    simp only [Except.bind]
    split
    · rfl
    rename_i c hc
    have hlength : (m.references.zip c.chunkUIDs).length = m.references.length := by
      rw [List.length_zip, completes_length hc, Nat.min_self]
    have hload : answer w' (loadChunks codec b.ns name (childOwner intent.name intent.uid) m.size 0 []
        (m.references.zip c.chunkUIDs)) =
        answer w (loadChunks codec b.ns name (childOwner intent.name intent.uid) m.size 0 []
          (m.references.zip c.chunkUIDs)) := by
      refine loadChunks_agree fun i hi => ?_
      rw [Nat.zero_add]
      exact hchunks i (hlength ▸ hi)
    rw [answer_bind Reads.loadChunks, answer_bind Reads.loadChunks, hload]
    cases answer w (loadChunks codec b.ns name (childOwner intent.name intent.uid) m.size 0 []
        (m.references.zip c.chunkUIDs)) with
    | error e => rfl
    | ok payload =>
      simp only [Except.bind]
      split
      · rfl
      · rfl

/-- A completion that cannot be read ends the load of a chunked result. -/
theorem loadIntent_error {e : StoreError}
    (huid : intent.uid ≠ []) (hm : admissionManifest codec intent = .ok (m, name)) (hb : m.binding = b)
    (hinlined : m.inlined = none)
    (hready : readAt w (record codec b.ns (completionName name) .complete
      (childOwner intent.name intent.uid) []) = .error e) :
    answer w (loadIntent codec intent b) = .error e := by
  unfold loadIntent
  rw [if_neg huid]
  simp only [hm, hb, hinlined, ne_eq, not_true_eq_false, if_false]
  unfold loadCompletion
  rw [answer_bind (.read _), answer_read, hready]
  rfl

theorem answer_load (hname : resultName codec b = .ok name) :
    answer w (load codec b) = (readAt w (intentRecord codec b name [])).bind fun intent =>
      answer w (loadIntent codec intent b) := by
  have hload : load codec b = (read (intentRecord codec b name []) >>= fun intent =>
      loadIntent codec intent b) := by
    unfold load
    rw [hname]
    rfl
  rw [hload, answer_bind (.read _), answer_read]

/-- The records that a payload was read from. -/
structure Whole (codec : Codec) (w : World) (b : Binding) (name : Bytes) (intent : Record) (m : Manifest) :
    Prop where
  named : resultName codec b = .ok name
  read : readAt w (intentRecord codec b name []) = .ok intent
  manifest : admissionManifest codec intent = .ok (m, name)
  binding : m.binding = b
  completion : m.inlined = none → ∃ r,
    readAt w (record codec b.ns (completionName name) .complete (childOwner name intent.uid) []) = .ok r
  chunks : ∀ i, i < m.references.length → ∃ r,
    readAt w (record codec b.ns (chunkName name i) .chunk (childOwner name intent.uid) []) = .ok r

theorem load_whole {result : Bytes × Receipt} (h : answer w (load codec b) = .ok result) :
    ∃ name intent m, Whole codec w b name intent m := by
  cases hname : resultName codec b with
  | error e =>
    have hload : load codec b = throw e := by
      unfold load
      rw [hname]
      rfl
    rw [hload] at h
    cases h
  | ok name =>
    rw [answer_load hname] at h
    cases hintent : readAt w (intentRecord codec b name []) with
    | error e =>
      rw [hintent] at h
      cases h
    | ok intent =>
      rw [hintent] at h
      simp only [Except.bind] at h
      have hkey : intent.name = name := by
        have hshape := (recordShape_iff (readAt_ok hintent).2.2.2).1
        exact congrArg Prod.snd hshape
      unfold loadIntent at h
      split at h
      · cases h
      split at h
      · cases h
      rename_i m found hm
      split at h
      · cases h
      rename_i hb
      rw [ne_eq, not_not] at hb
      have hfound : found = name := by
        have hnamed := (admissionManifest_ok hm).named
        rw [hb, hname] at hnamed
        exact (Except.ok.inj hnamed).symm
      subst hfound
      split at h
      · rename_i payload hpayload
        have hrefs := ((admissionManifest_ok hm).inlined payload hpayload).2.2
        refine ⟨found, intent, m, hname, hintent, hm, hb, fun hnone => ?_, fun i hi => ?_⟩
        · rw [hpayload] at hnone
          cases hnone
        · rw [hrefs] at hi
          exact absurd hi (Nat.not_lt_zero _)
      · unfold loadCompletion at h
        dsimp only at h
        rw [answer_bind (.read _), answer_read, hkey] at h
        cases hready : readAt w (record codec b.ns (completionName found) .complete
            (childOwner found intent.uid) []) with
        | error e =>
          rw [hready] at h
          cases h
        | ok ready =>
          rw [hready] at h
          simp only [Except.bind] at h
          split at h
          · cases h
          rename_i c hc
          rw [answer_bind Reads.loadChunks] at h
          cases hload : answer w (loadChunks codec b.ns found (childOwner found intent.uid) m.size 0 []
              (m.references.zip c.chunkUIDs)) with
          | error e =>
            rw [hload] at h
            cases h
          | ok payload =>
            refine ⟨found, intent, m, hname, hintent, hm, hb, fun _ => ⟨ready, hready⟩, fun i hi => ?_⟩
            have hlength : (m.references.zip c.chunkUIDs).length = m.references.length := by
              rw [List.length_zip, completes_length hc, Nat.min_self]
            have hpart := loadChunks_ok hload i (by rw [hlength]; exact hi)
            rwa [Nat.zero_add] at hpart

end Load

end Ptah.ResultStore
