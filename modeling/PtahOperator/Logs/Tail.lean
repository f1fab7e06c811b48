import PtahOperator.Go.Bytes
import Mathlib.Data.List.DropRight

/-!
# The tail of a log

How the manager reads the log of an executor (`internal/controller/logs.go`): it keeps the last bytes,
in a buffer that is written around once it is full.

* `LogTail`: the buffer, with what holds between two turns of the loop that writes to it.
* `readLogTail_ok`: the last `limit` bytes of the log, however the stream cuts it into chunks.
-/

namespace Ptah.Logs

open Go (Bytes)

/-- The variables `tail`, `oldest` and `wrap` of `readLogTail`. -/
structure LogTail (limit : Nat) where
  tail : Bytes
  oldest : Nat
  wrap : Bool
  growing : wrap = false → tail.length < limit
  full : wrap = true → tail.length = limit ∧ oldest < limit

variable {limit : Nat}

def LogTail.empty (h : 0 < limit) : LogTail limit where
  tail := []
  oldest := 0
  wrap := false
  growing _ := h
  full h := by cases h

/-- What `readLogTail` returns: the bytes from the oldest on. -/
def LogTail.ordered (t : LogTail limit) : Bytes :=
  if t.wrap then t.tail.drop t.oldest ++ t.tail.take t.oldest else t.tail

/-- How many bytes one turn of the loop takes from a block. -/
def LogTail.room (t : LogTail limit) : Nat :=
  if t.wrap then t.tail.length - t.oldest else limit - t.tail.length

theorem LogTail.room_pos (t : LogTail limit) : 0 < t.room := by
  unfold LogTail.room
  cases hwrap : t.wrap with
  | false =>
    have := t.growing hwrap
    simp only [Bool.false_eq_true, if_false]
    omega
  | true =>
    have := t.full hwrap
    simp only [if_true]
    omega

/-- One turn of the loop that writes a block. -/
def LogTail.put (t : LogTail limit) (block : Bytes) : LogTail limit :=
  let take := min t.room block.length
  if hwrap : t.wrap = true then
    { tail := t.tail.take t.oldest ++ block.take take ++ t.tail.drop (t.oldest + take)
      oldest := (t.oldest + take) % t.tail.length
      wrap := true
      growing := nofun
      full := fun _ => by
        obtain ⟨hlen, hold⟩ := t.full hwrap
        have hroom : take ≤ t.tail.length - t.oldest := by
          have : take ≤ t.room := Nat.min_le_left _ _
          rwa [LogTail.room, if_pos hwrap] at this
        have hblock : take ≤ block.length := Nat.min_le_right _ _
        have hmod := Nat.mod_lt (t.oldest + take) (show 0 < t.tail.length by omega)
        refine ⟨?_, by omega⟩
        simp only [List.length_append, List.length_take, List.length_drop]
        omega }
  else
    { tail := t.tail ++ block.take take
      oldest := if (t.tail ++ block.take take).length = limit then 0 else t.oldest
      wrap := decide ((t.tail ++ block.take take).length = limit)
      growing := fun h => by
        have hroom : take ≤ limit - t.tail.length := by
          have : take ≤ t.room := Nat.min_le_left _ _
          rwa [LogTail.room, if_neg hwrap] at this
        have := t.growing (Bool.eq_false_of_not_eq_true hwrap)
        simp only [decide_eq_false_iff_not, List.length_append, List.length_take] at h ⊢
        omega
      full := fun h => by
        have := t.growing (Bool.eq_false_of_not_eq_true hwrap)
        have hlen := of_decide_eq_true h
        exact ⟨hlen, by rw [if_pos hlen]; omega⟩ }

def LogTail.write (t : LogTail limit) (block : Bytes) : LogTail limit :=
  if block = [] then t else (t.put block).write (block.drop (min t.room block.length))
termination_by block.length
decreasing_by
  have := t.room_pos
  have : 0 < block.length := List.length_pos_iff.2 ‹_›
  rw [List.length_drop]
  omega

/-- What an `io.Reader` gives: the chunks that its calls return, and the error they end with, or none
at the end of the log. -/
structure Stream where
  chunks : List Bytes
  failure : Option String := none

def readLogTail (r : Stream) (limit : Int) : Except String Bytes :=
  if h : 0 < limit.toNat then
    let t := r.chunks.foldl
      (fun t chunk => t.write (chunk.drop (chunk.length - limit.toNat))) (LogTail.empty h)
    match r.failure with
    | some failure => .error failure
    | none => .ok t.ordered
  else .error s!"a result log tail needs a positive bound, got {limit}"

/-! ## The buffer keeps the last bytes -/

theorem rtake_of_length_le {l : Bytes} {n : Nat} (h : l.length ≤ n) : l.rtake n = l := by
  rw [List.rtake, Nat.sub_eq_zero_of_le h, List.drop_zero]

theorem rtake_append_of_le {a b : Bytes} {n : Nat} (h : n ≤ b.length) :
    (a ++ b).rtake n = b.rtake n := by
  rw [List.rtake, List.rtake, List.length_append, List.drop_append]
  have hdrop : a.drop (a.length + b.length - n) = [] := List.drop_eq_nil_of_le (by omega)
  rw [hdrop, List.nil_append]
  congr 1
  omega

/-- The last bytes depend only on the last bytes of what stands in front. -/
theorem rtake_rtake_append (a b : Bytes) (n : Nat) : (a.rtake n ++ b).rtake n = (a ++ b).rtake n := by
  by_cases h : a.length ≤ n
  · rw [rtake_of_length_le h]
  have hlen : n ≤ (a.rtake n ++ b).length := by
    rw [List.rtake, List.length_append, List.length_drop]
    omega
  have hsplit : a ++ b = a.rdrop n ++ (a.rtake n ++ b) := by
    rw [← List.append_assoc, List.rdrop, List.rtake, List.take_append_drop]
  rw [hsplit, rtake_append_of_le hlen]

theorem LogTail.length_ordered_le (t : LogTail limit) : t.ordered.length ≤ limit := by
  unfold LogTail.ordered
  split
  · rename_i hwrap
    have := t.full hwrap
    simp only [List.length_append, List.length_drop, List.length_take]
    omega
  · rename_i hwrap
    have := t.growing (Bool.eq_false_of_not_eq_true hwrap)
    omega

/-- One turn of the loop drops only what the rest of the block would push out. -/
theorem LogTail.ordered_put (t : LogTail limit) (block : Bytes) :
    ((t.put block).ordered ++ block.drop (min t.room block.length)).rtake limit =
      (t.ordered ++ block).rtake limit := by
  by_cases hwrap : t.wrap = true
  · obtain ⟨hlen, hold⟩ := t.full hwrap
    have hroom : t.room = limit - t.oldest := by rw [LogTail.room, if_pos hwrap, hlen]
    generalize htake : min t.room block.length = take
    have hput : (t.put block).ordered =
        t.tail.drop (t.oldest + take) ++ (t.tail.take t.oldest ++ block.take take) := by
      unfold LogTail.put LogTail.ordered
      simp only [hwrap, dite_true, if_true, htake]
      have hfront : (t.tail.take t.oldest ++ block.take take).length = t.oldest + take := by
        simp only [List.length_append, List.length_take]
        omega
      by_cases hend : t.oldest + take = t.tail.length
      · rw [hend, Nat.mod_self]
        simp
      · rw [Nat.mod_eq_of_lt (by omega), List.drop_append_of_le_length (by omega),
          List.take_append_of_le_length (by omega), List.drop_of_length_le (by omega),
          List.take_of_length_le (by omega), List.nil_append]
    have hsplit : t.ordered ++ block = (t.tail.drop t.oldest).take take ++
        ((t.put block).ordered ++ block.drop take) := by
      rw [hput, LogTail.ordered, if_pos hwrap, ← List.drop_drop]
      simp only [List.append_assoc, List.take_append_drop]
      rw [← List.append_assoc (List.take take _), List.take_append_drop]
    have hlong : limit ≤ ((t.put block).ordered ++ block.drop take).length := by
      rw [hput]
      simp only [List.length_append, List.length_drop, List.length_take]
      omega
    rw [hsplit, rtake_append_of_le hlong]
  · have hput : (t.put block).ordered = t.ordered ++ block.take (min t.room block.length) := by
      unfold LogTail.put LogTail.ordered
      simp only [hwrap, dite_false, if_false, Bool.false_eq_true]
      split
      · rename_i hfull
        rw [if_pos (of_decide_eq_true hfull), List.drop_zero, List.take_zero, List.append_nil]
      · rfl
    rw [hput, List.append_assoc, List.take_append_drop]

theorem LogTail.ordered_write (t : LogTail limit) (block : Bytes) :
    (t.write block).ordered = (t.ordered ++ block).rtake limit := by
  fun_induction LogTail.write t block with
  | case1 t => rw [List.append_nil, rtake_of_length_le t.length_ordered_le]
  | case2 t block _ ih => rw [ih, t.ordered_put]

/-- A chunk behind the last bytes of what was read before. A chunk longer than the bound is cut to
its own last bytes first. -/
theorem LogTail.ordered_chunk {t : LogTail limit} {front : Bytes}
    (hfront : t.ordered = front.rtake limit) (chunk : Bytes) :
    (t.write (chunk.drop (chunk.length - limit))).ordered = (front ++ chunk).rtake limit := by
  have hcut : chunk.drop (chunk.length - limit) = chunk.rtake limit := rfl
  rw [LogTail.ordered_write, hfront, rtake_rtake_append, hcut]
  by_cases hlong : chunk.length ≤ limit
  · rw [rtake_of_length_le hlong]
  have hrtake : (chunk.rtake limit).length = limit := by
    rw [List.rtake, List.length_drop]
    omega
  rw [rtake_append_of_le (by omega), rtake_append_of_le (by omega), rtake_of_length_le (by omega)]

theorem readLogTail_ok (chunks : List Bytes) {limit : Nat} (h : 0 < limit) :
    readLogTail ⟨chunks, none⟩ limit = .ok (chunks.flatten.rtake limit) := by
  have hfold : ∀ (chunks : List Bytes) (t : LogTail limit) front, t.ordered = front.rtake limit →
      (chunks.foldl (fun t chunk => t.write (chunk.drop (chunk.length - limit))) t).ordered =
        (front ++ chunks.flatten).rtake limit := by
    intro chunks
    induction chunks with
    | nil => intro t front ht; simpa using ht
    | cons chunk chunks ih =>
      intro t front ht
      rw [List.foldl_cons, ih _ (front ++ chunk) (LogTail.ordered_chunk ht chunk),
        List.flatten_cons, List.append_assoc]
  unfold readLogTail
  rw [dif_pos (by simpa using h)]
  simp only [Int.toNat_natCast]
  rw [hfold chunks _ [] (by simp [LogTail.ordered, LogTail.empty]), List.nil_append]

end Ptah.Logs
