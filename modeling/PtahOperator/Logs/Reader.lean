import PtahOperator.Logs.Tail

/-!
# The reader of a log and what it reserves

`readLogTail` with the calls of `Read` it makes and the memory it asks for. A call may deliver no
bytes, and the last one may deliver bytes together with its error. The buffer is `LogTail` with the
capacity of its slice (`Buffer`); `reserved` lists every capacity that was asked for.

- **`growTail`**: the capacity is doubled, up to the bound.
- **`Buffer.Within`**: between two turns of the loop the slice fits its capacity, and nothing above
  the bound was reserved. So `append` never reserves on its own.
- **`Reader.readLogTail_exact`**: the last bytes of what was delivered, and nothing when the reader
  fails.
-/

namespace Ptah.Logs

open Go (Bytes)

/-- How a call of `Read` ends. -/
inductive ReadEnd where
  | more
  /-- `io.EOF` -/
  | eof
  | failed (e : String)
  deriving DecidableEq

/-- One call of `Read`: the bytes it delivers, and how it ends. -/
structure Read where
  data : Bytes
  ending : ReadEnd
  deriving DecidableEq

/-- The calls of an `io.Reader`, in order. -/
abbrev Reader := List Read

/-! ## Capacities -/

/-- The buffer, with the capacity of its slice and the capacities that were reserved. -/
structure Buffer (limit : Nat) extends LogTail limit where
  cap : Nat
  reserved : List Nat

/-- `growTail`: the capacity it reserves for a slice of `len` bytes, if it reserves one. -/
def growTail (len cap take limit : Nat) : Option Nat :=
  if len + take ≤ cap then none else some (min (max (2 * cap) (len + take)) limit)

/-- `append`: the capacity it reserves, which it picks by `grow`, if the bytes do not fit. -/
def appendGrows (grow : Nat → Nat → Nat) (len cap take : Nat) : Option Nat :=
  if len + take ≤ cap then none else some (grow cap (len + take))

/-- The capacity and the list of capacities, after one that may have been reserved. -/
def reserve (asked : Option Nat) (state : Nat × List Nat) : Nat × List Nat :=
  match asked with
  | none => state
  | some cap => (cap, cap :: state.2)

section

variable {limit : Nat} (grow : Nat → Nat → Nat)

def Buffer.empty (h : 0 < limit) : Buffer limit :=
  { LogTail.empty h with cap := 0, reserved := [] }

/-- What one turn of the loop reserves: nothing once the buffer is written around. -/
def Buffer.reserveFor (b : Buffer limit) (take : Nat) : Nat × List Nat :=
  if b.wrap then (b.cap, b.reserved)
  else
    let grown := reserve (growTail b.tail.length b.cap take limit) (b.cap, b.reserved)
    reserve (appendGrows grow b.tail.length grown.1 take) grown

/-- One turn of the loop that writes a block. -/
def Buffer.put (b : Buffer limit) (block : Bytes) : Buffer limit :=
  let room := b.reserveFor grow (min b.room block.length)
  { b.toLogTail.put block with cap := room.1, reserved := room.2 }

def Buffer.write (b : Buffer limit) (block : Bytes) : Buffer limit :=
  if block = [] then b else (b.put grow block).write (block.drop (min b.room block.length))
termination_by block.length
decreasing_by
  have := b.toLogTail.room_pos
  have : 0 < block.length := List.length_pos_iff.2 ‹_›
  rw [List.length_drop]
  omega

/-- What is returned at the end of the log, and what was reserved for it. -/
def Buffer.finish (b : Buffer limit) : Except String Bytes × List Nat :=
  (.ok b.ordered, if b.wrap then b.tail.length :: b.reserved else b.reserved)

/-- The loop over the calls of `Read`. It has no result while the reader goes on. -/
def readLoop (b : Buffer limit) : Reader → Option (Except String Bytes × List Nat)
  | [] => none
  | r :: rest =>
    -- A block longer than the bound is cut to its own last bytes first.
    let b := b.write grow (r.data.drop (r.data.length - limit))
    match r.ending with
    | .more => readLoop b rest
    | .eof => some b.finish
    | .failed e => some (.error e, b.reserved)

end

/-- `readLogTail`: the result, and every capacity it reserved for the tail. -/
def Reader.readLogTail (grow : Nat → Nat → Nat) (reader : Reader) (limit : Int) :
    Option (Except String Bytes × List Nat) :=
  if h : 0 < limit.toNat then readLoop grow (Buffer.empty h) reader
  else some (.error s!"a result log tail needs a positive bound, got {limit}", [])

def Reader.delivered (reader : Reader) : Bytes := reader.flatMap (·.data)

/-! ## Nothing above the bound is reserved -/

section

variable {limit : Nat} {grow : Nat → Nat → Nat} {b : Buffer limit}

/-- The slice fits its capacity, and nothing above the bound was reserved. -/
structure Buffer.Within (b : Buffer limit) : Prop where
  fits : b.tail.length ≤ b.cap
  cap : b.cap ≤ limit
  reserved : ∀ c ∈ b.reserved, c ≤ limit

theorem Buffer.within_empty (h : 0 < limit) : (Buffer.empty h).Within :=
  ⟨Nat.zero_le _, Nat.zero_le _, fun _ hc => by cases hc⟩

theorem growTail_room {len cap take : Nat} {reserved : List Nat} (hcap : cap ≤ limit)
    (hreserved : ∀ c ∈ reserved, c ≤ limit) (htake : len + take ≤ limit) :
    let grown := reserve (growTail len cap take limit) (cap, reserved)
    len + take ≤ grown.1 ∧ grown.1 ≤ limit ∧ ∀ c ∈ grown.2, c ≤ limit := by
  unfold growTail
  split
  · exact ⟨‹_›, hcap, hreserved⟩
  have hnew : min (max (2 * cap) (len + take)) limit ≤ limit := Nat.min_le_right _ _
  refine ⟨?_, hnew, fun c hc => ?_⟩
  · simp only [reserve]
    omega
  · rcases hc with _ | ⟨_, hc⟩
    · exact hnew
    · exact hreserved c hc

theorem Buffer.within_put (h : b.Within) (block : Bytes) : (b.put grow block).Within := by
  have hlen : (b.toLogTail.put block).tail.length ≤ limit := by
    by_cases hwrap : (b.toLogTail.put block).wrap = true
    · exact le_of_eq ((b.toLogTail.put block).full hwrap).1
    · exact Nat.le_of_lt ((b.toLogTail.put block).growing (Bool.eq_false_of_not_eq_true hwrap))
  cases hwrap : b.wrap with
  | true =>
    have hroom : b.reserveFor grow (min b.room block.length) = (b.cap, b.reserved) := by
      rw [Buffer.reserveFor, if_pos hwrap]
    have hcap : b.cap = limit := by
      have := h.fits
      have := h.cap
      have := (b.full hwrap).1
      omega
    refine ⟨?_, ?_, ?_⟩
    · simp only [Buffer.put, hroom, hcap]
      exact hlen
    · simp only [Buffer.put, hroom]
      exact h.cap
    · simp only [Buffer.put, hroom]
      exact h.reserved
  | false =>
    have htake : b.tail.length + min b.room block.length ≤ limit := by
      have := b.growing hwrap
      have hroom : b.room = limit - b.tail.length := by rw [LogTail.room, hwrap]; rfl
      omega
    obtain ⟨hfits, hcap, hreserved⟩ := growTail_room h.cap h.reserved htake
    -- The bytes fit what `growTail` left, so that `append` reserves nothing.
    have hroom : b.reserveFor grow (min b.room block.length) =
        reserve (growTail b.tail.length b.cap (min b.room block.length) limit)
          (b.cap, b.reserved) := by
      simp only [Buffer.reserveFor, hwrap, Bool.false_eq_true, if_false, appendGrows, if_pos hfits]
      rfl
    have htail : (b.toLogTail.put block).tail = b.tail ++ block.take (min b.room block.length) := by
      rw [LogTail.put, dif_neg (by rw [hwrap]; decide)]
    refine ⟨?_, ?_, ?_⟩
    · simp only [Buffer.put, hroom, htail, List.length_append, List.length_take]
      omega
    · simp only [Buffer.put, hroom]
      exact hcap
    · simp only [Buffer.put, hroom]
      exact hreserved

theorem Buffer.within_write (h : b.Within) (block : Bytes) : (b.write grow block).Within := by
  fun_induction Buffer.write grow b block with
  | case1 b => exact h
  | case2 b block _ ih => exact ih (Buffer.within_put h block)

/-! ## The buffer is the one of `LogTail` -/

theorem Buffer.toLogTail_write (b : Buffer limit) (block : Bytes) :
    (b.write grow block).toLogTail = b.toLogTail.write block := by
  fun_induction Buffer.write grow b block with
  | case1 b => rw [LogTail.write, if_pos rfl]
  | case2 b block hne ih =>
    rw [ih]
    conv_rhs => rw [LogTail.write, if_neg hne]
    rfl

theorem Buffer.ordered_read {front : Bytes} (hfront : b.ordered = front.rtake limit)
    (data : Bytes) :
    (b.write grow (data.drop (data.length - limit))).ordered = (front ++ data).rtake limit := by
  rw [Buffer.toLogTail_write]
  exact LogTail.ordered_chunk hfront data

/-- The result of the loop: what the call that ends it says, on the last bytes delivered. -/
def Buffer.answer (last : ReadEnd) (tail : Bytes) : Except String Bytes :=
  match last with
  | .failed e => .error e
  | _ => .ok tail

theorem readLoop_answer {front : Bytes} (before : Reader) (last : Read) (after : Reader)
    (hmore : ∀ r ∈ before, r.ending = .more) (hend : last.ending ≠ .more) (hb : b.Within)
    (hfront : b.ordered = front.rtake limit) :
    ∃ reserved, readLoop grow b (before ++ last :: after) = some (Buffer.answer last.ending
          ((front ++ Reader.delivered (before ++ [last])).rtake limit), reserved) ∧
      ∀ c ∈ reserved, c ≤ limit := by
  induction before generalizing b front with
  | nil =>
    have hb' : (b.write grow (last.data.drop (last.data.length - limit))).Within :=
      Buffer.within_write hb _
    have hordered : (b.write grow (last.data.drop (last.data.length - limit))).ordered =
        (front ++ last.data).rtake limit := Buffer.ordered_read hfront last.data
    simp only [List.nil_append, readLoop, Reader.delivered, List.flatMap_cons, List.flatMap_nil,
      List.append_nil]
    cases hlast : last.ending with
    | more => exact absurd hlast hend
    | failed e => exact ⟨_, rfl, hb'.reserved⟩
    | eof =>
      refine ⟨_, by rw [Buffer.finish, hordered]; rfl, fun c hc => ?_⟩
      split at hc
      · rcases hc with _ | ⟨_, hc⟩
        · exact hb'.fits.trans hb'.cap
        · exact hb'.reserved c hc
      · exact hb'.reserved c hc
  | cons r before ih =>
    have hr : r.ending = .more := hmore r (.head _)
    obtain ⟨reserved, hloop, hreserved⟩ := ih (fun r' hr' => hmore r' (List.mem_cons_of_mem r hr'))
        (Buffer.within_write hb (r.data.drop (r.data.length - limit)))
        (Buffer.ordered_read hfront r.data)
    refine ⟨reserved, ?_, hreserved⟩
    simp only [List.cons_append, readLoop, hr]
    rw [hloop]
    simp only [Reader.delivered, List.flatMap_cons, List.append_assoc]

end

/-- For every reader and every positive bound: the last bytes of what the calls delivered, in order,
as many as the bound allows; nothing if the reader failed; and nothing above the bound was
reserved. -/
theorem Reader.readLogTail_exact (grow : Nat → Nat → Nat) {limit : Int} (hlimit : 0 < limit)
    (before : Reader) (last : Read) (after : Reader) (hmore : ∀ r ∈ before, r.ending = .more)
    (hend : last.ending ≠ .more) :
    ∃ result reserved, Reader.readLogTail grow (before ++ last :: after) limit =
        some (result, reserved) ∧
      (∀ c ∈ reserved, (c : Int) ≤ limit) ∧
      (last.ending = .eof → ∃ front tail, result = .ok tail ∧
        Reader.delivered (before ++ [last]) = front ++ tail ∧
        (tail.length : Int) = min limit (Reader.delivered (before ++ [last])).length) ∧
      (∀ e, last.ending = .failed e → result = .error e) := by
  have hpos : 0 < limit.toNat := by omega
  have hempty : (Buffer.empty hpos).ordered = List.rtake [] limit.toNat := by
    simp [Buffer.empty, LogTail.ordered, LogTail.empty]
  obtain ⟨reserved, hloop, hreserved⟩ :=
    @readLoop_answer _ grow _ _ before last after hmore hend (Buffer.within_empty hpos) hempty
  refine ⟨_, reserved, by rw [Reader.readLogTail, dif_pos hpos, hloop], ?_, ?_, ?_⟩
  · intro c hc
    have := hreserved c hc
    omega
  · intro heof
    rw [List.nil_append]
    generalize Reader.delivered (before ++ [last]) = text
    refine ⟨text.rdrop limit.toNat, text.rtake limit.toNat, by rw [heof]; rfl, ?_, ?_⟩
    · rw [List.rdrop, List.rtake, List.take_append_drop]
    · rw [List.rtake, List.length_drop]
      omega
  · intro e he
    rw [he]
    rfl

/-- A bound smaller than the log, an empty call, and a last call with bytes. -/
theorem Reader.readLogTail_exact_sample : ∃ result reserved, Reader.readLogTail (fun _ n => 2 * n)
        [⟨[1, 2, 3, 4, 5], .more⟩, ⟨[], .more⟩, ⟨[6, 7], .eof⟩] 3 = some (result, reserved) ∧
      (∀ c ∈ reserved, (c : Int) ≤ 3) ∧ ∃ front tail, result = .ok tail ∧
        [1, 2, 3, 4, 5, 6, 7] = front ++ tail ∧ tail.length = 3 := by
  obtain ⟨result, reserved, hread, hcap, heof, _⟩ :=
    Reader.readLogTail_exact (fun _ n => 2 * n) (by decide : (0 : Int) < 3)
      [⟨[1, 2, 3, 4, 5], .more⟩, ⟨[], .more⟩] ⟨[6, 7], .eof⟩ [] (by decide) (by decide)
  obtain ⟨front, tail, hresult, hsplit, hlen⟩ := heof rfl
  exact ⟨result, reserved, hread, hcap, front, tail, hresult, hsplit, by
    have : (tail.length : Int) = 3 := hlen
    omega⟩

end Ptah.Logs
