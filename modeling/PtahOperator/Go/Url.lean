import PtahOperator.Go.Bytes
import PtahOperator.Scan.Index

/-!
# Queries of a URL and addresses of a network

The parts of `net/url` and `net` that take texts apart and put them together.

* `unescape`, `parseQuery`: reading a query.
* `queryEscape`, `encode`: writing one.
* `splitHostPort`, `joinHostPort`: the address of an endpoint.
* `encode_eq_iff`: what was written says what it was written from.
-/

namespace Go

/-! ## Texts -/

/-- `strings.Contains` -/
def contains (text pattern : Bytes) : Bool := (Scan.cut pattern text).isSome

/-- The text in front of the last `c` and the text behind it. -/
def cutLast (c : UInt8) (text : Bytes) : Option (Bytes × Bytes) :=
  if c ∈ text then
    some ((text.reverse.dropWhile (· ≠ c)).tail.reverse, (text.reverse.takeWhile (· ≠ c)).reverse)
  else none

theorem cutLast_append {c : UInt8} {back : Bytes} (h : c ∉ back) (front : Bytes) :
    cutLast c (front ++ c :: back) = some (front, back) := by
  have hback : ∀ d ∈ back.reverse, decide (d ≠ c) = true := by
    intro d hd
    have : d ≠ c := fun hdc => h (hdc ▸ List.mem_reverse.1 hd)
    simpa using this
  have hstop : ∀ rest : Bytes, (c :: rest).takeWhile (fun d => decide (d ≠ c)) = [] ∧
      (c :: rest).dropWhile (fun d => decide (d ≠ c)) = c :: rest := by
    simp
  rw [cutLast, if_pos (List.mem_append_right _ (.head _)), List.reverse_append,
    List.reverse_cons, List.append_assoc, List.singleton_append, List.takeWhile_append_of_pos hback,
    List.dropWhile_append_of_pos hback, (hstop _).1, (hstop _).2]
  simp

/-- `strings.TrimSuffix` with one byte. -/
def trimLast (c : UInt8) (text : Bytes) : Bytes :=
  if text.getLast? = some c then text.dropLast else text

/-- `strings.TrimPrefix` with one byte. -/
def trimFirst (c : UInt8) (text : Bytes) : Bytes := if text.head? = some c then text.tail else text

/-! ## Escapes -/

/-- The bytes that `url.QueryEscape` leaves as they are. -/
def unreserved (c : UInt8) : Bool :=
  0x61 ≤ c && c ≤ 0x7a || 0x41 ≤ c && c ≤ 0x5a || isDigit c ||
    c == 0x2d || c == 0x5f || c == 0x2e || c == 0x7e

def upperHexDigit (n : Nat) : UInt8 := if n < 10 then digitByte n else (0x37 + n).toUInt8

/-- What `url.QueryEscape` writes for one byte. -/
def queryEscapeByte (c : UInt8) : Bytes :=
  if unreserved c then [c]
  else if c = space then [0x2b]
  else [0x25, upperHexDigit (c.toNat / 16), upperHexDigit (c.toNat % 16)]

/-- `url.QueryEscape` -/
def queryEscape (text : Bytes) : Bytes := text.flatMap queryEscapeByte

/-- `url.QueryUnescape`, or `url.PathUnescape` if a plus is no space. -/
def unescape (plus : Bool) : Bytes → Option Bytes
  | [] => some []
  | c :: rest =>
    if c = 0x25 then
      match rest with
      | high :: low :: rest' =>
        match hexValue high, hexValue low, unescape plus rest' with
        | some h, some l, some tail => some ((16 * h + l) :: tail)
        | _, _, _ => none
      | _ => none
    else (unescape plus rest).map ((if plus && c == 0x2b then space else c) :: ·)

theorem unescape_plain {plus : Bool} {c : UInt8} (h : c ≠ 0x25) (rest : Bytes) :
    unescape plus (c :: rest) =
      (unescape plus rest).map ((if plus && c == 0x2b then space else c) :: ·) := by
  rw [unescape.eq_def]
  simp only [if_neg h]

/-- The bytes of an escaped text. -/
def Escaped (c : UInt8) : Prop := unreserved c = true ∨ c = 0x2b ∨ c = 0x25

theorem escaped_of_mem_queryEscape {text : Bytes} {c : UInt8} (h : c ∈ queryEscape text) : Escaped c := by
  obtain ⟨b, -, hb⟩ := List.mem_flatMap.1 h
  have hhex (n : Fin 16) : unreserved (upperHexDigit n) = true := by
    revert n
    decide
  have hlt := b.toNat_lt
  unfold queryEscapeByte at hb
  split at hb
  · rename_i hplain
    cases List.mem_singleton.1 hb
    exact .inl hplain
  split at hb
  · exact .inr (.inl (List.mem_singleton.1 hb))
  simp only [List.mem_cons, List.not_mem_nil, or_false] at hb
  rcases hb with rfl | rfl | rfl
  · exact .inr (.inr rfl)
  · exact .inl (hhex ⟨b.toNat / 16, by omega⟩)
  · exact .inl (hhex ⟨b.toNat % 16, by omega⟩)

theorem hexValue_upperHexDigit {n : Nat} (h : n < 16) :
    hexValue (upperHexDigit n) = some n.toUInt8 := by
  have hall : ∀ n : Fin 16, hexValue (upperHexDigit n) = some n.val.toUInt8 := by decide
  exact hall ⟨n, h⟩

theorem unescape_queryEscapeByte (c : UInt8) (rest : Bytes) :
    unescape true (queryEscapeByte c ++ rest) = (unescape true rest).map (c :: ·) := by
  unfold queryEscapeByte
  split
  · rename_i hplain
    have hpercent : c ≠ 0x25 := by
      rintro rfl
      exact absurd hplain (by decide)
    have hplus : c ≠ 0x2b := by
      rintro rfl
      exact absurd hplain (by decide)
    rw [List.singleton_append, unescape_plain hpercent]
    simp [hplus]
  split
  · rename_i hspace
    rw [List.singleton_append, unescape_plain (by decide), hspace]
    rfl
  have hlt := c.toNat_lt
  rw [List.cons_append, List.cons_append, List.singleton_append, unescape, if_pos rfl]
  rw [hexValue_upperHexDigit (by omega), hexValue_upperHexDigit (by omega)]
  cases unescape true rest with
  | none => rfl
  | some tail =>
    dsimp only
    rw [nibbles]
    rfl

theorem unescape_queryEscape (text : Bytes) : unescape true (queryEscape text) = some text := by
  induction text with
  | nil => rfl
  | cons c text ih =>
    rw [queryEscape, List.flatMap_cons, unescape_queryEscapeByte, ← queryEscape, ih]
    rfl

theorem queryEscape_inj {a b : Bytes} (h : queryEscape a = queryEscape b) : a = b := by
  have hread := congrArg (unescape true) h
  rw [unescape_queryEscape, unescape_queryEscape] at hread
  exact Option.some.inj hread

theorem notMem_queryEscape {c : UInt8} (h : ¬Escaped c) (text : Bytes) : c ∉ queryEscape text :=
  fun hm => h (escaped_of_mem_queryEscape hm)

instance : DecidablePred Escaped := fun _ => inferInstanceAs (Decidable (_ ∨ _))

/-! ## Queries -/

/-- `url.Values`: each key once, with its values in order. -/
structure Values where
  entries : List (Bytes × List Bytes)
  nodup : (entries.map Prod.fst).Nodup

def Values.get? (values : Values) (key : Bytes) : Option (List Bytes) := values.entries.lookup key

def addTo (key value : Bytes) : List (Bytes × List Bytes) → List (Bytes × List Bytes)
  | [] => [(key, [value])]
  | entry :: entries =>
    if entry.1 = key then (key, entry.2 ++ [value]) :: entries else entry :: addTo key value entries

theorem addTo_keys (key value : Bytes) (entries : List (Bytes × List Bytes)) :
    (addTo key value entries).map Prod.fst =
      if key ∈ entries.map Prod.fst then entries.map Prod.fst else entries.map Prod.fst ++ [key] := by
  induction entries with
  | nil => rfl
  | cons entry entries ih =>
    rw [addTo]
    split
    · rename_i hkey
      simp [hkey]
    rename_i hkey
    rw [List.map_cons, List.map_cons, ih]
    have hne : key ≠ entry.1 := fun h => hkey h.symm
    by_cases hin : key ∈ entries.map Prod.fst
    · rw [if_pos hin, if_pos (.tail _ hin)]
    · rw [if_neg hin, if_neg (fun h => (List.mem_cons.1 h).elim hne hin)]
      rfl

/-- `Values.Add` -/
def Values.add (values : Values) (key value : Bytes) : Values where
  entries := addTo key value values.entries
  nodup := by
    rw [addTo_keys]
    split
    · exact values.nodup
    rename_i hnew
    exact List.nodup_append.2 ⟨values.nodup, List.nodup_singleton _, fun a ha b hb hab =>
      hnew (List.mem_singleton.1 hb ▸ hab ▸ ha)⟩

def addPiece (values : Values) (piece : Bytes) : Option Values :=
  if 0x3b ∈ piece then none
  else if piece = [] then some values
  else
    match unescape true (piece.takeWhile (· ≠ 0x3d)),
      unescape true (piece.dropWhile (· ≠ 0x3d)).tail with
    | some key, some value => some (values.add key value)
    | _, _ => none

/-- `url.ParseQuery`, without the values it returns along with an error. -/
def parseQuery (query : Bytes) : Option Values :=
  (query.splitOn 0x26).foldlM addPiece ⟨[], List.nodup_nil⟩

def encodePair (pair : Bytes × Bytes) : Bytes := queryEscape pair.1 ++ 0x3d :: queryEscape pair.2

/-- `Values.Encode` of keys with one value each, in the order of the keys. -/
def encode (parameters : List (Bytes × Bytes)) : Bytes :=
  [0x26].intercalate ((parameters.insertionSort fun a b => a.1 ≤ b.1).map encodePair)

theorem encodePair_inj {a b : Bytes × Bytes} (h : encodePair a = encodePair b) : a = b := by
  have hkey text : 0x3d ∉ queryEscape text := notMem_queryEscape (by decide) text
  obtain ⟨hfst, -, hsnd⟩ := (List.append_cons_inj_of_notMem (hkey _) (hkey _)).1 h
  exact Prod.ext (queryEscape_inj hfst) (queryEscape_inj hsnd)

theorem notMem_encodePair {c : UInt8} (h : ¬Escaped c) (heq : c ≠ 0x3d) (pair : Bytes × Bytes) :
    c ∉ encodePair pair := by
  intro hm
  rcases List.mem_append.1 hm with hm | hm
  · exact notMem_queryEscape h _ hm
  rcases List.mem_cons.1 hm with hm | hm
  · exact heq hm
  · exact notMem_queryEscape h _ hm

theorem intercalate_pairs_inj {a b : List (Bytes × Bytes)}
    (h : [0x26].intercalate (a.map encodePair) = [0x26].intercalate (b.map encodePair)) : a = b := by
  have hsplit {ps : List (Bytes × Bytes)} (hne : ps ≠ []) :
      ([0x26].intercalate (ps.map encodePair)).splitOn 0x26 = ps.map encodePair := by
    refine List.splitOn_intercalate _ (fun l hl => ?_) (by simpa using hne)
    obtain ⟨pair, -, rfl⟩ := List.mem_map.1 hl
    exact notMem_encodePair (by decide) (by decide) pair
  have hempty {ps : List (Bytes × Bytes)} (h : [0x26].intercalate (ps.map encodePair) = []) :
      ps = [] := by
    by_contra hne
    have := hsplit hne
    rw [h] at this
    obtain ⟨pair, rest, rfl⟩ := List.exists_cons_of_ne_nil hne
    have hnil : [] = encodePair pair := (List.cons.inj this).1
    exact absurd hnil.symm (by simp [encodePair])
  by_cases ha : a = []
  · subst ha
    exact (hempty h.symm).symm
  by_cases hb : b = []
  · subst hb
    exact hempty h
  · have hmaps := congrArg (List.splitOn 0x26) h
    rw [hsplit ha, hsplit hb] at hmaps
    exact List.map_injective_iff.2 (fun _ _ => encodePair_inj) hmaps

/-- Two encoded queries are the same text if their parameters are the same, in any order. -/
theorem encode_eq_iff {a b : List (Bytes × Bytes)} (ha : (a.map Prod.fst).Nodup) :
    encode a = encode b ↔ a.Perm b := by
  constructor
  · intro h
    have hsorted := intercalate_pairs_inj h
    exact (List.perm_insertionSort _ a).symm.trans (hsorted ▸ List.perm_insertionSort _ b)
  intro h
  have hsorted : (a.insertionSort fun a b => a.1 ≤ b.1) = b.insertionSort fun a b => a.1 ≤ b.1 := by
    refine List.Perm.eq_of_pairwise ?_ (List.pairwise_insertionSort _ a)
      (List.pairwise_insertionSort _ b)
      ((List.perm_insertionSort _ a).trans (h.trans (List.perm_insertionSort _ b).symm))
    intro x y hx hy hle hge
    have hx' := (List.perm_insertionSort _ a).mem_iff.1 hx
    have hy' := h.mem_iff.2 ((List.perm_insertionSort _ b).mem_iff.1 hy)
    exact List.inj_on_of_nodup_map ha hx' hy' (List.le_antisymm hle hge)
  rw [encode, hsorted, encode]

theorem notMem_encode {c : UInt8} (h : ¬Escaped c) (heq : c ≠ 0x3d) (hand : c ≠ 0x26)
    (parameters : List (Bytes × Bytes)) : c ∉ encode parameters := by
  have hmem : ∀ ps : List Bytes, (∀ p ∈ ps, c ∉ p) → c ∉ [0x26].intercalate ps := by
    intro ps
    induction ps with
    | nil => exact fun _ hm => by cases hm
    | cons p ps ih =>
      intro hps hm
      cases ps with
      | nil => exact hps p (.head _) (by simpa [List.intercalate] using hm)
      | cons q ps =>
        have hsplit : [0x26].intercalate (p :: q :: ps) = p ++ 0x26 :: [0x26].intercalate (q :: ps) := by
          simp [List.intercalate]
        rcases List.mem_append.1 hm with hm | hm
        · exact hps p (.head _) hm
        rcases List.mem_cons.1 hm with hm | hm
        · exact hand hm
        · exact ih (fun p hp => hps p (.tail _ hp)) hm
  refine hmem _ fun p hp => ?_
  obtain ⟨pair, -, rfl⟩ := List.mem_map.1 hp
  exact notMem_encodePair h heq pair

/-! ## Addresses -/

/-- `net.SplitHostPort`, without the reason of an error. -/
def splitHostPort (hostport : Bytes) : Option (Bytes × Bytes) :=
  match cutLast 0x3a hostport with
  | none => none
  | some (before, port) =>
    if hostport.head? = some 0x5b then
      match Scan.index [0x5d] hostport with
      | none => none
      | some stop =>
        if stop + 1 ≠ before.length then none
        else if 0x5b ∈ hostport.tail || 0x5d ∈ hostport.drop (stop + 1) then none
        else some ((hostport.take stop).tail, port)
    else if 0x3a ∈ before then none
    else if 0x5b ∈ hostport || 0x5d ∈ hostport then none
    else some (before, port)

/-- `net.JoinHostPort` -/
def joinHostPort (host port : Bytes) : Bytes :=
  if 0x3a ∈ host then 0x5b :: host ++ 0x5d :: 0x3a :: port else host ++ 0x3a :: port

/-- `strconv.ParseUint(text, 10, 16)` of a port, which is not zero. -/
def parsePort (text : Bytes) : Option Nat := (parseDigits text).filter fun n => 0 < n && n < 2 ^ 16

end Go
