import Mathlib.Data.Nat.Digits.Lemmas

/-!
# Byte texts and Go's packages `bytes`, `strconv` and `encoding/hex`

* `fields`: `bytes.Fields`.
* `parseInt`: `strconv.ParseInt` in base 10 with 64 bits; `decimal`: the verb `%d`.
* `hexDecode`, `hexEncode`: `encoding/hex`.
-/

namespace Go

abbrev Bytes := List UInt8

def bytes (literal : String) : Bytes := literal.toList.map fun c => c.toNat.toUInt8

/-- A quantifier over the bytes of a text goes through the text, not through all bytes. -/
instance (priority := 2000) decidableForallBytes {p : UInt8 → Prop} [DecidablePred p] (text : List UInt8) :
    Decidable (∀ c ∈ text, p c) :=
  List.decidableBAll p text

def newline : UInt8 := 0x0a

def space : UInt8 := 0x20

/-! ## Fields -/

/-- How many bytes the white space at the front of a text takes, in UTF-8. No byte such a character
begins with continues another one, so it is found wherever it stands. -/
def spaceWidth : Bytes → Nat
  | [] => 0
  | c :: rest =>
    if 0x09 ≤ c && c ≤ 0x0d || c = space then 1
    else match rest with
    | [] => 0
    | d :: rest =>
      if c = 0xc2 && (d = 0x85 || d = 0xa0) then 2
      else match rest with
      | [] => 0
      | e :: _ =>
        if c = 0xe1 && d = 0x9a && e = 0x80 || c = 0xe2 && d = 0x81 && e = 0x9f ||
            c = 0xe3 && d = 0x80 && e = 0x80 ||
            c = 0xe2 && d = 0x80 && (0x80 ≤ e && e ≤ 0x8a || e = 0xa8 || e = 0xa9 || e = 0xaf) then 3
        else 0

/-- The fields of a text behind `skip` more bytes of white space, with `field` the bytes of the one
that was begun, the last first. -/
def fieldsFrom : (skip : Nat) → (field : Bytes) → Bytes → List Bytes
  | _, field, [] => if field = [] then [] else [field.reverse]
  | skip + 1, field, _ :: rest => fieldsFrom skip field rest
  | 0, field, c :: rest =>
    match spaceWidth (c :: rest) with
    | 0 => fieldsFrom 0 (c :: field) rest
    | width + 1 => (if field = [] then [] else [field.reverse]) ++ fieldsFrom width [] rest

/-- `bytes.Fields` -/
def fields (text : Bytes) : List Bytes := fieldsFrom 0 [] text

/-- A byte that is no part of white space. -/
def visible (c : UInt8) : Bool := 0x20 < c && c < 0x80

theorem spaceWidth_visible {c : UInt8} (h : visible c = true) (rest : Bytes) :
    spaceWidth (c :: rest) = 0 := by
  simp only [visible, Bool.and_eq_true, decide_eq_true_eq, UInt8.lt_iff_toNat_lt] at h
  have hc : ∀ d : UInt8, d.toNat ≤ 0x20 ∨ 0x80 ≤ d.toNat → c ≠ d := by
    rintro d hd rfl
    simp only [UInt8.reduceToNat] at h
    omega
  have hlow : ¬ (0x09 ≤ c ∧ c ≤ 0x0d) := by
    simp only [UInt8.le_iff_toNat_le, UInt8.reduceToNat] at h ⊢
    omega
  have hspace : c ≠ space := hc _ (by decide)
  unfold spaceWidth
  dsimp only
  rw [if_neg (by simp [hlow, hspace])]
  cases rest with
  | nil => rfl
  | cons d rest =>
    dsimp only
    rw [if_neg (by simp [hc 0xc2 (by decide)])]
    cases rest with
    | nil => rfl
    | cons e rest =>
      dsimp only
      rw [if_neg (by simp [hc 0xe1 (by decide), hc 0xe2 (by decide), hc 0xe3 (by decide)])]

theorem fieldsFrom_visible {word : Bytes} (h : ∀ c ∈ word, visible c = true) (field rest : Bytes) :
    fieldsFrom 0 field (word ++ rest) = fieldsFrom 0 (word.reverse ++ field) rest := by
  induction word generalizing field with
  | nil => rfl
  | cons c word ih =>
    rw [List.cons_append, fieldsFrom, spaceWidth_visible (h c (.head _))]
    rw [ih fun d hd => h d (.tail _ hd)]
    simp

theorem fields_pair {a b : Bytes} (ha : ∀ c ∈ a, visible c = true) (hb : ∀ c ∈ b, visible c = true)
    (hane : a ≠ []) (hbne : b ≠ []) : fields (a ++ space :: b) = [a, b] := by
  have hblank : spaceWidth (space :: b) = 1 := rfl
  rw [fields, fieldsFrom_visible ha, fieldsFrom, hblank]
  dsimp only
  have hrest : fieldsFrom 0 [] b = [b] := by
    have h := fieldsFrom_visible hb [] []
    rw [List.append_nil] at h
    rw [h, fieldsFrom]
    simp [hbne]
  rw [hrest]
  simp [hane]

theorem not_visible_of_spaceWidth {c : UInt8} {rest : Bytes} {width : Nat}
    (h : spaceWidth (c :: rest) = width + 1) :
    visible c = false ∧ ∀ d ∈ rest.take width, visible d = false := by
  have hhigh : ∀ d : UInt8, 0x80 ≤ d.toNat → visible d = false := by
    intro d hd
    simp only [visible, Bool.and_eq_false_iff, decide_eq_false_iff_not, UInt8.lt_iff_toNat_lt,
      UInt8.reduceToNat]
    omega
  refine ⟨?_, ?_⟩
  · cases hv : visible c with
    | false => rfl
    | true => rw [spaceWidth_visible hv] at h; cases h
  unfold spaceWidth at h
  dsimp only at h
  split at h
  · cases h; simp
  cases rest with
  | nil => cases h
  | cons d rest =>
    dsimp only at h
    split at h
    · rename_i hd
      cases h
      simp only [Bool.and_eq_true, Bool.or_eq_true, decide_eq_true_eq] at hd
      intro e he
      obtain rfl : e = d := by simpa using he
      rcases hd.2 with rfl | rfl <;> decide
    · cases rest with
      | nil => cases h
      | cons e rest =>
        dsimp only at h
        split at h
        · rename_i hde
          cases h
          simp only [Bool.and_eq_true, Bool.or_eq_true, decide_eq_true_eq,
            UInt8.le_iff_toNat_le] at hde
          have hd : 0x80 ≤ d.toNat := by
            rcases hde with ((⟨⟨-, rfl⟩, -⟩ | ⟨⟨-, rfl⟩, -⟩) | ⟨⟨-, rfl⟩, -⟩) | ⟨⟨-, rfl⟩, -⟩ <;>
              decide
          have he : 0x80 ≤ e.toNat := by
            rcases hde with ((⟨-, rfl⟩ | ⟨-, rfl⟩) | ⟨-, rfl⟩) | ⟨-, ((h | rfl) | rfl) | rfl⟩
            all_goals first | decide | exact h.1
          intro f hf
          simp only [List.take_succ_cons, List.take_zero, List.mem_cons, List.not_mem_nil,
            or_false] at hf
          rcases hf with rfl | rfl
          · exact hhigh _ hd
          · exact hhigh _ he
        · cases h

variable {text : Bytes} {n : Nat}

theorem mem_fieldsFrom {c : UInt8} (hc : visible c = true) {skip : Nat} {field : Bytes}
    (hskip : ∀ d ∈ text.take skip, visible d = false) (h : c ∈ field ∨ c ∈ text) :
    ∃ f ∈ fieldsFrom skip field text, c ∈ f := by
  induction text generalizing skip field with
  | nil =>
    have hfield : c ∈ field := by simpa using h
    refine ⟨field.reverse, ?_, List.mem_reverse.2 hfield⟩
    simp [fieldsFrom, List.ne_nil_of_mem hfield]
  | cons d rest ih =>
    cases skip with
    | succ skip =>
      refine ih (fun e he => hskip e (.tail _ he)) (h.imp_right fun h => ?_)
      rcases h with _ | ⟨_, h⟩
      · rw [hskip c (.head _)] at hc
        cases hc
      · exact h
    | zero =>
      cases hwidth : spaceWidth (d :: rest) with
      | zero =>
        rw [fieldsFrom, hwidth]
        refine ih (by simp) ?_
        rcases h with h | h
        · exact .inl (.tail _ h)
        rcases h with _ | ⟨_, h⟩
        · exact .inl (.head _)
        · exact .inr h
      | succ width =>
        rw [fieldsFrom, hwidth]
        obtain ⟨hd, hrest⟩ := not_visible_of_spaceWidth hwidth
        rcases h with h | h
        · refine ⟨field.reverse, List.mem_append_left _ ?_, List.mem_reverse.2 h⟩
          rw [if_neg (List.ne_nil_of_mem h)]
          exact List.mem_singleton_self _
        · rcases h with _ | ⟨_, h⟩
          · rw [hd] at hc
            cases hc
          · obtain ⟨f, hf, hcf⟩ := @ih width [] hrest (.inr h)
            exact ⟨f, List.mem_append_right _ hf, hcf⟩

theorem mem_fields {c : UInt8} (hc : visible c = true) (h : c ∈ text) : ∃ f ∈ fields text, c ∈ f :=
  mem_fieldsFrom hc (by simp) (.inr h)

/-! ## Numbers -/

def isDigit (c : UInt8) : Bool := 0x30 ≤ c && c ≤ 0x39

/-- A decimal number without a sign. -/
def parseDigits (text : Bytes) : Option Nat :=
  if text ≠ [] && text.all isDigit then
    some (text.foldl (fun n c => 10 * n + (c.toNat - 0x30)) 0)
  else none

/-- A decimal number with or without a sign. -/
def parseSigned : Bytes → Option Int
  | [] => none
  | c :: rest =>
    if c = 0x2d then (parseDigits rest).map (-Int.ofNat ·)
    else if c = 0x2b then (parseDigits rest).map Int.ofNat
    else (parseDigits (c :: rest)).map Int.ofNat

/-- `strconv.ParseInt(text, 10, 64)` -/
def parseInt (text : Bytes) : Option Int :=
  (parseSigned text).filter fun n => -2 ^ 63 ≤ n && n < 2 ^ 63

theorem isDigit_of_parseDigits (h : parseDigits text = some n) {c : UInt8}
    (hc : c ∈ text) : isDigit c = true := by
  unfold parseDigits at h
  split at h
  · rename_i hall
    simp only [Bool.and_eq_true] at hall
    exact List.all_eq_true.1 hall.2 c hc
  · cases h

theorem mem_of_parseInt {n : Int} (h : parseInt text = some n) {c : UInt8}
    (hc : c ∈ text) : isDigit c = true ∨ c = 0x2d ∨ c = 0x2b := by
  have hsome := (Option.filter_eq_some_iff.1 h).1
  cases text with
  | nil => cases hc
  | cons d rest =>
    rw [parseSigned] at hsome
    split at hsome
    · rename_i hd
      obtain ⟨m, hm, -⟩ := Option.map_eq_some_iff.1 hsome
      rcases hc with _ | ⟨_, hc⟩
      · exact .inr (.inl hd)
      · exact .inl (isDigit_of_parseDigits hm hc)
    split at hsome
    · rename_i hd
      obtain ⟨m, hm, -⟩ := Option.map_eq_some_iff.1 hsome
      rcases hc with _ | ⟨_, hc⟩
      · exact .inr (.inr hd)
      · exact .inl (isDigit_of_parseDigits hm hc)
    · obtain ⟨m, hm, -⟩ := Option.map_eq_some_iff.1 hsome
      exact .inl (isDigit_of_parseDigits hm hc)

def digitByte (n : Nat) : UInt8 := (0x30 + n).toUInt8

/-- The decimal digits of a number, the verb `%d`. -/
def decimal (n : Nat) : Bytes :=
  if n = 0 then [0x30] else ((Nat.digits 10 n).map digitByte).reverse

theorem digitByte_toNat (h : n < 10) : (digitByte n).toNat = 0x30 + n := by
  simp [digitByte, Nat.toUInt8]
  omega

theorem isDigit_digitByte (h : n < 10) : isDigit (digitByte n) = true := by
  simp only [isDigit, Bool.and_eq_true, decide_eq_true_eq, UInt8.le_iff_toNat_le,
    digitByte_toNat h, UInt8.reduceToNat]
  omega

theorem visible_of_isDigit {c : UInt8} (h : isDigit c = true) : visible c = true := by
  simp only [isDigit, visible, Bool.and_eq_true, decide_eq_true_eq, UInt8.le_iff_toNat_le,
    UInt8.lt_iff_toNat_lt, UInt8.reduceToNat] at h ⊢
  omega

theorem isDigit_of_mem_decimal {c : UInt8} (h : c ∈ decimal n) : isDigit c = true := by
  unfold decimal at h
  split at h
  · rw [List.mem_singleton.1 h]
    rfl
  · obtain ⟨d, hd, rfl⟩ := List.mem_map.1 (List.mem_reverse.1 h)
    exact isDigit_digitByte (Nat.digits_lt_base (by decide) hd)

theorem decimal_ne_nil (n : Nat) : decimal n ≠ [] := by
  unfold decimal
  split
  · exact List.cons_ne_nil _ _
  · rename_i hn
    simp [Nat.digits_ne_nil_iff_ne_zero.2 hn]

theorem length_decimal_le {k : Nat} (h : n < 10 ^ k) (hk : 0 < k) : (decimal n).length ≤ k := by
  unfold decimal
  split
  · exact hk
  · rw [List.length_reverse, List.length_map]
    exact (Nat.digits_length_le_iff (by decide) n).2 h

theorem parseDigits_decimal (n : Nat) : parseDigits (decimal n) = some n := by
  have hall : (decimal n).all isDigit = true := List.all_eq_true.2 fun c => isDigit_of_mem_decimal
  rw [parseDigits, if_pos (by simp [decimal_ne_nil, hall])]
  unfold decimal
  split
  · rename_i hn
    rw [hn]
    rfl
  -- The fold over the digits from the highest is `Nat.ofDigits` of those from the lowest.
  have hfold : ∀ ds : List Nat, (∀ d ∈ ds, d < 10) →
      (ds.map digitByte).foldr (fun c m => 10 * m + (c.toNat - 0x30)) 0 = Nat.ofDigits 10 ds := by
    intro ds hds
    induction ds with
    | nil => rfl
    | cons d ds ih =>
      rw [List.map_cons, List.foldr_cons, ih fun e he => hds e (.tail _ he),
        digitByte_toNat (hds d (.head _)), Nat.ofDigits_cons, Nat.add_sub_cancel_left,
        Nat.add_comm]
  rw [List.foldl_reverse, hfold _ fun d hd => Nat.digits_lt_base (by decide) hd,
    Nat.ofDigits_digits]

theorem decimal_inj {m : Nat} (h : decimal m = decimal n) : m = n :=
  Option.some.inj ((parseDigits_decimal m).symm.trans ((congrArg parseDigits h).trans (parseDigits_decimal n)))

/-- The verb `%d` of a number with a sign. -/
def signed (n : Int) : Bytes := if n < 0 then 0x2d :: decimal n.natAbs else decimal n.natAbs

theorem parseSigned_signed (n : Int) : parseSigned (signed n) = some n := by
  have hdigits := parseDigits_decimal n.natAbs
  unfold signed
  split
  · have hn : -Int.ofNat n.natAbs = n := by rw [Int.ofNat_eq_natCast]; omega
    rw [parseSigned, if_pos rfl, hdigits, Option.map_some, hn]
  · have hn : Int.ofNat n.natAbs = n := by rw [Int.ofNat_eq_natCast]; omega
    cases hd : decimal n.natAbs with
    | nil => exact absurd hd (decimal_ne_nil _)
    | cons c rest =>
      rw [hd] at hdigits
      have hc : isDigit c = true := isDigit_of_mem_decimal (hd ▸ List.mem_cons_self)
      have hminus : c ≠ 0x2d := fun heq => by rw [heq] at hc; exact absurd hc (by decide)
      have hplus : c ≠ 0x2b := fun heq => by rw [heq] at hc; exact absurd hc (by decide)
      rw [parseSigned, if_neg hminus, if_neg hplus, hdigits, Option.map_some, hn]

theorem parseInt_decimal (h : n < 2 ^ 63) : parseInt (decimal n) = some (n : Int) := by
  have hsigned := parseSigned_signed n
  rw [signed, if_neg (by omega), Int.natAbs_natCast] at hsigned
  rw [parseInt, hsigned, Option.filter_some, if_pos (by simp; omega)]

/-! ## Hexadecimal -/

def hexValue (c : UInt8) : Option UInt8 :=
  if isDigit c then some (c - 0x30)
  else if 0x61 ≤ c && c ≤ 0x66 then some (c - 0x57)
  else if 0x41 ≤ c && c ≤ 0x46 then some (c - 0x37)
  else none

/-- `hex.DecodeString` -/
def hexDecode : Bytes → Option Bytes
  | [] => some []
  | [_] => none
  | a :: b :: rest => do
    let high ← hexValue a
    let low ← hexValue b
    let rest ← hexDecode rest
    pure ((16 * high + low) :: rest)

theorem hexValue_of_hexDecode {data : Bytes} (h : hexDecode text = some data) {c : UInt8}
    (hc : c ∈ text) : (hexValue c).isSome = true := by
  fun_induction hexDecode text generalizing data with
  | case1 => cases hc
  | case2 => cases h
  | case3 a b rest ih =>
    simp only [Option.bind_eq_bind, Option.bind_eq_some_iff] at h
    obtain ⟨high, hhigh, low, hlow, data, hdata, -⟩ := h
    rcases hc with _ | ⟨_, hc⟩
    · rw [hhigh]; rfl
    rcases hc with _ | ⟨_, hc⟩
    · rw [hlow]; rfl
    · exact ih hdata hc

def hexDigit (n : Nat) : UInt8 := if n < 10 then digitByte n else (0x57 + n).toUInt8

/-- `hex.EncodeToString` -/
def hexEncode (data : Bytes) : Bytes :=
  data.flatMap fun c => [hexDigit (c.toNat / 16), hexDigit (c.toNat % 16)]

theorem hexValue_hexDigit (h : n < 16) : hexValue (hexDigit n) = some n.toUInt8 := by
  have hall : ∀ n : Fin 16, hexValue (hexDigit n) = some n.val.toUInt8 := by decide
  exact hall ⟨n, h⟩

theorem visible_hexDigit (h : n < 16) : visible (hexDigit n) = true := by
  have hall : ∀ n : Fin 16, visible (hexDigit n) = true := by decide
  exact hall ⟨n, h⟩

theorem visible_of_mem_hexEncode {data : Bytes} {c : UInt8} (h : c ∈ hexEncode data) :
    visible c = true := by
  obtain ⟨d, -, hd⟩ := List.mem_flatMap.1 h
  have hlt : d.toNat < 256 := d.toNat_lt
  simp only [List.mem_cons, List.not_mem_nil, or_false] at hd
  rcases hd with rfl | rfl
  · exact visible_hexDigit (by omega)
  · exact visible_hexDigit (by omega)

theorem length_hexEncode (data : Bytes) : (hexEncode data).length = 2 * data.length := by
  induction data with
  | nil => rfl
  | cons c data ih =>
    rw [hexEncode, List.flatMap_cons, List.length_append, ← hexEncode, ih, List.length_cons]
    simp
    omega

theorem nibbles (c : UInt8) : 16 * (c.toNat / 16).toUInt8 + (c.toNat % 16).toUInt8 = c := by
  have hlt : c.toNat < 256 := c.toNat_lt
  apply UInt8.toNat_inj.1
  simp only [UInt8.toNat_add, UInt8.toNat_mul, Nat.toUInt8, UInt8.toNat_ofNat']
  simp only [UInt8.reduceToNat]
  omega

theorem hexDecode_hexEncode (data : Bytes) : hexDecode (hexEncode data) = some data := by
  induction data with
  | nil => rfl
  | cons c data ih =>
    have hlt : c.toNat < 256 := c.toNat_lt
    have hcons : hexEncode (c :: data) =
        hexDigit (c.toNat / 16) :: hexDigit (c.toNat % 16) :: hexEncode data := rfl
    have hhigh := @hexValue_hexDigit (c.toNat / 16) (by omega)
    have hlow := @hexValue_hexDigit (c.toNat % 16) (by omega)
    rw [hcons, hexDecode, hhigh, hlow, ih]
    simp [nibbles]

end Go
