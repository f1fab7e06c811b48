import PtahOperator.Go.Bytes

/-!
# Base64

`base64.StdEncoding` and `base64.RawURLEncoding`: three bytes are written as four digits. What was written is
read back (`decodeBase64_encodeBase64`).
-/

namespace Go

/-- The digits, by their values. -/
def base64Digits (url : Bool) : Bytes :=
  bytes "ABCDEFGHIJKLMNOPQRSTUVWXYZabcdefghijklmnopqrstuvwxyz0123456789" ++
    if url then bytes "-_" else bytes "+/"

def base64Digit (url : Bool) (n : Nat) : UInt8 := (base64Digits url).getD n 0

/-- The values of the digits of some bytes. The last digit is filled up with zeros. -/
def sextets : Bytes → List Nat
  | [] => []
  | [a] => [a.toNat / 4, a.toNat % 4 * 16]
  | [a, b] => [a.toNat / 4, a.toNat % 4 * 16 + b.toNat / 16, b.toNat % 16 * 4]
  | a :: b :: c :: rest =>
    a.toNat / 4 :: (a.toNat % 4 * 16 + b.toNat / 16) :: (b.toNat % 16 * 4 + c.toNat / 64) :: c.toNat % 64 ::
      sextets rest

def octets : List Nat → Option Bytes
  | [] => some []
  | [_] => none
  | [p, q] => some [(p * 4 + q / 16).toUInt8]
  | [p, q, r] => some [(p * 4 + q / 16).toUInt8, (q % 16 * 16 + r / 4).toUInt8]
  | p :: q :: r :: s :: rest => (octets rest).map fun data =>
    (p * 4 + q / 16).toUInt8 :: (q % 16 * 16 + r / 4).toUInt8 :: (r % 4 * 64 + s).toUInt8 :: data

/-- `EncodeToString`. The standard encoding ends in a multiple of four. -/
def encodeBase64 (url : Bool) (data : Bytes) : Bytes :=
  (sextets data).map (base64Digit url) ++
    if url then [] else List.replicate ((3 - data.length % 3) % 3) 0x3d

/-- `DecodeString`, up to the filling. -/
def decodeBase64 (url : Bool) (text : Bytes) : Option Bytes :=
  ((text.takeWhile (· ≠ 0x3d)).mapM fun c => (base64Digits url).idxOf? c).bind octets

theorem sextets_lt {data : Bytes} : ∀ n ∈ sextets data, n < 64 := by
  fun_induction sextets data with
  | case1 => exact nofun
  | case2 a =>
    have := a.toNat_lt
    simp only [List.mem_cons, List.not_mem_nil, or_false, forall_eq_or_imp, forall_eq]
    omega
  | case3 a b =>
    have := a.toNat_lt
    have := b.toNat_lt
    simp only [List.mem_cons, List.not_mem_nil, or_false, forall_eq_or_imp, forall_eq]
    omega
  | case4 a b c rest ih =>
    have := a.toNat_lt
    have := b.toNat_lt
    have := c.toNat_lt
    simp only [List.mem_cons, forall_eq_or_imp]
    exact ⟨by omega, by omega, by omega, by omega, ih⟩

theorem toUInt8_eq {n : Nat} {c : UInt8} (h : n = c.toNat) : n.toUInt8 = c := by
  rw [h]
  exact UInt8.ofNat_toNat

theorem octets_sextets (data : Bytes) : octets (sextets data) = some data := by
  fun_induction sextets data with
  | case1 => rfl
  | case2 a => rw [octets, toUInt8_eq (c := a) (by omega)]
  | case3 a b =>
    have := b.toNat_lt
    rw [octets, toUInt8_eq (c := a) (by omega), toUInt8_eq (c := b) (by omega)]
  | case4 a b c rest ih =>
    have := b.toNat_lt
    have := c.toNat_lt
    rw [octets, ih, Option.map_some, toUInt8_eq (c := a) (by omega), toUInt8_eq (c := b) (by omega),
      toUInt8_eq (c := c) (by omega)]

theorem base64Digit_spec (url : Bool) : ∀ n < 64, (base64Digits url).idxOf? (base64Digit url n) = some n ∧
    base64Digit url n ≠ 0x3d ∧ base64Digit url n < 0x80 := by
  cases url <;> decide +kernel

theorem lt_of_mem_encodeBase64 {url : Bool} {data : Bytes} {c : UInt8} (h : c ∈ encodeBase64 url data) :
    c < 0x80 := by
  rcases List.mem_append.1 h with h | h
  · obtain ⟨n, hn, rfl⟩ := List.mem_map.1 h
    exact (base64Digit_spec url n (sextets_lt n hn)).2.2
  · cases url with
    | true => cases h
    | false => exact List.eq_of_mem_replicate h ▸ by decide

theorem decodeBase64_encodeBase64 (url : Bool) (data : Bytes) :
    decodeBase64 url (encodeBase64 url data) = some data := by
  have hread (ns : List Nat) (hns : ∀ n ∈ ns, n < 64) :
      (ns.map (base64Digit url)).mapM (fun c => (base64Digits url).idxOf? c) = some ns := by
    induction ns with
    | nil => rfl
    | cons n ns ih =>
      obtain ⟨hn, hrest⟩ := List.forall_mem_cons.1 hns
      rw [List.map_cons, List.mapM_cons, (base64Digit_spec url n hn).1, ih hrest]
      rfl
  have hfill : (if url then [] else List.replicate ((3 - data.length % 3) % 3) 0x3d : Bytes).takeWhile
      (· ≠ 0x3d) = [] := by
    cases url <;> simp
  have htake : (encodeBase64 url data).takeWhile (· ≠ 0x3d) = (sextets data).map (base64Digit url) := by
    rw [encodeBase64, List.takeWhile_append_of_pos, hfill, List.append_nil]
    simpa using fun n hn => (base64Digit_spec url n (sextets_lt n hn)).2.1
  rw [decodeBase64, htake, hread _ sextets_lt, Option.bind_some, octets_sextets]

end Go
