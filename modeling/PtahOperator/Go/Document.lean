import PtahOperator.Go.Literal

/-!
# JSON documents

A JSON value, how `encoding/json` writes it, and a reader of what is written.

* `Json.write`: a value without blanks, its members in their order.
* `Json.parse`: the value of a text.
* `Json.parse_write`: a value that was written is read back, with the replacement character for each byte
  outside a character (`Json.readBack`).
-/

namespace Go

/-- A byte of a number or of a word. -/
def wordByte (c : UInt8) : Bool :=
  isDigit c || 0x61 ≤ c && c ≤ 0x7a || c = 0x2d || c = 0x2b || c = 0x2e || c = 0x45

/-- A text that a number may be written as. -/
def isNumeral (text : Bytes) : Bool :=
  text.head?.any (fun c => isDigit c || c = 0x2d) && text.all wordByte

structure Numeral where
  text : Bytes
  numeral : isNumeral text = true
  deriving DecidableEq

theorem Numeral.word (n : Numeral) : n.text ≠ [] ∧ ∀ c ∈ n.text, wordByte c = true := by
  have h := n.numeral
  rw [isNumeral, Bool.and_eq_true, List.all_eq_true] at h
  exact ⟨fun hnil => by simp [hnil] at h, h.2⟩

/-- A JSON value. -/
inductive Json where
  | null
  | bool (value : Bool)
  | number (numeral : Numeral)
  | string (text : Bytes)
  | array (items : List Json)
  | object (members : List (Bytes × Json))

namespace Json

/-! ## Writing -/

/-- Texts with commas between them, up to a closing bracket. -/
def joined (close : UInt8) : List Bytes → Bytes
  | [] => [close]
  | [text] => text ++ [close]
  | text :: texts => text ++ 0x2c :: joined close texts

mutual

/-- What an `Encoder` writes, with or without the escapes of HTML. -/
def encode (escapeHTML : Bool) : Json → Bytes
  | null => bytes "null"
  | bool true => bytes "true"
  | bool false => bytes "false"
  | number numeral => numeral.text
  | string text => quote escapeHTML text
  | array items => 0x5b :: joined 0x5d (encodeItems escapeHTML items)
  | object members => 0x7b :: joined 0x7d (encodeMembers escapeHTML members)

def encodeItems (escapeHTML : Bool) : List Json → List Bytes
  | [] => []
  | item :: items => item.encode escapeHTML :: encodeItems escapeHTML items

def encodeMembers (escapeHTML : Bool) : List (Bytes × Json) → List Bytes
  | [] => []
  | (key, value) :: members =>
    (quote escapeHTML key ++ 0x3a :: value.encode escapeHTML) :: encodeMembers escapeHTML members

end

mutual

/-- What is read from a value that was written. -/
def readBack : Json → Json
  | null => null
  | bool value => bool value
  | number numeral => number numeral
  | string text => string (toValid text)
  | array items => array (readBackItems items)
  | object members => object (readBackMembers members)

def readBackItems : List Json → List Json
  | [] => []
  | item :: items => item.readBack :: readBackItems items

def readBackMembers : List (Bytes × Json) → List (Bytes × Json)
  | [] => []
  | (key, value) :: members => (toValid key, value.readBack) :: readBackMembers members

end

/-! ## Reading -/

section

variable {α : Type} (read : Bytes → Option (α × Bytes)) (close : UInt8)

/-- Values with commas between them, up to a closing bracket. `fuel` bounds them. -/
def readMany : (fuel : Nat) → Bytes → Option (List α × Bytes)
  | 0, _ => none
  | fuel + 1, text =>
    match read text with
    | some (item, c :: rest) =>
      if c = close then some ([item], rest)
      else if c = 0x2c then (readMany fuel rest).map fun r => (item :: r.1, r.2)
      else none
    | _ => none

/-- The values behind an opening bracket. -/
def readList (fuel : Nat) : Bytes → Option (List α × Bytes)
  | [] => none
  | c :: rest => if c = close then some ([], rest) else readMany read close fuel (c :: rest)

def readMember : Bytes → Option ((Bytes × α) × Bytes)
  | [] => none
  | _ :: text =>
    match readLiteral text with
    | some (key, _ :: rest) => (read rest).map fun r => ((key, r.1), r.2)
    | _ => none

end

def ofWord (word : Bytes) : Option Json :=
  if word = bytes "null" then some null
  else if word = bytes "true" then some (bool true)
  else if word = bytes "false" then some (bool false)
  else if h : isNumeral word = true then some (number ⟨word, h⟩)
  else none

/-- The value at the front of a text. `fuel` bounds its depth. -/
def read : (fuel : Nat) → Bytes → Option (Json × Bytes)
  | 0, _ => none
  | _, [] => none
  | fuel + 1, c :: rest =>
    if c = 0x22 then (readLiteral rest).map fun r => (string r.1, r.2)
    else if c = 0x5b then (readList (read fuel) 0x5d rest.length rest).map fun r => (array r.1, r.2)
    else if c = 0x7b then
      (readList (readMember (read fuel)) 0x7d rest.length rest).map fun r => (object r.1, r.2)
    else (ofWord ((c :: rest).takeWhile wordByte)).map (·, (c :: rest).dropWhile wordByte)

/-- A text that is one value. -/
def parse (text : Bytes) : Option Json :=
  match read (text.length + 1) text with
  | some (value, []) => some value
  | _ => none

/-! ## What is written is read -/

variable {escapeHTML : Bool}

theorem encodeItems_eq (items : List Json) :
    encodeItems escapeHTML items = items.map (encode escapeHTML) := by
  induction items with
  | nil => rfl
  | cons item items ih => rw [encodeItems, ih, List.map_cons]

theorem encodeMembers_eq (members : List (Bytes × Json)) :
    encodeMembers escapeHTML members = members.map fun m => quote escapeHTML m.1 ++ 0x3a :: m.2.encode escapeHTML := by
  induction members with
  | nil => rfl
  | cons m members ih => rw [encodeMembers, ih, List.map_cons]

theorem readBackItems_eq (items : List Json) : readBackItems items = items.map readBack := by
  induction items with
  | nil => rfl
  | cons item items ih => rw [readBackItems, ih, List.map_cons]

theorem readBackMembers_eq (members : List (Bytes × Json)) :
    readBackMembers members = members.map fun m => (toValid m.1, m.2.readBack) := by
  induction members with
  | nil => rfl
  | cons m members ih => rw [readBackMembers, ih, List.map_cons]

/-- No word goes on at the front of the text. -/
def Ends (rest : Bytes) : Prop := ∀ c ∈ rest.head?, wordByte c = false

theorem length_le_joined {close : UInt8} {texts : List Bytes} :
    (∀ text ∈ texts, text.length < (joined close texts).length) ∧ texts.length ≤ (joined close texts).length := by
  fun_induction joined close texts with
  | case1 => simp
  | case2 text => simp
  | case3 text texts _ ih =>
    simp only [List.mem_cons, List.length_append, List.length_cons, forall_eq_or_imp]
    exact ⟨⟨by omega, fun t ht => Nat.lt_of_lt_of_le (ih.1 t ht) (by omega)⟩, by omega⟩

section

variable {α : Type} {read : Bytes → Option (α × Bytes)} {written : α → Bytes} {back : α → α} {close : UInt8}
  {items : List α} {fuel : Nat} (hclose : wordByte close = false) (hcomma : close ≠ 0x2c)
  (hread : ∀ item ∈ items, ∀ rest, Ends rest → read (written item ++ rest) = some (back item, rest))
  (hfuel : items.length ≤ fuel) (rest : Bytes)
include hclose hcomma hread hfuel

theorem readMany_joined (hne : items ≠ []) :
    readMany read close fuel (joined close (items.map written) ++ rest) = some (items.map back, rest) := by
  induction items generalizing fuel with
  | nil => exact absurd rfl hne
  | cons item items ih =>
    obtain ⟨fuel, rfl⟩ := Nat.exists_eq_add_of_le' (Nat.one_le_of_lt hfuel)
    obtain ⟨hitem, hitems⟩ := List.forall_mem_cons.1 hread
    cases items with
    | nil =>
      have hends : Ends (close :: rest) := by simpa [Ends] using hclose
      simp [readMany, joined, hitem _ hends]
    | cons next items =>
      have hends rest : Ends (0x2c :: rest) := by simp [Ends, wordByte, isDigit]
      have hrest := ih hitems (Nat.le_of_succ_le_succ hfuel) (List.cons_ne_nil _ _)
      simp only [List.map_cons] at hrest
      simp [readMany, joined, hitem _ (hends _), hcomma.symm, hrest]

theorem readList_joined (hopens : ∀ item ∈ items, (written item).head? ≠ none ∧ (written item).head? ≠ some close) :
    readList read close fuel (joined close (items.map written) ++ rest) = some (items.map back, rest) := by
  cases items with
  | nil => simp [joined, readList]
  | cons item items =>
    have hmany := readMany_joined hclose hcomma hread hfuel rest (List.cons_ne_nil _ _)
    obtain ⟨hne, hc⟩ := hopens item (.head _)
    cases hwritten : written item with
    | nil => simp [hwritten] at hne
    | cons c text =>
      obtain ⟨behind, hbehind⟩ : ∃ behind, joined close ((item :: items).map written) ++ rest = c :: behind := by
        cases items <;> simp [joined, hwritten]
      rw [hbehind] at hmany ⊢
      rw [readList, if_neg (by simpa [hwritten] using hc), hmany]

end

theorem read_word {text rest : Bytes} {value : Json} {fuel : Nat} (hne : text ≠ [])
    (hword : ∀ c ∈ text, wordByte c = true) (h : ofWord text = some value) (hrest : Ends rest) :
    read (fuel + 1) (text ++ rest) = some (value, rest) := by
  obtain ⟨c, behind, rfl⟩ := List.exists_cons_of_ne_nil hne
  have hplain : c ≠ 0x22 ∧ c ≠ 0x5b ∧ c ≠ 0x7b := by
    refine ⟨?_, ?_, ?_⟩ <;> rintro rfl <;> exact absurd (hword _ (.head _)) (by decide)
  have htake : (c :: behind ++ rest).takeWhile wordByte = c :: behind := by
    rw [List.takeWhile_append_of_pos hword]
    cases rest with
    | nil => simp
    | cons d rest => simp [hrest d rfl]
  have hdrop : (c :: behind ++ rest).dropWhile wordByte = rest := by
    rw [List.dropWhile_append_of_pos hword]
    cases rest with
    | nil => simp
    | cons d rest => simp [hrest d rfl]
  rw [List.cons_append] at htake hdrop ⊢
  rw [read, if_neg hplain.1, if_neg hplain.2.1, if_neg hplain.2.2, htake, hdrop, h]
  rfl

theorem ofWord_numeral (numeral : Numeral) : ofWord numeral.text = some (number numeral) := by
  have hwords : ∀ word ∈ ["null", "true", "false"], numeral.text ≠ bytes word := by
    intro word hword h
    have hnumeral := numeral.numeral
    rw [h] at hnumeral
    simp only [List.mem_cons, List.not_mem_nil, or_false] at hword
    rcases hword with rfl | rfl | rfl <;> exact absurd hnumeral (by decide)
  rw [ofWord, if_neg (hwords _ (by simp)), if_neg (hwords _ (by simp)), if_neg (hwords _ (by simp)),
    dif_pos numeral.numeral]

theorem encode_opens (value : Json) :
    (value.encode escapeHTML).head? ≠ none ∧ (value.encode escapeHTML).head? ≠ some 0x5d := by
  cases value with
  | bool value => cases value <;> decide +revert
  | number numeral =>
    obtain ⟨hne, hword⟩ := numeral.word
    obtain ⟨c, text, htext⟩ := List.exists_cons_of_ne_nil hne
    have hc := hword c (htext ▸ List.mem_cons_self)
    rw [encode, htext]
    exact ⟨nofun, fun h => absurd (Option.some.inj h ▸ hc) (by decide)⟩
  | _ => simp [encode, quote, bytes]

/-- The induction is on the depth: the values in a value are shorter than it is. -/
theorem read_encode {fuel : Nat} {value : Json} (hfuel : (value.encode escapeHTML).length < fuel) {rest : Bytes}
    (hrest : Ends rest) : read fuel (value.encode escapeHTML ++ rest) = some (value.readBack, rest) := by
  induction fuel generalizing value rest with
  | zero => cases hfuel
  | succ fuel ih =>
    cases value with
    | null => exact @read_word (bytes "null") rest _ fuel (by decide) (by decide) rfl hrest
    | bool value =>
      cases value
      · exact @read_word (bytes "false") rest _ fuel (by decide) (by decide) rfl hrest
      · exact @read_word (bytes "true") rest _ fuel (by decide) (by decide) rfl hrest
    | number numeral =>
      exact read_word numeral.word.1 numeral.word.2 (ofWord_numeral numeral) hrest
    | string text => simp [encode, readBack, quote, read, readLiteral_escape]
    | array items =>
      rw [encode, encodeItems_eq, List.length_cons] at hfuel
      obtain ⟨hshort, hcount⟩ := @length_le_joined 0x5d (items.map (encode escapeHTML))
      rw [List.length_map] at hcount
      have hlist := @readList_joined _ (read fuel) (encode escapeHTML) readBack 0x5d items
        (joined 0x5d (items.map (encode escapeHTML)) ++ rest).length (by decide) (by decide)
        (fun item hitem rest hrest => ih (by have := hshort _ (List.mem_map_of_mem hitem); omega) hrest)
        (by rw [List.length_append]; omega) rest fun item _ => encode_opens item
      rw [encode, encodeItems_eq, readBack, readBackItems_eq, List.cons_append, read, if_neg (by decide), if_pos rfl,
        hlist]
      rfl
    | object members =>
      rw [encode, encodeMembers_eq, List.length_cons] at hfuel
      obtain ⟨hshort, hcount⟩ := @length_le_joined 0x7d
        (members.map fun m => quote escapeHTML m.1 ++ 0x3a :: m.2.encode escapeHTML)
      rw [List.length_map] at hcount
      have hmember : ∀ m ∈ members, ∀ rest, Ends rest →
          readMember (read fuel) (quote escapeHTML m.1 ++ 0x3a :: m.2.encode escapeHTML ++ rest) =
            some ((toValid m.1, m.2.readBack), rest) := by
        intro m hm rest hrest
        have hvalue := @ih m.2 (by have := hshort _ (List.mem_map_of_mem hm); simp at this; omega) rest hrest
        simp [quote, readMember, readLiteral_escape, hvalue]
      have hlist := @readList_joined _ (readMember (read fuel))
        (fun m => quote escapeHTML m.1 ++ 0x3a :: m.2.encode escapeHTML)
        (fun m => (toValid m.1, m.2.readBack)) 0x7d members
        (joined 0x7d (members.map fun m => quote escapeHTML m.1 ++ 0x3a :: m.2.encode escapeHTML) ++ rest).length
        (by decide) (by decide) hmember (by rw [List.length_append]; omega) rest fun m _ => by simp [quote]
      rw [encode, encodeMembers_eq, readBack, readBackMembers_eq, List.cons_append, read, if_neg (by decide),
        if_neg (by decide), if_pos rfl, hlist]
      rfl

/-- `json.Marshal` -/
def write (value : Json) : Bytes := value.encode true

theorem parse_encode (value : Json) : parse (value.encode escapeHTML) = some value.readBack := by
  have h := @read_encode escapeHTML _ value (Nat.lt_succ_self _) [] nofun
  rw [List.append_nil] at h
  rw [parse, h]

theorem parse_write (value : Json) : parse value.write = some value.readBack := parse_encode value

theorem getLast?_joined (close : UInt8) (texts : List Bytes) : (joined close texts).getLast? = some close := by
  fun_induction joined close texts with
  | case1 => rfl
  | case2 text => simp
  | case3 text texts _ ih => simp [List.getLast?_append, List.getLast?_cons, ih]

/-! ## What is written is one line -/

theorem le_of_mem_quote {text : Bytes} {c : UInt8} (h : c ∈ quote escapeHTML text) : 0x20 ≤ c := by
  simp only [quote, List.cons_append, List.mem_cons, List.mem_append, List.not_mem_nil, or_false] at h
  rcases h with rfl | h | rfl
  · decide
  · exact le_of_mem_escape h
  · decide

theorem le_of_mem_joined {close c : UInt8} {texts : List Bytes} (hclose : 0x20 ≤ close)
    (htexts : ∀ text ∈ texts, ∀ c ∈ text, 0x20 ≤ c) (h : c ∈ joined close texts) : 0x20 ≤ c := by
  fun_induction joined close texts with
  | case1 => exact List.mem_singleton.1 h ▸ hclose
  | case2 text =>
    rcases List.mem_append.1 h with h | h
    · exact htexts _ (.head _) c h
    · exact List.mem_singleton.1 h ▸ hclose
  | case3 text texts _ ih =>
    obtain ⟨htext, htexts⟩ := List.forall_mem_cons.1 htexts
    simp only [List.mem_append, List.mem_cons] at h
    rcases h with h | rfl | h
    · exact htext c h
    · decide
    · exact ih htexts h

mutual

theorem le_of_mem_encode : (value : Json) → ∀ c ∈ value.encode escapeHTML, 0x20 ≤ c
  | null => by decide +revert
  | bool true => by decide +revert
  | bool false => by decide +revert
  | number numeral => fun c hc => by
    have h := numeral.word.2 c hc
    simp only [wordByte, isDigit, Bool.or_eq_true, Bool.and_eq_true, decide_eq_true_eq, UInt8.le_iff_toNat_le,
      ← UInt8.toNat_inj, UInt8.reduceToNat] at h ⊢
    omega
  | string _ => fun _ => le_of_mem_quote
  | array items => List.forall_mem_cons.2 ⟨by decide, fun _ =>
    le_of_mem_joined (by decide) (le_of_mem_encodeItems items)⟩
  | object members => List.forall_mem_cons.2 ⟨by decide, fun _ =>
    le_of_mem_joined (by decide) (le_of_mem_encodeMembers members)⟩

theorem le_of_mem_encodeItems : (items : List Json) → ∀ text ∈ encodeItems escapeHTML items, ∀ c ∈ text, 0x20 ≤ c
  | [] => nofun
  | item :: items => List.forall_mem_cons.2 ⟨le_of_mem_encode item, le_of_mem_encodeItems items⟩

theorem le_of_mem_encodeMembers : (members : List (Bytes × Json)) →
    ∀ text ∈ encodeMembers escapeHTML members, ∀ c ∈ text, 0x20 ≤ c
  | [] => nofun
  | (_, value) :: members => List.forall_mem_cons.2 ⟨List.forall_mem_append.2 ⟨fun _ => le_of_mem_quote,
      List.forall_mem_cons.2 ⟨by decide, le_of_mem_encode value⟩⟩, le_of_mem_encodeMembers members⟩

end

/-! ## Records -/

theorem isNumeral_signed (n : Int) : isNumeral (signed n) = true := by
  have hdigits : ∀ c ∈ decimal n.natAbs, isDigit c = true := fun _ => isDigit_of_mem_decimal
  have hword : ∀ c ∈ decimal n.natAbs, wordByte c = true := fun c hc => by simp [wordByte, hdigits c hc]
  rw [isNumeral, Bool.and_eq_true, List.all_eq_true]
  unfold signed
  split
  · exact ⟨rfl, List.forall_mem_cons.2 ⟨rfl, hword⟩⟩
  · obtain ⟨c, text, htext⟩ := List.exists_cons_of_ne_nil (decimal_ne_nil n.natAbs)
    exact ⟨by simp [htext, hdigits c (htext ▸ List.mem_cons_self)], hword⟩

def int (n : Int) : Json := number ⟨signed n, isNumeral_signed n⟩

def int? : Json → Option Int
  | number numeral => parseSigned numeral.text
  | _ => none

@[simp] theorem int?_int (n : Int) : (int n).int? = some n := parseSigned_signed n

@[simp] theorem readBack_int (n : Int) : (int n).readBack = int n := rfl

def text? : Json → Option Bytes
  | string text => some text
  | _ => none

/-- An object with these keys. -/
def record (keys : List Bytes) (values : List Json) : Json := object (keys.zip values)

/-- The values of an object with these keys. -/
def fields? (keys : List Bytes) : Json → Option (List Json)
  | object members => if members.map Prod.fst = keys then some (members.map Prod.snd) else none
  | _ => none

theorem fields?_record {keys other : List Bytes} {values : List Json} (hkeys : keys.map toValid = keys)
    (hlength : keys.length = values.length) : (record keys values).readBack.fields? other =
      if keys = other then some (values.map readBack) else none := by
  have hmembers : (readBackMembers (keys.zip values)).map Prod.fst = keys ∧
      (readBackMembers (keys.zip values)).map Prod.snd = values.map readBack := by
    rw [readBackMembers_eq, List.map_map, List.map_map]
    constructor
    · change (keys.zip values).map (toValid ∘ Prod.fst) = keys
      rw [← List.map_map, List.map_fst_zip (Nat.le_of_eq hlength), hkeys]
    · change (keys.zip values).map (readBack ∘ Prod.snd) = _
      rw [← List.map_map, List.map_snd_zip (Nat.le_of_eq hlength.symm)]
  rw [record, readBack, fields?, hmembers.1, hmembers.2]

theorem mapM_readBack {α β : Type} {document : α → Json} {read : Json → Option β} {back : α → β}
    (h : ∀ item, read (document item).readBack = some (back item)) (items : List α) :
    (readBackItems (items.map document)).mapM read = some (items.map back) := by
  rw [readBackItems_eq]
  induction items with
  | nil => rfl
  | cons item items ih =>
    simp only [List.map_cons, List.mapM_cons, h, ih, Option.pure_def, Option.bind_eq_bind, Option.bind_some]

end Json

end Go
