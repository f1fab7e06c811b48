import PtahOperator.Go.Json
import PtahOperator.Scan.Lines
import PtahOperator.Scan.Order

/-!
# Manifests of source files

The canonical manifest of a set of files, and the rules it is held to (`internal/sourcecontent`).

* `validPath`, `checkSortedPaths`: the rules on paths. The second looks for a path that is a file and a
  directory only as long as the paths behind it begin with it.
* `manifest`, `entriesManifest`: the lines of the files, sorted by path.
* `parseManifest`: the lines of a manifest.
* `Admitted`, `canonical_ok`: the sets of files that have a manifest.
-/

namespace Ptah.SourceContent

open Go (Bytes bytes newline space decimal hexEncode hexDecode)
open Scan (sortOn)

/-- SHA-256, of which only the length of a sum is known. -/
structure Hash where
  sum : Bytes → Bytes
  length : ∀ data, (sum data).length = 32

/-- `File`. A slice has fewer than 2⁶³ bytes. -/
structure File where
  path : Bytes
  data : Bytes
  small : data.length < 2 ^ 63
  deriving DecidableEq

structure Entry where
  path : Bytes
  size : Int
  sha256 : Bytes
  deriving DecidableEq

inductive PathFault where
  | empty
  | notUTF8
  | holds (rune : Bytes)
  | emptyElement
  | dotElement (element : Bytes)
  | longElement (length : Nat)
  deriving DecidableEq

inductive Refusal where
  /-- `ErrEmpty` -/
  | empty
  /-- `ErrTooManyFiles` -/
  | tooManyFiles (count : Nat)
  /-- `ErrInvalidPath` -/
  | invalidPath (path : Bytes) (fault : PathFault)
  /-- `ErrDuplicate` -/
  | duplicate (path : Bytes)
  /-- `ErrPathConflict` -/
  | pathConflict (path : Bytes)
  /-- `ErrInvalidEntry` -/
  | invalidEntry (path : Bytes)
  deriving DecidableEq

def maxFiles : Nat := 1000

def maxPathElementBytes : Nat := 255

def slash : UInt8 := 0x2f

/-! ## Paths -/

/-- A control character of ASCII, or a backslash. -/
def refusedByte (c : UInt8) : Bool := c < 0x20 || c = 0x7f || c = 0x5c

/-- A refused character of a text that is UTF-8: it is one byte. -/
def refusedRune (rune : Go.Rune) : Bool :=
  match rune.text with
  | [c] => refusedByte c
  | _ => false

/-- The loop of `validPath` over the elements. -/
def validElements (path : Bytes) : List Bytes → Except Refusal Unit
  | [] => .ok ()
  | element :: elements =>
    if element = [] then .error (.invalidPath path .emptyElement)
    else if element = bytes "." ∨ element = bytes ".." then .error (.invalidPath path (.dotElement element))
    else if maxPathElementBytes < element.length then
      .error (.invalidPath path (.longElement element.length))
    else validElements path elements

def validPath (path : Bytes) : Except Refusal Unit :=
  if path = [] then .error (.invalidPath path .empty)
  else if !Go.validText path then .error (.invalidPath path .notUTF8)
  else
    match (Go.runes path).find? refusedRune with
    | some rune => .error (.invalidPath path (.holds rune.text))
    | none => validElements path (path.splitOn slash)

/-- The first loop of `checkSortedPaths`, behind a path. -/
def checkEach : (previous : Option Bytes) → List Bytes → Except Refusal Unit
  | _, [] => .ok ()
  | previous, path :: paths =>
    match validPath path with
    | .error e => .error e
    | .ok () => if previous = some path then .error (.duplicate path) else checkEach (some path) paths

/-- The inner loop of `checkSortedPaths`, over the paths behind one. -/
def conflicts (path : Bytes) : List Bytes → Bool
  | [] => false
  | later :: paths =>
    if !path.isPrefixOf later then false
    else if (path ++ [slash]).isPrefixOf later then true
    else conflicts path paths

/-- The second loop of `checkSortedPaths`. -/
def checkConflicts : List Bytes → Except Refusal Unit
  | [] => .ok ()
  | path :: paths => if conflicts path paths then .error (.pathConflict path) else checkConflicts paths

def checkSortedPaths (paths : List Bytes) : Except Refusal Unit :=
  match checkEach none paths with
  | .error e => .error e
  | .ok () => checkConflicts paths

/-! ## Manifests -/

/-- `manifestLine` -/
structure Line where
  sum : Bytes
  size : Nat
  path : Bytes
  deriving DecidableEq

/-- A line without its end. -/
def Line.text (line : Line) : Bytes := line.sum ++ space :: (decimal line.size ++ space :: line.path)

def manifestText (lines : List Line) : Bytes := Scan.unlines newline (lines.map Line.text)

/-- The checks that `Manifest` and `DigestOfEntries` make of what they sort by path. -/
def canonical {α : Type} (path : α → Bytes) (items : List α) : Except Refusal (List α) :=
  if items = [] then .error .empty
  else if maxFiles < items.length then .error (.tooManyFiles items.length)
  else
    match checkSortedPaths ((sortOn path items).map path) with
    | .error e => .error e
    | .ok () => .ok (sortOn path items)

variable (hash : Hash)

def File.line (file : File) : Line where
  sum := hexEncode (hash.sum file.data)
  size := file.data.length
  path := file.path

def manifest (files : List File) : Except Refusal Bytes :=
  (canonical File.path files).map fun sorted => manifestText (sorted.map (File.line hash))

def digestOf (text : Bytes) : Bytes := bytes "sha256:" ++ hexEncode (hash.sum text)

def digest (files : List File) : Except Refusal Bytes := (manifest hash files).map (digestOf hash)

/-- The text does not change in lower case. Of a text that is not ASCII the decoding below refuses more. -/
def lowerCase (text : Bytes) : Bool := !text.any fun c => 0x41 ≤ c && c ≤ 0x5a

def validSum (sum : Bytes) : Bool := sum.length = 64 && lowerCase sum && (hexDecode sum).isSome

/-- The loop of `DigestOfEntries` over the sorted entries. -/
def entryLines : List Entry → Except Refusal (List Line)
  | [] => .ok []
  | entry :: entries =>
    if entry.size < 0 ∨ validSum entry.sha256 = false then .error (.invalidEntry entry.path)
    else (entryLines entries).map fun lines =>
      { sum := entry.sha256, size := entry.size.toNat, path := entry.path } :: lines

def entriesManifest (entries : List Entry) : Except Refusal Bytes :=
  match canonical Entry.path entries with
  | .error e => .error e
  | .ok sorted => (entryLines sorted).map manifestText

def digestOfEntries (entries : List Entry) : Except Refusal Bytes :=
  (entriesManifest entries).map (digestOf hash)

def File.entry (file : File) : Entry where
  path := file.path
  size := file.data.length
  sha256 := hexEncode (hash.sum file.data)

/-! ## Reading a manifest -/

/-- What is wrong with a manifest; lines are counted from 1. -/
inductive ManifestFault where
  | noNewline
  | tooManyFiles (count : Nat)
  | malformed (number : Nat)
  | invalidSize (number : Nat)
  | invalidPath (number : Nat) (refusal : Refusal)
  | outOfOrder (number : Nat)
  deriving DecidableEq

/-- `strings.SplitN` at spaces, into three fields. -/
def threeFields (line : Bytes) : Option (Bytes × Bytes × Bytes) :=
  (Scan.cut [space] line).bind fun first => (Scan.cut [space] first.2).map fun second =>
    (first.1, second.1, second.2)

def parseLine (number : Nat) (previous : Option Bytes) (line : Bytes) : Except ManifestFault Line :=
  match threeFields line with
  | none => .error (.malformed number)
  | some (sum, size, path) =>
    if !validSum sum then .error (.malformed number)
    else
      match Go.parseInt size with
      | none => .error (.invalidSize number)
      | some n =>
        if n < 0 ∨ decimal n.toNat ≠ size then .error (.invalidSize number)
        else
          match validPath path with
          | .error e => .error (.invalidPath number e)
          | .ok () =>
            if previous.any fun before => decide (path ≤ before) then .error (.outOfOrder number)
            else .ok { sum, size := n.toNat, path }

/-- The loop of `parseManifest`. -/
def parseLines : (number : Nat) → (previous : Option Bytes) → List Bytes → Except ManifestFault (List Line)
  | _, _, [] => .ok []
  | number, previous, text :: texts =>
    match parseLine number previous text with
    | .error e => .error e
    | .ok line => (parseLines (number + 1) (some line.path) texts).map fun lines => line :: lines

def parseManifest (text : Bytes) : Except ManifestFault (List Line) :=
  if text.getLast? ≠ some newline then .error .noNewline
  else
    let raw := text.dropLast.splitOn newline
    if maxFiles < raw.length then .error (.tooManyFiles raw.length)
    else parseLines 1 none raw

/-! ## Paths that are admitted -/

/-- A relative path of UTF-8, separated by slashes. -/
structure PathAdmitted (path : Bytes) : Prop where
  utf8 : Go.validText path = true
  /-- No control character and no backslash. -/
  plain : ∀ c ∈ path, 0x20 ≤ c ∧ c ≠ 0x7f ∧ c ≠ 0x5c
  elements : ∀ element ∈ path.splitOn slash,
    element ≠ [] ∧ element ≠ bytes "." ∧ element ≠ bytes ".." ∧ element.length ≤ 255

/-- The sets of files that the rules admit. -/
structure Admitted (paths : List Bytes) : Prop where
  nonempty : 1 ≤ paths.length
  few : paths.length ≤ 1000
  valid : ∀ path ∈ paths, PathAdmitted path
  different : paths.Nodup
  /-- No path is a file and a directory. -/
  apart : ∀ path ∈ paths, ∀ other ∈ paths, ¬ path ++ [slash] <+: other

theorem refusedByte_eq_false {c : UInt8} : refusedByte c = false ↔ 0x20 ≤ c ∧ c ≠ 0x7f ∧ c ≠ 0x5c := by
  simp only [refusedByte, Bool.or_eq_false_iff, decide_eq_false_iff_not, UInt8.not_lt, and_assoc, ne_eq]

variable {path : Bytes} {paths : List Bytes}

theorem validElements_ok {elements : List Bytes} :
    validElements path elements = .ok () ↔ ∀ element ∈ elements,
      element ≠ [] ∧ element ≠ bytes "." ∧ element ≠ bytes ".." ∧ element.length ≤ 255 := by
  induction elements with
  | nil => simp [validElements]
  | cons element elements ih =>
    rw [validElements, List.forall_mem_cons, ← ih]
    split
    · rename_i h
      simp [h]
    split
    · rename_i _ h
      rcases h with h | h <;> simp [h]
    split
    · rename_i _ _ h
      simp only [reduceCtorEq, false_iff, not_and]
      intro ⟨_, _, _, hlength⟩
      exact absurd h (Nat.not_lt.2 hlength)
    · rename_i hempty hdots hlong
      rw [not_or] at hdots
      simp only [maxPathElementBytes, Nat.not_lt] at hlong
      simp [hempty, hdots, hlong]

/-- A refused byte of UTF-8 is a refused character. -/
theorem find_refusedRune :
    (Go.runes path).find? refusedRune = none ↔ ∀ c ∈ path, refusedByte c = false := by
  rw [List.find?_eq_none]
  constructor
  · intro h c hc
    rw [← Go.runes_flatMap path, List.mem_flatMap] at hc
    obtain ⟨rune, hrune, hc⟩ := hc
    have hno := h rune hrune
    rcases Go.runes_wellFormed hrune with ⟨-, d, -, htext⟩ | ⟨-, hhigh, -⟩
    · rw [htext, List.mem_singleton] at hc
      simpa [refusedRune, htext, hc] using hno
    have hc' := hhigh c hc
    rw [refusedByte_eq_false]
    refine ⟨UInt8.le_trans (by decide) hc', ?_, ?_⟩
    · rintro rfl
      exact absurd hc' (by decide)
    · rintro rfl
      exact absurd hc' (by decide)
  · intro h rune hrune hrefused
    unfold refusedRune at hrefused
    split at hrefused
    · rename_i c htext
      have hc : c ∈ path := by
        rw [← Go.runes_flatMap path, List.mem_flatMap]
        exact ⟨rune, hrune, by rw [htext]; exact List.mem_singleton_self c⟩
      rw [h c hc] at hrefused
      cases hrefused
    · cases hrefused

theorem validPath_ok : validPath path = .ok () ↔ PathAdmitted path := by
  unfold validPath
  split
  · rename_i hempty
    simp only [reduceCtorEq, false_iff]
    intro h
    have := (h.elements [] (by rw [hempty]; decide)).1
    exact this rfl
  split
  · rename_i hvalid
    simp only [reduceCtorEq, false_iff]
    intro h
    rw [h.utf8] at hvalid
    cases hvalid
  rename_i hvalid
  have hvalid : Go.validText path = true := by simpa using hvalid
  split
  · rename_i rune hfound
    simp only [reduceCtorEq, false_iff]
    intro h
    have hnone := find_refusedRune.2 fun c hc => refusedByte_eq_false.2 (h.plain c hc)
    rw [hfound] at hnone
    cases hnone
  · rename_i hfound
    have hplain := find_refusedRune.1 hfound
    rw [validElements_ok]
    exact ⟨fun h => ⟨hvalid, fun c hc => refusedByte_eq_false.1 (hplain c hc), h⟩, fun h => h.elements⟩

/-! ## Sorted paths -/

/-- Each path is valid and differs from the one in front of it. -/
theorem checkEach_ok {previous : Option Bytes} :
    checkEach previous paths = .ok () ↔ (∀ path ∈ paths, PathAdmitted path) ∧
      (previous.toList ++ paths).IsChain (· ≠ ·) := by
  induction paths generalizing previous with
  | nil => cases previous <;> simp [checkEach]
  | cons path paths ih =>
    rw [checkEach, List.forall_mem_cons, ← validPath_ok]
    cases hpath : validPath path with
    | error e => simp
    | ok u =>
      by_cases hsame : previous = some path
      · simp [hsame]
      rw [if_neg hsame, ih]
      cases previous with
      | none => simp
      | some before =>
        have hne : before ≠ path := fun h => hsame (congrArg some h)
        simp [hne]

/-- In sorted paths, the inner loop finds each path that has the first as a directory. -/
theorem conflicts_iff (hsorted : (path :: paths).Pairwise (· ≤ ·)) :
    conflicts path paths = true ↔ ∃ later ∈ paths, path ++ [slash] <+: later := by
  induction paths with
  | nil => simp [conflicts]
  | cons later paths ih =>
    obtain ⟨hfirst, hrest⟩ := List.pairwise_cons.1 hsorted
    obtain ⟨hlater, hpaths⟩ := List.pairwise_cons.1 hrest
    have ih := ih (List.pairwise_cons.2 ⟨fun p hp => hfirst p (.tail _ hp), hpaths⟩)
    rw [conflicts]
    split
    · -- The loop ends here: no path behind this one begins with the first.
      rename_i hstop
      simp only [Bool.false_eq_true, false_iff]
      rintro ⟨other, hother, hprefix⟩
      have hbegins : path <+: other := List.IsPrefix.trans ⟨[slash], rfl⟩ hprefix
      have hhere : path <+: later := by
        rcases hother with _ | ⟨_, hother⟩
        · exact hbegins
        · exact Scan.prefix_of_between (hfirst later (.head _)) (hlater other hother) hbegins
      rw [List.isPrefixOf_iff_prefix.2 hhere] at hstop
      cases hstop
    split
    · rename_i hfound
      simp only [true_iff]
      exact ⟨later, .head _, List.isPrefixOf_iff_prefix.1 hfound⟩
    rename_i hnot
    rw [ih]
    constructor
    · rintro ⟨other, hother, hprefix⟩
      exact ⟨other, .tail _ hother, hprefix⟩
    rintro ⟨other, hother, hprefix⟩
    rcases hother with _ | ⟨_, hother⟩
    · exact absurd (List.isPrefixOf_iff_prefix.2 hprefix) hnot
    · exact ⟨other, hother, hprefix⟩

/-- A path is not a directory of itself, nor of a path in front of it. -/
theorem not_directory_of_le {other : Bytes} (h : other ≤ path) : ¬ path ++ [slash] <+: other := by
  rintro ⟨rest, rfl⟩
  have hlt : path < path ++ [slash] ++ rest := by
    rw [List.append_assoc]
    induction path with
    | nil => exact List.nil_lt_cons _ _
    | cons c path ih =>
      rw [List.cons_append, List.cons_lt_cons_iff]
      refine .inr ⟨rfl, ih ?_⟩
      rw [List.append_assoc, List.cons_append] at h
      rcases List.cons_le_cons_iff.1 h with hlt | ⟨-, h⟩
      · exact absurd hlt (UInt8.lt_irrefl _)
      · rwa [List.append_assoc]
  exact List.not_le.2 hlt h

theorem checkConflicts_ok (hsorted : paths.Pairwise (· ≤ ·)) :
    checkConflicts paths = .ok () ↔ ∀ path ∈ paths, ∀ other ∈ paths, ¬ path ++ [slash] <+: other := by
  induction paths with
  | nil => simp [checkConflicts]
  | cons path paths ih =>
    obtain ⟨hfirst, hrest⟩ := List.pairwise_cons.1 hsorted
    have hconflicts := conflicts_iff hsorted
    rw [checkConflicts]
    split
    · rename_i hfound
      obtain ⟨later, hlater, hprefix⟩ := hconflicts.1 hfound
      simp only [reduceCtorEq, false_iff]
      intro h
      exact h path (.head _) later (.tail _ hlater) hprefix
    rename_i hnone
    rw [ih hrest]
    constructor
    · intro h p hp other hother
      rcases List.mem_cons.1 hp with rfl | hp'
      · rcases List.mem_cons.1 hother with rfl | hother'
        · exact not_directory_of_le (List.le_refl _)
        · exact fun hprefix => hnone (hconflicts.2 ⟨other, hother', hprefix⟩)
      · rcases List.mem_cons.1 hother with rfl | hother'
        · exact not_directory_of_le (hfirst p hp')
        · exact h p hp' other hother'
    · intro h p hp other hother
      exact h p (.tail _ hp) other (.tail _ hother)

/-- Sorted paths without neighbours that are equal are all different. -/
theorem nodup_of_isChain (hsorted : paths.Pairwise (· ≤ ·)) :
    paths.IsChain (· ≠ ·) ↔ paths.Nodup := by
  induction paths with
  | nil => simp
  | cons path paths ih =>
    obtain ⟨hfirst, hrest⟩ := List.pairwise_cons.1 hsorted
    rw [List.isChain_cons, List.nodup_cons, ih hrest]
    refine and_congr_left fun _ => ?_
    constructor
    · intro hhead hmem
      cases paths with
      | nil => cases hmem
      | cons next paths =>
        refine hhead next rfl (List.le_antisymm (hfirst next (.head _)) ?_)
        rcases hmem with _ | ⟨_, hmem⟩
        · exact List.le_refl _
        · exact (List.pairwise_cons.1 hrest).1 path hmem
    · rintro hmem next hnext rfl
      exact hmem (List.mem_of_mem_head? hnext)

theorem checkSortedPaths_ok (hsorted : paths.Pairwise (· ≤ ·)) :
    checkSortedPaths paths = .ok () ↔ (∀ path ∈ paths, PathAdmitted path) ∧ paths.Nodup ∧
      ∀ path ∈ paths, ∀ other ∈ paths, ¬ path ++ [slash] <+: other := by
  have heach : checkEach none paths = .ok () ↔ _ := checkEach_ok
  rw [Option.toList_none, List.nil_append, nodup_of_isChain hsorted] at heach
  rw [← checkConflicts_ok hsorted, ← and_assoc, ← heach, checkSortedPaths]
  cases checkEach none paths with
  | error e => simp
  | ok u => simp

/-- What is sorted by path is accepted exactly when its paths are admitted, in any order. -/
theorem canonical_ok {α : Type} {path : α → Bytes} {items sorted : List α} :
    canonical path items = .ok sorted ↔ Admitted (items.map path) ∧ sorted = sortOn path items := by
  have hsorted : ((sortOn path items).map path).Pairwise (· ≤ ·) :=
    List.pairwise_map.2 Scan.sorted_sortOn
  have hperm : ((sortOn path items).map path).Perm (items.map path) := Scan.perm_sortOn.map path
  have hcheck := checkSortedPaths_ok hsorted
  simp only [hperm.mem_iff, hperm.nodup_iff] at hcheck
  unfold canonical
  split
  · rename_i hempty
    simp only [reduceCtorEq, false_iff]
    rintro ⟨h, -⟩
    have := h.nonempty
    rw [hempty] at this
    exact absurd this (Nat.not_succ_le_zero 0)
  rename_i hne
  split
  · rename_i hmany
    simp only [reduceCtorEq, false_iff]
    rintro ⟨h, -⟩
    have hfew := h.few
    rw [List.length_map] at hfew
    exact absurd hmany (Nat.not_lt.2 hfew)
  rename_i hfew
  have hcount : 1 ≤ (items.map path).length ∧ (items.map path).length ≤ 1000 := by
    rw [List.length_map]
    exact ⟨List.length_pos_iff.2 hne, Nat.le_of_not_lt hfew⟩
  cases hresult : checkSortedPaths ((sortOn path items).map path) with
  | error e =>
    simp only [reduceCtorEq, false_iff]
    rintro ⟨h, -⟩
    rw [hcheck.2 ⟨h.valid, h.different, h.apart⟩] at hresult
    cases hresult
  | ok u =>
    obtain ⟨hpaths, hdifferent, hapart⟩ := hcheck.1 hresult
    simp only [Except.ok.injEq]
    constructor
    · rintro rfl
      exact ⟨⟨hcount.1, hcount.2, hpaths, hdifferent, hapart⟩, rfl⟩
    · rintro ⟨-, rfl⟩
      rfl

end Ptah.SourceContent
