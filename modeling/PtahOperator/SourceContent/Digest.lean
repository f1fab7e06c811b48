import PtahOperator.SourceContent.Manifest

/-!
# What a content digest names

* `parseManifest_text`: a manifest is read back line by line.
* `manifestText_inj`: a manifest says its lines.
* `content_digest`: a digest names one set of files.
-/

namespace Ptah.SourceContent

open Go (Bytes bytes newline space decimal hexEncode hexDecode)
open Scan (sortOn)

/-! ## Lines -/

/-- A line that a manifest may hold. -/
structure Line.Valid (line : Line) : Prop where
  sum : validSum line.sum = true
  size : line.size < 2 ^ 63
  path : PathAdmitted line.path

variable {text : Bytes} {lines : List Line} {entries : List Entry}

theorem notMem_of_hexDecode {data : Bytes} {c : UInt8} (h : hexDecode text = some data)
    (hc : Go.hexValue c = none) : c ∉ text := by
  intro hmem
  have hvalue := Go.hexValue_of_hexDecode h hmem
  rw [hc] at hvalue
  cases hvalue

theorem notMem_of_validSum {sum : Bytes} {c : UInt8} (h : validSum sum = true)
    (hc : Go.hexValue c = none) : c ∉ sum := by
  simp only [validSum, Bool.and_eq_true] at h
  obtain ⟨data, hdata⟩ := Option.isSome_iff_exists.1 h.2
  exact notMem_of_hexDecode hdata hc

theorem notMem_decimal {n : Nat} {c : UInt8} (hc : Go.isDigit c = false) : c ∉ decimal n := by
  intro h
  rw [Go.isDigit_of_mem_decimal h] at hc
  cases hc

/-- A line says its sum, its size and its path. -/
theorem Line.text_inj {a b : Line} (ha : validSum a.sum = true) (hb : validSum b.sum = true)
    (h : a.text = b.text) : a = b := by
  obtain ⟨hsum, hrest⟩ := Scan.append_cons_inj_front (notMem_of_validSum ha (by decide))
    (notMem_of_validSum hb (by decide)) h
  obtain ⟨hsize, hpath⟩ := Scan.append_cons_inj_front (notMem_decimal (by decide))
    (notMem_decimal (by decide)) hrest
  have hsize := Go.decimal_inj hsize
  cases a
  simp only at hsum hsize hpath
  rw [hsum, hsize, hpath]

theorem PathAdmitted.newline_notMem {path : Bytes} (h : PathAdmitted path) : newline ∉ path := by
  intro hmem
  exact absurd (h.plain newline hmem).1 (by decide)

theorem Line.newline_notMem {line : Line} (hsum : validSum line.sum = true) (hpath : PathAdmitted line.path) :
    newline ∉ line.text := by
  rw [Line.text, List.mem_append, List.mem_cons, List.mem_append, List.mem_cons]
  rintro (h | h | h | h | h)
  · exact notMem_of_validSum hsum (by decide) h
  · exact absurd h (by decide)
  · exact notMem_decimal (by decide) h
  · exact absurd h (by decide)
  · exact hpath.newline_notMem h

theorem splitOn_manifestText (hne : lines ≠ [])
    (h : ∀ line ∈ lines, validSum line.sum = true ∧ PathAdmitted line.path) :
    (manifestText lines).getLast? = some newline ∧
      (manifestText lines).dropLast.splitOn newline = lines.map Line.text := by
  refine Scan.splitOn_unlines (fun text htext => ?_) (by simpa using hne)
  obtain ⟨line, hline, rfl⟩ := List.mem_map.1 htext
  exact Line.newline_notMem (h line hline).1 (h line hline).2

theorem manifestText_inj {lines' : List Line} (hne : lines ≠ []) (hne' : lines' ≠ [])
    (h : ∀ line ∈ lines, validSum line.sum = true ∧ PathAdmitted line.path)
    (h' : ∀ line ∈ lines', validSum line.sum = true ∧ PathAdmitted line.path)
    (heq : manifestText lines = manifestText lines') : lines = lines' := by
  have htexts : lines.map Line.text = lines'.map Line.text := by
    rw [← (splitOn_manifestText hne h).2, ← (splitOn_manifestText hne' h').2, heq]
  clear hne hne' heq
  induction lines generalizing lines' with
  | nil =>
    rw [List.map_nil, eq_comm, List.map_eq_nil_iff] at htexts
    exact htexts.symm
  | cons line lines ih =>
    cases lines' with
    | nil => cases htexts
    | cons line' lines' =>
      obtain ⟨hfirst, hrest⟩ := List.cons.inj htexts
      rw [List.forall_mem_cons] at h h'
      rw [Line.text_inj h.1.1 h'.1.1 hfirst, ih h.2 h'.2 hrest]

/-! ## Reading a manifest back -/

theorem threeFields_text {line : Line} (h : validSum line.sum = true) :
    threeFields line.text = some (line.sum, decimal line.size, line.path) := by
  have hfirst : Scan.cut [space] line.text = some (line.sum, decimal line.size ++ space :: line.path) :=
    Scan.cut_sep (notMem_of_validSum h (by decide))
  have hsecond : Scan.cut [space] (decimal line.size ++ space :: line.path) =
      some (decimal line.size, line.path) := Scan.cut_sep (notMem_decimal (by decide))
  rw [threeFields, hfirst, Option.bind_some]
  rw [hsecond]
  rfl

theorem parseLine_text {line : Line} (h : line.Valid) {number : Nat} {previous : Option Bytes}
    (hprevious : ∀ before, previous = some before → before < line.path) :
    parseLine number previous line.text = .ok line := by
  have horder : (previous.any fun before => decide (line.path ≤ before)) = false := by
    cases previous with
    | none => rfl
    | some before => simpa using List.not_le.2 (hprevious before rfl)
  unfold parseLine
  rw [threeFields_text h.sum]
  simp [h.sum, Go.parseInt_decimal h.size, validPath_ok.2 h.path, horder]

theorem parseLines_texts (hvalid : ∀ line ∈ lines, line.Valid) {number : Nat}
    {previous : Option Bytes} (hsorted : (previous.toList ++ lines.map Line.path).Pairwise (· < ·)) :
    parseLines number previous (lines.map Line.text) = .ok lines := by
  induction lines generalizing number previous with
  | nil => rfl
  | cons line lines ih =>
    rw [List.forall_mem_cons] at hvalid
    have hprevious : ∀ before, previous = some before → before < line.path := by
      rintro before rfl
      exact (List.pairwise_cons.1 hsorted).1 line.path (.head _)
    have hrest : ((some line.path).toList ++ lines.map Line.path).Pairwise (· < ·) := by
      cases previous with
      | none => exact hsorted
      | some before => exact (List.pairwise_cons.1 hsorted).2
    rw [List.map_cons, parseLines, parseLine_text hvalid.1 hprevious]
    dsimp only
    rw [ih hvalid.2 hrest]
    rfl

theorem parseManifest_text (hne : lines ≠ []) (hfew : lines.length ≤ maxFiles)
    (hvalid : ∀ line ∈ lines, line.Valid) (hsorted : (lines.map Line.path).Pairwise (· < ·)) :
    parseManifest (manifestText lines) = .ok lines := by
  obtain ⟨hlast, hsplit⟩ := splitOn_manifestText hne fun line h => ⟨(hvalid line h).sum, (hvalid line h).path⟩
  unfold parseManifest
  rw [hlast, hsplit, if_neg (not_not.2 rfl)]
  dsimp only
  rw [List.length_map, if_neg (Nat.not_lt.2 hfew)]
  exact parseLines_texts hvalid hsorted

/-! ## Files -/

variable {hash : Hash} {files files' : List File}

theorem lowerCase_hexEncode (data : Bytes) : lowerCase (hexEncode data) = true := by
  have hdigit : ∀ n, n < 16 → (0x41 ≤ Go.hexDigit n && Go.hexDigit n ≤ 0x5a) = false := by decide
  rw [lowerCase, Bool.not_eq_true', List.any_eq_false]
  intro c hc
  rw [hexEncode, List.mem_flatMap] at hc
  obtain ⟨b, -, hc⟩ := hc
  rw [Bool.not_eq_true]
  rcases hc with _ | ⟨_, hc⟩
  · exact hdigit _ (by have := b.toNat_lt; omega)
  · rw [List.mem_singleton.1 hc]
    exact hdigit _ (Nat.mod_lt _ (by decide))

theorem validSum_hexEncode (hash : Hash) (data : Bytes) : validSum (hexEncode (hash.sum data)) = true := by
  rw [validSum, Go.length_hexEncode, hash.length, lowerCase_hexEncode, Go.hexDecode_hexEncode]
  rfl

theorem hexEncode_inj {a b : Bytes} (h : hexEncode a = hexEncode b) : a = b := by
  have hdecode := congrArg hexDecode h
  rw [Go.hexDecode_hexEncode, Go.hexDecode_hexEncode] at hdecode
  exact Option.some.inj hdecode

theorem File.line_valid {file : File} (h : PathAdmitted file.path) : (file.line hash).Valid :=
  ⟨validSum_hexEncode hash file.data, file.small, h⟩

def manifestLines (hash : Hash) (files : List File) : List Line := (sortOn File.path files).map (File.line hash)

theorem manifest_ok : manifest hash files = .ok text ↔
    Admitted (files.map File.path) ∧ text = manifestText (manifestLines hash files) := by
  unfold manifest
  constructor
  · intro h
    cases hcanonical : canonical File.path files with
    | error e =>
      rw [hcanonical] at h
      cases h
    | ok sorted =>
      obtain ⟨hadmitted, rfl⟩ := canonical_ok.1 hcanonical
      rw [hcanonical] at h
      exact ⟨hadmitted, (Except.ok.inj h).symm⟩
  · rintro ⟨hadmitted, rfl⟩
    rw [canonical_ok.2 ⟨hadmitted, rfl⟩]
    rfl

theorem mem_manifestLines {line : Line} :
    line ∈ manifestLines hash files ↔ ∃ file ∈ files, file.line hash = line := by
  rw [manifestLines, List.mem_map]
  simp only [Scan.perm_sortOn.mem_iff]

theorem manifestLines_valid (h : Admitted (files.map File.path)) :
    ∀ line ∈ manifestLines hash files, line.Valid := by
  intro line hline
  obtain ⟨file, hfile, rfl⟩ := mem_manifestLines.1 hline
  exact File.line_valid (h.valid _ (List.mem_map_of_mem hfile))

theorem length_manifestLines : (manifestLines hash files).length = files.length := by
  rw [manifestLines, List.length_map, Scan.perm_sortOn.length_eq]

theorem manifestLines_ne_nil (h : Admitted (files.map File.path)) : manifestLines hash files ≠ [] := by
  have hlength := h.nonempty
  rw [List.length_map, ← @length_manifestLines hash files] at hlength
  exact List.length_pos_iff.1 hlength

theorem manifestLines_sorted (h : Admitted (files.map File.path)) :
    ((manifestLines hash files).map Line.path).Pairwise (· < ·) := by
  have hpaths : (manifestLines hash files).map Line.path = (sortOn File.path files).map File.path := by
    rw [manifestLines, List.map_map]
    rfl
  rw [hpaths]
  exact Scan.sorted_lt_sortOn h.different

/-- The texts on which the hash has to tell one from another. -/
def Separates (hash : Hash) (texts : Bytes → Prop) : Prop :=
  ∀ a b, texts a → texts b → hash.sum a = hash.sum b → a = b

theorem digest_ok {d : Bytes} : digest hash files = .ok d ↔
    Admitted (files.map File.path) ∧ d = digestOf hash (manifestText (manifestLines hash files)) := by
  unfold digest
  constructor
  · intro h
    cases hmanifest : manifest hash files with
    | error e =>
      rw [hmanifest] at h
      cases h
    | ok text =>
      obtain ⟨hadmitted, rfl⟩ := manifest_ok.1 hmanifest
      rw [hmanifest] at h
      exact ⟨hadmitted, (Except.ok.inj h).symm⟩
  · rintro ⟨hadmitted, rfl⟩
    rw [manifest_ok.2 ⟨hadmitted, rfl⟩]
    rfl

theorem digestOf_inj {texts : Bytes → Prop} (hseparates : Separates hash texts) {a b : Bytes} (ha : texts a)
    (hb : texts b) (h : digestOf hash a = digestOf hash b) : a = b :=
  hseparates a b ha hb (hexEncode_inj (List.append_cancel_left h))

/-- The lines of files say the files, where the hash tells their data apart. -/
theorem mem_of_manifestLines {texts : Bytes → Prop} (hseparates : Separates hash texts)
    (hdata : ∀ file ∈ files, texts file.data) (hdata' : ∀ file ∈ files', texts file.data)
    (h : manifestLines hash files = manifestLines hash files') {file : File} (hfile : file ∈ files) :
    file ∈ files' := by
  have hline : file.line hash ∈ manifestLines hash files' := by
    rw [← h]
    exact mem_manifestLines.2 ⟨file, hfile, rfl⟩
  obtain ⟨other, hother, hsame⟩ := mem_manifestLines.1 hline
  have hpath : other.path = file.path := congrArg Line.path hsame
  have hsum : hash.sum other.data = hash.sum file.data := hexEncode_inj (congrArg Line.sum hsame)
  have heq := hseparates _ _ (hdata' other hother) (hdata file hfile) hsum
  have : other = file := by
    cases file
    subst hpath heq
    rfl
  exact this ▸ hother

theorem manifestLines_eq_of_perm (h : Admitted (files'.map File.path)) (hperm : files.Perm files') :
    manifestLines hash files = manifestLines hash files' := by
  rw [manifestLines, manifestLines, Scan.sortOn_eq_of_perm hperm h.different]

theorem perm_of_mem_iff (h : Admitted (files.map File.path)) (h' : Admitted (files'.map File.path))
    (hmem : ∀ file, file ∈ files ↔ file ∈ files') : files.Perm files' :=
  (List.perm_ext_iff_of_nodup h.different.of_map h'.different.of_map).2 hmem

/-! ## Entries -/

def Entry.line (entry : Entry) : Line where
  sum := entry.sha256
  size := entry.size.toNat
  path := entry.path

def Line.entry (line : Line) : Entry where
  path := line.path
  size := line.size
  sha256 := line.sum

theorem Entry.entry_line {entry : Entry} (h : 0 ≤ entry.size) : entry.line.entry = entry := by
  simp only [Entry.line, Line.entry, Int.toNat_of_nonneg h]

theorem entryLines_ok : entryLines entries = .ok lines ↔
    (∀ entry ∈ entries, 0 ≤ entry.size ∧ validSum entry.sha256 = true) ∧ lines = entries.map Entry.line := by
  induction entries generalizing lines with
  | nil =>
    rw [entryLines, Except.ok.injEq]
    exact ⟨fun h => ⟨by simp, h.symm⟩, fun h => h.2.symm⟩
  | cons entry entries ih =>
    rw [entryLines, List.forall_mem_cons]
    split
    · rename_i hinvalid
      simp only [reduceCtorEq, false_iff]
      rintro ⟨⟨⟨hsize, hsum⟩, -⟩, -⟩
      rcases hinvalid with h | h
      · exact absurd h (Int.not_lt.2 hsize)
      · rw [hsum] at h
        cases h
    · rename_i hvalid
      rw [not_or, Int.not_lt, Bool.not_eq_false] at hvalid
      cases hrest : entryLines entries with
      | error e =>
        simp only [Except.map, reduceCtorEq, false_iff]
        rintro ⟨⟨-, hentries⟩, -⟩
        rw [ih.2 ⟨hentries, rfl⟩] at hrest
        cases hrest
      | ok rest =>
        obtain ⟨hentries, rfl⟩ := ih.1 hrest
        simp only [Except.map, Except.ok.injEq]
        constructor
        · rintro rfl
          exact ⟨⟨hvalid, hentries⟩, rfl⟩
        · rintro ⟨-, rfl⟩
          rfl

theorem entriesManifest_ok : entriesManifest entries = .ok text ↔
    Admitted (entries.map Entry.path) ∧ (∀ entry ∈ entries, 0 ≤ entry.size ∧ validSum entry.sha256 = true) ∧
      text = manifestText ((sortOn Entry.path entries).map Entry.line) := by
  unfold entriesManifest
  constructor
  · intro h
    split at h
    · cases h
    rename_i sorted hcanonical
    obtain ⟨hadmitted, rfl⟩ := canonical_ok.1 hcanonical
    cases hlines : entryLines (sortOn Entry.path entries) with
    | error e =>
      rw [hlines] at h
      cases h
    | ok lines =>
      obtain ⟨hentries, rfl⟩ := entryLines_ok.1 hlines
      rw [hlines] at h
      simp only [Scan.perm_sortOn.mem_iff] at hentries
      exact ⟨hadmitted, hentries, (Except.ok.inj h).symm⟩
  · rintro ⟨hadmitted, hentries, rfl⟩
    have hlines : entryLines (sortOn Entry.path entries) = .ok _ :=
      entryLines_ok.2 ⟨by simpa only [Scan.perm_sortOn.mem_iff] using hentries, rfl⟩
    rw [canonical_ok.2 ⟨hadmitted, rfl⟩]
    dsimp only
    rw [hlines]
    rfl

theorem entriesManifest_files (h : Admitted (files.map File.path)) :
    entriesManifest (files.map (File.entry hash)) = .ok (manifestText (manifestLines hash files)) := by
  have hpaths : (files.map (File.entry hash)).map Entry.path = files.map File.path := by
    rw [List.map_map]
    rfl
  have hsort : (sortOn File.path files).map (File.entry hash) =
      sortOn Entry.path (files.map (File.entry hash)) := by
    refine Scan.eq_sortOn ?_ (Scan.perm_sortOn.map _) (by rw [hpaths]; exact h.different)
    exact List.pairwise_map.2 Scan.sorted_sortOn
  refine entriesManifest_ok.2 ⟨by rw [hpaths]; exact h, fun entry hentry => ?_, ?_⟩
  · obtain ⟨file, -, rfl⟩ := List.mem_map.1 hentry
    exact ⟨Int.natCast_nonneg _, validSum_hexEncode hash file.data⟩
  · rw [← hsort, List.map_map]
    rfl

theorem perm_of_entriesManifest (h : Admitted (files.map File.path))
    (hentries : entriesManifest entries = .ok (manifestText (manifestLines hash files))) :
    entries.Perm (files.map (File.entry hash)) := by
  obtain ⟨hadmitted, hvalid, heq⟩ := entriesManifest_ok.1 hentries
  have hne : (sortOn Entry.path entries).map Entry.line ≠ [] := by
    have hperm : (sortOn Entry.path entries).Perm entries := Scan.perm_sortOn
    have hlength := hadmitted.nonempty
    rw [List.length_map, ← hperm.length_eq] at hlength
    rw [ne_eq, List.map_eq_nil_iff]
    exact List.length_pos_iff.1 hlength
  have hlines : manifestLines hash files = (sortOn Entry.path entries).map Entry.line := by
    refine manifestText_inj (manifestLines_ne_nil h) hne (fun line hline => ?_) (fun line hline => ?_) heq
    · exact ⟨(manifestLines_valid h line hline).sum, (manifestLines_valid h line hline).path⟩
    obtain ⟨entry, hentry, rfl⟩ := List.mem_map.1 hline
    have hmem := Scan.perm_sortOn.mem_iff.1 hentry
    exact ⟨(hvalid entry hmem).2, hadmitted.valid _ (List.mem_map_of_mem hmem)⟩
  have hback : ∀ entry ∈ sortOn Entry.path entries, (Line.entry ∘ Entry.line) entry = entry :=
    fun entry hentry => Entry.entry_line (hvalid entry (Scan.perm_sortOn.mem_iff.1 hentry)).1
  have hsorted : (sortOn File.path files).map (File.entry hash) = sortOn Entry.path entries := by
    have hmap := congrArg (List.map Line.entry) hlines
    rw [manifestLines, List.map_map, List.map_map, List.map_congr_left hback, List.map_id'] at hmap
    exact hmap
  have hperm : (sortOn Entry.path entries).Perm (files.map (File.entry hash)) := by
    rw [← hsorted]
    exact Scan.perm_sortOn.map _
  exact Scan.perm_sortOn.symm.trans hperm

def HashedTexts (hash : Hash) (files files' : List File) (text : Bytes) : Prop :=
  (∃ file ∈ files ++ files', text = file.data) ∨ manifest hash files = .ok text ∨ manifest hash files' = .ok text

/-- A content digest names one set of files:

* a set of files has a manifest exactly when the rules admit it, in whatever order it is given;
* two sets have one digest exactly when they are the same files, where the hash tells their texts apart;
* a manifest is read back as its lines, one for each file, sorted by path;
* the entries of files give their digest, and entries that give it are theirs. -/
theorem content_digest (hash : Hash) :
    (∀ files, (∃ text, manifest hash files = .ok text) ↔ Admitted (files.map File.path)) ∧
    (∀ files files' d d', digest hash files = .ok d → digest hash files' = .ok d' →
      Separates hash (HashedTexts hash files files') →
      (d = d' ↔ ∀ file, file ∈ files ↔ file ∈ files')) ∧
    (∀ files text, manifest hash files = .ok text → ∃ lines, parseManifest text = .ok lines ∧
      text = manifestText lines ∧ lines.Perm (files.map (File.line hash)) ∧
      (lines.map Line.path).Pairwise (· < ·)) ∧
    (∀ files d, digest hash files = .ok d → digestOfEntries hash (files.map (File.entry hash)) = .ok d) ∧
    ∀ files entries d, digest hash files = .ok d → digestOfEntries hash entries = .ok d →
      Separates hash (fun text => manifest hash files = .ok text ∨ entriesManifest entries = .ok text) →
      entries.Perm (files.map (File.entry hash)) := by
  refine ⟨fun files => ?_, fun files files' d d' hd hd' hseparates => ?_, fun files text htext => ?_,
    fun files d hd => ?_, fun files entries d hd hentries hseparates => ?_⟩
  · constructor
    · rintro ⟨text, htext⟩
      exact (manifest_ok.1 htext).1
    · exact fun h => ⟨_, manifest_ok.2 ⟨h, rfl⟩⟩
  · obtain ⟨h, rfl⟩ := digest_ok.1 hd
    obtain ⟨h', rfl⟩ := digest_ok.1 hd'
    have hvalid : ∀ fs : List File, Admitted (fs.map File.path) → ∀ line ∈ manifestLines hash fs,
        validSum line.sum = true ∧ PathAdmitted line.path := fun fs hfs line hline =>
      ⟨(manifestLines_valid hfs line hline).sum, (manifestLines_valid hfs line hline).path⟩
    constructor
    · intro heq
      have htext := digestOf_inj hseparates (.inr (.inl (manifest_ok.2 ⟨h, rfl⟩)))
        (.inr (.inr (manifest_ok.2 ⟨h', rfl⟩))) heq
      have hlines := manifestText_inj (manifestLines_ne_nil h) (manifestLines_ne_nil h') (hvalid files h)
        (hvalid files' h') htext
      have hdata : ∀ file ∈ files, HashedTexts hash files files' file.data :=
        fun file hfile => .inl ⟨file, List.mem_append_left _ hfile, rfl⟩
      have hdata' : ∀ file ∈ files', HashedTexts hash files files' file.data :=
        fun file hfile => .inl ⟨file, List.mem_append_right _ hfile, rfl⟩
      exact fun file => ⟨fun hfile => mem_of_manifestLines hseparates hdata hdata' hlines hfile,
        fun hfile => mem_of_manifestLines hseparates hdata' hdata hlines.symm hfile⟩
    · intro hmem
      rw [manifestLines_eq_of_perm h' (perm_of_mem_iff h h' hmem)]
  · obtain ⟨h, rfl⟩ := manifest_ok.1 htext
    have hfew : (manifestLines hash files).length ≤ maxFiles := by
      rw [length_manifestLines, ← List.length_map (f := File.path)]
      exact h.few
    exact ⟨_, parseManifest_text (manifestLines_ne_nil h) hfew (manifestLines_valid h) (manifestLines_sorted h),
      rfl, Scan.perm_sortOn.map _, manifestLines_sorted h⟩
  · obtain ⟨h, rfl⟩ := digest_ok.1 hd
    rw [digestOfEntries, entriesManifest_files h]
    rfl
  · obtain ⟨h, rfl⟩ := digest_ok.1 hd
    cases htext : entriesManifest entries with
    | error e =>
      rw [digestOfEntries, htext] at hentries
      cases hentries
    | ok text =>
      rw [digestOfEntries, htext] at hentries
      have hsame := digestOf_inj hseparates (.inr htext) (.inl (manifest_ok.2 ⟨h, rfl⟩))
        (Except.ok.inj hentries)
      rw [hsame] at htext
      exact perm_of_entriesManifest h htext

/-- A hash for the sample: a polynomial in the bytes of a text, at 32 points. -/
def sampleHash : Hash where
  sum data := (List.range 32).map fun point => data.foldl (fun sum c => sum * point.toUInt8 + c) 1
  length data := by simp

def sampleFiles (c : UInt8) : List File :=
  [{ path := bytes "b/x", data := [c], small := by simp }, { path := bytes "a", data := [], small := by simp }]

/-- Two files in either order have one digest, and another one when the bytes of a file are others. -/
theorem content_digest_sample :
    ∃ d d', digest sampleHash (sampleFiles 0x78) = .ok d ∧ digest sampleHash (sampleFiles 0x78).reverse = .ok d ∧
      digest sampleHash (sampleFiles 0x79) = .ok d' ∧ d ≠ d' := by
  have hadmitted : ∀ c, Admitted ((sampleFiles c).map File.path) := fun c =>
    (canonical_ok.1 (show canonical id [bytes "b/x", bytes "a"] =
      .ok (sortOn id [bytes "b/x", bytes "a"]) by decide +kernel)).1
  have hreverse : Admitted ((sampleFiles 0x78).reverse.map File.path) :=
    (canonical_ok.1 (show canonical id [bytes "a", bytes "b/x"] =
      .ok (sortOn id [bytes "a", bytes "b/x"]) by decide +kernel)).1
  have hseparates : ∀ files, files = (sampleFiles 0x78).reverse ∨ files = sampleFiles 0x79 →
      Separates sampleHash (HashedTexts sampleHash (sampleFiles 0x78) files) := by
    intro files hfiles
    have htexts : ∀ text, HashedTexts sampleHash (sampleFiles 0x78) files text →
        text ∈ [[], [0x78], [0x79], manifestText (manifestLines sampleHash (sampleFiles 0x78)),
          manifestText (manifestLines sampleHash (sampleFiles 0x79))] := by
      have hsame : manifestLines sampleHash (sampleFiles 0x78).reverse =
          manifestLines sampleHash (sampleFiles 0x78) := by decide +kernel
      rcases hfiles with rfl | rfl
      · rintro text (⟨file, hfile, rfl⟩ | h | h)
        · simp only [sampleFiles, List.reverse_cons, List.reverse_nil, List.nil_append, List.cons_append,
            List.mem_cons, List.not_mem_nil, or_false] at hfile
          rcases hfile with rfl | rfl | rfl | rfl <;> simp
        · simp [(manifest_ok.1 h).2]
        · simp [(manifest_ok.1 h).2, hsame]
      · rintro text (⟨file, hfile, rfl⟩ | h | h)
        · simp only [sampleFiles, List.cons_append, List.nil_append, List.mem_cons, List.not_mem_nil,
            or_false] at hfile
          rcases hfile with rfl | rfl | rfl | rfl <;> simp
        · simp [(manifest_ok.1 h).2]
        · simp [(manifest_ok.1 h).2]
    intro a b ha hb
    exact (show ∀ a ∈ _, ∀ b ∈ _, sampleHash.sum a = sampleHash.sum b → a = b by decide +kernel) a (htexts a ha) b
      (htexts b hb)
  obtain ⟨-, hdigest, -⟩ := content_digest sampleHash
  have hdigests : ∀ files, Admitted (files.map File.path) → ∃ d, digest sampleHash files = .ok d :=
    fun files h => ⟨_, digest_ok.2 ⟨h, rfl⟩⟩
  obtain ⟨d, hd⟩ := hdigests _ (hadmitted 0x78)
  obtain ⟨r, hr⟩ := hdigests _ hreverse
  obtain ⟨d', hd'⟩ := hdigests _ (hadmitted 0x79)
  obtain rfl : d = r := (hdigest _ _ d r hd hr (hseparates _ (.inl rfl))).2 fun file => List.mem_reverse.symm
  refine ⟨d, d', hd, hr, hd', fun heq => ?_⟩
  have hmem := (hdigest _ _ d d' hd hd' (hseparates _ (.inr rfl))).1 heq
  exact absurd ((hmem { path := bytes "b/x", data := [0x78], small := by simp }).1 (.head _)) (by decide)

end Ptah.SourceContent
