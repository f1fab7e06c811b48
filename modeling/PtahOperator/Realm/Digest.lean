import PtahOperator.Go.Strings
import PtahOperator.Scan.Cut

/-!
# The database realm that a target claims

A target names a realm by a coordination key, which reaches as far as its namespace, or by a PtahRealm
(`internal/coordination`, `internal/fingerprint`). The digest of a realm is SHA-256 of a JSON document.

* `digest`: the realm that a target claims.
* `Identity`: what the document of a realm says.
* `digest_identity`: equal digests are those of one realm, if SHA-256 has no collision.
-/

namespace Ptah.Realm

open Go (Text)

/-! ## Names -/

/-- The families of `canonicalDatabaseEngine`. -/
inductive Engine where
  | postgresql
  | mysql
  deriving DecidableEq

def Engine.name : Engine → Text
  | postgresql => "postgresql".toList
  | mysql => "mysql".toList

def canonicalDatabaseEngine [Go.Unicode] (engine : Text) : Except String Engine :=
  let lower := Go.toLower (Go.trimSpace engine)
  if ["postgres", "postgresql", "pgx"].any (·.toList = lower) then .ok .postgresql
  else if ["mariadb", "mysql"].any (·.toList = lower) then .ok .mysql
  else .error "unsupported database engine"

def namespacePattern (text : Text) : Bool := Go.label Char.toNat ['-'] text && text.length ≤ 63

def coordinationKeyPattern (text : Text) : Bool :=
  Go.label Char.toNat ['.', '_', ':', '/', '-'] text && text.length ≤ 253

def realmNamePattern (text : Text) : Bool := (text.splitOn '.').all (Go.label Char.toNat ['-'])

/-! ## Digests -/

/-- The parts of `DatabaseTargetSpec` that decide a claim. -/
structure Target where
  engine : Text
  coordinationKey : Text := []
  /-- The name of `realmRef`. -/
  realmRef : Option Text := none
  sharedRealm : Bool := false
  deriving DecidableEq

def realmName (target : Target) : Text := target.realmRef.getD []

/-- A JSON string. The names that a document quotes need no escape. -/
def quoted (text : Text) : Text := '"' :: (text ++ ['"'])

/-- The realm that a coordination key or a PtahRealm names. -/
inductive Identity where
  | key (engine : Engine) (ns coordinationKey : Text)
  | realm (engine : Engine) (name : Text)
  deriving DecidableEq

def Identity.document : Identity → Text
  | .key engine ns coordinationKey =>
    "\x7b\"contract_version\":1,\"engine\":".toList ++ (quoted engine.name ++
      (",\"namespace\":".toList ++ (quoted ns ++
        (",\"coordination_key\":".toList ++ (quoted coordinationKey ++ ['}'])))))
  | .realm engine name =>
    "\x7b\"contract_version\":1,\"engine\":".toList ++ (quoted engine.name ++
      (",\"realm\":".toList ++ (quoted name ++ ['}'])))

section Digest

variable [Go.Unicode] {Digest : Type} (sha256 : Text → Digest)

def databaseCoordinationDigest (engine ns coordinationKey : Text) : Except String Digest :=
  match canonicalDatabaseEngine engine with
  | .error reason => .error reason
  | .ok canonical =>
    if !namespacePattern ns then
      .error "coordination namespace must be a DNS-1123 label of at most 63 characters"
    else if !coordinationKeyPattern coordinationKey then
      .error "coordination key must be 1-253 lowercase ASCII characters using letters, digits, '.', '_', ':', '/', or '-'"
    else .ok (sha256 (Identity.key canonical ns coordinationKey).document)

def databaseRealmDigest (engine realm : Text) : Except String Digest :=
  match canonicalDatabaseEngine engine with
  | .error reason => .error reason
  | .ok canonical =>
    if 253 < realm.length || !realmNamePattern realm then
      .error "realm name must be a DNS-1123 subdomain of at most 253 characters"
    else .ok (sha256 (Identity.realm canonical realm).document)

def digest (ns : Text) (target : Target) : Except String Digest :=
  match target.realmRef with
  | some realm =>
    if target.coordinationKey ≠ [] then
      .error "a database target names both a coordination key and a realm"
    else databaseRealmDigest sha256 target.engine realm
  | none => databaseCoordinationDigest sha256 target.engine ns target.coordinationKey

end Digest

/-! ## One document for one realm -/

theorem quoted_append_inj {a b x y : Text} (ha : '"' ∉ a) (hb : '"' ∉ b)
    (h : quoted a ++ x = quoted b ++ y) : a = b ∧ x = y := by
  have hsplit : a ++ '"' :: x = b ++ '"' :: y := by simpa [quoted] using h
  exact Scan.append_cons_inj_front ha hb hsplit

theorem Engine.name_inj {a b : Engine} (h : a.name = b.name) : a = b := by
  cases a <;> cases b <;> first | rfl | exact absurd h (by decide)

theorem Engine.quote_notMem (engine : Engine) : '"' ∉ engine.name := by
  cases engine <;> decide

theorem quote_notMem_label {separators : List Char} {text : Text}
    (h : Go.label Char.toNat separators text = true) (hs : '"' ∉ separators) : '"' ∉ text := by
  intro hm
  simp only [Go.label, Bool.and_eq_true, List.all_eq_true] at h
  have := h.2 '"' hm
  simp only [Bool.or_eq_true, List.contains_iff_mem] at this
  rcases this with hc | hc
  · exact absurd hc (by decide)
  · exact hs hc

/-- The names of an identity fit their patterns. -/
def Identity.Valid : Identity → Prop
  | .key _ ns coordinationKey =>
    namespacePattern ns = true ∧ coordinationKeyPattern coordinationKey = true
  | .realm _ name => realmNamePattern name = true

theorem mem_splitOn {c d : Char} {text : Text} (h : c ∈ text) (hne : c ≠ d) :
    ∃ part ∈ text.splitOn d, c ∈ part := by
  have hjoin := @List.intercalate_splitOn _ text _ _ d
  rw [← hjoin] at h
  have hmem : ∀ parts : List Text, c ∈ [d].intercalate parts → ∃ part ∈ parts, c ∈ part := by
    intro parts
    induction parts with
    | nil => exact nofun
    | cons part parts ih =>
      intro hc
      cases parts with
      | nil => exact ⟨part, .head _, by simpa [List.intercalate] using hc⟩
      | cons next parts =>
        have hsplit : [d].intercalate (part :: next :: parts) =
            part ++ d :: [d].intercalate (next :: parts) := by simp [List.intercalate]
        rcases List.mem_append.1 hc with hc | hc
        · exact ⟨part, .head _, hc⟩
        rcases hc with _ | ⟨_, hc⟩
        · exact absurd rfl hne
        · obtain ⟨p, hp, hcp⟩ := ih hc
          exact ⟨p, .tail _ hp, hcp⟩
  exact hmem _ h

theorem quote_notMem_realmName {name : Text} (h : realmNamePattern name = true) : '"' ∉ name := by
  intro hm
  obtain ⟨part, hpart, hc⟩ := @mem_splitOn '"' '.' name hm (by decide)
  exact quote_notMem_label (List.all_eq_true.1 h part hpart) (by decide) hc

theorem Identity.document_inj {a b : Identity} (ha : a.Valid) (hb : b.Valid)
    (h : a.document = b.document) : a = b := by
  have hns {ns : Text} (h : namespacePattern ns = true) : '"' ∉ ns :=
    quote_notMem_label (Bool.and_eq_true_iff.1 h).1 (by decide)
  have hkey {key : Text} (h : coordinationKeyPattern key = true) : '"' ∉ key :=
    quote_notMem_label (Bool.and_eq_true_iff.1 h).1 (by decide)
  cases a with
  | key engine ns k =>
    cases b with
    | key engine' ns' k' =>
      obtain ⟨hengine, hrest⟩ := quoted_append_inj engine.quote_notMem engine'.quote_notMem
        (List.append_cancel_left h)
      obtain ⟨rfl, hlast⟩ := quoted_append_inj (hns ha.1) (hns hb.1) (List.append_cancel_left hrest)
      obtain ⟨rfl, -⟩ := quoted_append_inj (hkey ha.2) (hkey hb.2) (List.append_cancel_left hlast)
      rw [Engine.name_inj hengine]
    | realm engine' name =>
      obtain ⟨-, h⟩ := quoted_append_inj engine.quote_notMem engine'.quote_notMem
        (List.append_cancel_left h)
      exact absurd (List.cons.inj (List.cons.inj (List.cons.inj h).2).2).1 (by decide)
  | realm engine name =>
    cases b with
    | key engine' ns' k' =>
      obtain ⟨-, h⟩ := quoted_append_inj engine.quote_notMem engine'.quote_notMem
        (List.append_cancel_left h)
      exact absurd (List.cons.inj (List.cons.inj (List.cons.inj h).2).2).1 (by decide)
    | realm engine' name' =>
      obtain ⟨hengine, h⟩ := quoted_append_inj engine.quote_notMem engine'.quote_notMem
        (List.append_cancel_left h)
      obtain ⟨rfl, -⟩ := quoted_append_inj (quote_notMem_realmName ha) (quote_notMem_realmName hb)
        (List.append_cancel_left h)
      rw [Engine.name_inj hengine]

section

variable [Go.Unicode] {Digest : Type} {sha256 : Text → Digest}

theorem digest_ok {ns : Text} {target : Target} {d : Digest} (h : digest sha256 ns target = .ok d) :
    ∃ engine, canonicalDatabaseEngine target.engine = .ok engine ∧
      ((∃ name, target.realmRef = some name ∧ name ≠ [] ∧ (Identity.realm engine name).Valid ∧
          d = sha256 (Identity.realm engine name).document) ∨
        target.realmRef = none ∧ (Identity.key engine ns target.coordinationKey).Valid ∧
          d = sha256 (Identity.key engine ns target.coordinationKey).document) := by
  unfold digest at h
  cases hrealm : target.realmRef with
  | some name =>
    rw [hrealm] at h
    dsimp only at h
    split at h
    · cases h
    unfold databaseRealmDigest at h
    cases hengine : canonicalDatabaseEngine target.engine with
    | error reason => rw [hengine] at h; cases h
    | ok engine =>
      rw [hengine] at h
      dsimp only at h
      split at h
      · cases h
      rename_i hname
      simp only [Bool.or_eq_true, not_or, Bool.not_eq_true', Bool.not_eq_false] at hname
      cases h
      refine ⟨engine, rfl, .inl ⟨name, rfl, ?_, hname.2, rfl⟩⟩
      rintro rfl
      exact absurd hname.2 (by decide)
  | none =>
    rw [hrealm] at h
    unfold databaseCoordinationDigest at h
    cases hengine : canonicalDatabaseEngine target.engine with
    | error reason => rw [hengine] at h; cases h
    | ok engine =>
      rw [hengine] at h
      dsimp only at h
      split at h
      · cases h
      rename_i hns
      split at h
      · cases h
      rename_i hkey
      cases h
      exact ⟨engine, rfl, .inr ⟨rfl, ⟨by simpa using hns, by simpa using hkey⟩, rfl⟩⟩

/-- Two targets with one digest claim one realm: the same engine family, and the same PtahRealm or the
same key of one namespace. -/
theorem digest_identity (hsha : Function.Injective sha256) {ns ns' : Text} {target target' : Target}
    {d : Digest} (h : digest sha256 ns target = .ok d) (h' : digest sha256 ns' target' = .ok d) :
    canonicalDatabaseEngine target.engine = canonicalDatabaseEngine target'.engine ∧
      target.realmRef = target'.realmRef ∧ (target.realmRef = none → ns = ns') := by
  obtain ⟨engine, hengine, hid⟩ := digest_ok h
  obtain ⟨engine', hengine', hid'⟩ := digest_ok h'
  rw [hengine, hengine']
  rcases hid with ⟨name, hname, -, hv, hd⟩ | ⟨hnone, hv, hd⟩ <;>
    rcases hid' with ⟨name', hname', -, hv', hd'⟩ | ⟨hnone', hv', hd'⟩
  · cases Identity.document_inj hv hv' (hsha (hd.symm.trans hd'))
    exact ⟨rfl, hname.trans hname'.symm, fun hn => by rw [hn] at hname; cases hname⟩
  · cases Identity.document_inj hv hv' (hsha (hd.symm.trans hd'))
  · cases Identity.document_inj hv hv' (hsha (hd.symm.trans hd'))
  · have heq := Identity.document_inj hv hv' (hsha (hd.symm.trans hd'))
    injection heq with hengines hnss _
    exact ⟨by rw [hengines], hnone.trans hnone'.symm, fun _ => hnss⟩

end

end Ptah.Realm
