import Mathlib.Data.List.Nodup
import Mathlib.Data.List.Perm.Subperm
import PtahOperator.Realm.Digest

/-!
# The census of a database realm

Before it claims anything, a resource counts the resources that claim the realm of its target and are
allowed to (`internal/controller/realm.go`). Each asker takes its own census, from the bucket of its
digest in the manager's cache.

* `takeRealmCensus`: the verdict on one asker.
* `members`: the claimants that a census counts.
* `mem_members`: they are the active claimants of the digest that its PtahRealm admits.
* `realm_census_fair`: askers of one realm agree, and nobody who was not admitted counts.
-/

namespace Ptah.Realm

open Go (Text)

/-! ## The cache -/

/-- `RealmSharing` -/
inductive Sharing where
  | exclusive
  | shared
  deriving DecidableEq

/-- `PtahRealmSpec`. The API holds the namespaces to a set of nonempty names. -/
structure PtahRealm where
  engine : Text
  namespaces : List Text
  sharing : Sharing
  nodup : namespaces.Nodup
  named : [] ∉ namespaces

inductive Kind where
  | schema
  | migration
  deriving DecidableEq

/-- A PtahSchema or a PtahMigration, as far as a census reads it. -/
structure Resource where
  ns : Text
  name : Text
  target : Target
  suspend : Bool := false
  deleting : Bool := false
  deriving DecidableEq

/-- What the manager's cache holds. -/
structure Cache where
  resources : Kind → List Resource
  realms : Text → Option PtahRealm
  keyed : ∀ kind, ((resources kind).map fun r => (r.ns, r.name)).Nodup

def Resource.dormant (r : Resource) : Bool := r.deleting || r.suspend

/-! ## Verdicts -/

structure RealmCensus where
  schemas : Nat := 0
  migrations : Nat := 0
  undeclared : Nat := 0
  deriving DecidableEq

/-- `realmCensus.total` -/
def RealmCensus.total (c : RealmCensus) : Nat := c.schemas + c.migrations

structure RealmVerdict where
  ns : Text
  realm : Text
  authorized : Bool := true
  exclusive : Bool := false
  census : RealmCensus := {}
  deriving DecidableEq

/-- `realmVerdict.conflict` -/
def RealmVerdict.conflict (v : RealmVerdict) : Bool :=
  v.authorized && (1 < v.census.total && (v.exclusive || 0 < v.census.undeclared))

inductive RefusalReason where
  | realmNotAuthorized
  | realmConflict
  deriving DecidableEq

structure RealmRefusal where
  reason : RefusalReason
  message : String
  approval : String
  apply : String
  deriving DecidableEq

/-- `realmVerdict.refusal` -/
def RealmVerdict.refusal (v : RealmVerdict) : Option RealmRefusal :=
  let total := toString v.census.total
  let schemas := toString v.census.schemas
  let migrations := toString v.census.migrations
  let undeclared := toString v.census.undeclared
  let realm := String.ofList (quoted v.realm)
  let claimed := "This database realm is claimed by " ++ total ++ " resources (" ++ schemas ++
    " PtahSchema, " ++ migrations ++ " PtahMigration)"
  if !v.authorized then
    some {
      reason := .realmNotAuthorized
      message := "The PtahRealm " ++ realm ++ " does not admit this resource: it does not exist, " ++
        "it does not list namespace " ++ String.ofList (quoted v.ns) ++ ", or it names another engine. " ++
        "Nothing runs against the database until an administrator admits the namespace, " ++
        "and this resource is not counted against the ones the realm does admit."
      approval := "No plan is approvable while the database realm does not admit this resource"
      apply := "No Apply operation is authorized while the database realm does not admit this resource" }
  else if !v.conflict then none
  else if v.exclusive then
    some {
      reason := .realmConflict
      message := claimed ++ ", and its PtahRealm " ++ realm ++ " admits one at a time. " ++
        "Nothing runs against the database until the others stop claiming it."
      approval := "No plan is approvable while the database realm is contested"
      apply := "No Apply operation is authorized while the database realm is contested" }
  else
    some {
      reason := .realmConflict
      message := claimed ++ " and " ++ undeclared ++
        " of them have not set spec.target.sharedRealm. " ++
        "Nothing runs against the database until every claimant declares the realm shared, " ++
        "or until the others stop claiming it."
      approval := "No plan is approvable while the database realm is contested"
      apply := "No Apply operation is authorized while the database realm is contested" }

/-! ## Taking a census -/

section Census

variable [Go.Unicode] {Digest : Type} [DecidableEq Digest] (sha256 : Text → Digest)

def realmDigestIndexValue (ns : Text) (target : Target) : List Digest :=
  match digest sha256 ns target with
  | .error _ => []
  | .ok d => [d]

def claimsRealm (dormant : Bool) (ns : Text) (target : Target) (d : Digest) : Bool :=
  if dormant then false
  else match digest sha256 ns target with
  | .error _ => false
  | .ok candidate => candidate = d

def realmAdmits (realm : PtahRealm) (ns engine : Text) : Bool :=
  if !realm.namespaces.contains ns then false
  else match canonicalDatabaseEngine realm.engine, canonicalDatabaseEngine engine with
  | .ok granted, .ok claimed => claimed = granted
  | _, _ => false

/-- `List` of one kind in a namespace, matching the realm index. The empty namespace is all of them. -/
def Cache.list (cache : Cache) (kind : Kind) (ns : Text) (d : Digest) : List Resource :=
  (cache.resources kind).filter fun r =>
    (ns = [] || r.ns = ns) && (realmDigestIndexValue sha256 r.ns r.target).contains d

/-- One claimant more. -/
def RealmCensus.count (c : RealmCensus) (kind : Kind) (r : Resource) : RealmCensus where
  schemas := c.schemas + if kind = .schema then 1 else 0
  migrations := c.migrations + if kind = .migration then 1 else 0
  undeclared := c.undeclared + if r.target.sharedRealm then 0 else 1

/-- The loop of `takeRealmCensus` over the resources of one kind. -/
def tally (d : Digest) (kind : Kind) (census : RealmCensus) (listed : List Resource) : RealmCensus :=
  listed.foldl (fun census r =>
    if claimsRealm sha256 r.dormant r.ns r.target d then census.count kind r else census) census

/-- The loop of `takeRealmCensus` over the namespaces that it reads. -/
def census (cache : Cache) (granted : List Text) (d : Digest) : RealmCensus :=
  granted.foldl (fun census member =>
    tally sha256 d .migration (tally sha256 d .schema census (cache.list sha256 .schema member d))
      (cache.list sha256 .migration member d)) {}

def takeRealmCensus (cache : Cache) (ns : Text) (target : Target) : Except String RealmVerdict :=
  match digest sha256 ns target with
  | .error reason => .error ("derive coordination realm: " ++ reason)
  | .ok d =>
    let verdict : RealmVerdict := { ns := ns, realm := realmName target }
    if verdict.realm ≠ [] then
      match cache.realms verdict.realm with
      | none => .ok { verdict with authorized := false }
      | some realm =>
        if !realmAdmits realm ns target.engine then .ok { verdict with authorized := false }
        else .ok { verdict with
          exclusive := realm.sharing ≠ .shared
          census := census sha256 cache realm.namespaces d }
    else .ok { verdict with census := census sha256 cache [ns] d }

end Census

/-! ## Who is counted -/

/-- The counts of a census are those of its members. -/
theorem foldl_count (ms : List (Kind × Resource)) (c : RealmCensus) :
    (ms.foldl (fun c (m : Kind × Resource) => c.count m.1 m.2) c).total = c.total + ms.length ∧
      (ms.foldl (fun c (m : Kind × Resource) => c.count m.1 m.2) c).undeclared =
        c.undeclared + ms.countP fun m => !m.2.target.sharedRealm := by
  induction ms generalizing c with
  | nil => exact ⟨rfl, rfl⟩
  | cons m ms ih =>
    obtain ⟨htotal, hundeclared⟩ := ih (c.count m.1 m.2)
    rw [List.foldl_cons, htotal, hundeclared]
    obtain ⟨kind, r⟩ := m
    constructor
    · cases kind <;> simp [RealmCensus.total, RealmCensus.count] <;> omega
    · cases hshared : r.target.sharedRealm <;> simp [RealmCensus.count, hshared]
      omega

variable {granted : List Text} {r : Resource} {kind : Kind} {ns : Text} {target : Target}
  {exclusive : Bool}

section Members

variable [Go.Unicode] {Digest : Type} [DecidableEq Digest] (sha256 : Text → Digest)

/-- The claimants of a kind that the census of some namespaces counts. -/
def membersOf (cache : Cache) (d : Digest) (ns : Text) (kind : Kind) : List (Kind × Resource) :=
  ((cache.list sha256 kind ns d).filter fun r => claimsRealm sha256 r.dormant r.ns r.target d).map (kind, ·)

/-- The claimants that a census counts. -/
def members (cache : Cache) (granted : List Text) (d : Digest) : List (Kind × Resource) :=
  granted.flatMap fun ns =>
    membersOf sha256 cache d ns .schema ++ membersOf sha256 cache d ns .migration

variable {sha256} {cache : Cache} {d : Digest}

/-- The order of the claimants does not matter to their counts. -/
instance : RightCommutative fun (c : RealmCensus) (m : Kind × Resource) => c.count m.1 m.2 where
  right_comm c m m' := by
    simp only [RealmCensus.count, RealmCensus.mk.injEq]
    exact ⟨Nat.add_right_comm .., Nat.add_right_comm .., Nat.add_right_comm ..⟩

theorem tally_eq (kind : Kind) (c : RealmCensus) (listed : List Resource) :
    tally sha256 d kind c listed =
      ((listed.filter fun r => claimsRealm sha256 r.dormant r.ns r.target d).map (kind, ·)).foldl
        (fun c (m : Kind × Resource) => c.count m.1 m.2) c := by
  rw [tally, List.foldl_map, List.foldl_filter]

theorem census_eq (granted : List Text) : census sha256 cache granted d =
      (members sha256 cache granted d).foldl (fun c (m : Kind × Resource) => c.count m.1 m.2) {} := by
  have hstep : ∀ c, granted.foldl (fun census member =>
      tally sha256 d .migration (tally sha256 d .schema census (cache.list sha256 .schema member d))
        (cache.list sha256 .migration member d)) c =
      (members sha256 cache granted d).foldl (fun c m => c.count m.1 m.2) c := by
    induction granted with
    | nil => exact fun c => rfl
    | cons ns granted ih =>
      intro c
      have hmembers : members sha256 cache (ns :: granted) d =
          (membersOf sha256 cache d ns .schema ++ membersOf sha256 cache d ns .migration) ++
            members sha256 cache granted d := List.flatMap_cons
      rw [List.foldl_cons, ih, hmembers, List.foldl_append, List.foldl_append, tally_eq, tally_eq]
      rfl
  exact hstep {}

theorem census_total (granted : List Text) :
    (census sha256 cache granted d).total = (members sha256 cache granted d).length := by
  rw [census_eq, (foldl_count _ _).1]
  exact Nat.zero_add _

theorem census_undeclared_pos : 0 < (census sha256 cache granted d).undeclared ↔
      ∃ m ∈ members sha256 cache granted d, m.2.target.sharedRealm = false := by
  rw [census_eq, (foldl_count _ _).2]
  simp [List.countP_pos_iff]

theorem claimsRealm_iff : claimsRealm sha256 r.dormant r.ns r.target d = true ↔
      r.dormant = false ∧ digest sha256 r.ns r.target = .ok d := by
  unfold claimsRealm
  cases r.dormant with
  | true => simp
  | false => cases digest sha256 r.ns r.target <;> simp

theorem mem_list (hns : ns ≠ []) : r ∈ cache.list sha256 kind ns d ↔
      r ∈ cache.resources kind ∧ r.ns = ns ∧ digest sha256 r.ns r.target = .ok d := by
  rw [Cache.list, List.mem_filter]
  refine and_congr_right fun _ => ?_
  simp only [hns, decide_false, Bool.false_or, Bool.and_eq_true, decide_eq_true_eq]
  refine and_congr_right fun _ => ?_
  unfold realmDigestIndexValue
  cases digest sha256 r.ns r.target with
  | error reason => simp
  | ok d' => simpa using eq_comm

/-- A census counts the active claimants of its digest in the namespaces that it reads. -/
theorem mem_members (hgranted : [] ∉ granted) : (kind, r) ∈ members sha256 cache granted d ↔
      r ∈ cache.resources kind ∧ r.ns ∈ granted ∧ r.dormant = false ∧
        digest sha256 r.ns r.target = .ok d := by
  have hof {ns : Text} (hns : ns ∈ granted) kind' :
      (kind, r) ∈ membersOf sha256 cache d ns kind' ↔ kind' = kind ∧ r ∈ cache.resources kind ∧
        r.ns = ns ∧ r.dormant = false ∧ digest sha256 r.ns r.target = .ok d := by
    have hne : ns ≠ [] := fun h => hgranted (h ▸ hns)
    simp only [membersOf, List.mem_map, List.mem_filter, Prod.mk.injEq]
    constructor
    · rintro ⟨r', ⟨hlist, hclaims⟩, rfl, rfl⟩
      obtain ⟨hmem, hat, hdigest⟩ := (mem_list hne).1 hlist
      exact ⟨rfl, hmem, hat, (claimsRealm_iff.1 hclaims).1, hdigest⟩
    · rintro ⟨rfl, hmem, hat, hactive, hdigest⟩
      exact ⟨r, ⟨(mem_list hne).2 ⟨hmem, hat, hdigest⟩, claimsRealm_iff.2 ⟨hactive, hdigest⟩⟩, rfl, rfl⟩
  rw [members, List.mem_flatMap]
  constructor
  · rintro ⟨ns, hns, hm⟩
    rcases List.mem_append.1 hm with hm | hm
    · obtain ⟨-, hmem, hat, hrest⟩ := (hof hns _).1 hm
      exact ⟨hmem, hat ▸ hns, hrest⟩
    · obtain ⟨-, hmem, hat, hrest⟩ := (hof hns _).1 hm
      exact ⟨hmem, hat ▸ hns, hrest⟩
  · rintro ⟨hmem, hns, hrest⟩
    refine ⟨r.ns, hns, List.mem_append.2 ?_⟩
    cases kind with
    | schema => exact .inl ((hof hns _).2 ⟨rfl, hmem, rfl, hrest⟩)
    | migration => exact .inr ((hof hns _).2 ⟨rfl, hmem, rfl, hrest⟩)

theorem nodup_members (hgranted : [] ∉ granted) (hnodup : granted.Nodup) :
    (members sha256 cache granted d).Nodup := by
  have hof ns kind : (membersOf sha256 cache d ns kind).Nodup :=
    (((List.Nodup.of_map _ (cache.keyed kind)).filter _).filter _).map fun _ _ h => (Prod.mk.inj h).2
  have hkind {ns : Text} {kind : Kind} {m : Kind × Resource} (h : m ∈ membersOf sha256 cache d ns kind) :
      m.1 = kind := by
    obtain ⟨r, -, rfl⟩ := List.mem_map.1 h
    rfl
  have hns {ns : Text} (hin : ns ∈ granted) {kind : Kind} {m : Kind × Resource}
      (h : m ∈ membersOf sha256 cache d ns kind) : m.2.ns = ns := by
    obtain ⟨r, hr, rfl⟩ := List.mem_map.1 h
    exact ((mem_list fun h => hgranted (h ▸ hin)).1 (List.mem_filter.1 hr).1).2.1
  refine List.nodup_flatMap.2 ⟨fun ns hin => ?_, ?_⟩
  · refine .append (hof ns _) (hof ns _) fun m h h' => ?_
    exact absurd ((hkind h).symm.trans (hkind h')) (by decide)
  refine hnodup.imp_of_mem fun {ns ns'} hin hin' hne m h h' => hne ?_
  have hat {ns : Text} (hin : ns ∈ granted) (h : m ∈ membersOf sha256 cache d ns .schema ++
      membersOf sha256 cache d ns .migration) : m.2.ns = ns := by
    rcases List.mem_append.1 h with h | h
    · exact hns hin h
    · exact hns hin h
  exact (hat hin h).symm.trans (hat hin' h')

end Members

/-! ## What a claim is granted -/

theorem refusal_none {v : RealmVerdict} (h : v.refusal = none) :
    v.authorized = true ∧ v.conflict = false := by
  unfold RealmVerdict.refusal at h
  cases hauthorized : v.authorized with
  | false => simp [hauthorized] at h
  | true =>
    refine ⟨rfl, ?_⟩
    cases hconflict : v.conflict with
    | false => rfl
    | true => cases hexclusive : v.exclusive <;> simp [hauthorized, hconflict, hexclusive] at h

section Grant

variable [Go.Unicode] {Digest : Type} [DecidableEq Digest] {sha256 : Text → Digest} {cache : Cache}
  {d : Digest}

/-- The namespaces that the census of an asker reads and whether its realm is exclusive, unless its
PtahRealm does not admit it. -/
def grant (cache : Cache) (ns : Text) (target : Target) : Option (List Text × Bool) :=
  match target.realmRef with
  | none => some ([ns], false)
  | some name =>
    match cache.realms name with
    | none => none
    | some realm =>
      if realmAdmits realm ns target.engine then some (realm.namespaces, realm.sharing ≠ .shared)
      else none

/-- The verdict on a grant. -/
def verdict (sha256 : Text → Digest) (cache : Cache) (d : Digest) (ns : Text) (target : Target) :
    RealmVerdict :=
  match grant cache ns target with
  | none => { ns := ns, realm := realmName target, authorized := false }
  | some (granted, exclusive) =>
    { ns := ns, realm := realmName target, exclusive, census := census sha256 cache granted d }

theorem takeRealmCensus_eq (h : digest sha256 ns target = .ok d) :
    takeRealmCensus sha256 cache ns target = .ok (verdict sha256 cache d ns target) := by
  obtain ⟨engine, -, ⟨name, hname, hne, -⟩ | ⟨hnone, -⟩⟩ := digest_ok h
  · have hrealm : realmName target = name := by rw [realmName, hname]; rfl
    unfold takeRealmCensus verdict grant
    rw [h, hname]
    dsimp only
    rw [hrealm, if_pos hne]
    cases cache.realms name with
    | none => rfl
    | some realm => cases hadmits : realmAdmits realm ns target.engine <;> simp [hadmits]
  · have hrealm : realmName target = [] := by rw [realmName, hnone]; rfl
    unfold takeRealmCensus verdict grant
    rw [h, hnone]
    dsimp only
    rw [hrealm, if_neg (fun h => h rfl)]

/-- A resource that is not dormant and claims the realm of a digest. -/
structure Active (sha256 : Text → Digest) (cache : Cache) (d : Digest) (kind : Kind) (r : Resource) :
    Prop where
  mem : r ∈ cache.resources kind
  active : r.dormant = false
  claims : digest sha256 r.ns r.target = .ok d

/-- A claimant that counts nowhere: it is dormant, or its PtahRealm does not admit it. -/
def Inert (realms : Text → Option PtahRealm) (r : Resource) : Prop :=
  r.dormant = true ∨ ∃ name, r.target.realmRef = some name ∧
    ∀ realm, realms name = some realm → realmAdmits realm r.ns r.target.engine = false

theorem not_inert (hactive : r.dormant = false)
    (hgrant : grant cache r.ns r.target ≠ none) : ¬Inert cache.realms r := by
  rintro (hdormant | ⟨name, hname, hrefused⟩)
  · exact absurd (hactive.symm.trans hdormant) (by decide)
  refine hgrant ?_
  unfold grant
  rw [hname]
  dsimp only
  cases hrealm : cache.realms name with
  | none => rfl
  | some realm =>
    dsimp only
    rw [hrefused realm hrealm]
    rfl

theorem realmAdmits_iff {realm : PtahRealm} {engine : Text} {family : Engine}
    (h : canonicalDatabaseEngine engine = .ok family) :
    realmAdmits realm ns engine = true ↔
      ns ∈ realm.namespaces ∧ canonicalDatabaseEngine realm.engine = .ok family := by
  unfold realmAdmits
  rw [h]
  by_cases hns : ns ∈ realm.namespaces
  · cases hengine : canonicalDatabaseEngine realm.engine with
    | error reason => simp [hns]
    | ok family' => simpa [hns] using eq_comm
  · simp [hns]

omit [DecidableEq Digest] in
/-- Of the claimants of one digest, the ones in a granted namespace are those with the same grant. -/
theorem grant_iff (hsha : Function.Injective sha256) {ns' : Text} {target' : Target}
    (h : digest sha256 ns target = .ok d) (h' : digest sha256 ns' target' = .ok d)
    (hgrant : grant cache ns target = some (granted, exclusive)) :
    (ns' ∈ granted ↔ grant cache ns' target' ≠ none) ∧
      (grant cache ns' target' ≠ none → grant cache ns' target' = some (granted, exclusive)) := by
  obtain ⟨hengines, hrealms, hkeyed⟩ := digest_identity hsha h h'
  obtain ⟨family, hfamily, -⟩ := digest_ok h
  have hfamily' := hengines.symm.trans hfamily
  unfold grant at hgrant ⊢
  rw [← hrealms]
  cases hname : target.realmRef with
  | none =>
    rw [hname] at hgrant
    cases hgrant
    rw [hkeyed hname]
    exact ⟨⟨fun _ => Option.some_ne_none _, fun _ => List.mem_singleton_self _⟩, fun _ => rfl⟩
  | some name =>
    rw [hname] at hgrant
    dsimp only at hgrant ⊢
    cases hrealm : cache.realms name with
    | none => rw [hrealm] at hgrant; cases hgrant
    | some realm =>
      rw [hrealm] at hgrant
      dsimp only at hgrant ⊢
      split at hgrant
      · rename_i hadmits
        cases hgrant
        have hrealmEngine := ((realmAdmits_iff hfamily).1 hadmits).2
        cases hadmits' : realmAdmits realm ns' target'.engine with
        | true => simpa using ((realmAdmits_iff hfamily').1 hadmits').1
        | false =>
          have hout : ns' ∉ realm.namespaces := fun hin => by
            rw [(realmAdmits_iff hfamily').2 ⟨hin, hrealmEngine⟩] at hadmits'
            cases hadmits'
          simpa using hout
      · cases hgrant

omit [DecidableEq Digest] in
theorem grant_wellFormed (h : digest sha256 ns target = .ok d)
    (hgrant : grant cache ns target = some (granted, exclusive)) :
    [] ∉ granted ∧ granted.Nodup := by
  unfold grant at hgrant
  obtain ⟨engine, -, ⟨name, hname, -⟩ | ⟨hnone, hvalid, -⟩⟩ := digest_ok h
  · rw [hname] at hgrant
    dsimp only at hgrant
    cases hrealm : cache.realms name with
    | none => rw [hrealm] at hgrant; cases hgrant
    | some realm =>
      rw [hrealm] at hgrant
      dsimp only at hgrant
      split at hgrant
      · cases hgrant
        exact ⟨realm.named, realm.nodup⟩
      · cases hgrant
  · rw [hnone] at hgrant
    cases hgrant
    refine ⟨fun hm => ?_, List.nodup_singleton _⟩
    cases List.mem_singleton.1 hm
    exact absurd hvalid.1 (by decide)

/-- The census of a granted claim counts the active claimants of its realm that have a grant. -/
theorem mem_members_grant (hsha : Function.Injective sha256) (h : digest sha256 ns target = .ok d)
    (hgrant : grant cache ns target = some (granted, exclusive)) :
    (kind, r) ∈ members sha256 cache granted d ↔
      Active sha256 cache d kind r ∧ grant cache r.ns r.target ≠ none := by
  rw [mem_members (grant_wellFormed h hgrant).1]
  constructor
  · rintro ⟨hmem, hns, hactive, hclaims⟩
    exact ⟨⟨hmem, hactive, hclaims⟩, (grant_iff hsha h hclaims hgrant).1.1 hns⟩
  · rintro ⟨hr, hgranted⟩
    exact ⟨hr.mem, (grant_iff hsha h hr.claims hgrant).1.2 hgranted, hr.active, hr.claims⟩

theorem verdict_authorized :
    (verdict sha256 cache d ns target).authorized = true ↔ grant cache ns target ≠ none := by
  unfold verdict
  cases grant cache ns target with
  | none => simp
  | some g => simp

theorem verdict_of_grant (hgrant : grant cache ns target = some (granted, exclusive)) :
    verdict sha256 cache d ns target =
      { ns := ns, realm := realmName target, exclusive, census := census sha256 cache granted d } := by
  unfold verdict
  rw [hgrant]

end Grant

/-! ## Fairness -/

section Fair

variable [Go.Unicode] {Digest : Type} [DecidableEq Digest] {sha256 : Text → Digest} {cache : Cache}
  {d : Digest}

theorem verdict_agree (hsha : Function.Injective sha256) {kind' : Kind} {r' : Resource}
    (hr : Active sha256 cache d kind r) (hr' : Active sha256 cache d kind' r')
    (hauthorized : (verdict sha256 cache d r.ns r.target).authorized = true)
    (hauthorized' : (verdict sha256 cache d r'.ns r'.target).authorized = true) :
    (verdict sha256 cache d r.ns r.target).exclusive = (verdict sha256 cache d r'.ns r'.target).exclusive ∧
      (verdict sha256 cache d r.ns r.target).census = (verdict sha256 cache d r'.ns r'.target).census ∧
      (verdict sha256 cache d r.ns r.target).conflict =
        (verdict sha256 cache d r'.ns r'.target).conflict := by
  obtain ⟨⟨granted, exclusive⟩, hgrant⟩ := Option.ne_none_iff_exists'.1 (verdict_authorized.1 hauthorized)
  have hgrant' := (grant_iff hsha hr.claims hr'.claims hgrant).2 (verdict_authorized.1 hauthorized')
  rw [verdict_of_grant hgrant, verdict_of_grant hgrant']
  exact ⟨rfl, rfl, rfl⟩

/-- Two claimants of one realm that no refusal keeps out share it by the word of every authorized
claimant and of the PtahRealm. -/
theorem shared_of_no_conflict (hsha : Function.Injective sha256) {kind' : Kind} {r' : Resource}
    (hr : Active sha256 cache d kind r) (hr' : Active sha256 cache d kind' r')
    (hne : (kind, r) ≠ (kind', r'))
    (hadmitted : (verdict sha256 cache d r.ns r.target).refusal = none)
    (hadmitted' : (verdict sha256 cache d r'.ns r'.target).refusal = none) :
    (∀ kind'' r'', Active sha256 cache d kind'' r'' →
        (verdict sha256 cache d r''.ns r''.target).authorized = true → r''.target.sharedRealm = true) ∧
      ∀ name realm, r.target.realmRef = some name → cache.realms name = some realm →
        realm.sharing = .shared := by
  obtain ⟨hauthorized, hquiet⟩ := refusal_none hadmitted
  have hauthorized' := (refusal_none hadmitted').1
  obtain ⟨⟨granted, exclusive⟩, hgrant⟩ := Option.ne_none_iff_exists'.1 (verdict_authorized.1 hauthorized)
  have hmem {kind' : Kind} {r' : Resource} hr'
      (hauthorized' : (verdict sha256 cache d r'.ns r'.target).authorized = true) :
      (kind', r') ∈ members sha256 cache granted d :=
    (mem_members_grant hsha hr.claims hgrant).2 ⟨hr', verdict_authorized.1 hauthorized'⟩
  have htwo : 1 < (census sha256 cache granted d).total := by
    rw [census_total]
    have hnodup : [(kind, r), (kind', r')].Nodup := by simpa using hne
    exact (hnodup.subperm (List.cons_subset.2 ⟨hmem hr hauthorized,
      List.cons_subset.2 ⟨hmem hr' hauthorized', List.nil_subset _⟩⟩)).length_le
  rw [verdict_of_grant hgrant] at hquiet
  simp only [RealmVerdict.conflict, htwo, decide_true, Bool.true_and, Bool.or_eq_false_iff,
    decide_eq_false_iff_not] at hquiet
  obtain ⟨hshared, hdeclared⟩ := hquiet
  constructor
  · intro kind'' r'' hr'' hauthorized''
    by_contra hundeclared
    exact hdeclared (census_undeclared_pos.2
      ⟨_, hmem hr'' hauthorized'', Bool.eq_false_iff.2 hundeclared⟩)
  intro name realm hname hrealm
  unfold grant at hgrant
  rw [hname] at hgrant
  dsimp only at hgrant
  rw [hrealm] at hgrant
  dsimp only at hgrant
  split at hgrant
  · cases hgrant
    simpa using hshared
  · cases hgrant

theorem no_conflict_of_alone (hsha : Function.Injective sha256) (hr : Active sha256 cache d kind r)
    (halone : ∀ kind' r', Active sha256 cache d kind' r' →
      (verdict sha256 cache d r'.ns r'.target).authorized = true → (kind', r') = (kind, r)) :
    (verdict sha256 cache d r.ns r.target).conflict = false := by
  cases hgrant : grant cache r.ns r.target with
  | none => simp [verdict, hgrant, RealmVerdict.conflict]
  | some g =>
    obtain ⟨granted, exclusive⟩ := g
    have hone : (census sha256 cache granted d).total ≤ 1 := by
      obtain ⟨hnamed, hset⟩ := grant_wellFormed hr.claims hgrant
      rw [census_total]
      have hsub : members sha256 cache granted d ⊆ [(kind, r)] := by
        rintro ⟨kind', r'⟩ hm
        obtain ⟨hr', hgranted⟩ := (mem_members_grant hsha hr.claims hgrant).1 hm
        exact List.mem_singleton.2 (halone kind' r' hr' (verdict_authorized.2 hgranted))
      exact ((nodup_members hnamed hset).subperm hsub).length_le
    rw [verdict_of_grant hgrant]
    simp [RealmVerdict.conflict, Nat.not_lt.2 hone]

/-- Two caches that differ in inert resources only give every asker the same verdict. -/
theorem takeRealmCensus_congr {cache' : Cache} (hsha : Function.Injective sha256)
    (hrealms : cache'.realms = cache.realms)
    (hsame : ∀ kind r, ¬Inert cache.realms r → (r ∈ cache'.resources kind ↔ r ∈ cache.resources kind))
    (ns : Text) (target : Target) :
    takeRealmCensus sha256 cache' ns target = takeRealmCensus sha256 cache ns target := by
  cases h : digest sha256 ns target with
  | error reason => simp only [takeRealmCensus, h]
  | ok d =>
    have hgrants ns target : grant cache' ns target = grant cache ns target := by
      unfold grant
      rw [hrealms]
    rw [takeRealmCensus_eq h, takeRealmCensus_eq h]
    cases hgrant : grant cache ns target with
    | none =>
      unfold verdict
      rw [hgrants, hgrant]
    | some g =>
      obtain ⟨granted, exclusive⟩ := g
      have hgrant' := (hgrants ns target).trans hgrant
      rw [verdict_of_grant hgrant, verdict_of_grant hgrant']
      obtain ⟨hnamed, hset⟩ := grant_wellFormed h hgrant
      have hperm : (members sha256 cache' granted d).Perm (members sha256 cache granted d) := by
        refine (List.perm_ext_iff_of_nodup (nodup_members hnamed hset) (nodup_members hnamed hset)).2 ?_
        rintro ⟨kind, r⟩
        rw [mem_members_grant hsha h hgrant', mem_members_grant hsha h hgrant, hgrants]
        refine and_congr_left fun hgranted => ?_
        constructor
        · intro hr
          exact ⟨(hsame kind r (not_inert hr.active hgranted)).1 hr.mem, hr.active, hr.claims⟩
        · intro hr
          exact ⟨(hsame kind r (not_inert hr.active hgranted)).2 hr.mem, hr.active, hr.claims⟩
      rw [census_eq, census_eq, hperm.foldl_eq]

/-- **The census is fair.** Every active claimant gets a verdict. Authorized claimants of one realm get
the same one; two of them are admitted only if all of them, and their PtahRealm, share the realm; what
is inert is counted for nobody; and a claimant that is alone is in no conflict. -/
theorem realm_census_fair (hsha : Function.Injective sha256) (cache : Cache) :
    (∀ d kind r, Active sha256 cache d kind r → ∃ v, takeRealmCensus sha256 cache r.ns r.target = .ok v) ∧
    (∀ d kind r kind' r' v v', Active sha256 cache d kind r → Active sha256 cache d kind' r' →
      takeRealmCensus sha256 cache r.ns r.target = .ok v →
      takeRealmCensus sha256 cache r'.ns r'.target = .ok v' →
      v.authorized = true → v'.authorized = true →
      v.exclusive = v'.exclusive ∧ v.census = v'.census ∧ v.conflict = v'.conflict) ∧
    (∀ d kind r kind' r' v v', Active sha256 cache d kind r → Active sha256 cache d kind' r' →
      (kind, r) ≠ (kind', r') →
      takeRealmCensus sha256 cache r.ns r.target = .ok v →
      takeRealmCensus sha256 cache r'.ns r'.target = .ok v' →
      v.refusal = none → v'.refusal = none →
      (∀ kind'' r'' v'', Active sha256 cache d kind'' r'' →
        takeRealmCensus sha256 cache r''.ns r''.target = .ok v'' → v''.authorized = true →
        r''.target.sharedRealm = true) ∧
      ∀ name realm, r.target.realmRef = some name → cache.realms name = some realm →
        realm.sharing = .shared) ∧
    (∀ cache' : Cache, cache'.realms = cache.realms →
      (∀ kind r, ¬Inert cache.realms r → (r ∈ cache'.resources kind ↔ r ∈ cache.resources kind)) →
      ∀ ns target, takeRealmCensus sha256 cache' ns target = takeRealmCensus sha256 cache ns target) ∧
    ∀ d kind r v, Active sha256 cache d kind r → takeRealmCensus sha256 cache r.ns r.target = .ok v →
      (∀ kind' r' v', Active sha256 cache d kind' r' →
        takeRealmCensus sha256 cache r'.ns r'.target = .ok v' → v'.authorized = true →
        (kind', r') = (kind, r)) →
      v.conflict = false := by
  have hverdict {d : Digest} {kind : Kind} {r : Resource} {v : RealmVerdict}
      (hr : Active sha256 cache d kind r) (hv : takeRealmCensus sha256 cache r.ns r.target = .ok v) :
      v = verdict sha256 cache d r.ns r.target :=
    Except.ok.inj (hv.symm.trans (takeRealmCensus_eq hr.claims))
  refine ⟨?_, ?_, ?_, ?_, ?_⟩
  · intro d kind r hr
    exact ⟨_, takeRealmCensus_eq hr.claims⟩
  · intro d kind r kind' r' v v' hr hr' hv hv' hauthorized hauthorized'
    cases hverdict hr hv
    cases hverdict hr' hv'
    exact verdict_agree hsha hr hr' hauthorized hauthorized'
  · intro d kind r kind' r' v v' hr hr' hne hv hv' hadmitted hadmitted'
    cases hverdict hr hv
    cases hverdict hr' hv'
    obtain ⟨hdeclared, hrealm⟩ := shared_of_no_conflict hsha hr hr' hne hadmitted hadmitted'
    refine ⟨fun kind'' r'' v'' hr'' hv'' hauthorized'' => ?_, hrealm⟩
    cases hverdict hr'' hv''
    exact hdeclared kind'' r'' hr'' hauthorized''
  · intro cache' hrealms hsame ns target
    exact takeRealmCensus_congr hsha hrealms hsame ns target
  · intro d kind r v hr hv halone
    cases hverdict hr hv
    exact no_conflict_of_alone hsha hr fun kind' r' hr' hauthorized' =>
      halone kind' r' _ hr' (takeRealmCensus_eq hr'.claims) hauthorized'

end Fair

def sampleRealm (sharing : Sharing) : PtahRealm where
  engine := "PostgreSQL".toList
  namespaces := ["blue".toList, "red".toList]
  sharing
  nodup := by decide
  named := by decide

def sampleTarget (engine : String) : Target where
  engine := engine.toList
  realmRef := some "orders".toList
  sharedRealm := true

def sampleResource (ns engine : String) : Resource where
  ns := ns.toList
  name := "app".toList
  target := sampleTarget engine

/-- A schema and a migration in two namespaces that claim the realm, and one from outside, of which the cache
holds some. -/
def sampleCache (sharing : Sharing) (held : Resource → Bool) : Cache where
  resources
    | .schema => [sampleResource "blue" "postgres", sampleResource "green" "pgx"].filter held
    | .migration => [sampleResource "red" "postgresql"].filter held
  realms name := if name = "orders".toList then some (sampleRealm sharing) else none
  keyed kind := by
    cases kind <;> exact List.Nodup.sublist (List.filter_sublist.map _) (by decide)

/-- The two admitted claimants count each other, their PtahRealm is shared, the one from outside counts for
nobody, and a claimant that is alone in an exclusive realm is in no conflict. -/
theorem realm_census_fair_sample :
    letI := Go.asciiTables
    ∃ v v' alone, takeRealmCensus (id : Text → Text) (sampleCache .shared fun _ => true) "blue".toList
        (sampleTarget "postgres") = .ok v ∧
      takeRealmCensus (id : Text → Text) (sampleCache .shared fun _ => true) "red".toList
        (sampleTarget "postgresql") = .ok v' ∧
      takeRealmCensus (id : Text → Text) (sampleCache .exclusive (·.ns = "blue".toList)) "blue".toList
        (sampleTarget "postgres") = .ok alone ∧
      v.refusal = none ∧ v'.refusal = none ∧ v.census = v'.census ∧
      (∀ realm, (sampleCache .shared fun _ => true).realms "orders".toList = some realm →
        realm.sharing = .shared) ∧
      (∀ ns target, takeRealmCensus (id : Text → Text) (sampleCache .shared (·.ns ≠ "green".toList)) ns target =
        takeRealmCensus id (sampleCache .shared fun _ => true) ns target) ∧
      alone.conflict = false := by
  let _ := Go.asciiTables
  have hfair := realm_census_fair (fun _ _ h => h : Function.Injective (id : Text → Text))
  have hblue {sharing : Sharing} {held : Resource → Bool} (hheld : held (sampleResource "blue" "postgres") = true) :
      Active id (sampleCache sharing held) _ .schema (sampleResource "blue" "postgres") :=
    ⟨List.mem_filter.2 ⟨.head _, hheld⟩, rfl, rfl⟩
  have hred : Active id (sampleCache .shared fun _ => true) _ .migration (sampleResource "red" "postgresql") :=
    ⟨.head _, rfl, rfl⟩
  obtain ⟨hanswers, hagree, hshared, -, -⟩ := hfair (sampleCache .shared fun _ => true)
  obtain ⟨v, hv⟩ := hanswers _ _ _ (hblue rfl)
  obtain ⟨v', hv'⟩ := hanswers _ _ _ hred
  obtain ⟨alone, halone⟩ := (hfair (sampleCache .exclusive (·.ns = "blue".toList))).1 _ _ _ (hblue rfl)
  have hadmitted : v.refusal = none ∧ v.authorized = true := by
    cases hv
    decide +kernel
  have hadmitted' : v'.refusal = none ∧ v'.authorized = true := by
    cases hv'
    decide +kernel
  refine ⟨v, v', alone, hv, hv', halone, hadmitted.1, hadmitted'.1,
    (hagree _ _ _ _ _ v v' (hblue rfl) hred hv hv' hadmitted.2 hadmitted'.2).2.1,
    fun realm => (hshared _ _ _ _ _ v v' (hblue rfl) hred (by decide) hv hv' hadmitted.1 hadmitted'.1).2 _ realm rfl,
    ?_, ?_⟩
  · refine (hfair (sampleCache .shared fun _ => true)).2.2.2.1 (sampleCache .shared (·.ns ≠ "green".toList)) rfl ?_
    intro kind r hactive
    have hgreen : r ≠ sampleResource "green" "pgx" := by
      rintro rfl
      refine hactive (.inr ⟨_, rfl, fun realm hrealm => ?_⟩)
      cases hrealm
      decide +kernel
    have hheld : ∀ kind, ∀ r ∈ (sampleCache .shared fun _ => true).resources kind,
        r ≠ sampleResource "green" "pgx" → decide (r.ns ≠ "green".toList) = true := by
      intro kind
      cases kind <;> decide
    cases kind <;> exact ⟨fun h => List.mem_filter.2 ⟨(List.mem_filter.1 h).1, rfl⟩,
      fun h => List.mem_filter.2 ⟨(List.mem_filter.1 h).1, hheld _ r h hgreen⟩⟩
  · refine (hfair (sampleCache .exclusive (·.ns = "blue".toList))).2.2.2.2 _ _ _ _ (hblue rfl) halone ?_
    rintro kind r - ⟨hmem, -, -⟩ - -
    revert r
    cases kind <;> decide

end Ptah.Realm
