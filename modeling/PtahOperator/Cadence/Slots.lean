import Mathlib.Algebra.Group.Int.Defs
import Mathlib.Data.List.Sort
import Mathlib.Data.String.Basic

/-!
# The cadence of refreshes

`internal/controller/cadence.go`: when the next refresh of a resource starts. The resources that share
an interval take even slots in it, in the order of their UIDs, and a refresh that starts past its slot
moves later onto it.

Instants are nanoseconds since the Unix epoch. `UnixNano` holds them in 64 bits.

* `past_resolveDeadline_*`: what one claim does to the distance from the slot.
* `cadence_kept_and_spread`: two claims bring every refresh onto its slot, and the slots are apart.
-/

namespace Ptah.Cadence

/-! ## Deadlines -/

/-- `UnixNano`, and other sums in 64 bits. -/
def wrap64 (n : Int) : Int := n.bmod (2 ^ 64)

def resolveDeadline (claimedAt interval slot : Int) : Int :=
  let next := claimedAt + interval
  if interval ≤ 0 then next
  else
    let rest := (wrap64 (wrap64 next - slot)).tmod interval
    let past := if rest < 0 then rest + interval else rest
    if past ≤ interval / 10 then next else next + min (interval - past) (interval / 2)

/-- `claimDeadline`. A resource without a slot is one that is not slotted. -/
def claimDeadline (current : Option Int) (resolve mutating : Bool) (claimedAt interval : Int)
    (slot : Option Int) : Option Int :=
  if resolve then
    match slot with
    | some slot => some (resolveDeadline claimedAt interval slot)
    | none => some (claimedAt + interval)
  else if !mutating then current.filter (claimedAt < ·)
  else none

/-! ## Slots -/

/-- A schema or a migration, by what the cadence reads of it. -/
structure Resource where
  uid : String
  /-- `spec.interval` -/
  interval : Int

def minute : Int := 60 * 10 ^ 9

/-- `interval`, with `defaultInterval`. -/
def interval (schema : Resource) : Int := if schema.interval > 0 then schema.interval else 10 * minute

/-- `migrationInterval`, with `defaultMigrationInterval`. -/
def migrationInterval (migration : Resource) : Int :=
  if migration.interval > 0 then migration.interval else 10 * minute

/-- What the manager's cache lists. -/
structure Listing where
  schemas : List Resource
  migrations : List Resource

/-- The resources that share an interval, but for those of one UID. -/
def Listing.others (listing : Listing) (uid : String) (period : Int) : List String :=
  (listing.schemas.filter fun schema => schema.uid ≠ uid ∧ interval schema = period).map Resource.uid ++
    (listing.migrations.filter fun migration =>
      migration.uid ≠ uid ∧ migrationInterval migration = period).map Resource.uid

def evenSlot (rank n : Nat) (interval : Int) : Int := interval / n * rank

/-- `refreshSlot`. The cache may fail to list. -/
def refreshSlot (listing : Option Listing) (uid : String) (period : Int) : Option Int :=
  if period ≤ 0 ∨ uid = "" then none
  else match listing with
  | none => none
  | some listing =>
    let fleet := uid :: listing.others uid period
    if fleet.length < 2 then none
    else some (evenSlot ((fleet.insertionSort (· ≤ ·)).idxOf uid) fleet.length period)

/-! ## One claim -/

section Claims

variable {t interval slot : Int}

/-- How far past its slot an instant is. -/
def past (interval slot t : Int) : Int := (t - slot) % interval

theorem past_lt (hinterval : 0 < interval) (slot t : Int) :
    0 ≤ past interval slot t ∧ past interval slot t < interval :=
  ⟨Int.emod_nonneg _ (by omega), Int.emod_lt_of_pos _ hinterval⟩

theorem past_add_interval (interval slot t : Int) :
    past interval slot (t + interval) = past interval slot t := by
  rw [past, show t + interval - slot = t - slot + interval by omega, Int.add_emod_right, past]

theorem past_add {d : Int} (h : 0 ≤ past interval slot t + d) (hlt : past interval slot t + d < interval) :
    past interval slot (t + d) = past interval slot t + d := by
  rw [past, show t + d - slot = t - slot + d by omega, ← Int.emod_add_emod]
  exact Int.emod_eq_of_lt h hlt

theorem resolveDeadline_mem (hinterval : 0 < interval) (slot t : Int) :
    t + interval ≤ resolveDeadline t interval slot ∧
      resolveDeadline t interval slot ≤ t + interval + interval / 2 := by
  simp only [resolveDeadline, if_neg (Int.not_le.2 hinterval)]
  generalize hrest : (wrap64 (wrap64 (t + interval) - slot)).tmod interval = rest
  have hlt : rest < interval := hrest ▸ Int.tmod_lt_of_pos _ hinterval
  have hhalf : 0 ≤ interval / 2 := by omega
  split_ifs <;> omega

/-- The instants that a claim reads fit into 64 bits. -/
theorem resolveDeadline_eq (hinterval : 0 < interval) (hslot : 0 ≤ slot ∧ slot < interval) (ht : 0 ≤ t)
    (hfits : t + interval < 2 ^ 63) : resolveDeadline t interval slot =
      if past interval slot t ≤ interval / 10 then t + interval
      else t + interval + min (interval - past interval slot t) (interval / 2) := by
  have hnext : wrap64 (t + interval) = t + interval := Int.bmod_eq_of_le (by omega) (by omega)
  have hrest : wrap64 (t + interval - slot) = t + interval - slot := Int.bmod_eq_of_le (by omega) (by omega)
  have hpast : (t + interval - slot).tmod interval = past interval slot t := by
    rw [Int.tmod_eq_emod_of_nonneg (by omega), ← past_add_interval, past]
  simp only [resolveDeadline, if_neg (Int.not_le.2 hinterval), hnext, hrest, hpast,
    if_neg (Int.not_lt.2 (past_lt hinterval slot t).1)]

/-- Where each claim is made at the deadline that the one before it returned. -/
def claimsAt (interval slot t : Int) : Nat → Int
  | 0 => t
  | k + 1 =>
    let claimedAt := claimsAt interval slot t k
    (claimDeadline (some claimedAt) true false claimedAt interval (some slot)).getD claimedAt

theorem claimsAt_succ (interval slot t : Int) (k : Nat) : claimsAt interval slot t (k + 1) =
    resolveDeadline (claimsAt interval slot t k) interval slot := rfl

theorem claimsAt_mono (hinterval : 0 < interval) (slot t : Int) {j k : Nat} (h : j ≤ k) :
    claimsAt interval slot t j ≤ claimsAt interval slot t k := by
  refine monotone_nat_of_le_succ (fun k => ?_) h
  have hmem := resolveDeadline_mem hinterval slot (claimsAt interval slot t k)
  rw [claimsAt_succ]
  omega

/-- An instant that keeps the plain interval: on its slot, or past it by a tenth of the interval. -/
def Settled (interval slot t : Int) : Prop := past interval slot t ≤ interval / 10

theorem Settled.next (h : Settled interval slot t) (hinterval : 0 < interval)
    (hslot : 0 ≤ slot ∧ slot < interval) (ht : 0 ≤ t) (hfits : t + interval < 2 ^ 63) :
    resolveDeadline t interval slot = t + interval ∧ Settled interval slot (t + interval) := by
  refine ⟨?_, by rwa [Settled, past_add_interval]⟩
  unfold Settled at h
  rw [resolveDeadline_eq hinterval hslot ht hfits, if_pos h]

/-- A claim in the later half of the interval moves onto the slot. -/
theorem settled_of_late (hinterval : 0 < interval) (hslot : 0 ≤ slot ∧ slot < interval) (ht : 0 ≤ t)
    (hfits : t + interval < 2 ^ 63) (hlate : interval - past interval slot t ≤ interval / 2) :
    Settled interval slot (resolveDeadline t interval slot) := by
  rw [resolveDeadline_eq hinterval hslot ht hfits]
  by_cases hsettled : past interval slot t ≤ interval / 10
  · rwa [if_pos hsettled, Settled, past_add_interval]
  rw [if_neg hsettled, min_eq_left hlate, Settled]
  -- The deadline is a multiple of the interval behind the slot.
  have hslot : t + interval + (interval - past interval slot t) - slot =
      interval * ((t - slot) / interval + 2) := by
    have hdiv := Int.emod_add_mul_ediv (t - slot) interval
    rw [← past] at hdiv
    rw [Int.mul_add]
    omega
  rw [past, hslot, Int.mul_emod_right]
  omega

/-- A claim in the earlier half moves by half an interval, and the next one finishes the move. -/
theorem settled_twice (hinterval : 0 < interval) (hslot : 0 ≤ slot ∧ slot < interval) (ht : 0 ≤ t)
    (hfits : claimsAt interval slot t 2 + interval < 2 ^ 63) :
    Settled interval slot (claimsAt interval slot t 2) := by
  have hmem := resolveDeadline_mem hinterval slot t
  have hmem' := resolveDeadline_mem hinterval slot (resolveDeadline t interval slot)
  change resolveDeadline (resolveDeadline t interval slot) interval slot + interval < 2 ^ 63 at hfits
  change Settled interval slot (resolveDeadline (resolveDeadline t interval slot) interval slot)
  by_cases hsettled : Settled interval slot t
  · obtain ⟨heq, hnext⟩ := hsettled.next hinterval hslot ht (by omega)
    rw [heq] at hmem' hfits ⊢
    obtain ⟨heq, hnext⟩ := hnext.next hinterval hslot (by omega) (by omega)
    rwa [heq]
  by_cases hlate : interval - past interval slot t ≤ interval / 2
  · have hon := settled_of_late hinterval hslot ht (by omega) hlate
    obtain ⟨heq, hnext⟩ := hon.next hinterval hslot (by omega) (by omega)
    rwa [heq]
  refine settled_of_late hinterval hslot (by omega) (by omega) ?_
  unfold Settled at hsettled
  rw [resolveDeadline_eq hinterval hslot ht (by omega), if_neg hsettled, min_eq_right (by omega)]
  have hmove : past interval slot (t + interval + interval / 2) =
      past interval slot (t + interval) + interval / 2 := by
    refine past_add ?_ ?_ <;> rw [past_add_interval] <;> omega
  rw [hmove, past_add_interval]
  omega

/-- Every claim from the third on. -/
theorem settled_claims (hinterval : 0 < interval) (hslot : 0 ≤ slot ∧ slot < interval) (ht : 0 ≤ t)
    {k : Nat} (hfits : claimsAt interval slot t (2 + k) + interval < 2 ^ 63) :
    Settled interval slot (claimsAt interval slot t (2 + k)) := by
  induction k with
  | zero => exact settled_twice hinterval hslot ht hfits
  | succ k ih =>
    rw [← Nat.add_assoc] at hfits ⊢
    have hle := claimsAt_mono hinterval slot t (Nat.le_add_right (2 + k) 1)
    have hpos : t ≤ claimsAt interval slot t (2 + k) := claimsAt_mono hinterval slot t (Nat.zero_le _)
    obtain ⟨heq, hnext⟩ := (ih (by omega)).next hinterval hslot (by omega) (by omega)
    rw [claimsAt_succ, heq]
    exact hnext

end Claims

/-! ## The slots of a fleet -/

/-- The UIDs of the resources that share an interval. -/
def Listing.members (listing : Listing) (period : Int) : List String :=
  (listing.schemas.filter fun schema => interval schema = period).map Resource.uid ++
    (listing.migrations.filter fun migration => migrationInterval migration = period).map Resource.uid

section Fleet

variable {listing : Listing} {period : Int} {uid : String}

theorem others_eq (listing : Listing) (uid : String) (period : Int) :
    listing.others uid period = (listing.members period).filter (· ≠ uid) := by
  simp only [Listing.others, Listing.members, List.filter_append, List.filter_map, List.filter_filter]
  congr <;> (funext resource; simp [Bool.decide_and])

theorem perm_members (hnodup : (listing.members period).Nodup) (hu : uid ∈ listing.members period) :
    (uid :: listing.others uid period).Perm (listing.members period) := by
  have herase : (listing.members period).erase uid = listing.others uid period := by
    rw [hnodup.erase_eq_filter, others_eq]
    simp only [ne_eq, decide_not, bne, beq_eq_decide]
  exact herase ▸ (List.perm_cons_erase hu).symm

/-- The members in the order of their UIDs. -/
def Listing.order (listing : Listing) (period : Int) : List String :=
  (listing.members period).insertionSort (· ≤ ·)

theorem perm_order (listing : Listing) (period : Int) :
    (listing.order period).Perm (listing.members period) := List.perm_insertionSort _ _

theorem strict_order (hnodup : (listing.members period).Nodup) :
    (listing.order period).Pairwise (· < ·) := by
  have hle : (listing.order period).Pairwise (· ≤ ·) := List.pairwise_insertionSort _ _
  exact hle.imp₂ (fun _ _ hle hne => lt_of_le_of_ne hle hne) ((perm_order _ _).nodup_iff.2 hnodup)

theorem refreshSlot_order (hnodup : (listing.members period).Nodup) (hnamed : "" ∉ listing.members period)
    (hmany : 2 ≤ (listing.members period).length) (hpos : 0 < period) {k : Nat}
    (hk : k < (listing.order period).length) :
    refreshSlot (some listing) (listing.order period)[k] period =
      some (evenSlot k (listing.members period).length period) := by
  have hmem : (listing.order period)[k] ∈ listing.members period :=
    (perm_order _ _).mem_iff.1 (List.getElem_mem hk)
  have hperm := perm_members hnodup hmem
  have hsort : ((listing.order period)[k] :: listing.others (listing.order period)[k] period).insertionSort
      (· ≤ ·) = listing.order period := by
    refine List.Perm.eq_of_pairwise' (List.pairwise_insertionSort _ _) (List.pairwise_insertionSort _ _) ?_
    exact (List.perm_insertionSort _ _).trans (hperm.trans (perm_order _ _).symm)
  have hrank : (listing.order period).idxOf (listing.order period)[k] = k :=
    ((perm_order _ _).nodup_iff.2 hnodup).idxOf_getElem k hk
  have hname : (listing.order period)[k] ≠ "" := fun h => hnamed (h ▸ hmem)
  simp only [refreshSlot, hperm.length_eq, hsort, hrank]
  rw [if_neg (by simp [hname]; omega), if_neg (by omega)]

theorem evenSlot_lt {i j n : Nat} (hroom : n ≤ period) (hn : 0 < n) (h : i < j) :
    evenSlot i n period < evenSlot j n period := by
  have hpart : 1 ≤ period / n := Int.le_ediv_of_mul_le (by omega) (by omega)
  exact Int.mul_lt_mul_of_pos_left (by omega) (by omega)

theorem evenSlot_mem {k n : Nat} (hroom : n ≤ period) (h : k < n) :
    0 ≤ evenSlot k n period ∧ evenSlot k n period < period := by
  have hzero : evenSlot 0 n period = 0 := Int.mul_zero _
  refine ⟨?_, lt_of_lt_of_le (evenSlot_lt hroom (by omega) h) (Int.ediv_mul_le period (by omega))⟩
  rcases Nat.eq_zero_or_pos k with rfl | hk
  · exact hzero.ge
  · exact hzero ▸ (evenSlot_lt hroom (by omega) hk).le

/-- What the slots of a fleet are. -/
structure Spread (listing : Listing) (period : Int) : Prop where
  within : ∀ u ∈ listing.members period, ∃ slot, refreshSlot (some listing) u period = some slot ∧
    0 ≤ slot ∧ slot < period
  distinct : ∀ u ∈ listing.members period, ∀ v ∈ listing.members period, u ≠ v →
    refreshSlot (some listing) u period ≠ refreshSlot (some listing) v period
  neighbours : ∀ u ∈ listing.members period, ∀ v ∈ listing.members period, u < v →
    (∀ w ∈ listing.members period, ¬ (u < w ∧ w < v)) → ∃ slot,
      refreshSlot (some listing) u period = some slot ∧
        refreshSlot (some listing) v period = some (slot + period / (listing.members period).length)

theorem spread (hnodup : (listing.members period).Nodup) (hnamed : "" ∉ listing.members period)
    (hmany : 2 ≤ (listing.members period).length) (hroom : (listing.members period).length ≤ period) :
    Spread listing period := by
  have hlen : (listing.order period).length = (listing.members period).length := (perm_order _ _).length_eq
  have hslot := @refreshSlot_order listing period hnodup hnamed hmany (by omega)
  have hrank : ∀ u ∈ listing.members period, ∃ k, ∃ hk : k < (listing.order period).length,
      (listing.order period)[k] = u := fun u hu => List.getElem_of_mem ((perm_order _ _).mem_iff.2 hu)
  have hstrict := List.pairwise_iff_getElem.1 (strict_order hnodup)
  have hmem : ∀ k (hk : k < (listing.order period).length),
      (listing.order period)[k] ∈ listing.members period := fun k hk =>
    (perm_order _ _).mem_iff.1 (List.getElem_mem hk)
  refine ⟨fun u hu => ?_, fun u hu v hv hne heq => ?_, fun u hu v hv hlt hnone => ?_⟩
  · obtain ⟨k, hk, rfl⟩ := hrank u hu
    exact ⟨_, hslot hk, evenSlot_mem hroom (hlen ▸ hk)⟩
  · obtain ⟨i, hi, rfl⟩ := hrank u hu
    obtain ⟨j, hj, rfl⟩ := hrank v hv
    rw [hslot hi, hslot hj] at heq
    have heq := Option.some.inj heq
    rcases Nat.lt_trichotomy i j with h | rfl | h
    · exact absurd heq (evenSlot_lt hroom (by omega) h).ne
    · exact hne rfl
    · exact absurd heq (evenSlot_lt hroom (by omega) h).ne'
  · obtain ⟨i, hi, rfl⟩ := hrank u hu
    obtain ⟨j, hj, rfl⟩ := hrank v hv
    -- Nothing stands between two neighbours, so their ranks follow each other.
    have hij : i < j := by
      by_contra hle
      rcases Nat.eq_or_lt_of_le (Nat.not_lt.1 hle) with rfl | h
      · exact lt_irrefl _ hlt
      · exact lt_asymm hlt (hstrict j i hj hi h)
    have hnext : j = i + 1 := by
      by_contra hfar
      have hk : i + 1 < (listing.order period).length := by omega
      exact hnone _ (hmem (i + 1) hk) ⟨hstrict i (i + 1) hi hk (by omega), hstrict (i + 1) j hk hj (by omega)⟩
    subst hnext
    refine ⟨_, hslot hi, (hslot hj).trans (congrArg some ?_)⟩
    simp only [evenSlot, Int.natCast_add, Int.natCast_one, Int.mul_add, Int.mul_one]

end Fleet

/-- Refreshes keep their cadence and spread out, as long as 64 bits hold the instants: every deadline lies
between an interval and an interval and a half behind its claim; from the second deadline on each is on its
slot, or past it by a tenth of the interval at most, and the next one is an interval later; and the slots
of a fleet are even. -/
theorem cadence_kept_and_spread {period : Int} (hperiod : 0 < period) :
    (∀ slot t, 0 ≤ slot → slot < period → 0 ≤ t → (t + period ≤ resolveDeadline t period slot ∧
        resolveDeadline t period slot ≤ t + period + period / 2) ∧
      ∀ k, 2 ≤ k → claimsAt period slot t k + period < 2 ^ 63 →
        (claimsAt period slot t k - slot) % period ≤ period / 10 ∧
          claimsAt period slot t (k + 1) = claimsAt period slot t k + period) ∧
    ∀ listing : Listing, (listing.members period).Nodup → "" ∉ listing.members period →
      2 ≤ (listing.members period).length → (listing.members period).length ≤ period →
      Spread listing period := by
  refine ⟨fun slot t hslot hlt ht => ⟨resolveDeadline_mem hperiod slot t, fun k hk hfits => ?_⟩,
    fun listing hnodup hnamed hmany hroom => spread hnodup hnamed hmany hroom⟩
  obtain ⟨k, rfl⟩ := Nat.exists_eq_add_of_le hk
  have hsettled := settled_claims hperiod ⟨hslot, hlt⟩ ht hfits
  have hpos : t ≤ claimsAt period slot t (2 + k) := claimsAt_mono hperiod slot t (Nat.zero_le _)
  exact ⟨hsettled, (hsettled.next hperiod ⟨hslot, hlt⟩ (by omega) hfits).1⟩

/-- Two schemas and a migration that refresh every minute, and a schema that does not. -/
def sampleListing : Listing where
  schemas := [⟨"c", minute⟩, ⟨"a", minute⟩, ⟨"d", 0⟩]
  migrations := [⟨"b", minute⟩]

/-- A refresh every minute that starts twenty seconds past its slot, and the slots of a fleet. -/
theorem minute_cadence : (0 < minute ∧ claimsAt minute 0 (minute / 3) 2 + minute < 2 ^ 63) ∧
    (claimsAt minute 0 (minute / 3) 2 - 0) % minute ≤ minute / 10 ∧
    claimsAt minute 0 (minute / 3) 3 = claimsAt minute 0 (minute / 3) 2 + minute ∧
    sampleListing.members minute = ["c", "a", "b"] ∧ Spread sampleListing minute := by
  have h : 0 < minute ∧ claimsAt minute 0 (minute / 3) 2 + minute < 2 ^ 63 := by decide
  obtain ⟨hcadence, hspread⟩ := cadence_kept_and_spread h.1
  obtain ⟨hslot, hnext⟩ := (hcadence 0 (minute / 3) (by decide) (by decide) (by decide)).2 2 (by decide) h.2
  exact ⟨h, hslot, hnext, by decide, hspread sampleListing (by decide) (by decide) (by decide) (by decide)⟩

/-- Behind the year 2262 the nanoseconds have wrapped around: a refresh every minute stays more than half a
minute past its slot. -/
theorem wrapped_cadence : 10 ^ 19 = claimsAt minute 0 (10 ^ 19) 0 ∧
    minute / 10 < (claimsAt minute 0 (10 ^ 19) 2 - 0) % minute ∧
    minute / 10 < (claimsAt minute 0 (10 ^ 19) 3 - 0) % minute := by
  decide

end Ptah.Cadence
