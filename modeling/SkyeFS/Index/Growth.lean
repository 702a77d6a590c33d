import SkyeFS.Index.Capacity
import Mathlib.Data.Nat.ModEq
import Mathlib.Data.Finset.Card
import Mathlib.Data.Set.Function

/-! What splits make of a new table.

Partitions are split in any order and any number of times. The children of a
partition come in order, so its next child tells how many digits of the hash its
names share. Splits that pass the check end with the same number of partitions on
every server.
-/

set_option autoImplicit false

namespace SkyeFS.Index

open Foundation Foundation.SuffixTree

def splitTable (mapping : GigaMapping) (index : Nat) : Option GigaMapping :=
  (gigaIndexForSplitting mapping index).map (gigaUpdateMapping mapping)

/-- The child of the split is within the radix that the hash is cut to. -/
def SplitsBelow (mapping : GigaMapping) (index : Nat) : Prop :=
  ∀ child ∈ gigaIndexForSplitting mapping index, child < 2 ^ (maxRadix - 1)

instance (mapping : GigaMapping) (index : Nat) : Decidable (SplitsBelow mapping index) :=
  inferInstanceAs (Decidable (∀ child ∈ gigaIndexForSplitting mapping index, child < 2 ^ (maxRadix - 1)))

/-- What every sequence of splits keeps. -/
structure GigaMapping.Tree (mapping : GigaMapping) : Prop where
  valid : mapping.Valid
  small : mapping.Small
  grown : Grown mapping.partitions

theorem tree_init (zerothServer serverCount : UInt32) : (gigaInitMapping zerothServer serverCount).Tree where
  valid := valid_init zerothServer serverCount
  small := small_init zerothServer serverCount
  grown := by
    rw [partitions_init]
    exact grown_root

theorem GigaMapping.Tree.update {mapping : GigaMapping} (tree : mapping.Tree) {index child : Nat}
    (split : gigaIndexForSplitting mapping index = some child) (bounded : child < 2 ^ (maxRadix - 1)) :
    (gigaUpdateMapping mapping child).Tree where
  valid := tree.valid.update (gigaIndexForSplitting_lt split)
  small := tree.small.update bounded
  grown := by
    rw [partitions_update mapping (gigaIndexForSplitting_lt split)]
    obtain ⟨present, -, radix, low, -, rfl, taken⟩ := gigaIndexForSplitting_some split
    exact tree.grown.insert present low taken

theorem tree_of_reaches {zerothServer serverCount : UInt32} {mapping : GigaMapping}
    (reached : Reaches splitTable SplitsBelow (gigaInitMapping zerothServer serverCount) mapping) : mapping.Tree := by
  apply reached.invariant (tree_init zerothServer serverCount)
  intro before index after tree below stepped
  obtain ⟨child, split, rfl⟩ := Option.map_eq_some_iff.mp stepped
  exact tree.update split (below child split)

/-- Every partition of a split table has its parent, its children up to the next one, and exactly the names whose hash
ends in it with the digits that the next child adds to. -/
theorem local_depth {Name : Type} (shahash : Name → Digest) {zerothServer serverCount : UInt32} {mapping : GigaMapping}
    (reached : Reaches splitTable SplitsBelow (gigaInitMapping zerothServer serverCount) mapping) :
    (∀ index ∈ mapping.partitions, index ≠ 0 → getParentIndex index ∈ mapping.partitions) ∧
    ∀ index ∈ mapping.partitions, ∃ radix, gigaIndexForSplitting mapping index = some (index + 2 ^ radix) ∧
      (∀ child, (child ∈ mapping.partitions ∧ child ≠ 0 ∧ getParentIndex child = index) ↔
        ∃ bits, getRadixFromIndex index ≤ bits ∧ bits < radix ∧ child = index + 2 ^ bits) ∧
      ∀ filename, gigaGetIndexForFile shahash mapping filename = some index ↔
        hashNumber shahash filename % 2 ^ radix = index := by
  have tree := tree_of_reaches reached
  constructor
  · intro index member positive
    rw [getParentIndex_eq]
    exact tree.grown.closed index member positive
  · intro index member
    obtain ⟨child, split⟩ := Option.isSome_iff_exists.mp (tree.small.splits member)
    obtain ⟨-, free, radix, low, -, rfl, taken⟩ := gigaIndexForSplitting_some split
    refine ⟨radix, split, fun child => ?_, fun filename => ?_⟩
    · rw [getParentIndex_eq, getRadixFromIndex_eq]
      exact tree.grown.child_iff member low taken free
    · rw [gigaGetIndexForFile_eq_some shahash tree.valid, tree.grown.deepest_iff member low taken free]
      exact and_iff_right tree.small

/-- Partition 0 is split twice and partition 1 once. -/
theorem local_depth_uneven : ∃ mapping, execute splitTable (gigaInitMapping 0 2) [0, 0, 1] = some mapping ∧
    ∀ index ∈ mapping.partitions, index ≠ 0 → getParentIndex index ∈ mapping.partitions := by
  have runs : (execute splitTable (gigaInitMapping 0 2) [0, 0, 1]).isSome := by decide +kernel
  obtain ⟨mapping, executed⟩ := Option.isSome_iff_exists.mp runs
  have below : Meets splitTable SplitsBelow (gigaInitMapping 0 2) [0, 0, 1] := by decide +kernel
  exact ⟨mapping, executed,
    (local_depth (fun _ : Unit => Vector.replicate 20 0#8) (Reaches.of_execute executed below)).1⟩

/-! ### Splits that pass the check -/

theorem le_of_not_splittable {mapping : GigaMapping} {index : Nat} (positive : mapping.serverCount.toNat < 2 ^ 31)
    (full : gigaIsSplittable mapping index = some false) :
    ∃ child, gigaIndexForSplitting mapping index = some child ∧
      maxBktsPerServer * mapping.serverCount.toNat ≤ child := by
  unfold gigaIsSplittable at full
  cases split : gigaIndexForSplitting mapping index with
  | none => simp [split] at full
  | some child =>
    refine ⟨child, rfl, ?_⟩
    rw [split, toInt32_eq positive] at full
    simp only [Option.pure_def, Option.bind_eq_bind, Option.bind_some, Option.map_some, Option.some.injEq,
      decide_eq_false_iff_not, not_lt] at full
    exact_mod_cast full

theorem mem_of_full {mapping : GigaMapping} (root : 0 ∈ mapping.partitions)
    (positive : mapping.serverCount.toNat < 2 ^ 31)
    (full : ∀ index ∈ mapping.partitions, gigaIsSplittable mapping index = some false) {index : Nat}
    (below : index < maxBktsPerServer * mapping.serverCount.toNat) : index ∈ mapping.partitions := by
  -- When no partition may be split, no index below the bound is missing: the parent of the first missing one would
  -- have a free child there.
  induction index using Nat.strongRecOn with
  | ind index ih =>
    by_cases zero : index = 0
    · rw [zero]
      exact root
    · have less := parent_lt zero
      have present := ih (parent index) less (less.trans below)
      obtain ⟨child, split, behind⟩ := le_of_not_splittable positive (full _ present)
      obtain ⟨-, -, radix, -, -, rfl, taken⟩ := gigaIndexForSplitting_some split
      obtain ⟨bits, above, same⟩ := exists_radix zero
      have earlier : bits < radix := by
        by_contra late
        have power : 2 ^ radix ≤ 2 ^ bits := Nat.pow_le_pow_right (by decide) (Nat.le_of_not_lt late)
        omega
      rw [same]
      exact taken bits above earlier

section
variable {mapping : GigaMapping} {index : Nat}

theorem gigaGetServerForIndex_eq (small : index + mapping.zerothServer.toNat < 2 ^ 32) :
    gigaGetServerForIndex mapping index = (index + mapping.zerothServer.toNat) % mapping.serverCount.toNat := by
  have bound : index < 2 ^ 32 := by omega
  rw [gigaGetServerForIndex, UInt32.toNat_mod, UInt32.toNat_add, UInt32.toNat_ofNat', Nat.mod_eq_of_lt bound,
    Nat.mod_eq_of_lt small]

theorem gigaGetBucketNumForServer_eq (small : index < 2 ^ 32) :
    gigaGetBucketNumForServer mapping index = index / mapping.serverCount.toNat := by
  rw [gigaGetBucketNumForServer, UInt32.toNat_div, UInt32.toNat_ofNat', Nat.mod_eq_of_lt small]

end

/-- Indices that are dealt out to servers in turn, from any first server on, fill the slots of each server. -/
theorem bijOn_slots {count zeroth server slots : Nat} (placed : zeroth < count) (inside : server < count) :
    Set.BijOn (· / count) {index | index < slots * count ∧ (index + zeroth) % count = server} {slot | slot < slots} := by
  have positive : 0 < count := by omega
  refine ⟨?_, ?_, ?_⟩
  · rintro index ⟨below, -⟩
    exact (Nat.div_lt_iff_lt_mul positive).mpr below
  · rintro first ⟨-, one⟩ second ⟨-, two⟩ (same : first / count = second / count)
    have congruent : Nat.ModEq count first second := Nat.ModEq.add_right_cancel' zeroth (one.trans two.symm)
    rw [← Nat.div_add_mod first count, ← Nat.div_add_mod second count, same, congruent]
  · intro slot below
    have rest : (server + (count - zeroth)) % count < count := Nat.mod_lt _ positive
    refine ⟨slot * count + (server + (count - zeroth)) % count, ⟨?_, ?_⟩, ?_⟩
    · calc slot * count + (server + (count - zeroth)) % count < slot * count + count := by omega
        _ = (slot + 1) * count := (Nat.succ_mul slot count).symm
        _ ≤ slots * count := Nat.mul_le_mul_right count below
    · have turned : server + (count - zeroth) + zeroth = server + count := by omega
      rw [Nat.add_assoc, Nat.mul_add_mod_self_right, Nat.mod_add_mod, turned, Nat.add_mod_right, Nat.mod_eq_of_lt inside]
    · change (slot * count + (server + (count - zeroth)) % count) / count = slot
      rw [Nat.mul_comm, Nat.mul_add_div positive, Nat.div_eq_of_lt rest, Nat.add_zero]

theorem zerothServer_of_reaches {start mapping : GigaMapping}
    (reached : Reaches guardedSplit (fun _ _ => True) start mapping) : mapping.zerothServer = start.zerothServer := by
  induction reached with
  | here => rfl
  | next _ _ stepped same =>
    unfold guardedSplit at stepped
    split at stepped
    · obtain ⟨child, -, rfl⟩ := Option.map_eq_some_iff.mp stepped
      exact same
    · cases stepped

theorem bijOn_bucketNum {mapping : GigaMapping} {server : Nat}
    (partitions : mapping.partitions = Finset.range (maxBktsPerServer * mapping.serverCount.toNat))
    (few : mapping.serverCount.toNat ≤ 256) (placed : mapping.zerothServer.toNat < mapping.serverCount.toNat)
    (inside : server < mapping.serverCount.toNat) :
    Set.BijOn (gigaGetBucketNumForServer mapping)
      {index | index ∈ mapping.partitions ∧ gigaGetServerForIndex mapping index = server}
      {slot | slot < maxBktsPerServer} := by
  have below : maxBktsPerServer * mapping.serverCount.toNat ≤ 512 := Nat.mul_le_mul_left 2 few
  have dealt : {index | index ∈ mapping.partitions ∧ gigaGetServerForIndex mapping index = server} =
      {index | index < maxBktsPerServer * mapping.serverCount.toNat ∧
        (index + mapping.zerothServer.toNat) % mapping.serverCount.toNat = server} := by
    ext index
    simp only [Set.mem_ofPred_eq, partitions, Finset.mem_range]
    refine and_congr_right fun less => ?_
    rw [gigaGetServerForIndex_eq (by omega)]
  rw [dealt]
  refine (bijOn_slots placed inside).congr fun index member => ?_
  have less : index < maxBktsPerServer * mapping.serverCount.toNat := member.1
  rw [gigaGetBucketNumForServer_eq (by omega)]

theorem card_of_bijOn {indices : Finset Nat} {slot : Nat → Nat} {count : Nat}
    (slots : Set.BijOn slot indices {number | number < count}) : indices.card = count := by
  have cards : indices.card = (Finset.range count).card := by
    apply Finset.card_nbij slot
    · rw [Finset.coe_range]
      exact slots.mapsTo
    · exact slots.injOn
    · rw [Finset.coe_range]
      exact slots.surjOn
  rw [cards, Finset.card_range]

/-- Guarded splits that have come to an end have made every index below the bound, and every server has the same
number of them, one for each of its slots. -/
theorem guarded_splits_balance {zerothServer serverCount : UInt32} (counted : 0 < serverCount)
    (fits : maxBktsPerServer * serverCount.toNat ≤ 2 ^ (maxRadix - 1)) (placed : zerothServer < serverCount)
    {mapping : GigaMapping}
    (reached : Reaches guardedSplit (fun _ _ => True) (gigaInitMapping zerothServer serverCount) mapping)
    (full : ∀ index ∈ mapping.partitions, gigaIsSplittable mapping index = some false) :
    mapping.partitions = Finset.range (maxBktsPerServer * serverCount.toNat) ∧
    ∀ server < serverCount.toNat,
      (mapping.partitions.filter (gigaGetServerForIndex mapping · = server)).card = maxBktsPerServer ∧
      Set.BijOn (gigaGetBucketNumForServer mapping)
        {index | index ∈ mapping.partitions ∧ gigaGetServerForIndex mapping index = server}
        {slot | slot < maxBktsPerServer} := by
  have guarded := guarded_of_reaches reached
  have count : mapping.serverCount = serverCount := by
    rw [guarded.count, serverCount_init, if_pos counted]
  have zeroth : mapping.zerothServer = zerothServer := zerothServer_of_reaches reached
  rw [← count] at fits ⊢
  rw [← count, ← zeroth] at placed
  have few : mapping.serverCount.toNat ≤ 256 := Nat.le_of_mul_le_mul_left fits (by decide)
  have partitions : mapping.partitions = Finset.range (maxBktsPerServer * mapping.serverCount.toNat) := by
    ext index
    rw [Finset.mem_range]
    constructor
    · intro member
      have bound := guarded.below index member
      rwa [← guarded.count] at bound
    · intro less
      exact mem_of_full guarded.valid.root (by omega) full less
  refine ⟨partitions, fun server inside => ?_⟩
  have slots := bijOn_bucketNum partitions few placed inside
  have here : ((mapping.partitions.filter (gigaGetServerForIndex mapping · = server) : Finset Nat) : Set Nat) =
      {index | index ∈ mapping.partitions ∧ gigaGetServerForIndex mapping index = server} := Finset.coe_filter _ _
  exact ⟨card_of_bijOn (here ▸ slots), slots⟩

/-- Three servers, the first partition on server 1. -/
theorem guarded_splits_balance_three : ∃ mapping,
    execute guardedSplit (gigaInitMapping 1 3) [0, 0, 1, 0, 1] = some mapping ∧ mapping.partitions = Finset.range 6 := by
  have runs : (execute guardedSplit (gigaInitMapping 1 3) [0, 0, 1, 0, 1]).map (fun mapping =>
      (getHighestIndex mapping.bitmap, decide (∀ index ∈ List.range 6, gigaIsSplittable mapping index = some false))) =
        some (some 5, true) := by decide +kernel
  obtain ⟨mapping, executed, observed⟩ := Option.map_eq_some_iff.mp runs
  obtain ⟨highest, full⟩ := Prod.mk.inj observed
  have reached := reaches_of_execute executed
  have all_full : ∀ index ∈ mapping.partitions, gigaIsSplittable mapping index = some false := fun index member =>
    of_decide_eq_true full index (List.mem_range.mpr (Nat.lt_succ_of_le (le_getHighestIndex highest member)))
  exact ⟨mapping, executed, (guarded_splits_balance (by decide) (by decide) (by decide) reached all_full).1⟩

end SkyeFS.Index
