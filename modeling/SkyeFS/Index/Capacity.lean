import SkyeFS.Index.Splitting
import SkyeFS.Foundation.Transition

/-! How large a cluster the header table can serve.

The array has room for `2 ^ MAX_RADIX` indices, but the hash of a name is only cut to
radices below `MAX_RADIX`. A partition from `2 ^ (MAX_RADIX - 1)` on fits the array
and stops every lookup.
-/

set_option autoImplicit false

namespace SkyeFS.Index

open Foundation Foundation.SuffixTree

/-- The bits that the loop of `giga_index_for_splitting` reads, the one it returns last. -/
def childrenRead (bitmap : Bitmap) (index : Nat) : Nat → Nat → List Nat
  | 0, _ => []
  | fuel + 1, i =>
      let newIndex := getChildIndex index i
      newIndex :: if getBitStatus bitmap newIndex then childrenRead bitmap index fuel (i + 1) else []

def splittingReads (mapping : GigaMapping) (index : Nat) : List Nat :=
  index :: childrenRead mapping.bitmap index (maxRadix - getRadixFromIndex index) (getRadixFromIndex index)

/-- The bits that the walk of `giga_get_index_for_file` reads. -/
def ancestorsRead (bitmap : Bitmap) : Nat → Nat → List Nat
  | 0, _ => []
  | fuel + 1, index =>
      index :: if getBitStatus bitmap index then [] else ancestorsRead bitmap fuel (getParentIndex index)

/-- The elements that `get_highest_index` reads, the one it searches for a bit last. -/
def elementsRead (bitmap : Bitmap) : Nat → List Nat
  | 0 => []
  | i + 1 => i :: if bitmap.byte i != 0#8 then [] else elementsRead bitmap i

section
variable {Name : Type} (shahash : Name → Digest)

def lookupReads (mapping : GigaMapping) (filename : Name) : List Nat :=
  match (getRadixFromBmap mapping.bitmap).bind (computeIndex (gigaHashName shahash filename)) with
  | some index => ancestorsRead mapping.bitmap (index + 1) index
  | none => []

/-- No assertion fails on the table and every element that is read lies in the array. -/
structure GigaMapping.Safe (mapping : GigaMapping) : Prop where
  splits : ∀ index ∈ mapping.partitions, (gigaIndexForSplitting mapping index).isSome
  lookups : ∀ filename, (gigaGetIndexForFile shahash mapping filename).isSome
  highest : (getHighestIndex mapping.bitmap).isSome
  splitting : ∀ index ∈ mapping.partitions, ∀ bit ∈ splittingReads mapping index, bit / bitsPerMap < maxBmapLen
  walking : ∀ filename, ∀ bit ∈ lookupReads shahash mapping filename, bit / bitsPerMap < maxBmapLen
  scanning : ∀ element ∈ elementsRead mapping.bitmap maxBmapLen, element < maxBmapLen

end

/-- One split of a partition that is set and passes the check. -/
def guardedSplit (mapping : GigaMapping) (index : Nat) : Option GigaMapping :=
  if getBitStatus mapping.bitmap index ∧ gigaIsSplittable mapping index = some true then
    (gigaIndexForSplitting mapping index).map (gigaUpdateMapping mapping)
  else none

theorem mem_childrenRead {bitmap : Bitmap} {index fuel start bit : Nat}
    (read : bit ∈ childrenRead bitmap index fuel start) :
    ∃ radix, radix < start + fuel ∧ bit = index + 2 ^ radix := by
  induction fuel generalizing start with
  | zero => cases read
  | succ fuel ih =>
    rw [childrenRead, getChildIndex_eq, List.mem_cons] at read
    rcases read with rfl | later
    · exact ⟨start, by omega, rfl⟩
    · split at later
      · obtain ⟨radix, below, same⟩ := ih later
        exact ⟨radix, by omega, same⟩
      · cases later

theorem mem_ancestorsRead {bitmap : Bitmap} {fuel start bit : Nat} (read : bit ∈ ancestorsRead bitmap fuel start) :
    bit ≤ start := by
  induction fuel generalizing start with
  | zero => cases read
  | succ fuel ih =>
    rw [ancestorsRead, getParentIndex_eq, List.mem_cons] at read
    rcases read with rfl | later
    · exact le_rfl
    · split at later
      · cases later
      · by_cases zero : start = 0
        · subst zero
          exact ih later
        · exact (ih later).trans (parent_lt zero).le

theorem mem_elementsRead {bitmap : Bitmap} {bound element : Nat} (read : element ∈ elementsRead bitmap bound) :
    element < bound := by
  induction bound with
  | zero => cases read
  | succ bound ih =>
    rw [elementsRead, List.mem_cons] at read
    rcases read with rfl | later
    · exact Nat.lt_succ_self _
    · split at later
      · cases later
      · exact (ih later).trans (Nat.lt_succ_self _)

section
variable {mapping : GigaMapping}

theorem GigaMapping.Small.splits (small : mapping.Small) {index : Nat} (present : index ∈ mapping.partitions) :
    (gigaIndexForSplitting mapping index).isSome := by
  have shallow : depth index ≤ maxRadix - 1 := depth_le_iff.mpr (small index present)
  -- The child at the last radix is free, so there is a first free one.
  have last : index + 2 ^ (maxRadix - 1) ∉ mapping.partitions := by
    intro member
    have bound := small _ member
    omega
  have exists_ : ∃ radix, depth index ≤ radix ∧ index + 2 ^ radix ∉ mapping.partitions :=
    ⟨maxRadix - 1, shallow, last⟩
  obtain ⟨low, free⟩ := Nat.find_spec exists_
  have high : Nat.find exists_ ≤ maxRadix - 1 := Nat.find_min' exists_ ⟨shallow, last⟩
  have taken : ∀ earlier, depth index ≤ earlier → earlier < Nat.find exists_ →
      index + 2 ^ earlier ∈ mapping.partitions := by
    intro earlier above below
    have earlierTaken := Nat.find_min exists_ below
    rw [not_and, not_not] at earlierTaken
    exact earlierTaken above
  rw [gigaIndexForSplitting_of_free present low (by unfold maxRadix at high ⊢; omega) free taken]
  rfl

theorem GigaMapping.Small.splittingReads (small : mapping.Small) {index : Nat} (present : index ∈ mapping.partitions)
    {bit : Nat} (read : bit ∈ splittingReads mapping index) : bit / bitsPerMap < maxBmapLen := by
  apply slot_lt
  have bound := small index present
  have room : 2 * 2 ^ (maxRadix - 1) ≤ capacity := by decide
  rw [Index.splittingReads, List.mem_cons] at read
  rcases read with rfl | later
  · omega
  · obtain ⟨radix, below, rfl⟩ := mem_childrenRead later
    have shallow : depth index ≤ maxRadix - 1 := depth_le_iff.mpr bound
    rw [getRadixFromIndex_eq] at below
    have power : 2 ^ radix ≤ 2 ^ (maxRadix - 1) := Nat.pow_le_pow_right (by decide) (by omega)
    omega

variable {Name : Type} (shahash : Name → Digest)

theorem lookupReads_lt (valid : mapping.Valid) (small : mapping.Small) {filename : Name} {bit : Nat}
    (read : bit ∈ lookupReads shahash mapping filename) : bit / bitsPerMap < maxBmapLen := by
  obtain ⟨highest, member, -, radix⟩ := getRadixFromBmap_isSome valid
  have shallow : depth highest ≤ maxRadix - 1 := depth_le_iff.mpr (small highest member)
  have bounded : depth highest < maxRadix := by unfold maxRadix at shallow ⊢; omega
  simp only [lookupReads, radix, Option.bind_some, computeIndex_gigaHashName shahash filename bounded] at read
  apply slot_lt
  have cut : hashNumber shahash filename % 2 ^ depth highest < 2 ^ depth highest := Nat.mod_lt _ (Nat.two_pow_pos _)
  have power : 2 ^ depth highest ≤ 2 ^ (maxRadix - 1) := Nat.pow_le_pow_right (by decide) shallow
  have room : 2 ^ (maxRadix - 1) ≤ capacity := by decide
  have below := mem_ancestorsRead read
  omega

theorem GigaMapping.Valid.safe (valid : mapping.Valid) (small : mapping.Small) : mapping.Safe shahash where
  splits _ present := small.splits present
  lookups filename := by
    obtain ⟨index, found⟩ := gigaGetIndexForFile_isSome shahash valid small filename
    rw [found]
    rfl
  highest := by
    obtain ⟨highest, member, maximal, -⟩ := getRadixFromBmap_isSome valid
    rw [(getHighestIndex_eq_some valid.packed).mpr ⟨member, maximal⟩]
    rfl
  splitting _ present _ read := small.splittingReads present read
  walking _ _ read := lookupReads_lt shahash valid small read
  scanning _ read := mem_elementsRead read

end

/-- What guarded splits keep: a valid table whose indices stay below the bound of the check. -/
structure Guarded (start mapping : GigaMapping) : Prop where
  valid : mapping.Valid
  count : mapping.serverCount = start.serverCount
  below : ∀ index ∈ mapping.partitions, index < maxBktsPerServer * start.serverCount.toNat

theorem Guarded.step {start mapping after : GigaMapping} {index : Nat} (guarded : Guarded start mapping)
    (stepped : guardedSplit mapping index = some after) : Guarded start after := by
  unfold guardedSplit at stepped
  split at stepped
  · rename_i guard
    obtain ⟨child, found, rfl⟩ := Option.map_eq_some_iff.mp stepped
    have bounded := gigaIndexForSplitting_lt found
    have below := gigaIsSplittable_lt guard.2 found
    refine ⟨guarded.valid.update bounded, guarded.count, ?_⟩
    intro other member
    rw [partitions_update mapping bounded, Finset.mem_insert] at member
    rcases member with rfl | member
    · rwa [guarded.count] at below
    · exact guarded.below other member
  · cases stepped

theorem serverCount_init (zerothServer serverCount : UInt32) :
    (gigaInitMapping zerothServer serverCount).serverCount = if 0 < serverCount then serverCount else 1 := rfl

theorem guarded_of_reaches {zerothServer serverCount : UInt32} {mapping : GigaMapping}
    (reached : Reaches guardedSplit (fun _ _ => True) (gigaInitMapping zerothServer serverCount) mapping) :
    Guarded (gigaInitMapping zerothServer serverCount) mapping := by
  apply reached.invariant
  · refine ⟨valid_init _ _, rfl, ?_⟩
    intro index member
    rw [partitions_init, Finset.mem_singleton] at member
    subst member
    have counted : 0 < (gigaInitMapping zerothServer serverCount).serverCount.toNat := by
      rw [serverCount_init]
      split
      · assumption
      · decide
    unfold maxBktsPerServer
    omega
  · exact fun _ _ _ before _ stepped => before.step stepped

/-- Partition zero is split again and again, as often as the check allows. -/
theorem splits_of_zero {zerothServer serverCount : UInt32} {times : Nat} (shallow : times ≤ maxRadix)
    (counted : 0 < serverCount) (positive : serverCount.toNat < 2 ^ 31)
    (room : 2 ^ (times - 1) < maxBktsPerServer * serverCount.toNat) :
    ∃ mapping, Reaches guardedSplit (fun _ _ => True) (gigaInitMapping zerothServer serverCount) mapping ∧
      mapping.serverCount = serverCount ∧
      ∀ index, index ∈ mapping.partitions ↔ index = 0 ∨ ∃ radix < times, index = 2 ^ radix := by
  induction times with
  | zero =>
    refine ⟨_, .here, if_pos counted, ?_⟩
    intro index
    simp [partitions_init]
  | succ times ih =>
    have power : 2 ^ (times - 1) ≤ 2 ^ times := Nat.pow_le_pow_right (by decide) (Nat.sub_le _ _)
    obtain ⟨mapping, reached, count, partitions⟩ := ih (by omega) (power.trans_lt room)
    have found : gigaIndexForSplitting mapping 0 = some (2 ^ times) := by
      have free : 0 + 2 ^ times ∉ mapping.partitions := by
        rw [Nat.zero_add, partitions]
        rintro (zero | ⟨radix, below, same⟩)
        · exact absurd zero (Nat.two_pow_pos times).ne'
        · exact below.ne (Nat.pow_right_injective le_rfl same).symm
      have taken : ∀ earlier, depth 0 ≤ earlier → earlier < times → 0 + 2 ^ earlier ∈ mapping.partitions := by
        intro earlier _ below
        rw [Nat.zero_add, partitions]
        exact Or.inr ⟨earlier, below, rfl⟩
      have computed := gigaIndexForSplitting_of_free ((partitions 0).mpr (Or.inl rfl)) (Nat.zero_le _) shallow free taken
      rwa [Nat.zero_add] at computed
    have splittable : gigaIsSplittable mapping 0 = some true := by
      refine gigaIsSplittable_eq_true.mpr ⟨_, found, ?_⟩
      rw [count, toInt32_eq positive]
      exact_mod_cast room
    have stepped : guardedSplit mapping 0 = some (gigaUpdateMapping mapping (2 ^ times)) := by
      have status := getBitStatus_iff.mpr ((partitions 0).mpr (Or.inl rfl))
      rw [guardedSplit, if_pos ⟨status, splittable⟩, found]
      rfl
    refine ⟨_, .next reached trivial stepped, count, ?_⟩
    intro index
    rw [partitions_update mapping (gigaIndexForSplitting_lt found), Finset.mem_insert, partitions]
    constructor
    · rintro (rfl | rfl | ⟨radix, below, rfl⟩)
      · exact Or.inr ⟨times, Nat.lt_succ_self _, rfl⟩
      · exact Or.inl rfl
      · exact Or.inr ⟨radix, by omega, rfl⟩
    · rintro (rfl | ⟨radix, below, rfl⟩)
      · exact Or.inr (Or.inl rfl)
      · rcases Nat.lt_succ_iff_lt_or_eq.mp below with less | rfl
        · exact Or.inr (Or.inr ⟨radix, less, rfl⟩)
        · exact Or.inl rfl

/-- Within the size of the array, guarded splits keep every lookup and every split working exactly when the bound
of the check stays within the radix that the hash is cut to. -/
theorem index_capacity {Name : Type} [Inhabited Name] (shahash : Name → Digest) {zerothServer serverCount : UInt32}
    (fits : maxBktsPerServer * serverCount.toNat ≤ 2 ^ maxRadix) :
    (∀ mapping, Reaches guardedSplit (fun _ _ => True) (gigaInitMapping zerothServer serverCount) mapping →
      mapping.Safe shahash) ↔ maxBktsPerServer * serverCount.toNat ≤ 2 ^ (maxRadix - 1) := by
  constructor
  · intro safe
    by_contra large
    rw [Nat.not_le] at large
    have size : serverCount.toNat ≤ 512 ∧ 256 < serverCount.toNat := by
      unfold maxBktsPerServer maxRadix at *
      omega
    have counted : 0 < serverCount := UInt32.lt_iff_toNat_lt.mpr (by simp; omega)
    obtain ⟨mapping, reached, -, partitions⟩ := splits_of_zero le_rfl counted (by omega) large
    obtain ⟨index, found⟩ := Option.isSome_iff_exists.mp ((safe mapping reached).lookups default)
    -- The lookup found a partition, so the tenth child of partition zero would have to be small.
    have small := ((gigaGetIndexForFile_eq_some shahash (guarded_of_reaches reached).valid).mp found).1
    exact (small _ ((partitions _).mpr (Or.inr ⟨maxRadix - 1, by decide, rfl⟩))).false
  · intro bound mapping reached
    have guarded := guarded_of_reaches reached
    apply guarded.valid.safe
    intro index member
    have below := guarded.below index member
    have count : maxBktsPerServer * (gigaInitMapping zerothServer serverCount).serverCount.toNat ≤ 2 ^ (maxRadix - 1) := by
      rw [serverCount_init]
      split
      · exact bound
      · decide
    omega

/-- The largest cluster that stays safe. -/
theorem index_capacity_256 : maxBktsPerServer * (256 : UInt32).toNat ≤ 2 ^ maxRadix ∧
    ∀ mapping, Reaches guardedSplit (fun _ _ => True) (gigaInitMapping 0 256) mapping →
      mapping.Safe (fun _ : Unit => Vector.replicate 20 0#8) :=
  ⟨by decide, (index_capacity _ (by decide)).mpr (by decide)⟩

/-- With 257 servers, ten guarded splits of partition zero end all lookups. -/
theorem lookups_fail_257 : maxBktsPerServer * (257 : UInt32).toNat ≤ 2 ^ maxRadix ∧
    (execute guardedSplit (gigaInitMapping 0 257) (List.replicate 10 0)).map
      (gigaGetIndexForFile (fun _ : Unit => Vector.replicate 20 0#8) · ()) = some none ∧
    ¬ ∀ mapping, Reaches guardedSplit (fun _ _ => True) (gigaInitMapping 0 257) mapping →
      mapping.Safe (fun _ : Unit => Vector.replicate 20 0#8) := by
  have stops : (execute guardedSplit (gigaInitMapping 0 257) (List.replicate 10 0)).map
      (gigaGetIndexForFile (fun _ : Unit => Vector.replicate 20 0#8) · ()) = some none := by decide +kernel
  refine ⟨by decide, stops, ?_⟩
  intro safe
  obtain ⟨mapping, executed, failed⟩ := Option.map_eq_some_iff.mp stops
  have reached := reaches_of_execute executed
  have lookup := (safe mapping reached).lookups ()
  rw [failed] at lookup
  cases lookup

end SkyeFS.Index
