import SkyeFS.Index.Routing

/-! The next child of a partition, and what other updates of the table do to it.

The child that a split makes is never stored: it is computed again from the table.
It depends on the children of the same partition only, and a partition that is split
again and again gets larger children each time.
-/

set_option autoImplicit false

namespace SkyeFS.Index

open Foundation.SuffixTree

theorem firstFreeChild_of_free {bitmap : Bitmap} {index fuel start radix : Nat} (low : start ≤ radix)
    (high : radix < start + fuel) (free : index + 2 ^ radix ∉ bitmap.members)
    (taken : ∀ earlier, start ≤ earlier → earlier < radix → index + 2 ^ earlier ∈ bitmap.members) :
    firstFreeChild bitmap index fuel start = some (index + 2 ^ radix) := by
  induction fuel generalizing start with
  | zero => omega
  | succ fuel ih =>
    rw [firstFreeChild, getChildIndex_eq]
    rcases low.eq_or_lt with rfl | later
    · rw [if_neg (fun status => free (getBitStatus_iff.mp status))]
    · rw [if_pos (getBitStatus_iff.mpr (taken start le_rfl later))]
      exact ih later (by omega) fun earlier from_ below => taken earlier (by omega) below

theorem gigaIndexForSplitting_of_free {mapping : GigaMapping} {index radix : Nat}
    (present : index ∈ mapping.partitions) (low : depth index ≤ radix) (high : radix < maxRadix)
    (free : index + 2 ^ radix ∉ mapping.partitions)
    (taken : ∀ earlier, depth index ≤ earlier → earlier < radix → index + 2 ^ earlier ∈ mapping.partitions) :
    gigaIndexForSplitting mapping index = some (index + 2 ^ radix) := by
  rw [gigaIndexForSplitting, if_pos (getBitStatus_iff.mpr present), getRadixFromIndex_eq]
  exact firstFreeChild_of_free low (by omega) free taken

/-- Every child fits the array, whatever the table. -/
theorem gigaIndexForSplitting_lt {mapping : GigaMapping} {index child : Nat}
    (found : gigaIndexForSplitting mapping index = some child) : child < capacity := by
  obtain ⟨-, -, radix, low, high, rfl, -⟩ := gigaIndexForSplitting_some found
  have small : index < 2 ^ radix := depth_le_iff.mp low
  have power : 2 ^ radix ≤ 2 ^ (maxRadix - 1) := Nat.pow_le_pow_right (by decide) (Nat.le_pred_of_lt high)
  have room : 2 * 2 ^ (maxRadix - 1) ≤ capacity := by decide
  omega

/-- The two tables agree on a partition and on its children. -/
structure GigaMapping.SameChildren (index : Nat) (first second : GigaMapping) : Prop where
  count : first.serverCount = second.serverCount
  self : index ∈ first.partitions ↔ index ∈ second.partitions
  children : ∀ child, child ≠ 0 → parent child = index → (child ∈ first.partitions ↔ child ∈ second.partitions)

section
variable {index : Nat} {first second : GigaMapping} (same : GigaMapping.SameChildren index first second)
include same

theorem GigaMapping.SameChildren.some {child : Nat} (found : gigaIndexForSplitting first index = some child) :
    gigaIndexForSplitting second index = some child := by
  obtain ⟨present, missing, radix, low, high, rfl, taken⟩ := gigaIndexForSplitting_some found
  have child : ∀ other, depth index ≤ other →
      (index + 2 ^ other ∈ first.partitions ↔ index + 2 ^ other ∈ second.partitions) := by
    intro other above
    have power := Nat.two_pow_pos other
    exact same.children _ (by omega) (parent_add (depth_le_iff.mp above))
  refine gigaIndexForSplitting_of_free (same.self.mp present) low high ?_ ?_
  · exact fun member => missing ((child radix low).mpr member)
  · exact fun earlier from_ below => (child earlier from_).mp (taken earlier from_ below)

omit same in
theorem GigaMapping.SameChildren.symm (same : GigaMapping.SameChildren index first second) :
    GigaMapping.SameChildren index second first :=
  ⟨same.count.symm, same.self.symm, fun child positive above => (same.children child positive above).symm⟩

theorem GigaMapping.SameChildren.splitting :
    gigaIndexForSplitting first index = gigaIndexForSplitting second index := by
  cases found : gigaIndexForSplitting first index with
  | some child => exact (same.some found).symm
  | none =>
    cases other : gigaIndexForSplitting second index with
    | none => rfl
    | some child =>
      rw [same.symm.some other] at found
      cases found

theorem GigaMapping.SameChildren.splittable :
    gigaIsSplittable first index = gigaIsSplittable second index := by
  rw [gigaIsSplittable, gigaIsSplittable, same.splitting, same.count]

theorem GigaMapping.SameChildren.update {child : Nat} (bounded : child < capacity) :
    GigaMapping.SameChildren index (gigaUpdateMapping first child) (gigaUpdateMapping second child) := by
  refine ⟨same.count, ?_, ?_⟩
  · rw [partitions_update _ bounded, partitions_update _ bounded, Finset.mem_insert, Finset.mem_insert, same.self]
  · intro other positive above
    rw [partitions_update _ bounded, partitions_update _ bounded, Finset.mem_insert, Finset.mem_insert,
      same.children other positive above]

end

theorem sameChildren_update {mapping : GigaMapping} {index other : Nat} (bounded : other < capacity)
    (present : index ∈ mapping.partitions) (apart : parent other ≠ index) :
    GigaMapping.SameChildren index mapping (gigaUpdateMapping mapping other) := by
  -- A new partition that is not a child of a present one leaves its children alone.
  refine ⟨rfl, ?_, ?_⟩
  · simp [partitions_update mapping bounded, present]
  · intro child _ above
    have different : child ≠ other := by
      rintro rfl
      exact apart above
    simp [partitions_update mapping bounded, different]

/-- The table after `times` more splits of one partition. -/
def splitAgain (mapping : GigaMapping) (index : Nat) : Nat → Option GigaMapping
  | 0 => some mapping
  | times + 1 => (gigaIndexForSplitting mapping index).bind fun child =>
      splitAgain (gigaUpdateMapping mapping child) index times

/-- After `times` more splits the partition may still be split once. -/
def SplittableAfter (mapping : GigaMapping) (index times : Nat) : Prop :=
  (splitAgain mapping index times).bind (gigaIsSplittable · index) = some true

instance (mapping : GigaMapping) (index times : Nat) : Decidable (SplittableAfter mapping index times) :=
  inferInstanceAs (Decidable (_ = _))

theorem splittableAfter_succ {mapping : GigaMapping} {index times : Nat} :
    SplittableAfter mapping index (times + 1) ↔ ∃ child, gigaIndexForSplitting mapping index = some child ∧
      SplittableAfter (gigaUpdateMapping mapping child) index times := by
  unfold SplittableAfter
  rw [splitAgain, Option.bind_assoc, Option.bind_eq_some_iff]

theorem gigaIsSplittable_eq_true {mapping : GigaMapping} {index : Nat} :
    gigaIsSplittable mapping index = some true ↔ ∃ child, gigaIndexForSplitting mapping index = some child ∧
      (child : Int) < maxBktsPerServer * mapping.serverCount.toInt32.toInt := by
  unfold gigaIsSplittable
  cases gigaIndexForSplitting mapping index <;> simp

theorem toInt32_le (count : UInt32) : count.toInt32.toInt ≤ count.toNat := by
  have cases_ := BitVec.toInt_eq_toNat_cond count.toBitVec
  change count.toBitVec.toInt ≤ count.toBitVec.toNat
  split at cases_ <;> omega

theorem toInt32_eq {count : UInt32} (positive : count.toNat < 2 ^ 31) : count.toInt32.toInt = count.toNat := by
  have cases_ := BitVec.toInt_eq_toNat_cond count.toBitVec
  change count.toBitVec.toInt = count.toBitVec.toNat
  change count.toBitVec.toNat < 2 ^ 31 at positive
  split at cases_ <;> omega

/-- The check bounds the child by the number of servers. -/
theorem gigaIsSplittable_lt {mapping : GigaMapping} {index child : Nat}
    (splittable : gigaIsSplittable mapping index = some true) (found : gigaIndexForSplitting mapping index = some child) :
    child < maxBktsPerServer * mapping.serverCount.toNat := by
  obtain ⟨other, computed, less⟩ := gigaIsSplittable_eq_true.mp splittable
  cases Option.some.inj (found.symm.trans computed)
  have signed := toInt32_le mapping.serverCount
  unfold maxBktsPerServer at less ⊢
  omega

/-- Children grow: the next child of the split table is larger. -/
theorem gigaIndexForSplitting_grows {mapping : GigaMapping} {index child next : Nat}
    (found : gigaIndexForSplitting mapping index = some child)
    (later : gigaIndexForSplitting (gigaUpdateMapping mapping child) index = some next) : child < next := by
  have bounded := gigaIndexForSplitting_lt found
  obtain ⟨-, -, radix, -, -, rfl, taken⟩ := gigaIndexForSplitting_some found
  obtain ⟨-, free, other, low, -, rfl, -⟩ := gigaIndexForSplitting_some later
  rw [partitions_update mapping bounded, Finset.mem_insert, not_or] at free
  have above : radix < other := by
    rcases Nat.lt_trichotomy radix other with less | same | greater
    · exact less
    · exact absurd (congrArg (index + 2 ^ ·) same.symm) free.1
    · exact absurd (taken other low greater) free.2
  exact Nat.add_lt_add_left (Nat.pow_lt_pow_right (by decide) above) index

theorem SplittableAfter.pred {mapping : GigaMapping} {index times : Nat}
    (splittable : SplittableAfter mapping index (times + 1)) : SplittableAfter mapping index times := by
  induction times generalizing mapping with
  | zero =>
    obtain ⟨child, found, next⟩ := splittableAfter_succ.mp splittable
    obtain ⟨larger, computed, less⟩ := gigaIsSplittable_eq_true.mp next
    have grows := gigaIndexForSplitting_grows found computed
    refine gigaIsSplittable_eq_true.mpr ⟨child, found, ?_⟩
    have same : (gigaUpdateMapping mapping child).serverCount = mapping.serverCount := rfl
    rw [same] at less
    omega
  | succ times ih =>
    obtain ⟨child, found, next⟩ := splittableAfter_succ.mp splittable
    exact splittableAfter_succ.mpr ⟨child, found, ih next⟩

theorem SplittableAfter.now {mapping : GigaMapping} {index times : Nat}
    (splittable : SplittableAfter mapping index times) : gigaIsSplittable mapping index = some true := by
  induction times with
  | zero => exact splittable
  | succ times ih => exact ih splittable.pred

theorem GigaMapping.SameChildren.splittableAfter {index times : Nat} {first second : GigaMapping}
    (same : GigaMapping.SameChildren index first second) (splittable : SplittableAfter first index times) :
    SplittableAfter second index times := by
  induction times generalizing first second with
  | zero => exact same.splittable.symm.trans splittable
  | succ times ih =>
    obtain ⟨child, found, next⟩ := splittableAfter_succ.mp splittable
    exact splittableAfter_succ.mpr ⟨child, same.some found, ih (same.update (gigaIndexForSplitting_lt found)) next⟩

end SkyeFS.Index
