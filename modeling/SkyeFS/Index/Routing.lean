import SkyeFS.Index.Mapping

/-! What the lookup, split and merge computations of the header table mean.

A lookup selects the deepest partition on the path of the name's hash. A split
adds one child and redirects exactly the names that end in it. These are the
facts the servers and clients rely on; later modules do not unfold the loops.
-/

set_option autoImplicit false

namespace SkyeFS.Index

open Foundation Foundation.SuffixTree

variable {Name : Type} (shahash : Name → Digest)

theorem findPartition_deepest {bitmap : Bitmap} (root : 0 ∈ bitmap.members) {fuel index : Nat}
    (enough : index < fuel) :
    ∃ partition, findPartition bitmap fuel index = some partition ∧
      Deepest bitmap.members index partition := by
  induction fuel generalizing index with
  | zero => omega
  | succ fuel ih =>
    by_cases member : index ∈ bitmap.members
    · exact ⟨index, by simp [findPartition, getBitStatus_iff.mpr member], deepest_self member⟩
    · have positive : index ≠ 0 := fun zero => member (zero ▸ root)
      have smaller : parent index < fuel := (parent_lt positive).trans_le (Nat.le_of_lt_succ enough)
      obtain ⟨partition, found, deepest⟩ := ih smaller
      refine ⟨partition, ?_, (deepest_parent member positive).mp deepest⟩
      rw [findPartition, if_neg (fun status => member (getBitStatus_iff.mp status)), getParentIndex_eq]
      exact found

/-- A lookup that gives a result gives a partition of the table, whatever the table. -/
theorem gigaGetIndexForFile_mem {mapping : GigaMapping} {name : Name} {index : Nat}
    (found : gigaGetIndexForFile shahash mapping name = some index) : index ∈ mapping.partitions := by
  obtain ⟨radix, -, found⟩ := Option.bind_eq_some_iff.mp found
  obtain ⟨start, -, found⟩ := Option.bind_eq_some_iff.mp found
  generalize start + 1 = fuel at found
  induction fuel generalizing start with
  | zero => cases found
  | succ fuel ih =>
    rw [findPartition] at found
    split at found
    · rename_i status
      cases found
      exact getBitStatus_iff.mp status
    · exact ih _ found

/-- The lookup on any table with partition zero: it fails exactly when the radix that it computes is too large for the
assertion, and otherwise selects the deepest partition of the name. -/
theorem gigaGetIndexForFile_eq_some_of_root {mapping : GigaMapping} (root : 0 ∈ mapping.partitions) {name : Name}
    {index : Nat} : gigaGetIndexForFile shahash mapping name = some index ↔
      mapping.bitmap.Within (2 ^ (maxRadix - 1)) ∧ Deepest mapping.partitions (hashNumber shahash name) index := by
  obtain ⟨highest, searched⟩ := getHighestIndex_isSome root
  have radix : getRadixFromBmap mapping.bitmap = some (depth highest) := by
    rw [getRadixFromBmap, searched, Option.map_some, getRadixFromIndex_eq]
  have fits : ∀ other ∈ mapping.partitions, other < 2 ^ depth highest :=
    fun other inside => (le_getHighestIndex searched inside).trans_lt (depth_le_iff.mp le_rfl)
  have small : mapping.bitmap.Within (2 ^ (maxRadix - 1)) ↔ depth highest < maxRadix := by
    rw [← getHighestIndex_lt_iff searched, ← depth_le_iff]
    exact ⟨fun shallow => Nat.lt_of_le_pred (by decide) shallow, Nat.le_pred_of_lt⟩
  by_cases bounded : depth highest < maxRadix
  · obtain ⟨partition, found, deepest⟩ := findPartition_deepest root
      (Nat.lt_succ_self (hashNumber shahash name % 2 ^ depth highest))
    have selected := (deepest_mod fits).mp deepest
    simp only [gigaGetIndexForFile, radix, Option.bind_eq_bind, Option.bind_some,
      computeIndex_gigaHashName shahash name bounded, found, small, bounded, true_and]
    constructor
    · intro same
      exact Option.some.inj same ▸ selected
    · intro other
      exact congrArg some (selected.unique other)
  · have failed : computeIndex (gigaHashName shahash name) (depth highest) = none := by
      simp [computeIndex, bounded]
    simp [gigaGetIndexForFile, radix, failed, small, bounded]

theorem lookup_isSome_iff {mapping : GigaMapping} (root : 0 ∈ mapping.partitions) {name : Name} :
    (gigaGetIndexForFile shahash mapping name).isSome ↔ mapping.bitmap.Within (2 ^ (maxRadix - 1)) := by
  obtain ⟨selected, deepest⟩ := exists_deepest root (hashNumber shahash name)
  constructor
  · intro returns
    obtain ⟨index, found⟩ := Option.isSome_iff_exists.mp returns
    exact ((gigaGetIndexForFile_eq_some_of_root shahash root).mp found).1
  · intro within
    rw [(gigaGetIndexForFile_eq_some_of_root shahash root).mpr ⟨within, deepest⟩]
    rfl

/-- The lookup on a valid table: it fails exactly when some index is too large for
the radix assertion, and otherwise selects the deepest partition of the name. -/
theorem gigaGetIndexForFile_eq_some {mapping : GigaMapping} (valid : mapping.Valid) {name : Name}
    {index : Nat} : gigaGetIndexForFile shahash mapping name = some index ↔
      mapping.Small ∧ Deepest mapping.partitions (hashNumber shahash name) index := by
  rw [gigaGetIndexForFile_eq_some_of_root shahash valid.root, valid.packed.within_iff]
  rfl

theorem gigaGetIndexForFile_isSome {mapping : GigaMapping} (valid : mapping.Valid)
    (small : mapping.Small) (name : Name) :
    ∃ index, gigaGetIndexForFile shahash mapping name = some index := by
  obtain ⟨index, deepest⟩ := exists_deepest valid.root (hashNumber shahash name)
  exact ⟨index, (gigaGetIndexForFile_eq_some shahash valid).mpr ⟨small, deepest⟩⟩

theorem gigaGetIndexForFile_init (zerothServer serverCount : UInt32) (name : Name) :
    gigaGetIndexForFile shahash (gigaInitMapping zerothServer serverCount) name = some 0 := by
  have valid := valid_init zerothServer serverCount
  obtain ⟨index, found⟩ := gigaGetIndexForFile_isSome shahash valid (small_init zerothServer serverCount) name
  have member := ((gigaGetIndexForFile_eq_some shahash valid).mp found).2.mem
  rw [partitions_init, Finset.mem_singleton] at member
  rw [found, member]

theorem gigaFileMigrationStatus_isSome {name : Name} {newIndex : Nat} :
    (gigaFileMigrationStatus shahash name newIndex).isSome ↔ getRadixFromIndex newIndex < maxRadix := by
  unfold gigaFileMigrationStatus computeIndex
  split
  · rename_i bounded
    simp [bounded]
  · rename_i beyond
    simp [beyond]

/-- The migration test is the suffix test, for children within the radix bound. -/
theorem gigaFileMigrationStatus_eq {name : Name} {newIndex : Nat} (bounded : newIndex < 2 ^ (maxRadix - 1)) :
    gigaFileMigrationStatus shahash name newIndex =
      some (decide (Suffix newIndex (hashNumber shahash name))) := by
  have radix : depth newIndex < maxRadix :=
    Nat.lt_of_le_pred (by decide) (depth_le_iff.mpr bounded)
  rw [gigaFileMigrationStatus, getRadixFromIndex_eq, computeIndex_gigaHashName shahash name radix]
  rfl

theorem firstFreeChild_some {bitmap : Bitmap} {index fuel start child : Nat}
    (found : firstFreeChild bitmap index fuel start = some child) :
    ∃ radix, start ≤ radix ∧ radix < start + fuel ∧ child = index + 2 ^ radix ∧ child ∉ bitmap.members ∧
      ∀ earlier, start ≤ earlier → earlier < radix → index + 2 ^ earlier ∈ bitmap.members := by
  induction fuel generalizing start with
  | zero => cases found
  | succ fuel ih =>
    rw [firstFreeChild, getChildIndex_eq] at found
    by_cases member : index + 2 ^ start ∈ bitmap.members
    · rw [if_pos (getBitStatus_iff.mpr member)] at found
      obtain ⟨radix, low, high, same, free, before⟩ := ih found
      refine ⟨radix, by omega, by omega, same, free, fun earlier from_ below => ?_⟩
      rcases from_.eq_or_lt with rfl | later
      · exact member
      · exact before earlier later below
    · rw [if_neg (fun status => member (getBitStatus_iff.mp status))] at found
      cases found
      exact ⟨start, le_rfl, by omega, rfl, member, fun earlier from_ below => by omega⟩

/-- The new index is the first missing child of a present partition. -/
theorem gigaIndexForSplitting_some {mapping : GigaMapping} {index child : Nat}
    (found : gigaIndexForSplitting mapping index = some child) :
    index ∈ mapping.partitions ∧ child ∉ mapping.partitions ∧
      ∃ radix, depth index ≤ radix ∧ radix < maxRadix ∧ child = index + 2 ^ radix ∧
        ∀ earlier, depth index ≤ earlier → earlier < radix → index + 2 ^ earlier ∈ mapping.partitions := by
  unfold gigaIndexForSplitting at found
  split at found
  · rename_i status
    rw [getRadixFromIndex_eq] at found
    obtain ⟨radix, low, high, same, free, before⟩ := firstFreeChild_some found
    exact ⟨getBitStatus_iff.mp status, free, radix, low, by omega, same, before⟩
  · cases found

theorem gigaIndexForSplitting_parent {mapping : GigaMapping} {index child : Nat}
    (found : gigaIndexForSplitting mapping index = some child) : parent child = index ∧ child ≠ 0 := by
  obtain ⟨-, -, radix, low, -, rfl, -⟩ := gigaIndexForSplitting_some found
  have power := Nat.two_pow_pos radix
  exact ⟨parent_add (depth_le_iff.mp low), by omega⟩

/-- A new index below the radix bound does not change whether lookups return. -/
theorem lookup_isSome_update {mapping : GigaMapping} (root : 0 ∈ mapping.partitions) {child : Nat}
    (bounded : child < 2 ^ (maxRadix - 1)) {name : Name} :
    (gigaGetIndexForFile shahash (gigaUpdateMapping mapping child) name).isSome =
      (gigaGetIndexForFile shahash mapping name).isSome := by
  have inside : child < capacity := bounded.trans (by decide)
  have rootAfter : 0 ∈ (gigaUpdateMapping mapping child).partitions := by
    rw [partitions_update mapping inside]
    exact Finset.mem_insert_of_mem root
  rw [Bool.eq_iff_iff, lookup_isSome_iff shahash root, lookup_isSome_iff shahash rootAfter]
  exact Bitmap.within_setBit inside bounded

/-- After a split the lookup moves to the child exactly for the names that were in
the split partition and end in the child; every other name stays where it was. -/
theorem gigaGetIndexForFile_split {mapping : GigaMapping} (root : 0 ∈ mapping.partitions) {index child : Nat}
    (split : gigaIndexForSplitting mapping index = some child) (bounded : child < 2 ^ (maxRadix - 1)) (name : Name) :
    gigaGetIndexForFile shahash (gigaUpdateMapping mapping child) name =
      (gigaGetIndexForFile shahash mapping name).map fun before =>
        if before = index ∧ Suffix child (hashNumber shahash name) then child else before := by
  have inside : child < capacity := bounded.trans (by decide)
  have returns : (gigaGetIndexForFile shahash (gigaUpdateMapping mapping child) name).isSome = _ :=
    lookup_isSome_update shahash root bounded
  cases found : gigaGetIndexForFile shahash mapping name with
  | none =>
    rw [found] at returns
    exact Option.not_isSome_iff_eq_none.mp (by simp [returns])
  | some before =>
    obtain ⟨within, deepest⟩ := (gigaGetIndexForFile_eq_some_of_root shahash root).mp found
    obtain ⟨present, -, radix, low, -, rfl, -⟩ := gigaIndexForSplitting_some split
    have after := deepest_insert present (depth_le_iff.mp low) deepest
    rw [← partitions_update mapping inside] at after
    have rootAfter : 0 ∈ (gigaUpdateMapping mapping (index + 2 ^ radix)).partitions := by
      rw [partitions_update mapping inside]
      exact Finset.mem_insert_of_mem root
    exact (gigaGetIndexForFile_eq_some_of_root shahash rootAfter).mpr
      ⟨(Bitmap.within_setBit inside bounded).mpr within, after⟩

theorem gigaGetIndexForFile_update {mapping : GigaMapping} (valid : mapping.Valid) {index child : Nat}
    (split : gigaIndexForSplitting mapping index = some child) (bounded : child < 2 ^ (maxRadix - 1))
    {name : Name} {before : Nat} (found : gigaGetIndexForFile shahash mapping name = some before) :
    gigaGetIndexForFile shahash (gigaUpdateMapping mapping child) name =
      some (if before = index ∧ Suffix child (hashNumber shahash name) then child else before) := by
  rw [gigaGetIndexForFile_split shahash valid.root split bounded, found]
  rfl

end SkyeFS.Index
