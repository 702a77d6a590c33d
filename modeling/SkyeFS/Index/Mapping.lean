import SkyeFS.Index.Bitmap
import SkyeFS.Foundation.SuffixTree

/-! The header table of common/giga_index.c and the operations on it.

`none` stands for a failed assertion, which ends the process. Indices are natural
numbers: the C code keeps them non-negative and far below the width of `int`.
`floor(log2(index))` is exact for them and is `Nat.log2`.
-/

set_option autoImplicit false

namespace SkyeFS.Index

open Foundation

structure GigaMapping where
  bitmap : Bitmap
  currRadix : UInt32
  zerothServer : UInt32
  serverCount : UInt32
  deriving DecidableEq

def getRadixFromIndex (index : Nat) : Nat :=
  if index = 0 then 0 else if index = 1 then 1 else index.log2 + 1

def getRadixFromBmap (bitmap : Bitmap) : Option Nat := (getHighestIndex bitmap).map getRadixFromIndex

/-- The cached radix after an update. The assertion inside cannot fail here: see
`getRadixFromBmap_isSome`. -/
def refreshRadix (bitmap : Bitmap) : UInt32 := UInt32.ofNat ((getRadixFromBmap bitmap).getD 0)

def getChildIndex (index radix : Nat) : Nat := index + 1 <<< radix

def getParentIndex (index : Nat) : Nat := if 0 < index then index - 1 <<< index.log2 else 0

/-- Initialization with `flag = -1`. With the configured `SPLIT_T_NUM_SERVERS_BOUND`
every other flag writes the same fields. -/
def gigaInitMapping (zerothServer serverCount : UInt32) : GigaMapping where
  bitmap := Bitmap.empty.setIfInBounds 0 1#8
  currRadix := 1
  zerothServer := zerothServer
  serverCount := if 0 < serverCount then serverCount else 1

def gigaUpdateCache (curr update : GigaMapping) : GigaMapping :=
  let bitmap := Vector.zipWith (· ||| ·) curr.bitmap update.bitmap
  { curr with
    bitmap := bitmap
    currRadix := refreshRadix bitmap
    serverCount := if curr.serverCount < update.serverCount then update.serverCount else curr.serverCount }

def gigaUpdateMapping (mapping : GigaMapping) (newIndex : Nat) : GigaMapping :=
  let bitmap := mapping.bitmap.setBit newIndex
  { mapping with bitmap := bitmap, currRadix := refreshRadix bitmap }

def gigaUpdateMappingRemove (mapping : GigaMapping) (newIndex : Nat) : GigaMapping :=
  let bitmap := mapping.bitmap.clearBit newIndex
  { mapping with bitmap := bitmap, currRadix := refreshRadix bitmap }

/-- The loop over growing radices; the fuel counts how often `i < MAX_RADIX` still holds. -/
def firstFreeChild (bitmap : Bitmap) (index : Nat) : Nat → Nat → Option Nat
  | 0, _ => none
  | fuel + 1, i =>
      let newIndex := getChildIndex index i
      if getBitStatus bitmap newIndex then firstFreeChild bitmap index fuel (i + 1) else some newIndex

def gigaIndexForSplitting (mapping : GigaMapping) (index : Nat) : Option Nat :=
  if getBitStatus mapping.bitmap index then
    firstFreeChild mapping.bitmap index (maxRadix - getRadixFromIndex index) (getRadixFromIndex index)
  else none

/-- The walk to the first ancestor whose bit is set. Parents decrease down to zero,
so with `index + 1` rounds only the endless loop at a clear bit zero runs out. -/
def findPartition (bitmap : Bitmap) : Nat → Nat → Option Nat
  | 0, _ => none
  | fuel + 1, index =>
      if getBitStatus bitmap index then some index else findPartition bitmap fuel (getParentIndex index)

def maxBktsPerServer : Nat := 2

/-- The configured `SPLIT_T_NUM_SERVERS_BOUND`. -/
def gigaIsSplittable (mapping : GigaMapping) (oldIndex : Nat) : Option Bool :=
  (gigaIndexForSplitting mapping oldIndex).map fun newIndex =>
    decide ((newIndex : Int) < maxBktsPerServer * mapping.serverCount.toInt32.toInt)

def gigaGetServerForIndex (mapping : GigaMapping) (index : Nat) : Nat :=
  ((UInt32.ofNat index + mapping.zerothServer) % mapping.serverCount).toNat

def gigaGetBucketNumForServer (mapping : GigaMapping) (index : Nat) : Nat :=
  (UInt32.ofNat index / mapping.serverCount).toNat

section
variable {Name : Type} (shahash : Name → Digest)

def gigaGetIndexForFile (mapping : GigaMapping) (filename : Name) : Option Nat := do
  let currRadix ← getRadixFromBmap mapping.bitmap
  let index ← computeIndex (gigaHashName shahash filename) currRadix
  findPartition mapping.bitmap (index + 1) index

def gigaGetServerForFile (mapping : GigaMapping) (filename : Name) : Option Nat :=
  (gigaGetIndexForFile shahash mapping filename).map (gigaGetServerForIndex mapping)

def gigaFileMigrationStatus (filename : Name) (newIndex : Nat) : Option Bool :=
  (computeIndex (gigaHashName shahash filename) (getRadixFromIndex newIndex)).map (· == newIndex)

end

/-! ### The table as a set of partitions -/

def GigaMapping.partitions (mapping : GigaMapping) : Finset Nat := mapping.bitmap.members

/-- What every operation of this file keeps: bytes stay packed and partition zero exists. -/
structure GigaMapping.Valid (mapping : GigaMapping) : Prop where
  packed : mapping.bitmap.Packed
  root : 0 ∈ mapping.partitions

/-- Every index is small enough for its radix to pass the assertion of `computeIndex`. -/
def GigaMapping.Small (mapping : GigaMapping) : Prop :=
  ∀ index ∈ mapping.partitions, index < 2 ^ (maxRadix - 1)

/-- Placement of partitions on servers is the same for both tables. -/
def GigaMapping.SamePlacement (first second : GigaMapping) : Prop :=
  first.zerothServer = second.zerothServer ∧ first.serverCount = second.serverCount

theorem GigaMapping.SamePlacement.trans {first second third : GigaMapping} (one : first.SamePlacement second)
    (two : second.SamePlacement third) : first.SamePlacement third :=
  ⟨one.1.trans two.1, one.2.trans two.2⟩

theorem GigaMapping.SamePlacement.merge {curr update mapping : GigaMapping} (one : curr.SamePlacement mapping)
    (two : update.SamePlacement mapping) : (gigaUpdateCache curr update).SamePlacement mapping := by
  refine ⟨one.1, ?_⟩
  -- The larger server count wins, and here they agree.
  have same : curr.serverCount = update.serverCount := one.2.trans two.2.symm
  simp only [gigaUpdateCache, same, ite_self]
  exact two.2

theorem GigaMapping.SamePlacement.init {mapping : GigaMapping} (counted : 0 < mapping.serverCount) :
    (gigaInitMapping mapping.zerothServer mapping.serverCount).SamePlacement mapping := by
  simp only [SamePlacement, gigaInitMapping, if_pos counted, and_self]

theorem GigaMapping.SamePlacement.server {first second : GigaMapping}
    (same : first.SamePlacement second) (index : Nat) :
    gigaGetServerForIndex first index = gigaGetServerForIndex second index := by
  simp only [gigaGetServerForIndex, same.1, same.2]

theorem getRadixFromIndex_eq (index : Nat) : getRadixFromIndex index = SuffixTree.depth index := by
  unfold getRadixFromIndex
  split
  · rename_i zero; subst zero; rfl
  · rename_i positive
    rw [SuffixTree.depth_eq_log2 positive]
    split
    · rename_i one; subst one; rfl
    · rfl

theorem getParentIndex_eq (index : Nat) : getParentIndex index = SuffixTree.parent index := by
  unfold getParentIndex SuffixTree.parent
  by_cases zero : index = 0
  · simp [zero]
  · simp [zero, Nat.pos_of_ne_zero zero, Nat.shiftLeft_eq]

theorem getChildIndex_eq (index radix : Nat) : getChildIndex index radix = index + 2 ^ radix := by
  simp [getChildIndex, Nat.shiftLeft_eq]

theorem gigaInitMapping_bitmap (zerothServer serverCount : UInt32) :
    (gigaInitMapping zerothServer serverCount).bitmap = Bitmap.empty.setBit 0 := by
  rw [Bitmap.setBit, Bitmap.modify, Bitmap.byte_empty]
  rfl

theorem partitions_init (zerothServer serverCount : UInt32) :
    (gigaInitMapping zerothServer serverCount).partitions = {0} := by
  rw [GigaMapping.partitions, gigaInitMapping_bitmap, Bitmap.members_setBit _ (by decide),
    Bitmap.members_empty]
  rfl

theorem partitions_update (mapping : GigaMapping) {index : Nat} (bounded : index < capacity) :
    (gigaUpdateMapping mapping index).partitions = insert index mapping.partitions :=
  Bitmap.members_setBit _ bounded

theorem partitions_remove (mapping : GigaMapping) {index : Nat} (bounded : index < capacity) :
    (gigaUpdateMappingRemove mapping index).partitions = mapping.partitions.erase index :=
  Bitmap.members_clearBit _ bounded

theorem partitions_merge (curr update : GigaMapping) :
    (gigaUpdateCache curr update).partitions = curr.partitions ∪ update.partitions :=
  Bitmap.members_zipWith _ _

theorem valid_init (zerothServer serverCount : UInt32) :
    (gigaInitMapping zerothServer serverCount).Valid where
  packed := by
    rw [gigaInitMapping_bitmap]
    exact Bitmap.packed_empty.setBit (by decide)
  root := by simp [partitions_init]

theorem small_init (zerothServer serverCount : UInt32) : (gigaInitMapping zerothServer serverCount).Small := by
  intro index member
  rw [partitions_init, Finset.mem_singleton] at member
  subst member
  decide

theorem closed_init (zerothServer serverCount : UInt32) :
    ∀ index ∈ (gigaInitMapping zerothServer serverCount).partitions, 0 < index →
      getParentIndex index ∈ (gigaInitMapping zerothServer serverCount).partitions := by
  intro index member positive
  rw [partitions_init, Finset.mem_singleton] at member
  omega

theorem GigaMapping.Valid.update {mapping : GigaMapping} (valid : mapping.Valid) {index : Nat}
    (bounded : index < capacity) : (gigaUpdateMapping mapping index).Valid where
  packed := valid.packed.setBit bounded
  root := by
    rw [partitions_update mapping bounded]
    exact Finset.mem_insert_of_mem valid.root

theorem GigaMapping.Small.update {mapping : GigaMapping} (small : mapping.Small) {index : Nat}
    (bounded : index < 2 ^ (maxRadix - 1)) : (gigaUpdateMapping mapping index).Small := by
  intro other member
  rw [partitions_update mapping (bounded.trans (by decide)), Finset.mem_insert] at member
  rcases member with rfl | member
  · exact bounded
  · exact small other member

theorem GigaMapping.Valid.remove {mapping : GigaMapping} (valid : mapping.Valid) {index : Nat}
    (bounded : index < capacity) (positive : index ≠ 0) : (gigaUpdateMappingRemove mapping index).Valid where
  packed := valid.packed.clearBit bounded
  root := by
    rw [partitions_remove mapping bounded]
    exact Finset.mem_erase.mpr ⟨positive.symm, valid.root⟩

theorem GigaMapping.Valid.merge {curr update : GigaMapping} (one : curr.Valid) (two : update.Valid) :
    (gigaUpdateCache curr update).Valid where
  packed := one.packed.zipWith two.packed
  root := by
    rw [partitions_merge]
    exact Finset.mem_union_left _ one.root

/-- A valid table has a highest index, so no radix computation on it fails. -/
theorem getRadixFromBmap_isSome {mapping : GigaMapping} (valid : mapping.Valid) :
    ∃ highest ∈ mapping.partitions, (∀ index ∈ mapping.partitions, index ≤ highest) ∧
      getRadixFromBmap mapping.bitmap = some (SuffixTree.depth highest) := by
  -- Partition zero is always there, so the table has a greatest index.
  have nonempty : mapping.partitions.Nonempty := ⟨0, valid.root⟩
  have member := mapping.partitions.max'_mem nonempty
  have maximal : ∀ index ∈ mapping.partitions, index ≤ mapping.partitions.max' nonempty :=
    fun index inside => mapping.partitions.le_max' index inside
  have found := (getHighestIndex_eq_some valid.packed).mpr ⟨member, maximal⟩
  exact ⟨_, member, maximal, by rw [getRadixFromBmap, found, Option.map_some, getRadixFromIndex_eq]⟩

end SkyeFS.Index
