import SkyeFS.Index.Digest
import Mathlib.Data.Finset.Basic
import Mathlib.Data.Finset.Range
import Mathlib.Data.Finset.Filter

/-! The packed partition bitmap of common/giga_index.c.

Seven indices are kept in each byte. The C subscripts are unchecked: here a read
past the array gives zero and a write there is dropped, so results about bits are
stated for the indices the array covers.
-/

set_option autoImplicit false

namespace SkyeFS.Index

def bitsPerMap : Nat := 7

def maxBmapLen : Nat :=
  if 2 ^ maxRadix % bitsPerMap = 0 then 2 ^ maxRadix / bitsPerMap else 2 ^ maxRadix / bitsPerMap + 1

abbrev Bitmap := Vector Byte maxBmapLen

/-- The number of indices the array has room for. -/
def capacity : Nat := bitsPerMap * maxBmapLen

def Bitmap.byte (bmap : Bitmap) (slot : Nat) : Byte := bmap[slot]?.getD 0#8

def getBitStatus (bmap : Bitmap) (index : Nat) : Bool :=
  bmap.byte (index / bitsPerMap) &&& 1#8 <<< (index % bitsPerMap) != 0#8

/-- The read, mask and write back shared by the two bitmap updates. -/
def Bitmap.modify (bmap : Bitmap) (index : Nat) (change : Byte → Byte → Byte) : Bitmap :=
  bmap.setIfInBounds (index / bitsPerMap)
    (change (bmap.byte (index / bitsPerMap)) (1#8 <<< (index % bitsPerMap)))

def Bitmap.setBit (bmap : Bitmap) (index : Nat) : Bitmap :=
  bmap.modify index (fun bitInfo mask => bitInfo ||| mask)

def Bitmap.clearBit (bmap : Bitmap) (index : Nat) : Bitmap :=
  bmap.modify index (fun bitInfo mask => bitInfo &&& ~~~mask)

/-- The largest non-zero element below `bound`, searched downwards. -/
def highestByte (bitmap : Bitmap) : Nat → Option Nat
  | 0 => none
  | i + 1 => if bitmap.byte i != 0#8 then some i else highestByte bitmap i

/-- The highest set bit of `value` below `bound`, searched downwards. -/
def highestBit (value : Byte) : Nat → Option Nat
  | 0 => none
  | j + 1 => if value &&& 1#8 <<< j != 0#8 then some j else highestBit value j

def Bitmap.empty : Bitmap := Vector.replicate maxBmapLen 0#8

/-- The position of the highest one. An all-zero array, and a lone eighth bit in
the first byte, give a negative position and fail the closing assertion. -/
def getHighestIndex (bitmap : Bitmap) : Option Nat :=
  match highestByte bitmap maxBmapLen with
  | none => none
  | some i =>
    match highestBit (bitmap.byte i) bitsPerMap with
    | some j => some (i * bitsPerMap + j)
    | none => if i = 0 then none else some (i * bitsPerMap - 1)

/-- The indices whose bit is one. -/
def Bitmap.members (bitmap : Bitmap) : Finset Nat :=
  (Finset.range capacity).filter (getBitStatus bitmap · = true)

/-- The eighth bit of every byte is clear. -/
def Bitmap.Packed (bitmap : Bitmap) : Prop := ∀ slot, (bitmap.byte slot).getLsbD bitsPerMap = false

theorem and_bit_ne_zero {value : Byte} {bit : Nat} (bounded : bit < 8) :
    (value &&& 1#8 <<< bit != 0#8) = value.getLsbD bit := by
  rw [← BitVec.twoPow_eq, BitVec.and_twoPow]
  cases value.getLsbD bit with
  | false => rfl
  | true =>
    have nonzero : BitVec.twoPow 8 bit ≠ 0#8 := by
      intro same
      have bits := congrArg (BitVec.getLsbD · bit) same
      simp [bounded] at bits
    simpa using nonzero

theorem getBitStatus_eq (bmap : Bitmap) (index : Nat) :
    getBitStatus bmap index = (bmap.byte (index / bitsPerMap)).getLsbD (index % bitsPerMap) :=
  and_bit_ne_zero ((Nat.mod_lt index (by decide)).trans (by decide))

theorem Bitmap.mem_members {bitmap : Bitmap} {index : Nat} :
    index ∈ bitmap.members ↔ index < capacity ∧ getBitStatus bitmap index = true := by
  simp [members]

/-- A read past the array is zero, so only covered indices have a one bit. -/
theorem getBitStatus_iff {bitmap : Bitmap} {index : Nat} :
    getBitStatus bitmap index = true ↔ index ∈ bitmap.members := by
  rw [Bitmap.mem_members]
  refine ⟨fun status => ⟨?_, status⟩, fun member => member.2⟩
  by_contra outside
  have slot : ¬ index / bitsPerMap < maxBmapLen := by
    rw [Nat.div_lt_iff_lt_mul (by decide), Nat.mul_comm]
    exact outside
  rw [getBitStatus_eq, Bitmap.byte, Vector.getElem?_eq_none (Nat.le_of_not_lt slot)] at status
  simp at status

theorem slot_lt {index : Nat} (bounded : index < capacity) : index / bitsPerMap < maxBmapLen :=
  Nat.div_lt_of_lt_mul bounded

theorem byte_modify (bmap : Bitmap) {index : Nat} (bounded : index < capacity) (slot : Nat)
    (change : Byte → Byte → Byte) :
    (bmap.modify index change).byte slot =
      if slot = index / bitsPerMap then change (bmap.byte slot) (1#8 <<< (index % bitsPerMap))
      else bmap.byte slot := by
  unfold Bitmap.modify
  rw [Bitmap.byte, Vector.getElem?_setIfInBounds, if_pos (slot_lt bounded)]
  by_cases same : slot = index / bitsPerMap
  · subst same; simp
  · rw [if_neg (Ne.symm same), if_neg same]; rfl

theorem index_eq_iff (first second : Nat) :
    first = second ↔ first / bitsPerMap = second / bitsPerMap ∧ first % bitsPerMap = second % bitsPerMap := by
  unfold bitsPerMap
  omega

theorem getBitStatus_setBit (bmap : Bitmap) {index : Nat} (bounded : index < capacity) (other : Nat) :
    getBitStatus (bmap.setBit index) other = (decide (other = index) || getBitStatus bmap other) := by
  rw [getBitStatus_eq, getBitStatus_eq, Bitmap.setBit, byte_modify bmap bounded]
  have small : index % bitsPerMap < 8 := (Nat.mod_lt index (by decide)).trans (by decide)
  by_cases same : other / bitsPerMap = index / bitsPerMap
  · rw [if_pos same, BitVec.getLsbD_or, ← BitVec.twoPow_eq, BitVec.getLsbD_twoPow]
    simp [index_eq_iff other index, same, small, Bool.or_comm, eq_comm]
  · rw [if_neg same]
    simp [index_eq_iff other index, same]

theorem getBitStatus_clearBit (bmap : Bitmap) {index : Nat} (bounded : index < capacity) (other : Nat) :
    getBitStatus (bmap.clearBit index) other = (!decide (other = index) && getBitStatus bmap other) := by
  rw [getBitStatus_eq, getBitStatus_eq, Bitmap.clearBit, byte_modify bmap bounded]
  have small : index % bitsPerMap < 8 := (Nat.mod_lt index (by decide)).trans (by decide)
  have wide : other % bitsPerMap < 8 := (Nat.mod_lt other (by decide)).trans (by decide)
  by_cases same : other / bitsPerMap = index / bitsPerMap
  · rw [if_pos same, BitVec.getLsbD_and, BitVec.getLsbD_not, ← BitVec.twoPow_eq, BitVec.getLsbD_twoPow]
    simp [index_eq_iff other index, same, small, wide, Bool.and_comm, eq_comm]
  · rw [if_neg same]
    simp [index_eq_iff other index, same]

theorem byte_zipWith (left right : Bitmap) (slot : Nat) :
    Bitmap.byte (Vector.zipWith (· ||| ·) left right) slot = left.byte slot ||| right.byte slot := by
  unfold Bitmap.byte
  by_cases inside : slot < maxBmapLen
  · simp [inside]
  · simp [inside]

theorem getBitStatus_zipWith (left right : Bitmap) (index : Nat) :
    getBitStatus (Vector.zipWith (· ||| ·) left right) index =
      (getBitStatus left index || getBitStatus right index) := by
  rw [getBitStatus_eq, getBitStatus_eq, getBitStatus_eq, byte_zipWith, BitVec.getLsbD_or]

theorem Bitmap.byte_empty (slot : Nat) : Bitmap.empty.byte slot = 0#8 := by
  by_cases inside : slot < maxBmapLen <;> simp [Bitmap.empty, Bitmap.byte, inside]

theorem Bitmap.members_empty : Bitmap.empty.members = ∅ := by
  ext index
  simp [mem_members, getBitStatus_eq, byte_empty]

theorem Bitmap.packed_empty : Bitmap.empty.Packed := by
  intro slot
  simp [byte_empty]

theorem Bitmap.members_setBit (bmap : Bitmap) {index : Nat} (bounded : index < capacity) :
    (bmap.setBit index).members = insert index bmap.members := by
  ext other
  rw [mem_members, getBitStatus_setBit bmap bounded, Finset.mem_insert, mem_members]
  by_cases same : other = index <;> simp [same, bounded]

theorem Bitmap.members_clearBit (bmap : Bitmap) {index : Nat} (bounded : index < capacity) :
    (bmap.clearBit index).members = bmap.members.erase index := by
  ext other
  rw [mem_members, getBitStatus_clearBit bmap bounded, Finset.mem_erase, mem_members]
  by_cases same : other = index <;> simp [same]

theorem Bitmap.members_zipWith (left right : Bitmap) :
    Bitmap.members (Vector.zipWith (· ||| ·) left right) = left.members ∪ right.members := by
  ext index
  rw [mem_members, getBitStatus_zipWith, Finset.mem_union, mem_members, mem_members, Bool.or_eq_true]
  tauto

theorem Bitmap.Packed.modify {bmap : Bitmap} (packed : bmap.Packed) {index : Nat}
    (bounded : index < capacity) {change : Byte → Byte → Byte}
    (keeps : ∀ bitInfo mask : Byte, bitInfo.getLsbD 7 = false → mask.getLsbD 7 = false →
      (change bitInfo mask).getLsbD 7 = false) : (bmap.modify index change).Packed := by
  intro slot
  rw [byte_modify bmap bounded]
  split
  · apply keeps _ _ (packed slot)
    have small : index % bitsPerMap < bitsPerMap := Nat.mod_lt index (by decide)
    rw [← BitVec.twoPow_eq, BitVec.getLsbD_twoPow]
    unfold bitsPerMap at small ⊢
    simp
    omega
  · exact packed slot

theorem Bitmap.Packed.setBit {bmap : Bitmap} (packed : bmap.Packed) {index : Nat}
    (bounded : index < capacity) : (bmap.setBit index).Packed :=
  packed.modify bounded (fun _ _ info mask => by rw [BitVec.getLsbD_or, info, mask]; rfl)

theorem Bitmap.Packed.clearBit {bmap : Bitmap} (packed : bmap.Packed) {index : Nat}
    (bounded : index < capacity) : (bmap.clearBit index).Packed :=
  packed.modify bounded (fun _ _ info _ => by rw [BitVec.getLsbD_and, info]; rfl)

theorem Bitmap.Packed.zipWith {left right : Bitmap} (one : left.Packed) (two : right.Packed) :
    Bitmap.Packed (Vector.zipWith (· ||| ·) left right) := by
  intro slot
  rw [byte_zipWith, BitVec.getLsbD_or, one slot, two slot]
  rfl

theorem highestByte_some {bitmap : Bitmap} {bound i : Nat} (found : highestByte bitmap bound = some i) :
    i < bound ∧ bitmap.byte i ≠ 0#8 ∧ ∀ slot, i < slot → slot < bound → bitmap.byte slot = 0#8 := by
  induction bound with
  | zero => cases found
  | succ bound ih =>
    rw [highestByte] at found
    split at found
    · rename_i nonzero
      cases found
      exact ⟨Nat.lt_succ_self _, by simpa using nonzero, fun slot above below => by omega⟩
    · rename_i zero
      obtain ⟨less, nonzero, rest⟩ := ih found
      refine ⟨less.trans (Nat.lt_succ_self _), nonzero, fun slot above below => ?_⟩
      rcases Nat.lt_succ_iff_lt_or_eq.mp below with inside | rfl
      · exact rest slot above inside
      · simpa using zero

theorem highestByte_none {bitmap : Bitmap} {bound : Nat} (missing : highestByte bitmap bound = none)
    {slot : Nat} (inside : slot < bound) : bitmap.byte slot = 0#8 := by
  induction bound with
  | zero => omega
  | succ bound ih =>
    rw [highestByte] at missing
    split at missing
    · cases missing
    · rename_i zero
      rcases Nat.lt_succ_iff_lt_or_eq.mp inside with below | rfl
      · exact ih missing below
      · simpa using zero

theorem highestBit_some {value : Byte} {bound j : Nat} (width : bound ≤ 8)
    (found : highestBit value bound = some j) :
    j < bound ∧ value.getLsbD j = true ∧ ∀ bit, j < bit → bit < bound → value.getLsbD bit = false := by
  induction bound with
  | zero => cases found
  | succ bound ih =>
    rw [highestBit, and_bit_ne_zero (by omega)] at found
    split at found
    · rename_i set
      cases found
      exact ⟨Nat.lt_succ_self _, set, fun bit above below => by omega⟩
    · rename_i clear
      obtain ⟨less, set, rest⟩ := ih (by omega) found
      refine ⟨less.trans (Nat.lt_succ_self _), set, fun bit above below => ?_⟩
      rcases Nat.lt_succ_iff_lt_or_eq.mp below with inside | rfl
      · exact rest bit above inside
      · simpa using clear

theorem highestBit_none {value : Byte} {bound : Nat} (width : bound ≤ 8)
    (missing : highestBit value bound = none) {bit : Nat} (inside : bit < bound) :
    value.getLsbD bit = false := by
  induction bound with
  | zero => omega
  | succ bound ih =>
    rw [highestBit, and_bit_ne_zero (by omega)] at missing
    split at missing
    · cases missing
    · rename_i clear
      rcases Nat.lt_succ_iff_lt_or_eq.mp inside with below | rfl
      · exact ih (by omega) missing below
      · simpa using clear

theorem byte_eq_zero {bitmap : Bitmap} (packed : bitmap.Packed) {slot : Nat}
    (clear : ∀ bit < bitsPerMap, (bitmap.byte slot).getLsbD bit = false) : bitmap.byte slot = 0#8 := by
  -- A packed byte with no bit below the eighth is zero.
  apply BitVec.eq_of_getLsbD_eq
  intro bit bounded
  rw [BitVec.getLsbD_zero]
  rcases Nat.lt_or_ge bit bitsPerMap with low | high
  · exact clear bit low
  · have top : bit = bitsPerMap := by unfold bitsPerMap at high ⊢; omega
    rw [top]
    exact packed slot

theorem getBitStatus_of_byte_zero {bitmap : Bitmap} {index : Nat}
    (zero : bitmap.byte (index / bitsPerMap) = 0#8) : getBitStatus bitmap index = false := by
  rw [getBitStatus_eq, zero, BitVec.getLsbD_zero]

theorem byte_of_ge {bitmap : Bitmap} {slot : Nat} (outside : maxBmapLen ≤ slot) : bitmap.byte slot = 0#8 := by
  rw [Bitmap.byte, Vector.getElem?_eq_none outside]
  rfl

/-- What the two downward searches find: the highest bit of the last non-zero byte, or the place before that byte if
only its eighth bit is one. -/
theorem getHighestIndex_some {bitmap : Bitmap} {index : Nat} (found : getHighestIndex bitmap = some index) :
    ∃ i, bitmap.byte i ≠ 0#8 ∧ (∀ slot, i < slot → bitmap.byte slot = 0#8) ∧
      ((∃ j < bitsPerMap, index = i * bitsPerMap + j ∧ (bitmap.byte i).getLsbD j = true ∧
          ∀ bit, j < bit → bit < bitsPerMap → (bitmap.byte i).getLsbD bit = false) ∨
        index + 1 = i * bitsPerMap ∧ ∀ bit < bitsPerMap, (bitmap.byte i).getLsbD bit = false) := by
  unfold getHighestIndex at found
  split at found
  · cases found
  · rename_i i byteFound
    obtain ⟨slotBound, nonzero, aboveSlot⟩ := highestByte_some byteFound
    have above : ∀ slot, i < slot → bitmap.byte slot = 0#8 := by
      intro slot later
      rcases Nat.lt_or_ge slot maxBmapLen with inside | outside
      · exact aboveSlot slot later inside
      · exact byte_of_ge outside
    refine ⟨i, nonzero, above, ?_⟩
    split at found
    · rename_i j bitFound
      obtain ⟨bitBound, set, aboveBit⟩ := highestBit_some (by decide) bitFound
      cases found
      exact Or.inl ⟨j, bitBound, rfl, set, aboveBit⟩
    · rename_i bitMissing
      split at found
      · cases found
      · cases found
        exact Or.inr ⟨by unfold bitsPerMap; omega, fun _ inside => highestBit_none (by decide) bitMissing inside⟩

/-- The search never ends below a member, whatever the eighth bits are. -/
theorem le_getHighestIndex {bitmap : Bitmap} {index other : Nat} (found : getHighestIndex bitmap = some index)
    (member : other ∈ bitmap.members) : other ≤ index := by
  obtain ⟨i, -, above, shape⟩ := getHighestIndex_some found
  obtain ⟨-, status⟩ := Bitmap.mem_members.mp member
  have low : other / bitsPerMap ≤ i := by
    by_contra later
    rw [getBitStatus_of_byte_zero (above _ (Nat.lt_of_not_le later))] at status
    cases status
  have bit : other % bitsPerMap < bitsPerMap := Nat.mod_lt other (by decide)
  rw [getBitStatus_eq] at status
  rcases low.lt_or_eq with less | same
  · rcases shape with ⟨j, -, rfl, -⟩ | ⟨before, -⟩ <;> unfold bitsPerMap at * <;> omega
  · rw [same] at status
    rcases shape with ⟨j, -, rfl, -, clear⟩ | ⟨-, clear⟩
    · by_contra larger
      rw [clear (other % bitsPerMap) (by unfold bitsPerMap at *; omega) bit] at status
      cases status
    · rw [clear _ bit] at status
      cases status

theorem getHighestIndex_isSome {bitmap : Bitmap} (root : 0 ∈ bitmap.members) :
    ∃ index, getHighestIndex bitmap = some index := by
  have status : (bitmap.byte 0).getLsbD 0 = true := by
    have set := (Bitmap.mem_members.mp root).2
    rwa [getBitStatus_eq] at set
  unfold getHighestIndex
  split
  · rename_i byteMissing
    rw [highestByte_none byteMissing (by decide), BitVec.getLsbD_zero] at status
    cases status
  · rename_i i byteFound
    split
    · exact ⟨_, rfl⟩
    · rename_i bitMissing
      split
      · rename_i zero
        subst zero
        rw [highestBit_none (by decide) bitMissing (by decide)] at status
        cases status
      · exact ⟨_, rfl⟩

/-- No index reaches the bound, and no byte lies behind it. -/
structure Bitmap.Within (bitmap : Bitmap) (bound : Nat) : Prop where
  members : ∀ index ∈ bitmap.members, index < bound
  bytes : ∀ slot, bitmap.byte slot ≠ 0#8 → slot * bitsPerMap ≤ bound

theorem getHighestIndex_lt_iff {bitmap : Bitmap} {index bound : Nat} (found : getHighestIndex bitmap = some index) :
    index < bound ↔ bitmap.Within bound := by
  obtain ⟨i, nonzero, above, shape⟩ := getHighestIndex_some found
  constructor
  · intro less
    refine ⟨fun other member => (le_getHighestIndex found member).trans_lt less, fun slot used => ?_⟩
    have low : slot ≤ i := by
      by_contra later
      exact used (above slot (Nat.lt_of_not_le later))
    rcases shape with ⟨j, -, rfl, -⟩ | ⟨before, -⟩ <;> unfold bitsPerMap at * <;> omega
  · intro within
    rcases shape with ⟨j, small, rfl, set, -⟩ | ⟨before, -⟩
    · apply within.members
      have slot : (i * bitsPerMap + j) / bitsPerMap = i := by unfold bitsPerMap at *; omega
      have bit : (i * bitsPerMap + j) % bitsPerMap = j := by unfold bitsPerMap at *; omega
      rw [← getBitStatus_iff, getBitStatus_eq, slot, bit]
      exact set
    · have bounded := within.bytes i nonzero
      omega

theorem Bitmap.within_zipWith {left right : Bitmap} {bound : Nat} :
    Bitmap.Within (Vector.zipWith (· ||| ·) left right) bound ↔ left.Within bound ∧ right.Within bound := by
  have used : ∀ slot, Bitmap.byte (Vector.zipWith (· ||| ·) left right) slot ≠ 0#8 ↔
      left.byte slot ≠ 0#8 ∨ right.byte slot ≠ 0#8 := by
    intro slot
    rw [byte_zipWith, Ne, BitVec.or_eq_zero_iff]
    tauto
  constructor
  · rintro ⟨members, bytes⟩
    rw [members_zipWith] at members
    exact ⟨⟨fun index member => members index (Finset.mem_union_left _ member),
        fun slot nonzero => bytes slot ((used slot).mpr (Or.inl nonzero))⟩,
      ⟨fun index member => members index (Finset.mem_union_right _ member),
        fun slot nonzero => bytes slot ((used slot).mpr (Or.inr nonzero))⟩⟩
  · rintro ⟨one, two⟩
    refine ⟨fun index member => ?_, fun slot nonzero => ?_⟩
    · rw [members_zipWith] at member
      rcases Finset.mem_union.mp member with inside | inside
      · exact one.members index inside
      · exact two.members index inside
    · rcases (used slot).mp nonzero with inside | inside
      · exact one.bytes slot inside
      · exact two.bytes slot inside

theorem Bitmap.within_setBit {bitmap : Bitmap} {index bound : Nat} (inside : index < capacity) (below : index < bound) :
    (bitmap.setBit index).Within bound ↔ bitmap.Within bound := by
  have byte : ∀ slot, slot ≠ index / bitsPerMap → (bitmap.setBit index).byte slot = bitmap.byte slot := by
    intro slot other
    rw [setBit, byte_modify bitmap inside, if_neg other]
  have own : index / bitsPerMap * bitsPerMap ≤ bound := (Nat.div_mul_le_self _ _).trans below.le
  constructor
  · rintro ⟨members, bytes⟩
    rw [members_setBit bitmap inside] at members
    refine ⟨fun other member => members other (Finset.mem_insert_of_mem member), fun slot nonzero => ?_⟩
    by_cases same : slot = index / bitsPerMap
    · rw [same]
      exact own
    · exact bytes slot (by rwa [byte slot same])
  · rintro ⟨members, bytes⟩
    refine ⟨fun other member => ?_, fun slot nonzero => ?_⟩
    · rw [members_setBit bitmap inside] at member
      rcases Finset.mem_insert.mp member with rfl | member
      · exact below
      · exact members other member
    · by_cases same : slot = index / bitsPerMap
      · rw [same]
        exact own
      · exact bytes slot (by rwa [← byte slot same])

/-- In a packed array a non-zero byte holds a member. -/
theorem Bitmap.Packed.within_iff {bitmap : Bitmap} (packed : bitmap.Packed) {bound : Nat} :
    bitmap.Within bound ↔ ∀ index ∈ bitmap.members, index < bound := by
  refine ⟨Within.members, fun members => ⟨members, fun slot nonzero => ?_⟩⟩
  by_contra behind
  refine nonzero (byte_eq_zero packed fun bit small => ?_)
  by_contra set
  have place : (slot * bitsPerMap + bit) / bitsPerMap = slot := by unfold bitsPerMap at *; omega
  have digit : (slot * bitsPerMap + bit) % bitsPerMap = bit := by unfold bitsPerMap at *; omega
  have member : slot * bitsPerMap + bit ∈ bitmap.members := by
    rw [← getBitStatus_iff, getBitStatus_eq, place, digit]
    simpa using set
  have below := members _ member
  omega

/-- On a packed array the search finds the largest member. -/
theorem getHighestIndex_eq_some {bitmap : Bitmap} (packed : bitmap.Packed) {index : Nat} :
    getHighestIndex bitmap = some index ↔
      index ∈ bitmap.members ∧ ∀ other ∈ bitmap.members, other ≤ index := by
  have maximal : ∀ {highest : Nat}, getHighestIndex bitmap = some highest → highest ∈ bitmap.members := by
    intro highest found
    by_contra missing
    -- All members are below the result, so the result itself would be.
    have within := packed.within_iff.mpr fun other member =>
      (le_getHighestIndex found member).lt_of_ne (fun same => missing (same ▸ member))
    exact absurd ((getHighestIndex_lt_iff found).mpr within) (Nat.lt_irrefl _)
  constructor
  · exact fun found => ⟨maximal found, fun _ => le_getHighestIndex found⟩
  · rintro ⟨member, above⟩
    cases found : getHighestIndex bitmap with
    | some highest => exact congrArg some (Nat.le_antisymm (above highest (maximal found)) (le_getHighestIndex found member))
    | none =>
      obtain ⟨bounded, status⟩ := Bitmap.mem_members.mp member
      unfold getHighestIndex at found
      split at found
      · rename_i byteMissing
        rw [getBitStatus_of_byte_zero (highestByte_none byteMissing (slot_lt bounded))] at status
        cases status
      · rename_i i byteFound
        obtain ⟨-, nonzero, -⟩ := highestByte_some byteFound
        split at found
        · cases found
        · rename_i bitMissing
          exact absurd (byte_eq_zero packed (fun _ inside => highestBit_none (by decide) bitMissing inside)) nonzero

end SkyeFS.Index
