import Mathlib.Algebra.Group.Nat.Defs

/-! Records in a stream of bytes.

A format writes a record such that a reader recognises it whatever follows, and
recognises nothing in a part of it. From the first bytes of a stream of records, the
reader then gets exactly the records that are whole.
-/

set_option autoImplicit false

namespace Foundation

/-! ### Numbers -/

def littleEndian : Nat → Nat → List UInt8
  | 0, _ => []
  | width + 1, value => UInt8.ofNat value :: littleEndian width (value / 256)

def ofLittleEndian : List UInt8 → Nat
  | [] => 0
  | byte :: rest => byte.toNat + 256 * ofLittleEndian rest

@[simp] theorem length_littleEndian (width value : Nat) : (littleEndian width value).length = width := by
  induction width generalizing value with
  | zero => rfl
  | succ width ih => rw [littleEndian, List.length_cons, ih]

theorem ofLittleEndian_littleEndian {width value : Nat} (fits : value < 256 ^ width) :
    ofLittleEndian (littleEndian width value) = value := by
  induction width generalizing value with
  | zero =>
    rw [Nat.pow_zero, Nat.lt_one_iff] at fits
    rw [fits]
    rfl
  | succ width ih =>
    have rest : value / 256 < 256 ^ width := Nat.div_lt_of_lt_mul (Nat.pow_succ' ▸ fits)
    rw [littleEndian, ofLittleEndian, ih rest, UInt8.toNat_ofNat']
    exact Nat.mod_add_div value 256

/-! ### Formats -/

structure RecordFormat (Record Byte : Type) where
  -- The record has a representation.
  Fits : Record → Prop
  write : Record → List Byte
  -- The record at the beginning, and what follows it.
  read : List Byte → Option (Record × List Byte)
  write_ne_nil : ∀ record, write record ≠ []
  read_nil : read [] = none
  read_write : ∀ {record}, Fits record → ∀ rest, read (write record ++ rest) = some (record, rest)
  read_cut : ∀ {record}, Fits record → ∀ {count}, count < (write record).length → read ((write record).take count) = none

namespace RecordFormat
variable {Record Byte : Type} (format : RecordFormat Record Byte)

/-- Read records until nothing is recognised. Each has a byte at least, so that there is one step for every byte. -/
def readFrom : Nat → List Byte → List Record
  | 0, _ => []
  | fuel + 1, bytes =>
      match format.read bytes with
      | some (record, rest) => record :: readFrom fuel rest
      | none => []

def readAll (bytes : List Byte) : List Record := format.readFrom bytes.length bytes

/-- The records that are whole in the first bytes. -/
def whole : Nat → List Record → List Record
  | _, [] => []
  | count, record :: rest =>
      if (format.write record).length ≤ count then record :: whole (count - (format.write record).length) rest else []

variable {format}

theorem whole_eq_take (format : RecordFormat Record Byte) (count : Nat) (records : List Record) :
    ∃ taken, format.whole count records = records.take taken := by
  induction records generalizing count with
  | nil => exact ⟨0, rfl⟩
  | cons record rest ih =>
    rw [whole]
    split
    · obtain ⟨taken, same⟩ := ih (count - (format.write record).length)
      exact ⟨taken + 1, congrArg (record :: ·) same⟩
    · exact ⟨0, rfl⟩

theorem whole_ne_nil {count : Nat} {record : Record} {rest : List Record}
    (enough : (format.write record).length ≤ count) : format.whole count (record :: rest) ≠ [] := by
  rw [whole, if_pos enough]
  exact List.cons_ne_nil _ _

theorem readFrom_of_none {bytes : List Byte} (unread : format.read bytes = none) (fuel : Nat) :
    format.readFrom fuel bytes = [] := by
  cases fuel with
  | zero => rfl
  | succ fuel => rw [readFrom, unread]

theorem readFrom_take {records : List Record} (fits : ∀ record ∈ records, format.Fits record) {count fuel : Nat}
    (fuelled : ((records.flatMap format.write).take count).length ≤ fuel) :
    format.readFrom fuel ((records.flatMap format.write).take count) = format.whole count records := by
  induction records generalizing count fuel with
  | nil => rw [List.flatMap_nil, List.take_nil, readFrom_of_none format.read_nil, whole]
  | cons record rest ih =>
    have fitting := fits record List.mem_cons_self
    have others : ∀ other ∈ rest, format.Fits other := fun other member => fits other (List.mem_cons_of_mem _ member)
    rw [List.flatMap_cons, List.take_append] at fuelled ⊢
    rw [whole]
    by_cases enough : (format.write record).length ≤ count
    · rw [List.take_of_length_le enough] at fuelled ⊢
      have nonempty := List.length_pos_iff.mpr (format.write_ne_nil record)
      rw [List.length_append] at fuelled
      obtain ⟨fuel, rfl⟩ := Nat.exists_eq_add_of_lt (show 0 < fuel by omega)
      rw [if_pos enough, Nat.zero_add, readFrom, format.read_write fitting]
      exact congrArg (record :: ·) (ih others (by omega))
    · rw [if_neg enough, Nat.sub_eq_zero_of_le (by omega), List.take_zero, List.append_nil]
      exact readFrom_of_none (format.read_cut fitting (by omega)) _

/-- Exactly the whole records are read. -/
theorem readAll_take {records : List Record} (fits : ∀ record ∈ records, format.Fits record) (count : Nat) :
    format.readAll ((records.flatMap format.write).take count) = format.whole count records :=
  readFrom_take fits (Nat.le_refl _)

end RecordFormat

end Foundation
