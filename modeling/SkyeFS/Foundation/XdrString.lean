import SkyeFS.Foundation.Xdr
import Mathlib.Data.List.TakeWhile

/-! Strings in the external data representation, and whole words.

A string is sent as its length, its characters and as many zeros as fill up a word. Who
receives it allocates the characters and one more for the terminating zero, and reads it
from then on up to the first zero, whatever length was sent. Everything that is decoded
takes a whole number of words from the stream.
-/

set_option autoImplicit false

namespace Foundation

/-- A string of C with at most so many characters. -/
structure CString (limit : Nat) where
  characters : List UInt8
  short : characters.length ≤ limit
  text : 0 ∉ characters
deriving DecidableEq

/-- What is read from a buffer that a zero follows. -/
def CString.read {limit : Nat} (buffer : List UInt8) (short : buffer.length ≤ limit) : CString limit where
  characters := buffer.takeWhile (· ≠ 0)
  short := Nat.le_trans (List.takeWhile_prefix _).length_le short
  text zero := by
    have nonzero := List.mem_takeWhile_imp zero
    exact absurd nonzero (by decide)

theorem CString.read_characters {limit : Nat} (string : CString limit) (short : string.characters.length ≤ limit) :
    CString.read string.characters short = string := by
  have whole : string.characters.takeWhile (· ≠ 0) = string.characters := by
    rw [List.takeWhile_eq_self_iff]
    intro character member
    have nonzero : character ≠ 0 := fun zero => string.text (zero ▸ member)
    exact decide_eq_true nonzero
  cases string
  simp only [CString.read, whole]

instance (limit : Nat) : Inhabited (CString limit) := ⟨⟨[], Nat.zero_le _, List.not_mem_nil⟩⟩

/-- What is missing to a whole number of words. -/
def xdrPadding (size : Nat) : Nat := (4 - size % 4) % 4

def xdrString (limit : Nat) : XdrFilter (CString limit) where
  encode string := xdrUInt32.encode (UInt32.ofNat string.characters.length) ++
    (string.characters ++ List.replicate (xdrPadding string.characters.length) 0)
  decode bytes _ :=
    (xdrUInt32.decode bytes 0).bind fun (size, bytes) =>
      if short : size.toNat ≤ limit then
        if size.toNat + xdrPadding size.toNat ≤ bytes.length then
          some (.read (bytes.take size.toNat) (Nat.le_trans (List.length_take_le _ _) short),
            bytes.drop (size.toNat + xdrPadding size.toNat))
        else none
      else none

theorem xdrString_roundTrips {limit : Nat} (fits : limit < UInt32.size) : (xdrString limit).RoundTrips := by
  intro string rest old
  generalize length : string.characters.length = size
  have size_ : (UInt32.ofNat size).toNat = size :=
    UInt32.toNat_ofNat_of_lt' (Nat.lt_of_le_of_lt (length ▸ string.short) fits)
  have enough : size + xdrPadding size ≤ ((string.characters ++ List.replicate (xdrPadding size) 0) ++ rest).length := by
    simp only [List.length_append, List.length_replicate, length]
    exact Nat.le_add_right _ _
  have taken : ((string.characters ++ List.replicate (xdrPadding size) 0) ++ rest).take size = string.characters := by
    rw [List.append_assoc, List.take_left' length]
  have left : ((string.characters ++ List.replicate (xdrPadding size) 0) ++ rest).drop (size + xdrPadding size) = rest := by
    apply List.drop_left'
    rw [List.length_append, List.length_replicate, length]
  have decoded := xdrUInt32_roundTrips (UInt32.ofNat size)
    ((string.characters ++ List.replicate (xdrPadding size) 0) ++ rest) 0
  simp only [xdrString, length]
  rw [List.append_assoc, decoded, Option.bind_some]
  simp only [size_]
  rw [dif_pos (length ▸ string.short), if_pos enough, left]
  simp only [taken, CString.read_characters]

namespace XdrFilter

variable {Object Value : Type}

/-- What is decoded takes whole words from the front of the stream. -/
def Aligned (filter : XdrFilter Object) : Prop :=
  ∀ bytes old value rest, filter.decode bytes old = some (value, rest) → ∃ used, bytes = used ++ rest ∧ 4 ∣ used.length

theorem field_aligned {filter : XdrFilter Value} (aligned : filter.Aligned) (get : Object → Value)
    (set : Object → Value → Object) : (filter.field get set).Aligned := by
  intro bytes old value rest decoded
  obtain ⟨⟨part, left⟩, taken, same⟩ := Option.map_eq_some_iff.mp decoded
  cases same
  exact aligned bytes (get old) part rest taken

theorem sequence_nil_aligned : (sequence ([] : List (XdrFilter Object))).Aligned := by
  intro bytes old value rest decoded
  cases decoded
  exact ⟨[], rfl, Nat.dvd_zero 4⟩

theorem sequence_cons_aligned {first : XdrFilter Object} {others : List (XdrFilter Object)} (one : first.Aligned)
    (all : (sequence others).Aligned) : (sequence (first :: others)).Aligned := by
  intro bytes old value rest decoded
  obtain ⟨⟨object, left⟩, taken, remaining⟩ := Option.bind_eq_some_iff.mp decoded
  obtain ⟨front, rfl, words⟩ := one bytes old object left taken
  obtain ⟨back, rfl, others⟩ := all left object value rest remaining
  refine ⟨front ++ back, (List.append_assoc _ _ _).symm, ?_⟩
  rw [List.length_append]
  exact Nat.dvd_add words others

theorem unsigned_aligned {width : Nat} (words : 4 ∣ width) (toNat : Value → Nat) (ofNat : Nat → Value) :
    (unsigned width toNat ofNat).Aligned := by
  intro bytes old value rest decoded
  obtain ⟨enough, same⟩ := Option.ite_none_right_eq_some.mp decoded
  cases same
  refine ⟨bytes.take width, (List.take_append_drop width bytes).symm, ?_⟩
  rw [List.length_take, Nat.min_eq_left enough]
  exact words

/-- Decoding copies this much, and takes whole words. -/
structure Transfers (filter : XdrFilter Object) (copy : Object → Object → Object) : Prop where
  copies : filter.Copies copy
  aligned : filter.Aligned

theorem field_transfers {filter : XdrFilter Value} (transfers : filter.Transfers fun value _ => value)
    (get : Object → Value) (set : Object → Value → Object) :
    (filter.field get set).Transfers fun value old => set old (get value) :=
  ⟨field_copies transfers.copies get set, field_aligned transfers.aligned get set⟩

theorem sequence_nil_transfers : (sequence ([] : List (XdrFilter Object))).Transfers fun _ old => old :=
  ⟨sequence_nil_copies, sequence_nil_aligned⟩

theorem sequence_cons_transfers {first : XdrFilter Object} {others : List (XdrFilter Object)}
    {copy copies : Object → Object → Object} (one : first.Transfers copy) (all : (sequence others).Transfers copies) :
    (sequence (first :: others)).Transfers fun value old => copies value (copy value old) :=
  ⟨sequence_cons_copies one.copies all.copies, sequence_cons_aligned one.aligned all.aligned⟩

theorem Transfers.whole {filter : XdrFilter Object} {copy : Object → Object → Object} (transfers : filter.Transfers copy)
    (all : ∀ value old, copy value old = value) : filter.Transfers fun value _ => value :=
  ⟨transfers.copies.roundTrips all, transfers.aligned⟩

end XdrFilter

theorem xdrUInt32_transfers : xdrUInt32.Transfers fun value _ => value :=
  ⟨xdrUInt32_roundTrips, XdrFilter.unsigned_aligned (Nat.dvd_refl 4) _ _⟩

theorem xdrUInt64_transfers : xdrUInt64.Transfers fun value _ => value :=
  ⟨xdrUInt64_roundTrips, XdrFilter.unsigned_aligned ⟨2, rfl⟩ _ _⟩

theorem xdrInt_transfers : xdrInt.Transfers fun value _ => value :=
  (XdrFilter.field_transfers xdrUInt32_transfers _ _).whole fun value _ => Int32.toInt32_toUInt32 value

theorem xdrString_aligned (limit : Nat) : (xdrString limit).Aligned := by
  intro bytes old string rest decoded
  obtain ⟨⟨size, left⟩, taken, remaining⟩ := Option.bind_eq_some_iff.mp decoded
  obtain ⟨front, rfl, words⟩ := xdrUInt32_transfers.aligned bytes 0 size left taken
  dsimp only at remaining
  split at remaining
  case isFalse => cases remaining
  case isTrue =>
    obtain ⟨enough, same⟩ := Option.ite_none_right_eq_some.mp remaining
    cases same
    refine ⟨front ++ left.take (size.toNat + xdrPadding size.toNat), ?_, ?_⟩
    · rw [List.append_assoc, List.take_append_drop]
    · rw [List.length_append, List.length_take, Nat.min_eq_left enough]
      apply Nat.dvd_add words
      unfold xdrPadding
      omega

end Foundation
