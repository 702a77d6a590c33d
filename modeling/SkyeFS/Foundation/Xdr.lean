import SkyeFS.Foundation.Records

/-! External data representation.

One filter serves both directions. It appends the encoding of an object to a stream, or
takes an encoding from the front of a stream and writes what it finds into an object
that is already there. A filter that forgets a field therefore leaves the old value in
it: what decoding copies is a function of the encoded and of the old object.
-/

set_option autoImplicit false

namespace Foundation

structure XdrFilter (Object : Type) where
  encode : Object → List UInt8
  -- `none` for a stream that is too short.
  decode : List UInt8 → Object → Option (Object × List UInt8)

namespace XdrFilter

variable {Object Value : Type}

/-- Decoding an encoded value over an old object copies this much of it, and takes exactly the encoding. -/
def Copies (filter : XdrFilter Object) (copy : Object → Object → Object) : Prop :=
  ∀ value rest old, filter.decode (filter.encode value ++ rest) old = some (copy value old, rest)

def RoundTrips (filter : XdrFilter Object) : Prop := filter.Copies fun value _ => value

def field (get : Object → Value) (set : Object → Value → Object) (filter : XdrFilter Value) :
    XdrFilter Object where
  encode object := filter.encode (get object)
  decode bytes object := (filter.decode bytes (get object)).map fun (value, rest) => (set object value, rest)

/-- One filter after the other, up to the first that fails. -/
def sequence : List (XdrFilter Object) → XdrFilter Object
  | [] => { encode := fun _ => [], decode := fun bytes object => some (object, bytes) }
  | first :: others => {
      encode := fun object => first.encode object ++ (sequence others).encode object
      decode := fun bytes object => do
        let (object, bytes) ← first.decode bytes object
        (sequence others).decode bytes object }

/-- A discriminant, and then the arm that it selects. -/
def switch {Tag : Type} (tag : XdrFilter Tag) (get : Object → Tag) (set : Object → Tag → Object)
    (arm : Tag → XdrFilter Object) : XdrFilter Object where
  encode object := tag.encode (get object) ++ (arm (get object)).encode object
  decode bytes object := do
    let (selected, bytes) ← tag.decode bytes (get object)
    (arm selected).decode bytes (set object selected)

theorem field_copies {filter : XdrFilter Value} (roundTrips : filter.RoundTrips) (get : Object → Value)
    (set : Object → Value → Object) : (filter.field get set).Copies fun value old => set old (get value) := by
  intro value rest old
  simp only [field, roundTrips (get value) rest (get old), Option.map_some]

theorem Copies.roundTrips {filter : XdrFilter Object} {copy : Object → Object → Object} (copies : filter.Copies copy)
    (whole : ∀ value old, copy value old = value) : filter.RoundTrips := by
  intro value rest old
  rw [copies value rest old, whole value old]

theorem sequence_nil_copies : (sequence ([] : List (XdrFilter Object))).Copies fun _ old => old :=
  fun _ _ _ => rfl

theorem sequence_cons_copies {first : XdrFilter Object} {others : List (XdrFilter Object)}
    {copy copies : Object → Object → Object} (one : first.Copies copy) (all : (sequence others).Copies copies) :
    (sequence (first :: others)).Copies fun value old => copies value (copy value old) := by
  intro value rest old
  simp only [sequence, List.append_assoc, one value _ old, Option.bind_eq_bind, Option.bind_some]
  exact all value rest (copy value old)

theorem switch_copies {Tag : Type} {tag : XdrFilter Tag} (roundTrips : tag.RoundTrips) (get : Object → Tag)
    (set : Object → Tag → Object) {arm : Tag → XdrFilter Object} {copy : Tag → Object → Object → Object}
    (arms : ∀ selected, (arm selected).Copies (copy selected)) :
    (tag.switch get set arm).Copies fun value old => copy (get value) value (set old (get value)) := by
  intro value rest old
  simp only [switch, List.append_assoc, roundTrips (get value) _ (get old), Option.bind_eq_bind, Option.bind_some]
  exact arms (get value) value rest (set old (get value))

/-! ### Arrays -/

section
variable {count : Nat}

def element (filter : XdrFilter Value) (i : Fin count) : XdrFilter (Vector Value count) :=
  filter.field (fun array => array[i]) fun array value => array.set i value

def vector (filter : XdrFilter Value) (count : Nat) : XdrFilter (Vector Value count) :=
  sequence ((List.finRange count).map filter.element)

/-- The elements at the positions that were visited, over an old array. -/
def copyElements (positions : List (Fin count)) (value old : Vector Value count) : Vector Value count :=
  positions.foldl (fun array (i : Fin count) => array.set i value[i]) old

theorem elements_copies {filter : XdrFilter Value} (roundTrips : filter.RoundTrips) (positions : List (Fin count)) :
    (sequence (positions.map filter.element)).Copies (copyElements positions) := by
  induction positions with
  | nil => exact sequence_nil_copies
  | cons i others ih =>
    have one : (filter.element i).Copies fun value old => old.set i value[i] := field_copies roundTrips _ _
    have both := sequence_cons_copies one ih
    exact both

theorem getElem_copyElements_of_not_mem {positions : List (Fin count)} {i : Fin count} (absent : i ∉ positions)
    (value old : Vector Value count) : (copyElements positions value old)[i] = old[i] := by
  induction positions generalizing old with
  | nil => rfl
  | cons first others ih =>
    obtain ⟨other, later⟩ := List.ne_and_not_mem_of_not_mem_cons absent
    refine (ih later (old.set first value[first])).trans ?_
    exact Vector.getElem_set_ne _ _ fun equal => other (Fin.ext equal.symm)

theorem getElem_copyElements {positions : List (Fin count)} {i : Fin count} (visited : i ∈ positions)
    (value old : Vector Value count) : (copyElements positions value old)[i] = value[i] := by
  induction positions generalizing old with
  | nil => cases visited
  | cons first others ih =>
    by_cases later : i ∈ others
    · exact ih later (old.set first value[first])
    · -- The first visit was the only one.
      have same : i = first := (List.mem_cons.mp visited).resolve_right later
      subst same
      refine (getElem_copyElements_of_not_mem later value (old.set i value[i])).trans ?_
      exact Vector.getElem_set_self _

theorem vector_roundTrips {filter : XdrFilter Value} (roundTrips : filter.RoundTrips) :
    (filter.vector count).RoundTrips := by
  apply (elements_copies roundTrips (List.finRange count)).roundTrips
  intro value old
  apply Vector.ext
  intro i inside
  exact getElem_copyElements (List.mem_finRange ⟨i, inside⟩) value old

end

/-! ### Numbers -/

/-- A number of a fixed width, its highest byte first. -/
def unsigned (width : Nat) (toNat : Value → Nat) (ofNat : Nat → Value) : XdrFilter Value where
  encode value := (littleEndian width (toNat value)).reverse
  decode bytes _ :=
    if width ≤ bytes.length then
      some (ofNat (ofLittleEndian (bytes.take width).reverse), bytes.drop width)
    else none

theorem unsigned_roundTrips {width : Nat} {toNat : Value → Nat} {ofNat : Nat → Value}
    (fits : ∀ value, toNat value < 256 ^ width) (same : ∀ value, ofNat (toNat value) = value) :
    (unsigned width toNat ofNat).RoundTrips := by
  intro value rest old
  have length : (littleEndian width (toNat value)).reverse.length = width := by
    rw [List.length_reverse, length_littleEndian]
  have enough : width ≤ ((littleEndian width (toNat value)).reverse ++ rest).length := by
    rw [List.length_append, length]
    exact Nat.le_add_right _ _
  simp only [unsigned, if_pos enough]
  rw [List.take_left' length, List.drop_left' length, List.reverse_reverse,
    ofLittleEndian_littleEndian (fits value), same]

end XdrFilter

/-! ### The primitives -/

def xdrUInt32 : XdrFilter UInt32 := .unsigned 4 UInt32.toNat UInt32.ofNat

def xdrUInt64 : XdrFilter UInt64 := .unsigned 8 UInt64.toNat UInt64.ofNat

def xdrInt : XdrFilter Int32 := xdrUInt32.field Int32.toUInt32 fun _ => UInt32.toInt32

/-- A `signed char` is widened to an `int` and cut to its low byte again. -/
def xdrChar : XdrFilter Int8 := xdrInt.field Int8.toInt32 fun _ => Int32.toInt8

theorem xdrUInt32_roundTrips : xdrUInt32.RoundTrips :=
  XdrFilter.unsigned_roundTrips UInt32.toNat_lt fun _ => UInt32.ofNat_toNat

theorem xdrUInt64_roundTrips : xdrUInt64.RoundTrips :=
  XdrFilter.unsigned_roundTrips UInt64.toNat_lt fun _ => UInt64.ofNat_toNat

theorem xdrInt_roundTrips : xdrInt.RoundTrips :=
  (XdrFilter.field_copies xdrUInt32_roundTrips _ _).roundTrips fun value _ => Int32.toInt32_toUInt32 value

theorem xdrChar_roundTrips : xdrChar.RoundTrips :=
  (XdrFilter.field_copies xdrInt_roundTrips _ _).roundTrips fun value _ => Int8.toInt8_toInt32 value

end Foundation
