import Mathlib.Data.List.Basic
import Mathlib.Algebra.Order.Group.Nat

/-! A machine that takes its input in blocks, behind a buffer.

Bytes come in pieces of any length. Whole blocks go to the machine, and what is left
waits in the buffer. Feeding two pieces is feeding their concatenation, so that only the
stream counts and not how it was cut; filling up the buffer and emptying it are two
special cases, which is all that a loop over the pieces has to know.
-/

set_option autoImplicit false

namespace Foundation.BlockBuffer

variable {State Byte : Type} (size : Nat) (step : State → List Byte → State)

/-- Take so many blocks off the front. -/
def absorb : Nat → State → List Byte → State
  | 0, state, _ => state
  | count + 1, state, bytes => absorb count (step state (bytes.take size)) (bytes.drop size)

/-- The machine and the buffer after more bytes. -/
def feed (current : State × List Byte) (bytes : List Byte) : State × List Byte :=
  let pending := current.2 ++ bytes
  let count := pending.length / size
  (absorb size step count current.1 pending, pending.drop (size * count))

variable {size step}

theorem absorb_append {first second : Nat} {state : State} {front back : List Byte}
    (whole : front.length = size * first) :
    absorb size step (first + second) state (front ++ back) =
      absorb size step second (absorb size step first state front) back := by
  induction first generalizing state front with
  | zero =>
    cases List.length_eq_zero_iff.mp whole
    rw [Nat.zero_add]
    rfl
  | succ first ih =>
    have long : size ≤ front.length := by
      rw [whole, Nat.mul_succ]
      omega
    have shorter : (front.drop size).length = size * first := by
      rw [List.length_drop, whole, Nat.mul_succ]
      omega
    rw [Nat.add_right_comm, absorb, absorb, List.take_append_of_le_length long, List.drop_append_of_le_length long,
      ih shorter]

/-- Bytes behind the last block are not looked at. -/
theorem absorb_take {count : Nat} {state : State} {bytes : List Byte} (enough : size * count ≤ bytes.length) :
    absorb size step count state bytes = absorb size step count state (bytes.take (size * count)) := by
  have split := @absorb_append State Byte size step count 0 state (bytes.take (size * count)) (bytes.drop (size * count))
    (by rw [List.length_take]; omega)
  rw [List.take_append_drop] at split
  exact split

theorem length_feed (current : State × List Byte) (bytes : List Byte) :
    (feed size step current bytes).2.length = (current.2.length + bytes.length) % size := by
  have whole := Nat.div_add_mod (current.2 ++ bytes).length size
  simp only [feed, List.length_drop]
  rw [← List.length_append]
  omega

section
variable (positive : 0 < size) {current : State × List Byte} {bytes : List Byte}
include positive

/-- What was fed in two pieces might as well have come in one. -/
theorem feed_append (more : List Byte) :
    feed size step (feed size step current bytes) more = feed size step current (bytes ++ more) := by
  let pending := current.2 ++ bytes
  let count := pending.length / size
  let front := pending.take (size * count)
  let left := pending.drop (size * count)
  have bounded : size * count ≤ pending.length := Nat.mul_div_le _ _
  have whole : front.length = size * count := by
    rw [List.length_take]
    omega
  have joined : current.2 ++ (bytes ++ more) = front ++ (left ++ more) := by
    rw [← List.append_assoc, ← List.append_assoc, List.take_append_drop]
  have total : (front ++ (left ++ more)).length / size = count + (left ++ more).length / size := by
    rw [List.length_append, whole, Nat.mul_add_div positive]
  have first : feed size step current bytes = (absorb size step count current.1 front, left) := by
    rw [feed]
    exact Prod.ext (absorb_take bounded) rfl
  rw [first]
  simp only [feed]
  rw [joined, total]
  refine Prod.ext (absorb_append whole).symm ?_
  rw [Nat.mul_add, ← List.drop_drop, ← whole, List.drop_left]

omit positive in
theorem feed_room (room : current.2.length + bytes.length < size) :
    feed size step current bytes = (current.1, current.2 ++ bytes) := by
  have none_ : (current.2 ++ bytes).length / size = 0 := by
    rw [List.length_append]
    exact Nat.div_eq_of_lt room
  simp only [feed, none_, Nat.mul_zero, List.drop_zero]
  rfl

theorem feed_full (full : current.2.length + bytes.length = size) :
    feed size step current bytes = (step current.1 (current.2 ++ bytes), []) := by
  have length : (current.2 ++ bytes).length = size := by rw [List.length_append, full]
  have one : (current.2 ++ bytes).length / size = 1 := by rw [length, Nat.div_self positive]
  simp only [feed, one, Nat.mul_one, absorb]
  rw [List.take_of_length_le length.le, List.drop_eq_nil_of_le length.le]

omit positive in
theorem feed_nil (short : current.2.length < size) : feed size step current [] = current := by
  rw [feed_room (by simpa using short), List.append_nil]

end

end Foundation.BlockBuffer
