import Mathlib.Data.List.TakeWhile

/-! Strings of C inside a buffer.

A pointer into a buffer is a position, and the string there ends before the next zero.
Writing a zero into the buffer cuts the string that runs over it. `strsep` cuts at the
next delimiter and moves its cursor behind it.
-/

set_option autoImplicit false

namespace Foundation.CText

def nul : Char := '\x00'

/-- The string at a position. -/
def read (buffer : List Char) (position : Nat) : List Char := (buffer.drop position).takeWhile (· ≠ nul)

/-- What is in front of the last occurrence of a character, and what is behind it. -/
def splitLast (wanted : Char) (text : List Char) : List Char × List Char :=
  ((text.reverse.dropWhile (· ≠ wanted)).tail.reverse, (text.reverse.takeWhile (· ≠ wanted)).reverse)

/-- The first occurrence of a character in the string at a position. -/
def index (buffer : List Char) (position : Nat) (wanted : Char) : Option Nat :=
  if wanted ∈ read buffer position then
    some (position + ((read buffer position).takeWhile (· ≠ wanted)).length)
  else none

def rindex (buffer : List Char) (position : Nat) (wanted : Char) : Option Nat :=
  if wanted ∈ read buffer position then some (position + (splitLast wanted (read buffer position)).1.length) else none

/-- The token, the new cursor and the new buffer. -/
def strsep (delimiter : Char) (buffer : List Char) : Option Nat → Option Nat × Option Nat × List Char
  | none => (none, none, buffer)
  | some position =>
      match index buffer position delimiter with
      | none => (some position, none, buffer)
      | some found => (some position, some (found + 1), buffer.set found nul)

variable {before after front back text : List Char} {wanted : Char}

theorem takeWhile_ne_append (absent : wanted ∉ front) :
    (front ++ wanted :: back).takeWhile (· ≠ wanted) = front := by
  rw [List.takeWhile_append_of_pos fun character member => ?_]
  · simp
  · exact decide_eq_true fun same => absent (same ▸ member)

theorem read_append (noNul : nul ∉ text) : read (before ++ (text ++ nul :: after)) before.length = text := by
  rw [read, List.drop_left' rfl, takeWhile_ne_append noNul]

theorem read_zero (noNul : nul ∉ text) : read (text ++ nul :: after) 0 = text := by
  rw [read, List.drop_zero, takeWhile_ne_append noNul]

theorem splitLast_append (absent : wanted ∉ back) : splitLast wanted (front ++ wanted :: back) = (front, back) := by
  have reversed : (front ++ wanted :: back).reverse = back.reverse ++ wanted :: front.reverse := by simp
  have missing : wanted ∉ back.reverse := fun member => absent (List.mem_reverse.mp member)
  rw [splitLast, reversed, takeWhile_ne_append missing, List.dropWhile_append_of_pos fun character member => ?_]
  · simp
  · exact decide_eq_true fun same => missing (same ▸ member)

theorem exists_last {α : Type} {wanted : α} {text : List α} (member : wanted ∈ text) :
    ∃ front back, text = front ++ wanted :: back ∧ wanted ∉ back := by
  obtain ⟨back, front, same, absent⟩ := List.eq_append_cons_of_mem (List.mem_reverse.mpr member)
  refine ⟨front.reverse, back.reverse, ?_, fun again => absent (List.mem_reverse.mp again)⟩
  rw [← List.reverse_reverse text, same]
  simp

theorem index_append (noNul : nul ∉ front ++ wanted :: back) (absent : wanted ∉ front) :
    index (before ++ ((front ++ wanted :: back) ++ nul :: after)) before.length wanted =
      some (before.length + front.length) := by
  rw [index, read_append noNul, if_pos (by simp), takeWhile_ne_append absent]

theorem index_none (noNul : nul ∉ text) (absent : wanted ∉ text) :
    index (before ++ (text ++ nul :: after)) before.length wanted = none := by
  rw [index, read_append noNul, if_neg absent]

theorem rindex_append (noNul : nul ∉ front ++ wanted :: back) (absent : wanted ∉ back) :
    rindex (before ++ ((front ++ wanted :: back) ++ nul :: after)) before.length wanted =
      some (before.length + front.length) := by
  rw [rindex, read_append noNul, if_pos (by simp), splitLast_append absent]

theorem rindex_zero (noNul : nul ∉ front ++ wanted :: back) (absent : wanted ∉ back) :
    rindex ((front ++ wanted :: back) ++ nul :: after) 0 wanted = some front.length := by
  rw [rindex, read_zero noNul, if_pos (by simp), splitLast_append absent, Nat.zero_add]

theorem set_append (written : Char) :
    (before ++ (front ++ wanted :: back)).set (before.length + front.length) written =
      before ++ (front ++ written :: back) := by
  rw [List.set_append_right _ _ (Nat.le_add_right _ _), Nat.add_sub_cancel_left,
    List.set_append_right _ _ (Nat.le_refl _), Nat.sub_self, List.set_cons_zero]

end Foundation.CText
